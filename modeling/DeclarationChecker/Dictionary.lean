set_option autoImplicit false

namespace DeclarationChecker

/-- Values under distinct names, in the order in which the names first came in. -/
structure Dictionary (κ α : Type) where
  entries : List (κ × α)
  distinct : (entries.map Prod.fst).Nodup
  deriving DecidableEq, Repr

namespace Dictionary

variable {κ α β : Type}

def empty : Dictionary κ α := ⟨[], List.nodup_nil⟩

instance : Inhabited (Dictionary κ α) := ⟨empty⟩

def keys (d : Dictionary κ α) : List κ := d.entries.map Prod.fst

def size (d : Dictionary κ α) : Nat := d.entries.length

variable [DecidableEq κ]

def get? (d : Dictionary κ α) (name : κ) : Option α := d.entries.lookup name

def contains (d : Dictionary κ α) (name : κ) : Bool := (d.get? name).isSome

def insertEntry (name : κ) (value : α) : List (κ × α) → List (κ × α)
  | [] => [(name, value)]
  | (key, old) :: rest =>
    if key = name then (name, value) :: rest else (key, old) :: insertEntry name value rest

theorem map_fst_insertEntry (name : κ) (value : α) (entries : List (κ × α)) :
    (insertEntry name value entries).map Prod.fst =
      if name ∈ entries.map Prod.fst then entries.map Prod.fst
      else entries.map Prod.fst ++ [name] := by
  induction entries with
  | nil => simp [insertEntry]
  | cons entry rest ih =>
    obtain ⟨key, old⟩ := entry
    by_cases h : key = name
    · simp [insertEntry, h]
    · have h' : ¬name = key := fun e => h e.symm
      simp only [insertEntry, h, if_false, List.map_cons, ih, List.mem_cons, h', false_or]
      split <;> simp

theorem lookup_cons_eq_ite (key other : κ) (value : α) (entries : List (κ × α)) :
    ((key, value) :: entries).lookup other =
      if other = key then some value else entries.lookup other := by
  by_cases h : other = key
  · simp [h]
  · have h' : (other == key) = false := by simpa using h
    simp [List.lookup_cons, h, h']

theorem lookup_insertEntry (name other : κ) (value : α) (entries : List (κ × α)) :
    (insertEntry name value entries).lookup other =
      if other = name then some value else entries.lookup other := by
  induction entries with
  | nil => simp [insertEntry, lookup_cons_eq_ite]
  | cons entry rest ih =>
    obtain ⟨key, old⟩ := entry
    by_cases h : key = name
    · by_cases h' : other = name <;> simp [insertEntry, lookup_cons_eq_ite, h, h']
    · by_cases h' : other = key
      · subst h'
        simp [insertEntry, h]
      · simp [insertEntry, lookup_cons_eq_ite, h, h', ih]

def insert (d : Dictionary κ α) (name : κ) (value : α) : Dictionary κ α where
  entries := insertEntry name value d.entries
  distinct := by
    rw [map_fst_insertEntry]
    split
    · exact d.distinct
    · rename_i h
      exact List.nodup_append.2 ⟨d.distinct, by simp, by
        intro a ha b hb e
        simp only [List.mem_singleton] at hb
        exact h (hb ▸ e ▸ ha)⟩

/-- Replacing a value moves nothing; a new name goes last. -/
theorem keys_insert (d : Dictionary κ α) (name : κ) (value : α) :
    (d.insert name value).keys = if name ∈ d.keys then d.keys else d.keys ++ [name] :=
  map_fst_insertEntry name value d.entries

theorem get?_insert (d : Dictionary κ α) (name other : κ) (value : α) :
    (d.insert name value).get? other = if other = name then some value else d.get? other :=
  lookup_insertEntry name other value d.entries

theorem get?_eq_some_iff (d : Dictionary κ α) (name : κ) (value : α) :
    d.get? name = some value ↔ (name, value) ∈ d.entries := by
  obtain ⟨entries, distinct⟩ := d
  change entries.lookup name = some value ↔ (name, value) ∈ entries
  induction entries with
  | nil => simp
  | cons entry rest ih =>
    obtain ⟨key, old⟩ := entry
    obtain ⟨apart, distinct⟩ := List.nodup_cons.1 distinct
    rw [lookup_cons_eq_ite, List.mem_cons, Prod.mk.injEq]
    split
    · rename_i e
      subst e
      have other : (name, value) ∉ rest := fun mem => apart (List.mem_map.2 ⟨_, mem, rfl⟩)
      simp [other, eq_comm]
    · rename_i e
      simp [e, ih distinct]

theorem mem_keys_iff {d : Dictionary κ α} {name : κ} :
    name ∈ d.keys ↔ ∃ value, d.get? name = some value := by
  simp [keys, get?_eq_some_iff]

/-- Of several values under one name the last one counts. -/
def ofList (entries : List (κ × α)) : Dictionary κ α :=
  entries.foldl (fun d entry => d.insert entry.1 entry.2) empty

theorem get?_foldl_insert (f : κ → Option α) (names : List κ) (d : Dictionary κ α)
    (name : κ) :
    ((names.filterMap fun key => (f key).map (key, ·)).foldl
      (fun d entry => d.insert entry.1 entry.2) d).get? name =
        if name ∈ names then (f name).or (d.get? name) else d.get? name := by
  induction names generalizing d with
  | nil => rfl
  | cons key rest ih =>
    cases value : f key with
    | none =>
      by_cases h : name = key
      · subst h
        simp [ih, value]
      · simp [ih, value, h]
    | some value' =>
      by_cases h : name = key
      · subst h
        simp [ih, value, get?_insert]
      · simp [ih, value, get?_insert, h]

theorem get?_ofList_filterMap (f : κ → Option α) (names : List κ) (name : κ) :
    (ofList (names.filterMap fun key => (f key).map (key, ·))).get? name =
      if name ∈ names then f name else none := by
  rw [ofList, get?_foldl_insert, show (empty : Dictionary κ α).get? name = none from rfl,
    Option.or_none]

theorem insertEntry_of_not_mem {name : κ} (value : α) {entries : List (κ × α)}
    (h : name ∉ entries.map Prod.fst) : insertEntry name value entries = entries ++ [(name, value)] := by
  induction entries with
  | nil => rfl
  | cons entry rest ih =>
    obtain ⟨key, old⟩ := entry
    have other : key ≠ name := fun e => h (e ▸ List.mem_cons_self)
    rw [insertEntry, if_neg other, ih fun mem => h (List.mem_cons_of_mem _ mem), List.cons_append]

theorem entries_foldl_insert (d : Dictionary κ α) (entries : List (κ × α))
    (distinct : (d.keys ++ entries.map Prod.fst).Nodup) :
    (entries.foldl (fun d entry => d.insert entry.1 entry.2) d).entries = d.entries ++ entries := by
  induction entries generalizing d with
  | nil => exact (List.append_nil _).symm
  | cons entry rest ih =>
    have new : entry.1 ∉ d.keys := fun mem =>
      (List.nodup_append.1 distinct).2.2 _ mem _ List.mem_cons_self rfl
    have added : (d.insert entry.1 entry.2).entries = d.entries ++ [entry] :=
      insertEntry_of_not_mem entry.2 new
    rw [List.foldl_cons, ih, added, ← List.append_cons]
    rwa [keys_insert, if_neg new, ← List.append_cons]

theorem entries_ofList {entries : List (κ × α)} (distinct : (entries.map Prod.fst).Nodup) :
    (ofList entries).entries = entries :=
  entries_foldl_insert empty entries distinct

def map (f : α → β) (d : Dictionary κ α) : Dictionary κ β where
  entries := d.entries.map fun entry => (entry.1, f entry.2)
  distinct := by simpa [List.map_map, Function.comp_def] using d.distinct

theorem get?_map (f : α → β) (d : Dictionary κ α) (name : κ) :
    (d.map f).get? name = (d.get? name).map f := by
  obtain ⟨entries, distinct⟩ := d
  change (entries.map fun entry => (entry.1, f entry.2)).lookup name = (entries.lookup name).map f
  clear distinct
  induction entries with
  | nil => rfl
  | cons entry rest ih =>
    rw [List.map_cons, lookup_cons_eq_ite, lookup_cons_eq_ite, ih]
    split <;> rfl

end Dictionary

end DeclarationChecker
