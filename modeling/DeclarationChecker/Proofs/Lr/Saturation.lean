import Mathlib.Logic.Function.Iterate
import Mathlib.Order.Bounds.Defs
import DeclarationChecker.Proofs.Lr.Totality

set_option autoImplicit false

namespace DeclarationChecker.Lr

open Augmented

variable {g : Grammar} {seeds seeds' found due : List Item} {item fresh : Item} {symbol : Name}
  {rhs : List Name}

def IsAlternative (g : Grammar) (symbol : Name) (rhs : List Name) : Prop :=
  symbol = (augment g).start ∧ rhs = [g.start] ∨ symbol ∈ g.nonterminals ∧ rhs ∈ g.alternatives symbol

/-- With an item that has a symbol after its dot, the set has the alternatives of that symbol, from
their start and with the same lookahead. -/
def Saturated (g : Grammar) (items : Set Item) : Prop :=
  ∀ item ∈ items, ∀ symbol rhs, item.next? = some symbol → IsAlternative g symbol rhs →
    .start symbol rhs item.lookahead ∈ items

theorem isAlternative_iff :
    IsAlternative g symbol rhs ↔ ⟨symbol, rhs⟩ ∈ (augment g).allProductions := by
  have other : ⟨symbol, rhs⟩ ∈ (augment g).productions ↔
      symbol ∈ g.nonterminals ∧ rhs ∈ g.alternatives symbol := mem_productionsOf
  have first : (⟨symbol, rhs⟩ : Production) = (augment g).startProduction ↔
      symbol = (augment g).start ∧ rhs = [g.start] := Production.mk.injEq .. ▸ Iff.rfl
  rw [allProductions, List.mem_cons, first, other]
  rfl

theorem saturated_iff {items : Set Item} : Saturated g items ↔
    ∀ item ∈ items, ∀ fresh, (augment g).Brings item fresh → fresh ∈ items := by
  constructor
  · intro h item mem fresh brings
    rw [brings.eq]
    exact h item mem fresh.lhs fresh.rhs brings.next (isAlternative_iff.2 brings.mem)
  · intro h item mem symbol rhs next alternative
    apply h item mem
    exact ⟨next, rfl, rfl, isAlternative_iff.1 alternative⟩

theorem subset_closure (mem : item ∈ seeds) : item ∈ (augment g).closure seeds :=
  mem_closure.2 ⟨item, mem, .refl⟩

theorem closure_saturated (g : Grammar) (seeds : List Item) :
    Saturated g {item | item ∈ (augment g).closure seeds} := by
  rw [saturated_iff]
  intro item mem fresh brings
  obtain ⟨seed, given, path⟩ := mem_closure.1 mem
  exact mem_closure.2 ⟨seed, given, path.tail brings⟩

theorem closure_subset (items : Set Item) (given : ∀ seed ∈ seeds, seed ∈ items)
    (h : Saturated g items) (mem : item ∈ (augment g).closure seeds) : item ∈ items := by
  obtain ⟨seed, listed, path⟩ := mem_closure.1 mem
  induction path with
  | refl => exact given seed listed
  | tail before step ih =>
    apply saturated_iff.1 h _ _ _ step
    exact ih (mem_closure.2 ⟨seed, listed, before⟩)

theorem closure_mono (h : ∀ seed ∈ seeds, seed ∈ seeds') (mem : item ∈ (augment g).closure seeds) :
    item ∈ (augment g).closure seeds' :=
  closure_subset _ (fun seed listed => subset_closure (h seed listed)) (closure_saturated g seeds') mem

theorem closure_idempotent (g : Grammar) (seeds : List Item) :
    (augment g).closure ((augment g).closure seeds).elements = (augment g).closure seeds := by
  apply SortedSet.ext
  intro item
  constructor
  · exact closure_subset _ (fun seed listed => listed) (closure_saturated g seeds)
  · exact subset_closure

theorem dot_le_of_mem_closure (inside : ∀ seed ∈ seeds, seed.dot ≤ seed.rhs.length)
    (mem : item ∈ (augment g).closure seeds) : item.dot ≤ item.rhs.length := by
  apply closure_subset {item | item.dot ≤ item.rhs.length} inside _ mem
  intro item _ symbol rhs _ _
  exact Nat.zero_le rhs.length

def following (g : Grammar) (item : Item) : List Item :=
  match item.next? with
  | none => []
  | some symbol =>
    if symbol ∈ (augment g).nonterminals then
      (((rulesOf g).get? symbol).getD []).map fun rhs => .start symbol rhs item.lookahead
    else []

theorem mem_following : fresh ∈ following g item ↔ (augment g).Brings item fresh := by
  unfold following
  cases next : item.next? with
  | none =>
    apply iff_of_false List.not_mem_nil
    intro brings
    have stands := brings.next
    rw [next] at stands
    cases stands
  | some symbol =>
    rw [brings_iff next]
    by_cases declared : symbol ∈ (augment g).nonterminals
    · simp [declared, eq_comm]
    · have none : (rulesOf g).get? symbol = none := by
        rw [← Option.not_isSome_iff_eq_none, get?_rulesOf_isSome]
        exact declared
      simp [declared, none]

structure Closing where
  found : List Item
  pending : List Item

namespace Closing

/-- An item that is known is passed over. A new one is found, and what follows from it is put off to
the next round. -/
def takeUp (g : Grammar) (c : Closing) (item : Item) : Closing :=
  if item ∈ c.found then c else ⟨c.found ++ [item], c.pending ++ following g item⟩

def round (g : Grammar) (c : Closing) : Closing := c.pending.foldl (takeUp g) ⟨c.found, []⟩

variable {c : Closing}

theorem takeUp_known (known : item ∈ c.found) : c.takeUp g item = c := if_pos known

theorem takeUp_new (new : item ∉ c.found) :
    c.takeUp g item = ⟨c.found ++ [item], c.pending ++ following g item⟩ := if_neg new

/-- Unless something is found, nothing is put off. -/
theorem foldl_takeUp_grows (items : List Item) (c : Closing) : items.foldl (takeUp g) c = c ∨
    c.found.length < (items.foldl (takeUp g) c).found.length := by
  induction items generalizing c with
  | nil => exact .inl rfl
  | cons item items ih =>
    rw [List.foldl_cons]
    by_cases known : item ∈ c.found
    · rw [takeUp_known known]
      exact ih c
    · right
      rw [takeUp_new known]
      have one : c.found.length < (c.found ++ [item]).length := by simp
      rcases ih ⟨c.found ++ [item], c.pending ++ following g item⟩ with same | more
      · rw [same]
        exact one
      · exact one.trans more

theorem round_grows (c : Closing) : (c.round g).pending = [] ∨
    c.found.length < (c.round g).found.length := by
  rcases foldl_takeUp_grows (g := g) c.pending ⟨c.found, []⟩ with same | more
  · left
    rw [round, same]
  · exact .inr more

/-- What holds after each item that is taken up: the items found are distinct and belong to the
closure, as do those due, and nothing has been lost of the seeds and of what follows. -/
structure Underway (g : Grammar) (seeds found due : List Item) : Prop where
  distinct : found.Nodup
  within : ∀ item ∈ found ++ due, item ∈ (augment g).closure seeds
  given : ∀ seed ∈ seeds, seed ∈ found ++ due
  followed : ∀ item ∈ found, ∀ fresh ∈ following g item, fresh ∈ found ++ due

theorem Underway.start : Underway g seeds [] seeds where
  distinct := List.nodup_nil
  within _ mem := subset_closure mem
  given _ mem := mem
  followed _ mem := absurd mem List.not_mem_nil

theorem Underway.takeUp (h : Underway g seeds c.found (item :: due ++ c.pending)) :
    Underway g seeds (c.takeUp g item).found (due ++ (c.takeUp g item).pending) := by
  by_cases known : item ∈ c.found
  · have same : ∀ x, x ∈ c.found ++ (item :: due ++ c.pending) ↔ x ∈ c.found ++ (due ++ c.pending) := by
      intro x
      simp only [List.cons_append, List.mem_append, List.mem_cons]
      constructor
      · rintro (old | rfl | left)
        · exact .inl old
        · exact .inl known
        · exact .inr left
      · rintro (old | left)
        · exact .inl old
        · exact .inr (.inr left)
    rw [takeUp_known known]
    refine ⟨h.distinct, ?_, ?_, ?_⟩
    · exact fun x mem => h.within x ((same x).2 mem)
    · exact fun seed mem => (same seed).1 (h.given seed mem)
    · exact fun x mem fresh follows => (same fresh).1 (h.followed x mem fresh follows)
  · have more : ∀ x, x ∈ (c.found ++ [item]) ++ (due ++ (c.pending ++ following g item)) ↔
        x ∈ c.found ++ (item :: due ++ c.pending) ∨ x ∈ following g item := by
      intro x
      simp [or_assoc]
    rw [takeUp_new known]
    refine ⟨?_, ?_, ?_, ?_⟩
    · apply List.nodup_append.2
      refine ⟨h.distinct, List.nodup_singleton item, ?_⟩
      intro x old y last e
      apply known
      rwa [← List.mem_singleton.1 last, ← e]
    · intro x mem
      rcases (more x).1 mem with old | follows
      · exact h.within x old
      · have here : item ∈ (augment g).closure seeds := h.within item (by simp)
        exact saturated_iff.1 (closure_saturated g seeds) item here x (mem_following.1 follows)
    · exact fun seed mem => (more seed).2 (.inl (h.given seed mem))
    · intro x mem fresh follows
      apply (more fresh).2
      rcases List.mem_append.1 mem with old | last
      · exact .inl (h.followed x old fresh follows)
      · rw [List.mem_singleton.1 last] at follows
        exact .inr follows

theorem Underway.foldl (items : List Item) (h : Underway g seeds c.found (items ++ c.pending)) :
    Underway g seeds (items.foldl (Closing.takeUp g) c).found
      (items.foldl (Closing.takeUp g) c).pending := by
  induction items generalizing c with
  | nil => exact h
  | cons item items ih => exact ih h.takeUp

theorem Underway.round (h : Underway g seeds c.found c.pending) :
    Underway g seeds (c.round g).found (c.round g).pending := by
  apply Underway.foldl
  rwa [List.append_nil]

theorem Underway.length_le (h : Underway g seeds found due) :
    found.length ≤ ((augment g).closure seeds).elements.length := by
  have inside : found ⊆ ((augment g).closure seeds).elements := fun item mem =>
    h.within item (List.mem_append_left _ mem)
  exact (h.distinct.subperm inside).length_le

theorem Underway.ofList_found (h : Underway g seeds found []) :
    SortedSet.ofList found = (augment g).closure seeds := by
  apply SortedSet.ext
  intro item
  rw [SortedSet.mem_ofList]
  constructor
  · intro mem
    exact h.within item (List.mem_append_left _ mem)
  · apply closure_subset {item | item ∈ found}
    · intro seed mem
      simpa using h.given seed mem
    · rw [saturated_iff]
      intro item mem fresh brings
      simpa using h.followed item mem fresh (mem_following.2 brings)

/-- Each round finds something new or is the last one. -/
theorem iterate_round (g : Grammar) (seeds : List Item) (rounds : ℕ) :
    Underway g seeds ((round g)^[rounds] ⟨[], seeds⟩).found ((round g)^[rounds] ⟨[], seeds⟩).pending ∧
      (((round g)^[rounds] ⟨[], seeds⟩).pending = [] ∨
        rounds ≤ ((round g)^[rounds] ⟨[], seeds⟩).found.length) := by
  induction rounds with
  | zero => exact ⟨.start, .inr (Nat.zero_le _)⟩
  | succ rounds ih =>
    rw [Function.iterate_succ_apply']
    generalize (round g)^[rounds] ⟨[], seeds⟩ = c at ih ⊢
    refine ⟨ih.1.round, ?_⟩
    rcases ih.2 with none | enough
    · left
      rw [Closing.round, none]
      rfl
    · rcases c.round_grows (g := g) with none | more
      · exact .inl none
      · right
        omega

theorem exists_iterate_round (g : Grammar) (seeds : List Item) : ∃ rounds found,
    (round g)^[rounds] ⟨[], seeds⟩ = ⟨found, []⟩ ∧
      SortedSet.ofList found = (augment g).closure seeds := by
  obtain ⟨underway, ends⟩ :=
    iterate_round g seeds (((augment g).closure seeds).elements.length + 1)
  have count := underway.length_le
  generalize e : (round g)^[((augment g).closure seeds).elements.length + 1] ⟨[], seeds⟩ = last
    at underway ends count
  obtain ⟨found, pending⟩ := last
  obtain rfl : pending = [] := ends.resolve_right (by omega)
  exact ⟨_, found, e, underway.ofList_found⟩

end Closing

/-- Taking up pending items round by round ends, with the closure of the seeds. This is the least
saturated set that has them; so it is closed already, grows with the seeds, and is the same for seeds
in any order. No dot in it is outside its right side if none of the seeds is. -/
theorem closure_isLeast (g : Grammar) (seeds : List Item) :
    (∃ rounds found, (Closing.round g)^[rounds] ⟨[], seeds⟩ = ⟨found, []⟩ ∧
      SortedSet.ofList found = (augment g).closure seeds) ∧
    IsLeast {items : Set Item | (∀ seed ∈ seeds, seed ∈ items) ∧ Saturated g items}
      {item | item ∈ (augment g).closure seeds} ∧
    (augment g).closure ((augment g).closure seeds).elements = (augment g).closure seeds ∧
    (∀ more, (∀ seed ∈ seeds, seed ∈ more) →
      ∀ item ∈ (augment g).closure seeds, item ∈ (augment g).closure more) ∧
    (∀ others, (∀ seed, seed ∈ seeds ↔ seed ∈ others) →
      (augment g).closure seeds = (augment g).closure others) ∧
    ((∀ seed ∈ seeds, seed.dot ≤ seed.rhs.length) →
      ∀ item ∈ (augment g).closure seeds, item.dot ≤ item.rhs.length) := by
  refine ⟨Closing.exists_iterate_round g seeds, ⟨⟨?_, closure_saturated g seeds⟩, ?_⟩,
    closure_idempotent g seeds, ?_, ?_, ?_⟩
  · exact fun seed mem => subset_closure mem
  · exact fun items h item mem => closure_subset items h.1 h.2 mem
  · exact fun more h item mem => closure_mono h mem
  · intro others same
    apply SortedSet.ext
    intro item
    exact ⟨closure_mono fun seed => (same seed).1, closure_mono fun seed => (same seed).2⟩
  · exact fun inside item mem => dot_le_of_mem_closure inside mem

end DeclarationChecker.Lr
