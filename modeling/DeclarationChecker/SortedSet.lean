set_option autoImplicit false

/-!
Finite sets as strictly ascending lists. Since a set has only one such list, sets with the same
elements are equal (`SortedSet.ext`), and a set of sets can be searched by comparing lists.
-/

namespace DeclarationChecker

variable {α : Type} [Ord α]

structure SortedSet (α : Type) [Ord α] where
  elements : List α
  ascending : elements.Pairwise fun a b => compare a b = .lt

namespace SortedSet

instance [DecidableEq α] : DecidableEq (SortedSet α) := fun s t =>
  if h : s.elements = t.elements then
    .isTrue (by cases s; cases t; cases h; rfl)
  else .isFalse fun e => h (congrArg elements e)

instance : Membership α (SortedSet α) := ⟨fun s a => a ∈ s.elements⟩

theorem mem_iff (s : SortedSet α) (a : α) : a ∈ s ↔ a ∈ s.elements := Iff.rfl

def empty : SortedSet α := ⟨[], .nil⟩

instance : Inhabited (SortedSet α) := ⟨empty⟩

def insertInto (a : α) : List α → List α
  | [] => [a]
  | b :: rest =>
    match compare a b with
    | .lt => a :: b :: rest
    | .eq => b :: rest
    | .gt => b :: insertInto a rest

theorem mem_insertInto [Std.LawfulEqOrd α] (a x : α) (xs : List α) :
    x ∈ insertInto a xs ↔ x = a ∨ x ∈ xs := by
  induction xs with
  | nil => simp [insertInto]
  | cons b rest ih =>
    unfold insertInto
    split
    · simp
    · rename_i h
      have hab : a = b := Std.LawfulEqCmp.eq_of_compare h
      subst hab
      simp
    · simp only [List.mem_cons, ih]
      constructor
      · rintro (h | h | h)
        · exact Or.inr (Or.inl h)
        · exact Or.inl h
        · exact Or.inr (Or.inr h)
      · rintro (h | h | h)
        · exact Or.inr (Or.inl h)
        · exact Or.inl h
        · exact Or.inr (Or.inr h)

theorem not_lt_self [Std.LawfulEqOrd α] (a : α) : compare a a ≠ .lt := by
  have same : compare a a = .eq := Std.ReflCmp.compare_self
  rw [same]
  exact Ordering.noConfusion

variable [Std.TransOrd α] [Std.LawfulEqOrd α]

theorem ascending_insertInto (a : α) (xs : List α)
    (h : xs.Pairwise fun x y => compare x y = .lt) :
    (insertInto a xs).Pairwise fun x y => compare x y = .lt := by
  induction xs with
  | nil => simp [insertInto]
  | cons b rest ih =>
    obtain ⟨hb, hrest⟩ := List.pairwise_cons.1 h
    unfold insertInto
    split
    · rename_i hab
      refine List.pairwise_cons.2 ⟨?_, h⟩
      intro x hx
      rcases List.mem_cons.1 hx with rfl | hx
      · exact hab
      · exact Std.TransCmp.lt_trans hab (hb x hx)
    · exact h
    · rename_i hab
      refine List.pairwise_cons.2 ⟨?_, ih hrest⟩
      intro x hx
      rcases (mem_insertInto a x rest).1 hx with rfl | hx
      · exact Std.OrientedCmp.gt_iff_lt.1 hab
      · exact hb x hx

def insert (s : SortedSet α) (a : α) : SortedSet α :=
  ⟨insertInto a s.elements, ascending_insertInto a s.elements s.ascending⟩

theorem mem_insert (s : SortedSet α) (a x : α) : x ∈ s.insert a ↔ x = a ∨ x ∈ s :=
  mem_insertInto a x s.elements

def ofList (xs : List α) : SortedSet α := xs.foldr (fun a s => s.insert a) empty

theorem mem_ofList (xs : List α) (x : α) : x ∈ ofList xs ↔ x ∈ xs := by
  induction xs with
  | nil => simp [ofList, mem_iff, empty]
  | cons a xs ih =>
    have step : ofList (a :: xs) = (ofList xs).insert a := rfl
    rw [step, mem_insert, ih, List.mem_cons]

theorem eq_of_ascending (xs ys : List α) (hxs : xs.Pairwise fun x y => compare x y = .lt)
    (hys : ys.Pairwise fun x y => compare x y = .lt) (h : ∀ a, a ∈ xs ↔ a ∈ ys) : xs = ys := by
  induction xs generalizing ys with
  | nil =>
    cases ys with
    | nil => rfl
    | cons y ys => exact absurd ((h y).2 List.mem_cons_self) List.not_mem_nil
  | cons x xs ih =>
    cases ys with
    | nil => exact absurd ((h x).1 List.mem_cons_self) List.not_mem_nil
    | cons y ys =>
      obtain ⟨hx, tailAscending⟩ := List.pairwise_cons.1 hxs
      obtain ⟨hy, tailAscending'⟩ := List.pairwise_cons.1 hys
      have hxy : x = y := by
        rcases List.mem_cons.1 ((h x).1 List.mem_cons_self) with e | hx'
        · exact e
        · rcases List.mem_cons.1 ((h y).2 List.mem_cons_self) with e | hy'
          · exact e.symm
          · exact absurd (Std.TransCmp.lt_trans (hx y hy') (hy x hx')) (not_lt_self x)
      subst hxy
      have tails : xs = ys := by
        refine ih ys tailAscending tailAscending' fun a => ⟨fun ha => ?_, fun ha => ?_⟩
        · rcases List.mem_cons.1 ((h a).1 (List.mem_cons_of_mem x ha)) with rfl | ha'
          · exact absurd (hx a ha) (not_lt_self a)
          · exact ha'
        · rcases List.mem_cons.1 ((h a).2 (List.mem_cons_of_mem x ha)) with rfl | ha'
          · exact absurd (hy a ha) (not_lt_self a)
          · exact ha'
      rw [tails]

theorem ext (s t : SortedSet α) (h : ∀ a, a ∈ s ↔ a ∈ t) : s = t := by
  obtain ⟨xs, hxs⟩ := s
  obtain ⟨ys, hys⟩ := t
  have e : xs = ys := eq_of_ascending xs ys hxs hys h
  subst e
  rfl

end SortedSet

end DeclarationChecker
