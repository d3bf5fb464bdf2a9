set_option autoImplicit false

namespace DeclarationChecker.Repetition

variable {α β : Type} [DecidableEq β]

def firstAfter (key : α → β) (seen : List β) : List α → Option α
  | [] => none
  | x :: rest => if key x ∈ seen then some x else firstAfter key (key x :: seen) rest

def first? (key : α → β) (xs : List α) : Option α := firstAfter key [] xs

theorem firstAfter_eq_none_iff (key : α → β) (seen : List β) (xs : List α) :
    firstAfter key seen xs = none ↔ (xs.map key).Nodup ∧ ∀ x ∈ xs, key x ∉ seen := by
  induction xs generalizing seen with
  | nil => simp [firstAfter]
  | cons x rest ih =>
    by_cases h : key x ∈ seen
    · simp [firstAfter, h]
    · simp only [firstAfter, h, if_false, ih, List.map_cons, List.nodup_cons, List.mem_cons,
        List.mem_map]
      constructor
      · rintro ⟨nodup, fresh⟩
        refine ⟨⟨?_, nodup⟩, ?_⟩
        · rintro ⟨y, hy, e⟩
          exact fresh y hy (Or.inl e)
        · rintro y (rfl | hy)
          · exact h
          · exact fun hs => fresh y hy (Or.inr hs)
      · rintro ⟨⟨apart, nodup⟩, fresh⟩
        refine ⟨nodup, ?_⟩
        rintro y hy (e | hs)
        · exact apart ⟨y, hy, e⟩
        · exact fresh y (Or.inr hy) hs

theorem first?_eq_none_iff (key : α → β) (xs : List α) :
    first? key xs = none ↔ (xs.map key).Nodup := by
  simp [first?, firstAfter_eq_none_iff]

theorem firstAfter_eq_some_iff {key : α → β} {seen : List β} {xs : List α} {x : α} :
    firstAfter key seen xs = some x ↔ ∃ before behind, xs = before ++ x :: behind ∧
      (before.map key).Nodup ∧ (∀ y ∈ before, key y ∉ seen) ∧
      (key x ∈ seen ∨ key x ∈ before.map key) := by
  induction xs generalizing seen with
  | nil => simp [firstAfter]
  | cons y rest ih =>
    by_cases h : key y ∈ seen
    · rw [firstAfter, if_pos h]
      constructor
      · rintro ⟨⟩
        exact ⟨[], rest, rfl, List.nodup_nil, nofun, .inl h⟩
      · rintro ⟨before, behind, e, -, fresh, -⟩
        cases before with
        | nil => exact congrArg some (List.cons.inj e).1
        | cons z before =>
          cases e
          exact absurd h (fresh y List.mem_cons_self)
    · rw [firstAfter, if_neg h, ih]
      constructor
      · rintro ⟨before, behind, rfl, nodup, fresh, repeated⟩
        refine ⟨y :: before, behind, rfl, ?_, ?_, ?_⟩ <;> grind
      · rintro ⟨before, behind, e, nodup, fresh, repeated⟩
        cases before with
        | nil => grind
        | cons z before =>
          cases e
          refine ⟨before, behind, rfl, ?_, ?_, ?_⟩ <;> grind

/-- The first element that repeats another has only different ones before it. -/
theorem first?_eq_some_iff {key : α → β} {xs : List α} {x : α} :
    first? key xs = some x ↔ ∃ before behind, xs = before ++ x :: behind ∧
      (before.map key).Nodup ∧ key x ∈ before.map key := by
  simp [first?, firstAfter_eq_some_iff]

end DeclarationChecker.Repetition
