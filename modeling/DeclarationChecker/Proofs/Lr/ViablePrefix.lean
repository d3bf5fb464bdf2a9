import Mathlib.Data.List.Induction
import DeclarationChecker.Proofs.Lr.Closure

set_option autoImplicit false

namespace DeclarationChecker.Lr.Augmented

open Relation

/-- There is a chain of productions from the start symbol down to `name`, each using a symbol of
the right side of the one before; `word` is what stands before these symbols. -/
inductive Reached (a : Augmented) : List Name → Name → Prop
  | start : Reached a [] a.startProduction.lhs
  | step {word before after : List Name} {name symbol : Name} (h : Reached a word name)
      (mem : ⟨name, before ++ symbol :: after⟩ ∈ a.allProductions) :
      Reached a (word ++ before) symbol

/-- The items for which there is a chain that ends in their production, at their dot. -/
def Valid (a : Augmented) (word : List Name) (item : Item) : Prop :=
  ∃ (above : List Name) (name : Name) (before after : List Name), a.Reached above name ∧
    ⟨name, before ++ after⟩ ∈ a.allProductions ∧ word = above ++ before ∧
    item = ⟨name, before ++ after, before.length, Grammar.endSymbol⟩

def after (a : Augmented) (word : List Name) : ItemSet :=
  word.foldl a.goto (a.closure [a.startItem])

variable {a : Augmented} {word : List Name} {symbol : Name} {item fresh : Item}

theorem after_append_singleton : a.after (word ++ [symbol]) = a.goto (a.after word) symbol := by
  rw [after, List.foldl_append]
  rfl

theorem next?_eq {name lookahead : Name} (before after : List Name) :
    (⟨name, before ++ after, before.length, lookahead⟩ : Item).next? = after.head? := by
  rw [Item.next?, List.getElem?_append_right (Nat.le_refl _), Nat.sub_self, List.head?_eq_getElem?]

theorem start_valid : a.Valid [] a.startItem :=
  ⟨[], _, [], a.startProduction.rhs, .start, List.mem_cons_self, rfl, rfl⟩

/-- The symbol after the dot splits the right side behind what stands before the dot. -/
theorem Valid.split (h : a.Valid word item) (next : item.next? = some symbol) :
    ∃ above name before after, a.Reached above name ∧
      ⟨name, before ++ symbol :: after⟩ ∈ a.allProductions ∧ word = above ++ before ∧
      item = ⟨name, before ++ symbol :: after, before.length, Grammar.endSymbol⟩ := by
  obtain ⟨above, name, before, after, reached, mem, e, rfl⟩ := h
  rw [next?_eq] at next
  obtain ⟨rest, rfl⟩ := List.head?_eq_some_iff.1 next
  exact ⟨above, name, before, rest, reached, mem, e, rfl⟩

theorem Valid.brings (h : a.Valid word item) (step : a.Brings item fresh) : a.Valid word fresh := by
  obtain ⟨above, name, before, after, reached, mem, rfl, rfl⟩ := h.split step.next
  exact ⟨above ++ before, fresh.lhs, [], fresh.rhs, reached.step mem, step.mem,
    (List.append_nil _).symm, step.eq⟩

theorem Valid.brings_all (h : a.Valid word item) (path : ReflTransGen a.Brings item fresh) :
    a.Valid word fresh := by
  induction path with
  | refl => exact h
  | tail _ step ih => exact ih.brings step

theorem Valid.advance (h : a.Valid word item) (next : item.next? = some symbol) :
    a.Valid (word ++ [symbol]) item.advance := by
  obtain ⟨above, name, before, after, reached, mem, rfl, rfl⟩ := h.split next
  rw [List.append_cons] at mem
  refine ⟨above, name, before ++ [symbol], after, reached, mem, List.append_assoc _ _ _, ?_⟩
  rw [Item.advance, ← List.append_cons, List.length_append]
  rfl

/-- How an item came into a set that some symbols lead to: from the start item, or from an item
whose dot has been moved over the last symbol. -/
def Origin (a : Augmented) (word : List Name) (item : Item) : Prop :=
  (word = [] ∧ ReflTransGen a.Brings a.startItem item) ∨
    ∃ front symbol source, word = front ++ [symbol] ∧ a.Valid front source ∧
      source.next? = some symbol ∧ ReflTransGen a.Brings source.advance item

theorem Origin.brings (h : a.Origin word item) (step : a.Brings item fresh) :
    a.Origin word fresh := by
  rcases h with ⟨rfl, path⟩ | ⟨front, symbol, source, rfl, valid, next, path⟩
  · exact .inl ⟨rfl, path.tail step⟩
  · exact .inr ⟨front, symbol, source, rfl, valid, next, path.tail step⟩

theorem origin_of_moved {above : List Name} {name symbol : Name} {before after : List Name}
    (reached : a.Reached above name) (mem : ⟨name, before ++ symbol :: after⟩ ∈ a.allProductions) :
    a.Origin (above ++ (before ++ [symbol]))
      ⟨name, before ++ symbol :: after, before.length + 1, Grammar.endSymbol⟩ := by
  refine .inr ⟨above ++ before, symbol,
    ⟨name, before ++ symbol :: after, before.length, Grammar.endSymbol⟩, ?_, ?_, ?_, ?_⟩
  · rw [List.append_assoc]
  · exact ⟨above, name, before, symbol :: after, reached, mem, rfl, rfl⟩
  · rw [next?_eq]
    rfl
  · exact .refl

def StartsOnce (a : Augmented) : Prop :=
  ∀ rhs, ⟨a.startProduction.lhs, rhs⟩ ∈ a.allProductions → rhs = a.startProduction.rhs

/-- An item with symbols before its dot has been moved over the last of them; any other comes from
where items of its production come from. -/
theorem origin_of_start {above : List Name} {name : Name} {before after : List Name}
    (reached : a.Reached above name) (mem : ⟨name, before ++ after⟩ ∈ a.allProductions)
    (start : a.Origin above ⟨name, before ++ after, 0, Grammar.endSymbol⟩) :
    a.Origin (above ++ before) ⟨name, before ++ after, before.length, Grammar.endSymbol⟩ := by
  rcases List.eq_nil_or_concat before with rfl | ⟨before, last, rfl⟩
  · rw [List.append_nil]
    exact start
  · rw [List.concat_eq_append, ← List.append_cons] at mem
    rw [List.concat_eq_append, ← List.append_cons, List.length_append]
    exact origin_of_moved reached mem

/-- Down a chain, each production is brought in by an item of the one before. -/
theorem origin_of_reached (once : a.StartsOnce) {above : List Name} {name : Name}
    (reached : a.Reached above name) : ∀ rhs, ⟨name, rhs⟩ ∈ a.allProductions →
      a.Origin above ⟨name, rhs, 0, Grammar.endSymbol⟩ := by
  induction reached with
  | start =>
    intro rhs mem
    rw [once rhs mem]
    exact .inl ⟨rfl, .refl⟩
  | @step above before after name symbol reached mem ih =>
    intro rhs mem'
    refine (origin_of_start reached mem (ih _ mem)).brings ⟨?_, rfl, rfl, mem'⟩
    rw [next?_eq]
    rfl

theorem Valid.origin (once : a.StartsOnce) (h : a.Valid word item) : a.Origin word item := by
  obtain ⟨above, name, before, after, reached, mem, rfl, rfl⟩ := h
  exact origin_of_start reached mem (origin_of_reached once reached _ mem)

theorem mem_after (once : a.StartsOnce) : item ∈ a.after word ↔ a.Valid word item := by
  induction word using List.reverseRecOn generalizing item with
  | nil =>
    change item ∈ a.closure [a.startItem] ↔ _
    rw [mem_closure]
    constructor
    · rintro ⟨seed, mem, path⟩
      rw [List.mem_singleton.1 mem] at path
      exact start_valid.brings_all path
    · intro valid
      rcases valid.origin once with ⟨-, path⟩ | ⟨front, symbol, source, e, -⟩
      · exact ⟨a.startItem, List.mem_singleton.2 rfl, path⟩
      · exact absurd e.symm (by simp)
  | append_singleton word symbol ih =>
    rw [after_append_singleton, mem_goto]
    constructor
    · rintro ⟨before, mem, next, path⟩
      exact ((ih.1 mem).advance next).brings_all path
    · intro valid
      rcases valid.origin once with ⟨e, -⟩ | ⟨front, last, source, e, valid', next, path⟩
      · exact absurd e (by simp)
      · obtain ⟨rfl, last_eq⟩ := List.append_inj' e rfl
        obtain rfl := (List.cons.inj last_eq).1
        exact ⟨source, ih.2 valid', next, path⟩

end DeclarationChecker.Lr.Augmented

namespace DeclarationChecker.Lr

theorem length_le_freshName (taken : List Name) (candidate : Name) :
    candidate.length ≤ (freshName taken candidate).length := by
  induction taken, candidate using freshName.induct with
  | case1 taken candidate mem ih =>
    rw [freshName, if_pos mem]
    rw [Text.CodePoints.length_append] at ih
    omega
  | case2 taken candidate free =>
    have same : freshName taken candidate = candidate := by rw [freshName, if_neg free]
    exact Nat.le_of_eq (congrArg Text.CodePoints.length same.symm)

/-- The fresh name is none of those taken: it outgrows each of them that is met on the way. -/
theorem freshName_not_mem (taken : List Name) (candidate : Name) :
    freshName taken candidate ∉ taken := by
  induction taken, candidate using freshName.induct with
  | case1 taken candidate mem ih =>
    rw [freshName, if_pos mem]
    have longer := length_le_freshName (taken.erase candidate) (candidate ++ "'")
    rw [Text.CodePoints.length_append] at longer
    have one : Text.CodePoints.length "'" = 1 := rfl
    intro back
    -- Erasing the candidate takes away no longer name.
    refine ih ((List.mem_erase_of_ne fun e => ?_).2 back)
    rw [e] at longer
    omega
  | case2 taken candidate free =>
    rw [freshName, if_neg free]
    exact free

theorem mem_productionsOf {g : Grammar} {p : Production} :
    p ∈ productionsOf g ↔ p.lhs ∈ g.nonterminals ∧ p.rhs ∈ g.alternatives p.lhs := by
  simp only [productionsOf, List.mem_flatMap, List.mem_map]
  constructor
  · rintro ⟨name, listed, rhs, mem, rfl⟩
    exact ⟨listed, mem⟩
  · rintro ⟨listed, mem⟩
    exact ⟨p.lhs, listed, p.rhs, mem, rfl⟩

theorem augment_startsOnce (g : Grammar) : (augment g).StartsOnce := by
  intro rhs mem
  rcases List.mem_cons.1 mem with e | mem
  · exact congrArg Production.rhs e
  · have taken : (augment g).start ∈ g.terminals ++ g.nonterminals :=
      List.mem_append_right _ (mem_productionsOf.1 mem).1
    exact absurd taken (freshName_not_mem _ _)

end DeclarationChecker.Lr
