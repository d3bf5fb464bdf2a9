import Mathlib.Logic.Relation
import DeclarationChecker.Grammar.Basic

set_option autoImplicit false

/-!
Sentences of a grammar. `Derives` rewrites any nonterminal at any place; `Yields` goes through a
form from left to right, and gives the same words of terminals (`derives_iff_yields`).
-/

namespace DeclarationChecker.Grammar

variable {g : Grammar}

inductive Rewrites (g : Grammar) : List Name → List Name → Prop
  | replace (before after : List Name) {name : Name} {rhs : List Name}
      (mem : rhs ∈ g.alternatives name) :
      Rewrites g (before ++ name :: after) (before ++ rhs ++ after)

def Derives (g : Grammar) : List Name → List Name → Prop := Relation.ReflTransGen g.Rewrites

def IsSentence (g : Grammar) (word : List Name) : Prop :=
  g.Derives [g.start] word ∧ ∀ symbol ∈ word, symbol ∈ g.terminals

def IsViable (g : Grammar) (word : List Name) : Prop := ∃ rest, g.IsSentence (word ++ rest)

theorem Rewrites.append_left {form form' : List Name} (h : g.Rewrites form form')
    (left : List Name) : g.Rewrites (left ++ form) (left ++ form') := by
  obtain ⟨before, after, mem⟩ := h
  simpa only [List.append_assoc] using Rewrites.replace (left ++ before) after mem

theorem Derives.append_left {form form' : List Name} (h : g.Derives form form')
    (left : List Name) : g.Derives (left ++ form) (left ++ form') := by
  induction h with
  | refl => exact .refl
  | tail _ step ih => exact ih.tail (step.append_left left)

/-- What a form derives, its leftmost symbol being dealt with first. -/
inductive Yields (g : Grammar) : List Name → List Name → Prop
  | done : Yields g [] []
  | terminal {symbol : Name} {form word : List Name} (mem : symbol ∈ g.terminals)
      (h : Yields g form word) : Yields g (symbol :: form) (symbol :: word)
  | expand {name : Name} {rhs form word : List Name} (mem : rhs ∈ g.alternatives name)
      (h : Yields g (rhs ++ form) word) : Yields g (name :: form) word

theorem yields_nil_iff {word : List Name} : g.Yields [] word ↔ word = [] := by
  constructor
  · intro h
    cases h
    rfl
  · rintro rfl
    exact .done

theorem yields_terminal_iff {symbol : Name} {form word : List Name}
    (mem : symbol ∈ g.terminals) (none : g.alternatives symbol = []) :
    g.Yields (symbol :: form) word ↔ ∃ rest, word = symbol :: rest ∧ g.Yields form rest := by
  constructor
  · intro h
    cases h with
    | terminal _ h => exact ⟨_, rfl, h⟩
    | expand mem _ => simp [none] at mem
  · rintro ⟨rest, rfl, h⟩
    exact .terminal mem h

theorem yields_nonterminal_iff {name : Name} {form word : List Name}
    (notTerminal : name ∉ g.terminals) :
    g.Yields (name :: form) word ↔ ∃ rhs ∈ g.alternatives name, g.Yields (rhs ++ form) word := by
  constructor
  · intro h
    cases h with
    | terminal mem _ => exact absurd mem notTerminal
    | expand mem h => exact ⟨_, mem, h⟩
  · rintro ⟨rhs, mem, h⟩
    exact .expand mem h

theorem Yields.append {form form' word word' : List Name} (h : g.Yields form word)
    (h' : g.Yields form' word') : g.Yields (form ++ form') (word ++ word') := by
  induction h with
  | done => exact h'
  | terminal mem _ ih => exact .terminal mem ih
  | expand mem _ ih =>
    rw [List.append_assoc] at ih
    exact .expand mem ih

theorem Yields.split {form word : List Name} (h : g.Yields form word) :
    ∀ left right, form = left ++ right →
      ∃ x y, word = x ++ y ∧ g.Yields left x ∧ g.Yields right y := by
  induction h with
  | done =>
    intro left right e
    obtain ⟨rfl, rfl⟩ := List.append_eq_nil_iff.1 e.symm
    exact ⟨[], [], rfl, .done, .done⟩
  | @terminal symbol form word mem h ih =>
    intro left right e
    cases left with
    | nil =>
      obtain rfl : symbol :: form = right := e
      exact ⟨[], symbol :: word, rfl, .done, .terminal mem h⟩
    | cons first left =>
      obtain ⟨rfl, rfl⟩ := List.cons.inj e
      obtain ⟨x, y, rfl, hx, hy⟩ := ih left right rfl
      exact ⟨symbol :: x, y, rfl, .terminal mem hx, hy⟩
  | @expand name rhs form word mem h ih =>
    intro left right e
    -- The alternative belongs to the left part, unless that part is empty.
    cases left with
    | nil =>
      obtain rfl : name :: form = right := e
      exact ⟨[], word, rfl, .done, .expand mem h⟩
    | cons first left =>
      obtain ⟨rfl, rfl⟩ := List.cons.inj e
      obtain ⟨x, y, rfl, hx, hy⟩ := ih (rhs ++ left) right (by simp)
      exact ⟨x, y, rfl, .expand mem hx, hy⟩

theorem yields_of_terminals {word : List Name} (h : ∀ symbol ∈ word, symbol ∈ g.terminals) :
    g.Yields word word := by
  induction word with
  | nil => exact .done
  | cons symbol word ih =>
    obtain ⟨mem, rest⟩ := List.forall_mem_cons.1 h
    exact .terminal mem (ih rest)

theorem Yields.terminals {form word : List Name} (h : g.Yields form word) :
    ∀ symbol ∈ word, symbol ∈ g.terminals := by
  induction h with
  | done => simp
  | terminal mem _ ih => exact List.forall_mem_cons.2 ⟨mem, ih⟩
  | expand _ _ ih => exact ih

/-- Rewriting anywhere can be caught up with from the left. -/
theorem Yields.of_rewrites {form form' word : List Name} (step : g.Rewrites form form')
    (h : g.Yields form' word) : g.Yields form word := by
  obtain ⟨before, after, mem⟩ := step
  obtain ⟨x, y, rfl, hx, hy⟩ := h.split before _ (List.append_assoc ..)
  exact hx.append (.expand mem hy)

theorem Yields.derives {form word : List Name} (h : g.Yields form word) :
    g.Derives form word := by
  induction h with
  | done => exact .refl
  | terminal _ _ ih => exact ih.append_left [_]
  | expand mem _ ih => exact .head (Rewrites.replace [] _ mem) ih

theorem derives_iff_yields {form word : List Name} :
    (g.Derives form word ∧ ∀ symbol ∈ word, symbol ∈ g.terminals) ↔ g.Yields form word := by
  constructor
  · rintro ⟨derives, terminals⟩
    induction derives using Relation.ReflTransGen.head_induction_on with
    | refl => exact yields_of_terminals terminals
    | head step _ ih => exact ih.of_rewrites step
  · intro h
    exact ⟨h.derives, h.terminals⟩

theorem isSentence_iff {word : List Name} : g.IsSentence word ↔ g.Yields [g.start] word :=
  derives_iff_yields

end DeclarationChecker.Grammar
