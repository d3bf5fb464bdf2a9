import DeclarationChecker.Grammar.Basic

set_option autoImplicit false

namespace DeclarationChecker.Grammar

variable {g : Grammar}

structure WellFormed (g : Grammar) : Prop where
  terminals_ne_nil : g.terminals ≠ []
  nonterminals_ne_nil : g.nonterminals ≠ []
  terminals_nodup : g.terminals.Nodup
  nonterminals_nodup : g.nonterminals.Nodup
  apart : ∀ name ∈ g.nonterminals, name ∉ g.terminals
  reserved : g.declares endSymbol = false
  start : g.start ∈ g.nonterminals
  keys : ∀ name ∈ g.productions.keys, name ∈ g.nonterminals
  productive : ∀ name ∈ g.nonterminals, g.alternatives name ≠ []
  declared : ∀ name ∈ g.nonterminals, ∀ rhs ∈ g.alternatives name, ∀ symbol ∈ rhs,
    g.declares symbol = true

theorem declares_iff {symbol : Name} :
    g.declares symbol = true ↔ symbol ∈ g.terminals ∨ symbol ∈ g.nonterminals := by
  rw [declares, Bool.or_eq_true, List.contains_iff_mem, List.contains_iff_mem]

theorem unknownSymbolOf?_eq_none_iff {name : Name} : g.unknownSymbolOf? name = none ↔
    ∀ rhs ∈ g.alternatives name, ∀ symbol ∈ rhs, g.declares symbol = true := by
  rw [unknownSymbolOf?, Option.map_eq_none_iff, List.find?_eq_none]
  simp only [List.mem_flatten, Bool.not_eq_true', Bool.not_eq_false]
  constructor
  · intro h rhs listed symbol mem
    exact h symbol ⟨rhs, listed, mem⟩
  · rintro h symbol ⟨rhs, listed, mem⟩
    exact h rhs listed symbol mem

theorem problem?_eq_none_iff : g.problem? = none ↔ g.WellFormed := by
  unfold problem?
  split
  · rename_i empty
    exact ⟨fun h => (Option.some_ne_none _ h).elim, fun h => absurd empty h.terminals_ne_nil⟩
  split
  · rename_i empty
    exact ⟨fun h => (Option.some_ne_none _ h).elim, fun h => absurd empty h.nonterminals_ne_nil⟩
  rename_i terminals nonterminals
  simp only [Option.orElse_eq_orElse, Option.orElse_eq_or, Option.or_eq_none_iff,
    Option.map_eq_none_iff, Repetition.first?_eq_none_iff, List.map_id, List.find?_eq_none,
    List.findSome?_eq_none_iff, unknownSymbolOf?_eq_none_iff, List.contains_iff_mem,
    Bool.not_eq_true', ite_eq_left_iff, ite_eq_right_iff, reduceCtorEq, imp_false,
    Bool.not_eq_true, List.isEmpty_iff, Decidable.not_not, Bool.not_eq_false]
  constructor
  · rintro ⟨terminals_nodup, nonterminals_nodup, apart, reserved, start, keys, productive, declared⟩
    exact ⟨terminals, nonterminals, terminals_nodup, nonterminals_nodup, apart, reserved, start, keys,
      productive, declared⟩
  · intro h
    exact ⟨h.terminals_nodup, h.nonterminals_nodup, h.apart, h.reserved, h.start, h.keys, h.productive,
      h.declared⟩

end DeclarationChecker.Grammar

/-! ### The first requirement that fails -/

namespace DeclarationChecker

def IsFirst {α : Type} (p : α → Prop) (xs : List α) (x : α) : Prop :=
  ∃ before behind, xs = before ++ x :: behind ∧ p x ∧ ∀ y ∈ before, ¬ p y

theorem IsFirst.mem {α : Type} {p : α → Prop} {xs : List α} {x : α} (h : IsFirst p xs x) : x ∈ xs := by
  obtain ⟨before, behind, rfl, -⟩ := h
  simp

theorem find?_eq_some_iff_isFirst {α : Type} {p : α → Bool} {q : α → Prop}
    (agree : ∀ x, p x = true ↔ q x) {xs : List α} {x : α} : xs.find? p = some x ↔ IsFirst q xs x := by
  rw [List.find?_eq_some_iff_append]
  constructor
  · rintro ⟨here, before, behind, e, earlier⟩
    refine ⟨before, behind, e, (agree x).1 here, fun y mem holds => ?_⟩
    have fails := earlier y mem
    rw [(agree y).2 holds] at fails
    cases fails
  · rintro ⟨before, behind, e, here, earlier⟩
    refine ⟨(agree x).2 here, before, behind, e, fun y mem => ?_⟩
    rw [Bool.not_eq_true', ← Bool.not_eq_true]
    exact fun holds => earlier y mem ((agree y).1 holds)

theorem findSome?_eq_some_iff_isFirst {α β : Type} {f : α → Option β} {q : α → Prop}
    (agree : ∀ x, f x = none ↔ ¬ q x) {xs : List α} {y : β} :
    xs.findSome? f = some y ↔ ∃ x, IsFirst q xs x ∧ f x = some y := by
  rw [List.findSome?_eq_some_iff]
  constructor
  · rintro ⟨before, x, behind, e, found, earlier⟩
    have holds : q x := Classical.byContradiction fun fails => by
      rw [(agree x).2 fails] at found
      cases found
    exact ⟨x, ⟨before, behind, e, holds, fun y mem => (agree y).1 (earlier y mem)⟩, found⟩
  · rintro ⟨x, ⟨before, behind, e, -, earlier⟩, found⟩
    exact ⟨before, x, behind, e, found, fun y mem => (agree y).2 (earlier y mem)⟩

namespace Grammar

inductive Requirement where
  | someTerminal
  | someNonterminal
  | distinctTerminals
  | distinctNonterminals
  | disjoint
  | unreserved
  | knownStart
  | knownKeys
  | productive
  | knownSymbols
  deriving DecidableEq, Repr

/-- All requirements, in the order in which they are looked at. -/
def Requirement.inOrder : List Requirement :=
  [.someTerminal, .someNonterminal, .distinctTerminals, .distinctNonterminals, .disjoint, .unreserved,
    .knownStart, .knownKeys, .productive, .knownSymbols]

theorem Requirement.mem_inOrder (r : Requirement) : r ∈ inOrder := by cases r <;> decide

def Listed (g : Grammar) (symbol : Name) : Prop := symbol ∈ g.terminals ∨ symbol ∈ g.nonterminals

def Meets (g : Grammar) : Requirement → Prop
  | .someTerminal => g.terminals ≠ []
  | .someNonterminal => g.nonterminals ≠ []
  | .distinctTerminals => g.terminals.Nodup
  | .distinctNonterminals => g.nonterminals.Nodup
  | .disjoint => ∀ name ∈ g.nonterminals, name ∉ g.terminals
  | .unreserved => ¬ g.Listed endSymbol
  | .knownStart => g.start ∈ g.nonterminals
  | .knownKeys => ∀ name ∈ g.productions.keys, name ∈ g.nonterminals
  | .productive => ∀ name ∈ g.nonterminals, g.alternatives name ≠ []
  | .knownSymbols => ∀ name ∈ g.nonterminals, ∀ rhs ∈ g.alternatives name, ∀ symbol ∈ rhs,
    g.Listed symbol

instance (g : Grammar) (symbol : Name) : Decidable (g.Listed symbol) :=
  inferInstanceAs (Decidable (symbol ∈ g.terminals ∨ symbol ∈ g.nonterminals))

instance (g : Grammar) : (r : Requirement) → Decidable (g.Meets r)
  | .someTerminal => inferInstanceAs (Decidable (g.terminals ≠ []))
  | .someNonterminal => inferInstanceAs (Decidable (g.nonterminals ≠ []))
  | .distinctTerminals => inferInstanceAs (Decidable g.terminals.Nodup)
  | .distinctNonterminals => inferInstanceAs (Decidable g.nonterminals.Nodup)
  | .disjoint => inferInstanceAs (Decidable (∀ name ∈ g.nonterminals, name ∉ g.terminals))
  | .unreserved => inferInstanceAs (Decidable ¬ g.Listed endSymbol)
  | .knownStart => inferInstanceAs (Decidable (g.start ∈ g.nonterminals))
  | .knownKeys => inferInstanceAs (Decidable (∀ name ∈ g.productions.keys, name ∈ g.nonterminals))
  | .productive => inferInstanceAs (Decidable (∀ name ∈ g.nonterminals, g.alternatives name ≠ []))
  | .knownSymbols => inferInstanceAs (Decidable (∀ name ∈ g.nonterminals,
    ∀ rhs ∈ g.alternatives name, ∀ symbol ∈ rhs, g.Listed symbol))

def Problem.requirement : Problem → Requirement
  | .noTerminals => .someTerminal
  | .noNonterminals => .someNonterminal
  | .repeatedTerminal _ => .distinctTerminals
  | .repeatedNonterminal _ => .distinctNonterminals
  | .ambiguousSymbol _ => .disjoint
  | .reservedSymbol => .unreserved
  | .unknownStart _ => .knownStart
  | .foreignProductions _ => .knownKeys
  | .noProductions _ => .productive
  | .unknownSymbol _ _ => .knownSymbols

def RepeatsFirst (names : List Name) (name : Name) : Prop :=
  ∃ before behind, names = before ++ name :: behind ∧ before.Nodup ∧ name ∈ before

theorem RepeatsFirst.mem {names : List Name} {name : Name} (h : RepeatsFirst names name) :
    name ∈ names := by
  obtain ⟨before, behind, rfl, -⟩ := h
  simp

/-- A description has the problem, and what the problem names comes first in the lists. -/
def Has (g : Grammar) : Problem → Prop
  | .noTerminals => g.terminals = []
  | .noNonterminals => g.nonterminals = []
  | .repeatedTerminal name => RepeatsFirst g.terminals name
  | .repeatedNonterminal name => RepeatsFirst g.nonterminals name
  | .ambiguousSymbol name => IsFirst (· ∈ g.terminals) g.nonterminals name
  | .reservedSymbol => g.Listed endSymbol
  | .unknownStart name => name = g.start ∧ name ∉ g.nonterminals
  | .foreignProductions name => IsFirst (· ∉ g.nonterminals) g.productions.keys name
  | .noProductions name => IsFirst (fun name => g.alternatives name = []) g.nonterminals name
  | .unknownSymbol name symbol =>
    IsFirst (fun name => ∃ rhs ∈ g.alternatives name, ∃ symbol ∈ rhs, ¬ g.Listed symbol)
      g.nonterminals name ∧
    IsFirst (fun symbol => ¬ g.Listed symbol) (g.alternatives name).flatten symbol

def problemWith? (g : Grammar) : Requirement → Option Problem
  | .someTerminal => if g.terminals = [] then some .noTerminals else none
  | .someNonterminal => if g.nonterminals = [] then some .noNonterminals else none
  | .distinctTerminals => (Repetition.first? id g.terminals).map .repeatedTerminal
  | .distinctNonterminals => (Repetition.first? id g.nonterminals).map .repeatedNonterminal
  | .disjoint => (g.nonterminals.find? g.terminals.contains).map .ambiguousSymbol
  | .unreserved => if g.declares endSymbol then some .reservedSymbol else none
  | .knownStart => if g.nonterminals.contains g.start then none else some (.unknownStart g.start)
  | .knownKeys => (g.productions.keys.find? fun name => !g.nonterminals.contains name).map
    .foreignProductions
  | .productive => (g.nonterminals.find? fun name => (g.alternatives name).isEmpty).map .noProductions
  | .knownSymbols => g.nonterminals.findSome? g.unknownSymbolOf?

variable {g : Grammar}

theorem problem?_eq_findSome? (g : Grammar) :
    g.problem? = Requirement.inOrder.findSome? g.problemWith? := by
  have cons : ∀ (r : Requirement) (rs : List Requirement),
      (r :: rs).findSome? g.problemWith? = (g.problemWith? r).or (rs.findSome? g.problemWith?) :=
    fun r rs => by rw [List.findSome?_cons]; cases g.problemWith? r <;> rfl
  unfold problem? Requirement.inOrder
  simp only [cons, List.findSome?_nil, problemWith?, Option.orElse_eq_orElse, Option.orElse_eq_or,
    Option.or_none]
  split
  · rfl
  split <;> rfl

theorem unknownSymbolOf?_eq_none_iff_listed {name : Name} : g.unknownSymbolOf? name = none ↔
    ¬ ∃ rhs ∈ g.alternatives name, ∃ symbol ∈ rhs, ¬ g.Listed symbol := by
  rw [unknownSymbolOf?_eq_none_iff]
  simp only [declares_iff, Listed, not_exists, not_and, Decidable.not_not]

theorem unknownSymbolOf?_eq_some_iff {name : Name} {p : Problem} :
    g.unknownSymbolOf? name = some p ↔ ∃ symbol,
      IsFirst (fun symbol => ¬ g.Listed symbol) (g.alternatives name).flatten symbol ∧
        p = .unknownSymbol name symbol := by
  have unlisted : ∀ symbol, (!g.declares symbol) = true ↔ ¬ g.Listed symbol := fun symbol => by
    rw [Bool.not_eq_true', ← Bool.not_eq_true, declares_iff, Listed]
  rw [unknownSymbolOf?, Option.map_eq_some_iff]
  simp only [find?_eq_some_iff_isFirst unlisted, eq_comm]

theorem problemWith?_eq_none_iff {r : Requirement} : g.problemWith? r = none ↔ g.Meets r := by
  cases r <;> simp [problemWith?, Meets, Listed, Repetition.first?_eq_none_iff,
    unknownSymbolOf?_eq_none_iff, declares_iff, ← Bool.not_eq_true]

theorem repeatsFirst_iff {names : List Name} {name : Name} :
    Repetition.first? id names = some name ↔ RepeatsFirst names name := by
  rw [Repetition.first?_eq_some_iff, RepeatsFirst]
  simp only [List.map_id, id_eq]

theorem problemWith?_eq_some_iff {r : Requirement} {p : Problem} :
    g.problemWith? r = some p ↔ p.requirement = r ∧ g.Has p := by
  cases r with
  | someTerminal => cases p <;> simp [problemWith?, Problem.requirement, Has]
  | someNonterminal => cases p <;> simp [problemWith?, Problem.requirement, Has]
  | distinctTerminals => cases p <;> simp [problemWith?, Problem.requirement, Has, repeatsFirst_iff]
  | distinctNonterminals => cases p <;> simp [problemWith?, Problem.requirement, Has, repeatsFirst_iff]
  | disjoint =>
    have agree : ∀ name, g.terminals.contains name = true ↔ name ∈ g.terminals := fun name =>
      List.contains_iff_mem
    rw [problemWith?, Option.map_eq_some_iff]
    simp only [find?_eq_some_iff_isFirst agree]
    cases p <;> simp [Problem.requirement, Has]
  | unreserved => cases p <;> simp [problemWith?, Problem.requirement, Has, Listed, ← declares_iff]
  | knownStart =>
    have named : ∀ name, (g.start ∉ g.nonterminals ∧ g.start = name) ↔
        (name = g.start ∧ name ∉ g.nonterminals) := by
      intro name
      constructor
      · rintro ⟨unknown, rfl⟩
        exact ⟨rfl, unknown⟩
      · rintro ⟨rfl, unknown⟩
        exact ⟨unknown, rfl⟩
    cases p <;> simp [problemWith?, Problem.requirement, Has, named]
  | knownKeys =>
    have agree : ∀ name, (!g.nonterminals.contains name) = true ↔ name ∉ g.nonterminals := by simp
    rw [problemWith?, Option.map_eq_some_iff]
    simp only [find?_eq_some_iff_isFirst agree]
    cases p <;> simp [Problem.requirement, Has]
  | productive =>
    have agree : ∀ name, (g.alternatives name).isEmpty = true ↔ g.alternatives name = [] := by simp
    cases p <;> simp [problemWith?, Problem.requirement, Has, find?_eq_some_iff_isFirst agree]
  | knownSymbols =>
    rw [problemWith?,
      findSome?_eq_some_iff_isFirst fun name => unknownSymbolOf?_eq_none_iff_listed]
    simp only [unknownSymbolOf?_eq_some_iff]
    cases p <;> simp [Problem.requirement, Has]

theorem contains_of_productive (h : g.Meets .productive) {name : Name}
    (mem : name ∈ g.nonterminals) : g.productions.contains name = true := by
  have some := h name mem
  unfold alternatives at some
  unfold Dictionary.contains
  cases entry : g.productions.get? name with
  | none => exact absurd (by rw [entry]; rfl) some
  | some alternatives => rfl

/-- Nothing is wrong with a description exactly if it meets all requirements. If it does not, its
problem is one with the first requirement that it fails. The alternatives of a nonterminal are looked
at only where they are known to have an entry. -/
theorem problem?_first (g : Grammar) :
    (g.problem? = none ↔ ∀ r, g.Meets r) ∧
    (∀ p, g.problem? = some p ↔
      IsFirst (fun r => ¬ g.Meets r) Requirement.inOrder p.requirement ∧ g.Has p) ∧
    ((∀ r, r ≠ .knownSymbols → g.Meets r) →
      ∀ name ∈ g.nonterminals, g.productions.contains name = true) := by
  rw [problem?_eq_findSome?]
  refine ⟨?_, fun p => ?_, fun h name => contains_of_productive (h .productive nofun)⟩
  · rw [List.findSome?_eq_none_iff]
    simp only [problemWith?_eq_none_iff]
    exact ⟨fun h r => h r r.mem_inOrder, fun h r _ => h r⟩
  · have agree : ∀ r, g.problemWith? r = none ↔ ¬ ¬ g.Meets r := fun r => by
      rw [problemWith?_eq_none_iff, Classical.not_not]
    rw [findSome?_eq_some_iff_isFirst agree]
    simp only [problemWith?_eq_some_iff]
    constructor
    · rintro ⟨r, first, rfl, has⟩
      exact ⟨first, has⟩
    · rintro ⟨first, has⟩
      exact ⟨_, first, rfl, has⟩

/-- Two nonterminals without alternatives, one of them without an entry, and a symbol that is not
listed. -/
def unproductive : Grammar where
  terminals := ["a"]
  nonterminals := ["S", "T", "U"]
  start := "S"
  productions := .ofList [("U", []), ("S", [["a"], ["T", "x"]])]

def undeclared : Grammar :=
  { unproductive with productions := .ofList [("U", [["y"]]), ("T", [[]]), ("S", [["a"], ["T", "x"]])] }

theorem problem?_first_unproductive :
    unproductive.problem? = some (.noProductions "T") ∧
    undeclared.problem? = some (.unknownSymbol "S" "x") ∧
    undeclared.productions.contains "T" = true := by
  have earlier : ∀ r ∈ Requirement.inOrder.take 8, ¬ ¬ unproductive.Meets r := by decide
  have first : IsFirst (fun r => ¬ unproductive.Meets r) Requirement.inOrder .productive :=
    ⟨Requirement.inOrder.take 8, [.knownSymbols], rfl, by decide, earlier⟩
  have others : ∀ r ∈ Requirement.inOrder.take 9, ¬ ¬ undeclared.Meets r := by decide
  have last : IsFirst (fun r => ¬ undeclared.Meets r) Requirement.inOrder .knownSymbols :=
    ⟨Requirement.inOrder.take 9, [], rfl, by decide, others⟩
  refine ⟨((problem?_first unproductive).2.1 (.noProductions "T")).2 ⟨first, ?_⟩,
    ((problem?_first undeclared).2.1 (.unknownSymbol "S" "x")).2 ⟨last, ?_⟩,
    (problem?_first undeclared).2.2 (fun r other => ?_) "T" (by decide)⟩
  · exact ⟨["S"], ["U"], rfl, by decide, by decide⟩
  · exact ⟨⟨[], ["T", "U"], rfl, by decide, by decide⟩, ["a", "T"], [], rfl, by decide, by decide⟩
  · cases r with
    | knownSymbols => exact absurd rfl other
    | _ => decide

end Grammar

end DeclarationChecker
