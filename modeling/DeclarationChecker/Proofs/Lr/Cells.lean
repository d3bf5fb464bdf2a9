import DeclarationChecker.Proofs.Lr.Handles

set_option autoImplicit false

namespace DeclarationChecker.Lr

namespace ParseTable

def action? (t : ParseTable) (state : Nat) (symbol : Name) : Option Action :=
  (t.actions[state]?).bind fun row => row.get? symbol

def goto? (t : ParseTable) (state : Nat) (symbol : Name) : Option Int :=
  (t.gotos[state]?).bind fun row => row.get? symbol

end ParseTable

/-- The table has the cells that the graph of the grammar calls for, and no others. A reduction
refers to the first place of its production. -/
structure Tabulates (g : Grammar) (t : ParseTable) : Prop where
  actionRows : t.actions.length = (augment g).graph.size
  gotoRows : t.gotos.length = (augment g).graph.size
  productions : t.productions = productionsOf g
  shift_iff : ∀ state symbol (shifted : Int), t.action? state symbol = some (.shift shifted) ↔
    symbol ∈ g.terminals ∧ ∃ target : Nat,
      (augment g).graph.next? state symbol = some target ∧ shifted = target
  reduce_iff : ∀ state symbol name (production : Int) count,
    t.action? state symbol = some (.reduce name production count) ↔
      symbol = Grammar.endSymbol ∧ ∃ items item, (augment g).graph.items? state = some items ∧
        item ∈ items ∧ item.atEnd = true ∧ item.lhs = name ∧ name ≠ (augment g).start ∧
        item.rhs.length = count ∧ ∃ index : Nat, production = index ∧
          t.productions[index]? = some ⟨item.lhs, item.rhs⟩ ∧
          ∀ earlier < index, t.productions[earlier]? ≠ some ⟨item.lhs, item.rhs⟩
  accept_iff : ∀ state symbol, t.action? state symbol = some .accept ↔
    symbol = Grammar.endSymbol ∧ (augment g).graph.next? 0 g.start = some state
  accepts : ∃ state, (augment g).graph.next? 0 g.start = some state
  goto_iff : ∀ state symbol (gone : Int), t.goto? state symbol = some gone ↔
    symbol ∈ g.nonterminals ∧ ∃ target : Nat,
      (augment g).graph.next? state symbol = some target ∧ gone = target

theorem eq_idxOf_iff {ps : List Production} {p : Production} (mem : p ∈ ps) {index : Nat} :
    index = ps.idxOf p ↔ ps[index]? = some p ∧ ∀ earlier < index, ps[earlier]? ≠ some p := by
  constructor
  · rintro rfl
    refine ⟨List.getElem?_idxOf mem, ?_⟩
    intro earlier before same
    obtain ⟨inside', e⟩ := List.getElem?_eq_some_iff.1 same
    have other := List.not_of_lt_findIdx (p := (· == p)) before
    rw [beq_eq_false_iff_ne] at other
    exact other e
  · rintro ⟨here, first⟩
    obtain ⟨inside, e⟩ := List.getElem?_eq_some_iff.1 here
    refine ((List.findIdx_eq (p := (· == p)) inside).2 ⟨beq_iff_eq.2 e, fun earlier before => ?_⟩).symm
    rw [beq_eq_false_iff_ne]
    intro same
    exact first earlier before (List.getElem?_eq_some_iff.2 ⟨before.trans inside, same⟩)

namespace Augmented

variable {a : Augmented} {g : Grammar} {s : GraphState} {state : Nat} {symbol : Name}

theorem action?_rows {action : Action} :
    (a.rows a.graph).action? state symbol = some action ↔
      ∃ s, a.graph.states[state]? = some s ∧ (a.actionRow s).get? symbol = some action := by
  rw [ParseTable.action?, rows, List.getElem?_map, Option.bind_map, Option.bind_eq_some_iff]
  rfl

theorem goto?_rows {gone : Int} :
    (a.rows a.graph).goto? state symbol = some gone ↔
      ∃ s, a.graph.states[state]? = some s ∧ (a.gotoRow s.successors).get? symbol = some gone := by
  rw [ParseTable.goto?, rows, List.getElem?_map, Option.bind_map, Option.bind_eq_some_iff]
  rfl

theorem get?_actionRow_iff (agree : Agree (a.calls s)) {action : Action} :
    (a.actionRow s).get? symbol = some action ↔
      ∃ item ∈ s.items.elements, ∃ claim, a.call? s.successors item = some (symbol, claim) ∧
        claim.action = action := by
  rw [actionRow, Dictionary.get?_map, get?_firstClaims, Option.map_eq_some_iff]
  constructor
  · rintro ⟨claim, first, rfl⟩
    obtain ⟨before, after, e, -⟩ := List.lookup_eq_some_iff.1 first
    have mem : (symbol, claim) ∈ a.calls s := by simp [e]
    obtain ⟨item, listed, call⟩ := List.mem_filterMap.1 mem
    exact ⟨item, listed, claim, call, rfl⟩
  · rintro ⟨item, listed, claim, call, rfl⟩
    have mem : (symbol, claim) ∈ a.calls s := List.mem_filterMap.2 ⟨item, listed, call⟩
    -- The first claim to the cell need not be this one, but it is for the same action.
    cases first : (a.calls s).lookup symbol with
    | none => exact absurd (List.lookup_eq_none_iff.1 first _ mem) (by simp)
    | some claim' =>
      obtain ⟨before, after, e, -⟩ := List.lookup_eq_some_iff.1 first
      have mem' : (symbol, claim') ∈ a.calls s := by simp [e]
      exact ⟨claim', rfl, agree _ mem' _ mem rfl⟩

theorem get?_gotoRow_iff {successors : Dictionary Name Nat} {gone : Int} :
    (a.gotoRow successors).get? symbol = some gone ↔
      symbol ∈ a.nonterminals ∧ ∃ target : Nat, successors.get? symbol = some target ∧
        gone = target := by
  have distinct : ((successors.entries.filter fun edge => a.nonterminals.contains edge.1).map
      fun edge => (edge.1, (edge.2 : Int))).map Prod.fst |>.Nodup := by
    rw [List.map_map]
    exact successors.distinct.sublist (List.filter_sublist.map Prod.fst)
  rw [Dictionary.get?_eq_some_iff, gotoRow, Dictionary.entries_ofList distinct]
  simp only [List.mem_map, List.mem_filter, List.contains_iff_mem, Prod.mk.injEq, Prod.exists,
    Dictionary.get?_eq_some_iff]
  constructor
  · rintro ⟨_, target, ⟨edge, listed⟩, rfl, rfl⟩
    exact ⟨listed, target, edge, rfl⟩
  · rintro ⟨listed, target, edge, rfl⟩
    exact ⟨symbol, target, ⟨edge, listed⟩, rfl, rfl⟩

theorem start_not_mem_rhs (valid : g.WellFormed) {p : Production}
    (mem : p ∈ (augment g).allProductions) : (augment g).start ∉ p.rhs := by
  have fresh : (augment g).start ∉ g.terminals ++ g.nonterminals := freshName_not_mem _ _
  intro inside
  refine fresh (List.mem_append.2 ?_)
  rcases List.mem_cons.1 mem with rfl | listed
  · rw [List.mem_singleton.1 inside]
    exact .inr valid.start
  · obtain ⟨declared, alternative⟩ := mem_productionsOf.1 listed
    exact Grammar.declares_iff.1 (valid.declared p.lhs declared p.rhs alternative _ inside)

theorem eq_nil_of_reached_start (valid : g.WellFormed) {above : List Name}
    (reached : (augment g).Reached above (augment g).start) : above = [] := by
  generalize e : (augment g).start = name at reached
  cases reached with
  | start => rfl
  | step _ mem => exact absurd (by simp [e]) (start_not_mem_rhs valid mem)

theorem endsIn_start_iff (valid : g.WellFormed) {word : List Name} :
    (augment g).EndsIn word (augment g).startProduction ↔ word = [g.start] := by
  constructor
  · rintro ⟨-, above, reached, rfl⟩
    rw [eq_nil_of_reached_start valid reached]
    rfl
  · rintro rfl
    exact ⟨List.mem_cons_self, [], .start, rfl⟩

theorem accepts_iff (valid : g.WellFormed) (here : (augment g).graph.states[state]? = some s) :
    (∃ item ∈ s.items.elements, item.next? = none ∧ item.lhs = (augment g).start) ↔
      (augment g).graph.next? 0 g.start = some state := by
  rw [← StateGraph.follow_singleton]
  constructor
  · rintro ⟨item, listed, atEnd, lhs⟩
    obtain ⟨word, follow⟩ := exists_follow_eq (StateGraph.items?_of_state here)
    have mem := List.mem_of_getElem? here
    have ends := endsIn_of_mem_completed here follow
      (mem_completed.2 ⟨listed, (next?_eq_none_iff mem listed).1 atEnd⟩)
    have rhs : item.rhs = (augment g).startProduction.rhs := by
      refine augment_startsOnce g item.rhs ?_
      rw [show (augment g).startProduction.lhs = item.lhs from lhs.symm]
      exact ends.1
    rw [lhs, rhs] at ends
    rw [← (endsIn_start_iff valid).1 ends, follow]
  · intro follow
    have accepting := valid_complete_iff.2 ((endsIn_start_iff valid).2 (Eq.refl [g.start]))
    refine ⟨_, (mem_items_iff here follow).2 accepting, ?_, rfl⟩
    rfl

/-- What stands in an action cell: what a completed item calls for, or a shift along an edge. -/
theorem action?_rows_iff {action : Action} (agree : ∀ s ∈ a.graph.states, Agree (a.calls s)) :
    (a.rows a.graph).action? state symbol = some action ↔
      symbol = Grammar.endSymbol ∧ (∃ s, a.graph.states[state]? = some s ∧
        ∃ item ∈ s.items.elements, item.next? = none ∧ a.completion item = action) ∨
      symbol ∈ a.terminals ∧ ∃ target : Nat, a.graph.next? state symbol = some target ∧
        action = .shift target := by
  rw [action?_rows]
  constructor
  · rintro ⟨s, here, cell⟩
    rw [get?_actionRow_iff (agree s (List.mem_of_getElem? here))] at cell
    obtain ⟨item, listed, claim, call, rfl⟩ := cell
    rcases call?_eq_some_iff.1 call with ⟨none, rfl, rfl⟩ | ⟨-, terminal, target, edge, rfl⟩
    · exact .inl ⟨rfl, s, here, item, listed, none, rfl⟩
    · exact .inr ⟨terminal, target, StateGraph.next?_eq_some_iff.2 ⟨s, here, edge⟩, rfl⟩
  · rintro (⟨rfl, s, here, item, listed, none, rfl⟩ | ⟨terminal, target, next, rfl⟩)
    · refine ⟨s, here, (get?_actionRow_iff (agree s (List.mem_of_getElem? here))).2 ?_⟩
      exact ⟨item, listed, _, call?_eq_some_iff.2 (.inl ⟨none, rfl, rfl⟩), rfl⟩
    · obtain ⟨s, here, edge⟩ := StateGraph.next?_eq_some_iff.1 next
      refine ⟨s, here, (get?_actionRow_iff (agree s (List.mem_of_getElem? here))).2 ?_⟩
      -- An edge bears a symbol after the dot of some item, which calls for the shift.
      obtain ⟨item, listed, stands⟩ := (successor_isSome_iff here symbol).1 (by rw [edge]; rfl)
      exact ⟨item, listed, _, call?_eq_some_iff.2 (.inr ⟨stands, terminal, target, edge, rfl⟩), rfl⟩

theorem shift_rows_iff (agree : ∀ s ∈ a.graph.states, Agree (a.calls s)) {shifted : Int} :
    (a.rows a.graph).action? state symbol = some (.shift shifted) ↔ symbol ∈ a.terminals ∧
      ∃ target : Nat, a.graph.next? state symbol = some target ∧ shifted = target := by
  rw [action?_rows_iff agree]
  constructor
  · rintro (⟨-, s, -, item, -, -, e⟩ | ⟨terminal, target, next, e⟩)
    · rcases completion_cases a item with ⟨-, e'⟩ | ⟨-, e'⟩ <;> rw [e'] at e <;> cases e
    · exact ⟨terminal, target, next, Action.shift.inj e⟩
  · rintro ⟨terminal, target, next, rfl⟩
    exact .inr ⟨terminal, target, next, rfl⟩

theorem accept_rows_iff (valid : g.WellFormed)
    (agree : ∀ s ∈ (augment g).graph.states, Agree ((augment g).calls s)) :
    ((augment g).rows (augment g).graph).action? state symbol = some .accept ↔
      symbol = Grammar.endSymbol ∧ (augment g).graph.next? 0 g.start = some state := by
  rw [action?_rows_iff agree]
  constructor
  · rintro (⟨rfl, s, here, item, listed, none, e⟩ | ⟨-, target, -, e⟩)
    · rcases completion_cases (augment g) item with ⟨lhs, -⟩ | ⟨-, e'⟩
      · exact ⟨rfl, (accepts_iff valid here).1 ⟨item, listed, none, lhs⟩⟩
      · rw [e'] at e
        cases e
    · cases e
  · rintro ⟨rfl, next⟩
    obtain ⟨s, here⟩ := exists_state_of_follow ((StateGraph.follow_singleton _ _).trans next)
    obtain ⟨item, listed, none, lhs⟩ := (accepts_iff valid here).2 next
    exact .inl ⟨rfl, s, here, item, listed, none, if_pos lhs⟩

theorem reduce_rows_iff (agree : ∀ s ∈ (augment g).graph.states, Agree ((augment g).calls s))
    {name : Name} {production : Int} {count : Nat} :
    ((augment g).rows (augment g).graph).action? state symbol =
        some (.reduce name production count) ↔
      symbol = Grammar.endSymbol ∧ ∃ items item, (augment g).graph.items? state = some items ∧
        item ∈ items ∧ item.atEnd = true ∧ item.lhs = name ∧ name ≠ (augment g).start ∧
        item.rhs.length = count ∧ ∃ index : Nat, production = index ∧
          (productionsOf g)[index]? = some ⟨item.lhs, item.rhs⟩ ∧
          ∀ earlier < index, (productionsOf g)[earlier]? ≠ some ⟨item.lhs, item.rhs⟩ := by
  rw [action?_rows_iff agree]
  constructor
  · rintro (⟨rfl, s, here, item, listed, none, e⟩ | ⟨-, target, -, e⟩)
    · have mem := List.mem_of_getElem? here
      rcases completion_cases (augment g) item with ⟨-, e'⟩ | ⟨other, e'⟩
      · rw [e'] at e
        cases e
      · obtain ⟨rfl, rfl, rfl⟩ := Action.reduce.inj (e'.symm.trans e)
        have known := mem_productions (mem_everyItem_of_state mem listed) other
        exact ⟨rfl, s.items, item, StateGraph.items?_of_state here, listed,
          (next?_eq_none_iff mem listed).1 none, rfl, other, rfl, _, rfl, (eq_idxOf_iff known).1 rfl⟩
    · cases e
  · rintro ⟨rfl, items, item, found, listed, atEnd, rfl, other, rfl, index, rfl, first⟩
    obtain ⟨s, here, rfl⟩ := Option.map_eq_some_iff.1 found
    have mem := List.mem_of_getElem? here
    have known := mem_productions (mem_everyItem_of_state mem listed) other
    refine .inl ⟨rfl, s, here, item, listed, (next?_eq_none_iff mem listed).2 atEnd, ?_⟩
    rw [(eq_idxOf_iff known).2 first]
    exact if_neg other

theorem goto_rows_iff (valid : g.WellFormed) {gone : Int} :
    ((augment g).rows (augment g).graph).goto? state symbol = some gone ↔
      symbol ∈ g.nonterminals ∧ ∃ target : Nat,
        (augment g).graph.next? state symbol = some target ∧ gone = target := by
  rw [goto?_rows]
  constructor
  · rintro ⟨s, here, cell⟩
    obtain ⟨listed, target, edge, rfl⟩ := get?_gotoRow_iff.1 cell
    refine ⟨(List.mem_cons.1 listed).resolve_left ?_, target,
      StateGraph.next?_eq_some_iff.2 ⟨s, here, edge⟩, rfl⟩
    -- The fresh start symbol stands after no dot, so that no edge bears it.
    rintro rfl
    obtain ⟨item, mem, next⟩ := (successor_isSome_iff here _).1 (by rw [edge]; rfl)
    have every := mem_everyItem.1 (mem_everyItem_of_state (List.mem_of_getElem? here) mem)
    exact start_not_mem_rhs valid every.1 (List.mem_of_getElem? next)
  · rintro ⟨listed, target, next, rfl⟩
    obtain ⟨s, here, edge⟩ := StateGraph.next?_eq_some_iff.1 next
    exact ⟨s, here, get?_gotoRow_iff.2 ⟨List.mem_cons_of_mem _ listed, target, edge, rfl⟩⟩

theorem exists_accepting (valid : g.WellFormed) :
    ∃ state, (augment g).graph.next? 0 g.start = some state := by
  have accepting := valid_complete_iff.2 ((endsIn_start_iff valid).2 (Eq.refl [g.start]))
  obtain ⟨state, s, -, follow⟩ := exists_state accepting
  rw [StateGraph.follow_singleton] at follow
  exact ⟨state, follow⟩

end Augmented

open Augmented

/-- A table that is built has just the cells that the graph calls for. -/
theorem tableOf_tabulates {g : Grammar} {t : ParseTable} (valid : g.problem? = none)
    (built : (augment g).tableOf (augment g).graph = .ok t) : Tabulates g t := by
  have reserved := endSymbol_not_mem valid
  have wellFormed := Grammar.problem?_eq_none_iff.1 valid
  rcases uncontested_or (augment g).graph with none | ⟨number, i, j, first⟩
  · have agree : ∀ s ∈ (augment g).graph.states, Agree ((augment g).calls s) := fun s mem =>
      (fills_of_completed reserved mem (none s mem)).agree
    obtain rfl : (augment g).rows (augment g).graph = t :=
      Except.ok.inj ((tableOf_uncontested reserved none).symm.trans built)
    constructor
    · exact List.length_map _
    · exact List.length_map _
    · rfl
    · exact fun _ _ _ => shift_rows_iff agree
    · exact fun _ _ _ _ _ => reduce_rows_iff agree
    · exact fun _ _ => accept_rows_iff wellFormed agree
    · exact exists_accepting wellFormed
    · exact fun _ _ _ => goto_rows_iff wellFormed
  · obtain ⟨path, -, -, refused⟩ := tableOf_contested reserved first
    rw [refused] at built
    cases built

def rightRecursive : Grammar :=
  ⟨["a", "b"], ["S"], "S", .ofList [("S", [["a", "S"], ["b"]])]⟩

def rightRecursiveTable : ParseTable where
  actions :=
    [.ofList [("a", .shift 2), ("b", .shift 3)], .ofList [("$", .accept)],
      .ofList [("a", .shift 2), ("b", .shift 3)], .ofList [("$", .reduce "S" 1 1)],
      .ofList [("$", .reduce "S" 0 2)]]
  gotos := [.ofList [("S", 1)], .empty, .ofList [("S", 4)], .empty, .empty]
  productions := [⟨"S", ["a", "S"]⟩, ⟨"S", ["b"]⟩]

theorem tableOf_tabulates_rightRecursive : rightRecursive.problem? = none ∧
    (augment rightRecursive).tableOf (augment rightRecursive).graph = .ok rightRecursiveTable ∧
      Tabulates rightRecursive rightRecursiveTable := by
  have valid : rightRecursive.problem? = none := by decide
  have built : (augment rightRecursive).tableOf (augment rightRecursive).graph =
    .ok rightRecursiveTable := by decide +kernel
  exact ⟨valid, built, tableOf_tabulates valid built⟩

end DeclarationChecker.Lr
