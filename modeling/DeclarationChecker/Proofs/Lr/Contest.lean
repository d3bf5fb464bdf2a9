import DeclarationChecker.Proofs.Grammar.Validity
import DeclarationChecker.Proofs.Lr.Filling

set_option autoImplicit false

/-!
Which rows are refused. In a well-formed grammar, the cell of the end symbol is claimed by completed
items only, each for an action of its own, and all other cells by shifts along one edge. So a state
is contested just if two of its items are complete.
-/

namespace DeclarationChecker.Lr

variable {a : Augmented} {g : Grammar} {s : GraphState} {item i j : Item} {items : List Item}
  {successors : Dictionary Name Nat}

def completed (s : GraphState) : List Item := s.items.elements.filter Item.atEnd

theorem Item.next?_eq_none_iff (inside : item.dot ≤ item.rhs.length) :
    item.next? = none ↔ item.atEnd = true := by
  rw [Item.next?, List.getElem?_eq_none_iff, Item.atEnd, decide_eq_true_eq]
  omega

theorem mem_completed : item ∈ completed s ↔ item ∈ s.items ∧ item.atEnd = true := List.mem_filter

theorem completed_ascending (s : GraphState) :
    (completed s).Pairwise fun x y => compare x y = .lt :=
  s.items.ascending.filter Item.atEnd

theorem eq_of_mem_completed (one : (completed s).length ≤ 1) (hi : i ∈ completed s)
    (hj : j ∈ completed s) : i = j := by
  match e : completed s, one with
  | [], _ =>
    rw [e] at hi
    cases hi
  | [only], _ =>
    rw [e] at hi hj
    rw [List.mem_singleton.1 hi, List.mem_singleton.1 hj]

def Uncontested (graph : StateGraph) : Prop := ∀ s ∈ graph.states, (completed s).length ≤ 1

def FirstContest (graph : StateGraph) (number : Nat) (i j : Item) : Prop :=
  ∃ before s after rest, graph.states = before ++ s :: after ∧ before.length = number ∧
    (∀ t ∈ before, (completed t).length ≤ 1) ∧ completed s = i :: j :: rest

theorem FirstContest.exists_state {graph : StateGraph} {number : Nat}
    (h : FirstContest graph number i j) :
    ∃ s rest, graph.states[number]? = some s ∧ completed s = i :: j :: rest := by
  obtain ⟨before, s, after, rest, split, rfl, -, contested⟩ := h
  refine ⟨s, rest, ?_, contested⟩
  rw [split, List.getElem?_append_right (Nat.le_refl _), Nat.sub_self]
  rfl

theorem uncontested_or (graph : StateGraph) :
    Uncontested graph ∨ ∃ number i j, FirstContest graph number i j := by
  rcases all_or_first (fun s => (completed s).length ≤ 1) graph.states with
    none | ⟨before, s, after, split, earlier, contested⟩
  · exact .inl none
  · match e : completed s with
    | i :: j :: rest => exact .inr ⟨_, i, j, before, s, after, rest, split, rfl, earlier, e⟩
    | [] | [_] =>
      rw [e] at contested
      exact absurd (by simp) contested

namespace Augmented

theorem next?_eq_none_iff (h : s ∈ a.graph.states) (mem : item ∈ s.items) :
    item.next? = none ↔ item.atEnd = true :=
  Item.next?_eq_none_iff (mem_everyItem.1 (mem_everyItem_of_state h mem)).2.1

theorem call?_eq_some_iff {symbol : Name} {claim : Claim} :
    a.call? successors item = some (symbol, claim) ↔
      item.next? = none ∧ symbol = Grammar.endSymbol ∧ claim = ⟨item, a.completion item⟩ ∨
      item.next? = some symbol ∧ symbol ∈ a.terminals ∧
        ∃ target : Nat, successors.get? symbol = some target ∧ claim = ⟨item, .shift target⟩ := by
  unfold call?
  cases next : item.next? with
  | none => simp [eq_comm]
  | some symbol' =>
    dsimp only
    by_cases terminal : symbol' ∈ a.terminals
    · simp only [if_pos terminal, Option.map_eq_some_iff, Prod.mk.injEq, reduceCtorEq, false_and,
        false_or, Option.some.injEq]
      constructor
      · rintro ⟨target, edge, rfl, rfl⟩
        exact ⟨rfl, terminal, target, edge, rfl⟩
      · rintro ⟨rfl, -, target, edge, rfl⟩
        exact ⟨target, edge, rfl, rfl⟩
    · simp only [if_neg terminal, reduceCtorEq, false_and, false_or, Option.some.injEq, false_iff]
      rintro ⟨rfl, listed, -⟩
      exact terminal listed

theorem agree_of_one (reserved : Grammar.endSymbol ∉ a.terminals)
    (one : ∀ i ∈ items, ∀ j ∈ items, i.next? = none → j.next? = none → i = j) :
    Agree (items.filterMap (a.call? successors)) := by
  rintro ⟨symbol, x⟩ hx ⟨symbol', y⟩ hy same
  obtain rfl : symbol = symbol' := same
  obtain ⟨i, memI, callI⟩ := List.mem_filterMap.1 hx
  obtain ⟨j, memJ, callJ⟩ := List.mem_filterMap.1 hy
  rcases call?_eq_some_iff.1 callI with ⟨endI, rfl, rfl⟩ | ⟨-, terminal, target, edge, rfl⟩
  · rcases call?_eq_some_iff.1 callJ with ⟨endJ, -, rfl⟩ | ⟨-, terminal, -⟩
    · rw [one i memI j memJ endI endJ]
    · exact absurd terminal reserved
  · rcases call?_eq_some_iff.1 callJ with ⟨-, rfl, -⟩ | ⟨-, -, target', edge', rfl⟩
    · exact absurd terminal reserved
    · rw [edge] at edge'
      rw [Option.some.inj edge']

theorem completion_cases (a : Augmented) (item : Item) :
    item.lhs = a.start ∧ a.completion item = .accept ∨
      item.lhs ≠ a.start ∧ a.completion item =
        .reduce item.lhs (a.productions.idxOf ⟨item.lhs, item.rhs⟩) item.rhs.length := by
  unfold completion
  split
  · rename_i start
    exact .inl ⟨start, rfl⟩
  · rename_i other
    exact .inr ⟨other, rfl⟩

/-- Completed items of different productions call for different actions. -/
theorem completion_inj (hi : i ∈ (augment g).everyItem) (hj : j ∈ (augment g).everyItem)
    (same : (augment g).completion i = (augment g).completion j) : i.lhs = j.lhs ∧ i.rhs = j.rhs := by
  rcases completion_cases (augment g) i with ⟨startI, e⟩ | ⟨otherI, e⟩ <;>
    rcases completion_cases (augment g) j with ⟨startJ, e'⟩ | ⟨-, e'⟩ <;> rw [e, e'] at same
  · have listedI := (mem_everyItem.1 hi).1
    have listedJ := (mem_everyItem.1 hj).1
    rw [startI] at listedI
    rw [startJ] at listedJ
    have rhs := (augment_startsOnce g i.rhs listedI).trans (augment_startsOnce g j.rhs listedJ).symm
    exact ⟨startI.trans startJ.symm, rhs⟩
  · cases same
  · cases same
  · injection same with lhs index _
    have e := (List.idxOf_inj (mem_productions hi otherI)).1 (Int.ofNat_inj.1 index)
    exact ⟨lhs, congrArg Production.rhs e⟩

theorem fills_of_completed (reserved : Grammar.endSymbol ∉ g.terminals)
    (h : s ∈ (augment g).graph.states) (one : (completed s).length ≤ 1) : (augment g).Fills s := by
  refine ⟨writable_of_mem h, agree_of_one reserved fun i memI j memJ endI endJ => ?_⟩
  exact eq_of_mem_completed one (mem_completed.2 ⟨memI, (next?_eq_none_iff h memI).1 endI⟩)
    (mem_completed.2 ⟨memJ, (next?_eq_none_iff h memJ).1 endJ⟩)

theorem eq_complete (h : s ∈ a.graph.states) (mem : item ∈ completed s) :
    item = ⟨item.lhs, item.rhs, item.rhs.length, Grammar.endSymbol⟩ := by
  obtain ⟨listed, atEnd⟩ := mem_completed.1 mem
  rw [Item.atEnd, decide_eq_true_eq] at atEnd
  rw [← (mem_everyItem.1 (mem_everyItem_of_state h listed)).2.2, ← atEnd]

/-- Completed items of one state are told apart by their productions. -/
theorem completion_ne (h : s ∈ (augment g).graph.states) {rest : List Item}
    (contested : completed s = i :: j :: rest) :
    (augment g).completion i ≠ (augment g).completion j := by
  intro same
  have memI : i ∈ completed s := contested ▸ List.mem_cons_self
  have memJ : j ∈ completed s := contested ▸ List.mem_cons_of_mem _ List.mem_cons_self
  obtain ⟨lhs, rhs⟩ := completion_inj (mem_everyItem_of_state h (mem_completed.1 memI).1)
    (mem_everyItem_of_state h (mem_completed.1 memJ).1) same
  have e : i = j := by rw [eq_complete h memI, eq_complete h memJ, lhs, rhs]
  have ascending := completed_ascending s
  rw [contested, e] at ascending
  exact SortedSet.not_lt_self j ((List.pairwise_cons.1 ascending).1 j List.mem_cons_self)

/-- The two completed items that come first contest the cell of the end symbol. -/
def contest (a : Augmented) (number : Nat) (path : List Name) (i j : Item) : Conflict :=
  ⟨number, Grammar.endSymbol, path, ⟨i, a.completion i⟩, ⟨j, a.completion j⟩⟩

theorem contest_kind (a : Augmented) (number : Nat) (path : List Name) (i j : Item) :
    (a.contest number path i j).kind = .reduceReduce := by
  change ConflictKind.of (a.completion i) (a.completion j) = _
  rcases completion_cases a i with ⟨-, e⟩ | ⟨-, e⟩ <;>
    rcases completion_cases a j with ⟨-, e'⟩ | ⟨-, e'⟩ <;> rw [e, e'] <;> rfl

theorem call?_of_completed (h : s ∈ a.graph.states) (mem : item ∈ completed s) :
    a.call? successors item = some (Grammar.endSymbol, ⟨item, a.completion item⟩) := by
  obtain ⟨listed, atEnd⟩ := mem_completed.1 mem
  exact call?_eq_some_iff.2 (.inl ⟨(next?_eq_none_iff h listed).2 atEnd, rfl, rfl⟩)

theorem lookup_calls_of_open (reserved : Grammar.endSymbol ∉ a.terminals)
    (h : ∀ item ∈ items, item.next? ≠ none) (rest : List Call) (claim : Claim) :
    (items.filterMap (a.call? successors) ++ (Grammar.endSymbol, claim) :: rest).lookup
      Grammar.endSymbol = some claim := by
  rw [List.lookup_eq_some_iff]
  refine ⟨_, _, rfl, fun call mem => ?_⟩
  obtain ⟨item, listed, call⟩ := List.mem_filterMap.1 mem
  rw [bne_iff_ne]
  rintro e
  rcases call?_eq_some_iff.1 call with ⟨none, -⟩ | ⟨-, terminal, -⟩
  · exact h item listed none
  · exact reserved (e ▸ terminal)

theorem writeState_contested (reserved : Grammar.endSymbol ∉ g.terminals)
    (h : s ∈ (augment g).graph.states) {rest : List Item} (contested : completed s = i :: j :: rest)
    {number : Nat} {path : List Name} {b : TableBuilder} (found : b.graph.path number = .ok path) :
    (augment g).writeState b (s, number) =
      .error (.conflict ((augment g).contest number path i j)) := by
  have different := completion_ne h contested
  have callI : (augment g).call? s.successors i = some (Grammar.endSymbol, _) :=
    call?_of_completed h (contested ▸ List.mem_cons_self)
  have callJ : (augment g).call? s.successors j = some (Grammar.endSymbol, _) :=
    call?_of_completed h (contested ▸ List.mem_cons_of_mem _ List.mem_cons_self)
  obtain ⟨before, more, split, open₁, endI, contested⟩ := List.filter_eq_cons_iff.1 contested
  obtain ⟨between, after, rfl, open₂, endJ, -⟩ := List.filter_eq_cons_iff.1 contested
  have split' : s.items.elements = (before ++ i :: between) ++ j :: after := by
    rw [split, List.append_assoc, List.cons_append]
  have ending : ∀ item ∈ before ++ i :: between, item.next? = none → item.atEnd = true := by
    intro item mem
    have listed : item ∈ s.items.elements := split' ▸ List.mem_append_left _ mem
    exact (next?_eq_none_iff h listed).1
  refine writeState_conflict (writable_of_mem h) split' ?_ callJ ?_ different found
  · -- No item before the second one is complete, but for the first one.
    have only : ∀ item ∈ before ++ i :: between, item.next? = none → item = i := by
      intro item mem none
      have complete := ending item mem none
      rcases List.mem_append.1 mem with left | right
      · exact absurd complete (open₁ item left)
      · exact (List.mem_cons.1 right).resolve_right fun right => open₂ item right complete
    exact agree_of_one reserved fun x memX y memY endX endY =>
      (only x memX endX).trans (only y memY endY).symm
  · rw [List.filterMap_append, List.filterMap_cons, callI]
    exact lookup_calls_of_open reserved
      (fun item left none => open₁ item left (ending item (List.mem_append_left _ left) none)) _ _

theorem tableOf_uncontested (reserved : Grammar.endSymbol ∉ g.terminals)
    (h : Uncontested (augment g).graph) :
    (augment g).tableOf (augment g).graph = .ok ((augment g).rows (augment g).graph) :=
  tableOf_eq fun s mem => fills_of_completed reserved mem (h s mem)

theorem tableOf_contested (reserved : Grammar.endSymbol ∉ g.terminals) {number : Nat}
    (h : FirstContest (augment g).graph number i j) :
    ∃ path, (augment g).graph.path number = .ok path ∧
      (augment g).graph.follow path = some number ∧
      (augment g).tableOf (augment g).graph =
        .error (.conflict ((augment g).contest number path i j)) := by
  obtain ⟨t, -, here, -⟩ := h.exists_state
  obtain ⟨path, found, leads⟩ := exists_path here
  obtain ⟨before, s, after, rest, split, rfl, one, contested⟩ := h
  refine ⟨path, found, leads, tableOf_error split (fun t left => ?_) fun b same => ?_⟩
  · refine fills_of_completed reserved ?_ (one t left)
    rw [split]
    exact List.mem_append_left _ left
  · refine writeState_contested reserved ?_ contested (same ▸ found)
    rw [split]
    exact List.mem_append_right _ List.mem_cons_self

end Augmented

theorem endSymbol_not_mem (valid : g.problem? = none) : Grammar.endSymbol ∉ g.terminals := by
  intro mem
  have reserved := (Grammar.problem?_eq_none_iff.1 valid).reserved
  rw [Grammar.declares_iff.2 (.inl mem)] at reserved
  cases reserved

theorem judge_uncontested (valid : g.problem? = none) (h : Uncontested (augment g).graph) :
    judge g = .ok (.accepted ((augment g).rows (augment g).graph)) := by
  unfold judge
  rw [valid]
  dsimp only
  rw [Augmented.tableOf_uncontested (endSymbol_not_mem valid) h]

theorem judge_contested (valid : g.problem? = none) {number : Nat}
    (h : FirstContest (augment g).graph number i j) :
    ∃ path, (augment g).graph.path number = .ok path ∧
      (augment g).graph.follow path = some number ∧
      judge g =
        .ok (.conflicting (augment g).graph.size ((augment g).contest number path i j)) := by
  obtain ⟨path, found, leads, refused⟩ := Augmented.tableOf_contested (endSymbol_not_mem valid) h
  refine ⟨path, found, leads, ?_⟩
  unfold judge
  rw [valid]
  dsimp only
  rw [refused]

end DeclarationChecker.Lr
