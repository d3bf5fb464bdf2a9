import DeclarationChecker.Proofs.Lr.Path
import DeclarationChecker.Proofs.Lr.Row

set_option autoImplicit false

namespace DeclarationChecker.Lr

/-- Either all elements have the property, or there is a first one that has not. -/
theorem all_or_first {α : Type} (p : α → Prop) (xs : List α) : (∀ x ∈ xs, p x) ∨
    ∃ before x after, xs = before ++ x :: after ∧ (∀ y ∈ before, p y) ∧ ¬ p x := by
  induction xs with
  | nil => exact .inl fun x mem => absurd mem List.not_mem_nil
  | cons x xs ih =>
    by_cases here : p x
    · rcases ih with all | ⟨before, y, after, rfl, earlier, fails⟩
      · exact .inl (List.forall_mem_cons.2 ⟨here, all⟩)
      · exact .inr ⟨x :: before, y, after, rfl, List.forall_mem_cons.2 ⟨here, earlier⟩, fails⟩
    · exact .inr ⟨[], x, xs, rfl, fun y mem => absurd mem List.not_mem_nil, here⟩

namespace Augmented

variable {a : Augmented} {s : GraphState} {states : List GraphState}

def actionRow (a : Augmented) (s : GraphState) : Dictionary Name Action :=
  (firstClaims (a.calls s)).map Claim.action

/-- All rows, whether or not they can be written. -/
def rows (a : Augmented) (graph : StateGraph) : ParseTable :=
  ⟨graph.states.map a.actionRow, graph.states.map fun s => a.gotoRow s.successors, a.productions⟩

structure Fills (a : Augmented) (s : GraphState) : Prop where
  writable : ∀ item ∈ s.items.elements, a.Writable s.successors item
  agree : Agree (a.calls s)

theorem foldlM_writeState (h : ∀ s ∈ states, a.Fills s) (b : TableBuilder) (number : Nat) :
    ∃ b', (states.zipIdx number).foldlM a.writeState b = .ok b' ∧ b'.graph = b.graph ∧
      b'.settled.actions = b.settled.actions ++ states.map a.actionRow ∧
      b'.settled.gotos = b.settled.gotos ++ states.map fun s => a.gotoRow s.successors := by
  induction states generalizing b number with
  | nil => exact ⟨b, rfl, rfl, (List.append_nil _).symm, (List.append_nil _).symm⟩
  | cons s states ih =>
    obtain ⟨here, others⟩ := List.forall_mem_cons.1 h
    obtain ⟨b', filled, graph, actions, gotos⟩ := ih others (b.settled.writing
      ⟨number, firstClaims (a.calls s), a.gotoRow s.successors, 0⟩) (number + 1)
    refine ⟨b', ?_, ?_, ?_, ?_⟩
    · rw [List.zipIdx_cons, List.foldlM_cons, writeState_eq here.writable here.agree]
      exact filled
    · rw [graph]
      exact b.graph_settled
    · rw [actions, TableBuilder.settled_writing]
      exact List.append_assoc _ [a.actionRow s] _
    · rw [gotos, TableBuilder.settled_writing]
      exact List.append_assoc _ [a.gotoRow s.successors] _

theorem tableOf_eq {graph : StateGraph} (h : ∀ s ∈ graph.states, a.Fills s) :
    a.tableOf graph = .ok (a.rows graph) := by
  obtain ⟨b, filled, -, actions, gotos⟩ := foldlM_writeState h (.ofGraph graph) 0
  have table : b.flushRow.table a.productions = ⟨b.settled.actions, b.settled.gotos, a.productions⟩ :=
    rfl
  rw [tableOf, filled]
  change Except.ok (b.flushRow.table a.productions) = _
  rw [table, actions, gotos]
  rfl

theorem tableOf_error {graph : StateGraph} {before after : List GraphState} {fault : TableFault}
    (split : graph.states = before ++ s :: after) (h : ∀ s ∈ before, a.Fills s)
    (refused : ∀ b : TableBuilder, b.graph = graph →
      a.writeState b (s, before.length) = .error fault) :
    a.tableOf graph = .error fault := by
  obtain ⟨b, filled, same, -⟩ := foldlM_writeState h (.ofGraph graph) 0
  rw [tableOf, split, List.zipIdx_append, List.foldlM_append, filled, List.zipIdx_cons, Nat.zero_add]
  change (List.foldlM _ _ _ : Except TableFault TableBuilder) >>= _ = _
  rw [List.foldlM_cons, refused b same]
  rfl

variable {number : Nat} {item : Item}

theorem mem_everyItem_of_state (h : s ∈ a.graph.states) (mem : item ∈ s.items) :
    item ∈ a.everyItem := by
  have listed : s.items ∈ a.graph.states.map GraphState.items := List.mem_map_of_mem h
  rw [map_items_graph, mem_collection_iff] at listed
  exact listed.mem_everyItem mem

theorem mem_productions {g : Grammar} (h : item ∈ (augment g).everyItem)
    (other : item.lhs ≠ (augment g).start) : ⟨item.lhs, item.rhs⟩ ∈ (augment g).productions :=
  (List.mem_cons.1 (mem_everyItem.1 h).1).resolve_left fun e => other (congrArg Production.lhs e)

theorem writable_of_mem {g : Grammar} (h : s ∈ (augment g).graph.states) :
    ∀ item ∈ s.items.elements, (augment g).Writable s.successors item := by
  intro item mem
  obtain ⟨number, here⟩ := List.getElem?_of_mem h
  have every := mem_everyItem_of_state h mem
  refine ⟨(mem_everyItem.1 every).2.2, mem_productions every, fun symbol next => ?_⟩
  rw [← Option.isSome_iff_exists, successor_isSome_iff here]
  exact ⟨item, mem, next⟩

theorem graph_closed (a : Augmented) : a.graph.Closed := by
  intro state edges leads edge mem
  obtain ⟨s, here, rfl⟩ := Option.map_eq_some_iff.1 leads
  have found := items?_successor here ((Dictionary.get?_eq_some_iff _ _ _).2 mem)
  obtain ⟨target, there, -⟩ := Option.map_eq_some_iff.1 found
  exact (List.getElem?_eq_some_iff.1 there).1

theorem size_pos (a : Augmented) : 0 < a.graph.size := by
  obtain ⟨rest, e⟩ := a.collection_eq_cons
  rw [size_graph, e]
  exact Nat.succ_pos _

theorem exists_path (h : a.graph.states[number]? = some s) :
    ∃ path, a.graph.path number = .ok path ∧ a.graph.follow path = some number := by
  obtain ⟨word, follow⟩ := exists_follow_eq (StateGraph.items?_of_state h)
  exact StateGraph.exists_path a.graph_closed a.size_pos follow

end Augmented

end DeclarationChecker.Lr
