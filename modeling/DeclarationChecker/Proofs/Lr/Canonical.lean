import Mathlib.Data.List.TakeWhile
import DeclarationChecker.Proofs.Lr.States

set_option autoImplicit false

namespace DeclarationChecker.Lr

variable {a : Augmented} {items : ItemSet} {state : Nat}

theorem Exploration.explore_add {found : List Explored} {due : List ItemSet} {room : Nat}
    (h : Exploration a found due) (enough : 2 ^ a.everyItem.length ≤ found.length + room)
    (more : Nat) : a.explore (room + more) found due = a.explore room found due := by
  induction room, found, due using Augmented.explore.induct a with
  | case1 found due =>
    have known : ∀ items ∈ due, (found.any fun e => e.items = items) = true := fun items mem =>
      any_items_iff.2 (h.found_of_due enough mem)
    rw [Nat.zero_add, Augmented.explore]
    cases more with
    | zero => rfl
    | succ more => rw [Augmented.explore, List.dropWhile_eq_nil_iff.2 known]
  | case2 room found due none =>
    rw [Nat.succ_add, Augmented.explore, Augmented.explore, none]
  | case3 room found due items rest some moves ih =>
    have left := h.dropWhile
    have new := List.head?_dropWhile_not (fun items => found.any fun e => e.items = items) due
    rw [Nat.succ_add, Augmented.explore, Augmented.explore, some]
    rw [some] at left new
    refine ih (left.visit ?_) ?_
    · rw [← any_items_iff, Bool.not_eq_true]
      exact new
    · rw [List.length_append, List.length_singleton]
      omega

namespace Augmented

/-- The room that the collection is given is more than enough. -/
theorem explore_eq_collection {room : Nat} (enough : 2 ^ a.everyItem.length ≤ room) :
    a.explore room [] [a.closure [a.startItem]] = a.collection := by
  have ends := Exploration.start.explore_add (Nat.le_add_left (2 ^ a.everyItem.length) 0)
    (room - 2 ^ a.everyItem.length)
  rw [Nat.add_sub_cancel' enough] at ends
  exact ends

/-- The least family of item sets that has the first set and, with any set, those that a symbol
leads to from it, unless they are empty. -/
inductive Canonical (a : Augmented) : ItemSet → Prop
  | start : Canonical a (a.closure [a.startItem])
  | goto {items : ItemSet} {symbol : Name} (h : Canonical a items)
      (nonempty : ∃ item, item ∈ a.goto items symbol) : Canonical a (a.goto items symbol)

theorem canonical_iff : a.Canonical items ↔ a.Reaches items := by
  constructor
  · intro h
    induction h with
    | start => exact .start
    | goto _ nonempty ih =>
      obtain ⟨item, mem⟩ := nonempty
      obtain ⟨before, old, next, -⟩ := mem_goto.1 mem
      exact ih.goto (mem_nextSymbols.2 ⟨before, old, next⟩)
  · rintro ⟨nonempty, word, rfl⟩
    induction word using List.reverseRecOn with
    | nil => exact .start
    | append_singleton word symbol ih =>
      rw [after_append_singleton] at nonempty ⊢
      obtain ⟨item, mem⟩ := nonempty
      obtain ⟨before, old, -⟩ := mem_goto.1 mem
      exact .goto (ih ⟨before, old⟩) ⟨item, mem⟩

theorem mem_states_iff : items ∈ a.graph.states.map GraphState.items ↔ a.Canonical items := by
  rw [map_items_graph, mem_collection_iff, canonical_iff]

theorem nodup_items (a : Augmented) : (a.graph.states.map GraphState.items).Nodup := by
  rw [map_items_graph]
  exact a.collection_exploration.distinct

theorem get?_successors {s : GraphState} (h : a.graph.states[state]? = some s) (symbol : Name) :
    s.successors.get? symbol =
      if symbol ∈ s.items.nextSymbols then a.graph.index? (a.goto s.items symbol) else none := by
  rw [← StateGraph.next?_of_state h, next?_of_items? (StateGraph.items?_of_state h)]

theorem index?_goto_isSome {s : GraphState} (h : a.graph.states[state]? = some s) {symbol : Name}
    (next : symbol ∈ s.items.nextSymbols) : (a.graph.index? (a.goto s.items symbol)).isSome = true := by
  rw [index?_isSome_iff]
  refine Reaches.goto ?_ next
  rw [← canonical_iff, ← mem_states_iff]
  exact List.mem_map_of_mem (List.mem_of_getElem? h)

theorem successor_isSome_iff {s : GraphState} (h : a.graph.states[state]? = some s)
    (symbol : Name) : (s.successors.get? symbol).isSome = true ↔
      ∃ item, item ∈ s.items ∧ item.next? = some symbol := by
  rw [get?_successors h, ← mem_nextSymbols]
  split
  · rename_i next
    exact iff_of_true (index?_goto_isSome h next) next
  · rename_i none
    exact iff_of_false Bool.false_ne_true none

theorem items?_successor {s : GraphState} (h : a.graph.states[state]? = some s) {symbol : Name}
    {target : Nat} (edge : s.successors.get? symbol = some target) :
    a.graph.items? target = some (a.goto s.items symbol) := by
  rw [get?_successors h] at edge
  split at edge
  · exact index?_eq_some_iff.1 edge
  · cases edge

/-- The graph of a grammar is its canonical collection. The first state is the closure of the start
item. Each set of the least family is the item set of one state, which is found under that set. The
edges of a state bear the symbols after its dots and lead where these symbols lead. -/
theorem graph_canonical (g : Grammar) :
    (∀ room, 2 ^ (augment g).everyItem.length ≤ room →
      (augment g).explore room [] [(augment g).closure [(augment g).startItem]] =
        (augment g).collection) ∧
    (augment g).graph.items? 0 = some ((augment g).closure
      [⟨(augment g).start, [g.start], 0, Grammar.endSymbol⟩]) ∧
    ((augment g).graph.states.map GraphState.items).Nodup ∧
    (∀ items, items ∈ (augment g).graph.states.map GraphState.items ↔ (augment g).Canonical items) ∧
    (∀ items state, (augment g).graph.index? items = some state ↔
      (augment g).graph.items? state = some items) ∧
    ∀ (state : Nat) (s : GraphState), (augment g).graph.states[state]? = some s → ∀ symbol,
      ((s.successors.get? symbol).isSome = true ↔
        ∃ item, item ∈ s.items ∧ item.next? = some symbol) ∧
      ∀ target, s.successors.get? symbol = some target →
        (augment g).graph.items? target = some ((augment g).goto s.items symbol) := by
  refine ⟨fun room => explore_eq_collection, ?_, nodup_items _, fun items => mem_states_iff,
    fun items state => index?_eq_some_iff, fun state s h symbol => ⟨?_, fun target => ?_⟩⟩
  · obtain ⟨rest, e⟩ := (augment g).collection_eq_cons
    rw [items?_eq, e]
    rfl
  · exact successor_isSome_iff h symbol
  · exact items?_successor h

end Augmented

end DeclarationChecker.Lr
