import DeclarationChecker.Proofs.Lr.Collection

set_option autoImplicit false

namespace DeclarationChecker.Lr

namespace StateGraph

def next? (g : StateGraph) (state : Nat) (symbol : Name) : Option Nat :=
  (g.successors? state).bind fun edges => edges.get? symbol

def follow (g : StateGraph) (word : List Name) : Option Nat := word.foldlM g.next? 0

theorem follow_append_singleton (g : StateGraph) (word : List Name) (symbol : Name) :
    g.follow (word ++ [symbol]) = (g.follow word).bind fun state => g.next? state symbol := by
  rw [follow, List.foldlM_append]
  simp only [List.foldlM_cons, List.foldlM_nil, bind_pure]
  rfl

theorem follow_singleton (g : StateGraph) (symbol : Name) : g.follow [symbol] = g.next? 0 symbol :=
  follow_append_singleton g [] symbol

def items? (g : StateGraph) (state : Nat) : Option ItemSet := (g.states[state]?).map GraphState.items

theorem items?_of_state {g : StateGraph} {state : Nat} {s : GraphState}
    (h : g.states[state]? = some s) : g.items? state = some s.items := by
  rw [items?, h]
  rfl

theorem next?_of_state {g : StateGraph} {state : Nat} {s : GraphState}
    (h : g.states[state]? = some s) (symbol : Name) :
    g.next? state symbol = s.successors.get? symbol := by
  rw [next?, successors?, h]
  rfl

theorem next?_eq_some_iff {g : StateGraph} {state target : Nat} {symbol : Name} :
    g.next? state symbol = some target ↔
      ∃ s, g.states[state]? = some s ∧ s.successors.get? symbol = some target := by
  rw [next?, successors?, Option.bind_map, Option.bind_eq_some_iff]
  rfl

end StateGraph

namespace Augmented

variable {a : Augmented} {items : ItemSet} {item : Item} {word : List Name} {symbol : Name}
  {state : Nat}

theorem map_items_graph (a : Augmented) :
    a.graph.states.map GraphState.items = a.collection.map Explored.items := by
  rw [graph, graphOf, List.map_map]
  rfl

theorem size_graph (a : Augmented) : a.graph.size = a.collection.length := List.length_map _

theorem items?_eq (a : Augmented) (state : Nat) :
    a.graph.items? state = (a.collection.map Explored.items)[state]? := by
  rw [← map_items_graph, List.getElem?_map]
  rfl

theorem index?_eq (a : Augmented) (items : ItemSet) :
    a.graph.index? items = a.collection.findIdx? fun e => e.items = items :=
  List.findIdx?_map

/-- Each set is the item set of one state at most, the one with its number. -/
theorem index?_eq_some_iff : a.graph.index? items = some state ↔
    a.graph.items? state = some items := by
  have distinct := a.collection_exploration.distinct
  rw [items?_eq, index?_eq, List.findIdx?_eq_some_iff_getElem, List.getElem?_eq_some_iff]
  constructor
  · rintro ⟨inside, here, -⟩
    refine ⟨by rwa [List.length_map], ?_⟩
    rw [List.getElem_map]
    exact of_decide_eq_true here
  · rintro ⟨inside, here⟩
    rw [List.length_map] at inside
    rw [List.getElem_map] at here
    refine ⟨inside, decide_eq_true here, fun j before same => ?_⟩
    have same' : (a.collection.map Explored.items)[j]? =
        (a.collection.map Explored.items)[state]? := by
      rw [List.getElem?_map, List.getElem?_map, List.getElem?_eq_getElem inside,
        List.getElem?_eq_getElem (before.trans inside), Option.map_some, Option.map_some, here]
      exact congrArg some (of_decide_eq_true same)
    have lower : j < (a.collection.map Explored.items).length := by
      rw [List.length_map]
      omega
    exact Nat.ne_of_lt before ((List.getElem?_inj lower distinct).1 same')

theorem index?_isSome_iff : (a.graph.index? items).isSome = true ↔ a.Reaches items := by
  rw [index?_eq, List.findIdx?_isSome, any_items_iff, mem_collection_iff]

theorem index?_eq_none (h : ∀ item, item ∉ items) : a.graph.index? items = none := by
  rw [← Option.not_isSome_iff_eq_none, index?_isSome_iff]
  rintro ⟨⟨item, mem⟩, -⟩
  exact h item mem

theorem filterMap_edge? (found : List Explored) (items : ItemSet) :
    (a.moves items).filterMap (Move.edge? found) = items.nextSymbols.filterMap fun symbol =>
      (found.findIdx? fun e => e.items = a.goto items symbol).map (symbol, ·) := by
  rw [moves, List.filterMap_map]
  rfl

theorem next?_of_items? (h : a.graph.items? state = some items) (symbol : Name) :
    a.graph.next? state symbol =
      if symbol ∈ items.nextSymbols then a.graph.index? (a.goto items symbol) else none := by
  rw [items?_eq, List.getElem?_map] at h
  obtain ⟨e, here, rfl⟩ := Option.map_eq_some_iff.1 h
  have moves := a.collection_exploration.moves e (List.mem_of_getElem? here)
  have edges : a.graph.successors? state =
      some (.ofList (e.moves.filterMap (Move.edge? a.collection))) := by
    rw [StateGraph.successors?, graph, graphOf, List.getElem?_map, here]
    rfl
  rw [StateGraph.next?, edges, Option.bind_some, moves, filterMap_edge?,
    Dictionary.get?_ofList_filterMap, index?_eq]

theorem not_mem_goto (h : symbol ∉ items.nextSymbols) (item : Item) : item ∉ a.goto items symbol := by
  intro mem
  obtain ⟨before, old, next, -⟩ := mem_goto.1 mem
  exact h (mem_nextSymbols.2 ⟨before, old, next⟩)

/-- Symbols lead to the state whose items are the set they lead to. -/
theorem follow_eq (a : Augmented) (word : List Name) :
    a.graph.follow word = a.graph.index? (a.after word) := by
  induction word using List.reverseRecOn with
  | nil =>
    obtain ⟨rest, e⟩ := a.collection_eq_cons
    have first : a.graph.items? 0 = some (a.after []) := by
      rw [items?_eq, e]
      rfl
    rw [index?_eq_some_iff.2 first]
    rfl
  | append_singleton word symbol ih =>
    rw [StateGraph.follow_append_singleton, ih, after_append_singleton]
    cases found : a.graph.index? (a.after word) with
    | none =>
      -- Only the empty set has no number, and nothing follows from it.
      refine (index?_eq_none fun item mem => ?_).symm
      obtain ⟨before, old, -⟩ := mem_goto.1 mem
      have known := index?_isSome_iff.2 ⟨⟨before, old⟩, word, rfl⟩
      rw [found] at known
      cases known
    | some state =>
      change a.graph.next? state symbol = _
      rw [next?_of_items? (index?_eq_some_iff.1 found)]
      split
      · rfl
      · rename_i none
        exact (index?_eq_none (not_mem_goto none)).symm

theorem follow_eq_some_iff : a.graph.follow word = some state ↔
    a.graph.items? state = some (a.after word) := by
  rw [follow_eq, index?_eq_some_iff]

theorem exists_state_of_follow (h : a.graph.follow word = some state) :
    ∃ s, a.graph.states[state]? = some s := by
  obtain ⟨s, here, -⟩ := Option.map_eq_some_iff.1 (follow_eq_some_iff.1 h)
  exact ⟨s, here⟩

theorem exists_follow_eq (h : a.graph.items? state = some items) :
    ∃ word, a.graph.follow word = some state := by
  rw [items?_eq] at h
  obtain ⟨word, rfl⟩ := (mem_collection_iff.1 (List.mem_of_getElem? h)).word
  refine ⟨word, ?_⟩
  rw [follow_eq_some_iff, items?_eq, h]

/-- The LR(0) items after some symbols: productions that have been begun, without lookaheads, and
how far each has got. -/
inductive Begun (a : Augmented) : List Name → Production → Nat → Prop
  | start : Begun a [] a.startProduction 0
  | bring {word : List Name} {p fresh : Production} {dot : Nat} (h : Begun a word p dot)
      (next : p.rhs[dot]? = some fresh.lhs) (mem : fresh ∈ a.allProductions) : Begun a word fresh 0
  | move {word : List Name} {p : Production} {dot : Nat} {symbol : Name}
      (h : Begun a word p dot) (next : p.rhs[dot]? = some symbol) :
      Begun a (word ++ [symbol]) p (dot + 1)

theorem Begun.valid {p : Production} {dot : Nat} (h : a.Begun word p dot) :
    a.Valid word ⟨p.lhs, p.rhs, dot, Grammar.endSymbol⟩ := by
  induction h with
  | start => exact start_valid
  | bring _ next mem ih => exact ih.brings ⟨next, rfl, rfl, mem⟩
  | move _ next ih => exact ih.advance next

theorem Begun.path {fresh : Item} (h : a.Begun word ⟨item.lhs, item.rhs⟩ item.dot)
    (path : Relation.ReflTransGen a.Brings item fresh) :
    a.Begun word ⟨fresh.lhs, fresh.rhs⟩ fresh.dot := by
  induction path with
  | refl => exact h
  | tail _ step ih =>
    rw [step.dot]
    exact ih.bring step.next step.mem

theorem begun_of_mem_after (h : item ∈ a.after word) :
    a.Begun word ⟨item.lhs, item.rhs⟩ item.dot := by
  induction word using List.reverseRecOn generalizing item with
  | nil =>
    obtain ⟨seed, mem, path⟩ := mem_closure.1 h
    rw [List.mem_singleton.1 mem] at path
    exact Begun.start.path path
  | append_singleton word symbol ih =>
    rw [after_append_singleton] at h
    obtain ⟨before, old, next, path⟩ := mem_goto.1 h
    exact ((ih old).move next).path path

theorem begun_iff (once : a.StartsOnce) {p : Production} {dot : Nat} : a.Begun word p dot ↔
    ∃ lookahead, ⟨p.lhs, p.rhs, dot, lookahead⟩ ∈ a.after word := by
  constructor
  · intro h
    exact ⟨_, (mem_after once).2 h.valid⟩
  · rintro ⟨lookahead, mem⟩
    exact begun_of_mem_after mem

/-- Symbols can be followed from the first state just if some chain of productions leads to them.
The state reached then consists of the items that such chains end in, each with the end symbol for
its lookahead; but for lookaheads, these are the LR(0) items. All states are reached in this way. -/
theorem follow_valid (g : Grammar) (word : List Name) :
    ((∃ state, (augment g).graph.follow word = some state) ↔ ∃ item, (augment g).Valid word item) ∧
      (∀ state, (augment g).graph.follow word = some state →
        ∃ items, (augment g).graph.items? state = some items ∧
          (∀ item, item ∈ items ↔ (augment g).Valid word item) ∧
          ∀ p dot, (∃ lookahead, ⟨p.lhs, p.rhs, dot, lookahead⟩ ∈ items) ↔
            (augment g).Begun word p dot) ∧
      ∀ state items, (augment g).graph.items? state = some items →
        (∃ word', (augment g).graph.follow word' = some state) ∧
          ∀ item ∈ items, item.lookahead = Grammar.endSymbol := by
  have once := augment_startsOnce g
  refine ⟨?_, fun state h => ⟨(augment g).after word, ?_, ?_, ?_⟩, fun state items h => ⟨?_, ?_⟩⟩
  · rw [← Option.isSome_iff_exists, follow_eq, index?_isSome_iff]
    constructor
    · rintro ⟨⟨item, mem⟩, -⟩
      exact ⟨item, (mem_after once).1 mem⟩
    · rintro ⟨item, valid⟩
      exact ⟨⟨item, (mem_after once).2 valid⟩, word, rfl⟩
  · rw [follow_eq] at h
    exact index?_eq_some_iff.1 h
  · intro item
    exact mem_after once
  · intro p dot
    exact (begun_iff once).symm
  · exact exists_follow_eq h
  · intro item mem
    rw [items?_eq] at h
    have reached := mem_collection_iff.1 (List.mem_of_getElem? h)
    exact (mem_everyItem.1 (reached.mem_everyItem mem)).2.2

end Augmented

end DeclarationChecker.Lr
