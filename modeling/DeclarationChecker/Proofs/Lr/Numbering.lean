import Mathlib.Data.List.Shortlex
import DeclarationChecker.Proofs.Lr.Filling
import DeclarationChecker.Proofs.Lr.Shortest

set_option autoImplicit false

/-!
States are numbered by the shortlex-least symbols that lead to them, and these are the paths that are
found. The exploration enters each set by the first of all moves to sets that are not yet found.
-/

namespace DeclarationChecker.Lr

/-- A shorter string comes first, and of two that are equally long the one with the smaller symbol
where they first differ. -/
abbrev Precedes (p q : List Name) : Prop := List.Shortlex (· < ·) p q

section

variable {p q r : List Name}

theorem Precedes.trans (h : Precedes p q) (h' : Precedes q r) : Precedes p r := by
  rcases List.shortlex_def.1 h with shorter | ⟨same, less⟩
  · apply List.Shortlex.of_length_lt
    rcases List.shortlex_def.1 h' with shorter' | ⟨same', -⟩ <;> omega
  · rcases List.shortlex_def.1 h' with shorter' | ⟨same', less'⟩
    · apply List.Shortlex.of_length_lt
      omega
    · apply List.Shortlex.of_lex (same.trans same')
      exact List.lt_trans less less'

theorem lex_append (less : List.Lex (· < ·) p q) (same : p.length = q.length) (s t : List Name) :
    List.Lex (· < ·) (p ++ s) (q ++ t) := by
  induction less with
  | nil => simp at same
  | cons _ ih => exact .cons (ih (Nat.succ.inj same))
  | rel smaller => exact .rel smaller

theorem Precedes.append (h : Precedes p q) (symbol symbol' : Name) :
    Precedes (p ++ [symbol]) (q ++ [symbol']) := by
  rcases List.shortlex_def.1 h with shorter | ⟨same, less⟩
  · apply List.Shortlex.of_length_lt
    simpa using shorter
  · apply List.Shortlex.of_lex
    · simpa using same
    · exact lex_append less same _ _

theorem precedes_extend (p : List Name) (symbol : Name) : Precedes p (p ++ [symbol]) := by
  apply List.Shortlex.of_length_lt
  simp

theorem precedes_siblings (p : List Name) {symbol symbol' : Name} (h : symbol < symbol') :
    Precedes (p ++ [symbol]) (p ++ [symbol']) :=
  ((List.shortlex_singleton_iff symbol symbol').2 h).append_left p

theorem notAfter_append {symbol symbol' : Name} (h : StateGraph.NotAfter Precedes p q)
    (symbols : symbol = symbol' ∨ symbol < symbol') :
    StateGraph.NotAfter Precedes (p ++ [symbol]) (q ++ [symbol']) := by
  rcases h with rfl | precedes
  · rcases symbols with rfl | smaller
    · exact .inl rfl
    · exact .inr (precedes_siblings p smaller)
  · exact .inr (precedes.append symbol symbol')

theorem Precedes.not_notAfter (h : Precedes p q) : ¬ StateGraph.NotAfter Precedes q p := by
  rintro (rfl | h')
  · exact asymm h h
  · exact asymm h h'

end

abbrev Departure := Nat × Move

def Departs (found : List Explored) (x : Departure) : Prop :=
  ∃ e, found[x.1]? = some e ∧ x.2 ∈ e.moves

def Earlier (x y : Departure) : Prop := x.1 < y.1 ∨ x.1 = y.1 ∧ x.2.symbol < y.2.symbol

/-- Each set but the first has been entered by a move from a set before it. No earlier move leads to
it, nor to any set that comes after it. -/
def EnteredInTurn (found : List Explored) : Prop :=
  ∀ number e, found[number + 1]? = some e → ∃ x, Departs found x ∧ x.1 ≤ number ∧
    x.2.target = e.items ∧ ∀ y, Departs found y →
      y.2.target ∉ (found.take (number + 1)).map Explored.items → x = y ∨ Earlier x y

section

variable {a : Augmented} {found : List Explored} {items : ItemSet} {x : Departure}
  {rest : List Departure}

theorem Departs.lt (h : Departs found x) : x.1 < found.length := by
  obtain ⟨e, here, -⟩ := h
  exact (List.getElem?_eq_some_iff.1 here).1

theorem departs_append {e : Explored} : Departs (found ++ [e]) x ↔
    Departs found x ∨ x.1 = found.length ∧ x.2 ∈ e.moves := by
  unfold Departs
  by_cases old : x.1 < found.length
  · rw [List.getElem?_append_left old]
    have other : x.1 ≠ found.length := Nat.ne_of_lt old
    simp [other]
  · rw [List.getElem?_append_right (Nat.le_of_not_lt old), List.getElem?_eq_none (Nat.le_of_not_lt old)]
    by_cases last : x.1 = found.length
    · simp [last]
    · have beyond : ¬ x.1 - found.length < 1 := by omega
      simp [last, beyond]

/-- The moves of a set that comes last are later than those of the sets before it. -/
theorem Departs.earlier {y : Departure} (h : Departs found x) (last : y.1 = found.length) :
    Earlier x y := by
  left
  rw [last]
  exact h.lt

/-- A set is entered in turn if the move to it is the first of those to sets that are not found. -/
theorem EnteredInTurn.append {e : Explored} (h : EnteredInTurn found) (departs : Departs found x)
    (reached : x.2.target = e.items)
    (first : ∀ y, Departs found y → y.2.target ∉ found.map Explored.items → x = y ∨ Earlier x y) :
    EnteredInTurn (found ++ [e]) := by
  intro number e' here
  by_cases old : number + 1 < found.length
  · rw [List.getElem?_append_left old] at here
    obtain ⟨z, departs', before, target, least⟩ := h number e' here
    refine ⟨z, departs_append.2 (.inl departs'), before, target, ?_⟩
    intro y leaves away
    rw [List.take_append_of_le_length (Nat.le_of_lt old)] at away
    rcases departs_append.1 leaves with known | ⟨own, -⟩
    · exact least y known away
    · exact .inr (departs'.earlier own)
  · have inside := (List.getElem?_eq_some_iff.1 here).1
    rw [List.length_append, List.length_singleton] at inside
    have last : number + 1 = found.length := by omega
    rw [last, List.getElem?_concat_length] at here
    obtain rfl := Option.some.inj here
    have before : x.1 ≤ number := by
      have := departs.lt
      omega
    refine ⟨x, departs_append.2 (.inl departs), before, reached, ?_⟩
    intro y leaves away
    rw [last, List.take_left] at away
    rcases departs_append.1 leaves with known | ⟨own, -⟩
    · exact first y known away
    · exact .inr (departs.earlier own)

theorem moves_ascending (a : Augmented) (items : ItemSet) :
    (a.moves items).Pairwise fun m m' => m.symbol < m'.symbol := by
  rw [Augmented.moves, List.pairwise_map]
  apply (SortedSet.ascending _).imp
  intro symbol symbol' less
  exact Text.CodePoints.compare_eq_lt_iff.1 less

structure Queue (found : List Explored) (queue : List Departure) : Prop where
  departs : ∀ x ∈ queue, Departs found x
  ascending : queue.Pairwise Earlier
  missing : ∀ x, Departs found x → x ∈ queue ∨ x.2.target ∈ found.map Explored.items
  entered : EnteredInTurn found

namespace Queue

theorem pass (h : Queue found (x :: rest)) (known : x.2.target ∈ found.map Explored.items) :
    Queue found rest where
  departs y mem := h.departs y (List.mem_cons_of_mem x mem)
  ascending := (List.pairwise_cons.1 h.ascending).2
  missing y departs := by
    rcases h.missing y departs with mem | old
    · rcases List.mem_cons.1 mem with rfl | mem
      · exact .inr known
      · exact .inl mem
    · exact .inr old
  entered := h.entered

/-- The set that the first move due leads to comes last, and its own moves are due last. -/
theorem enter {e : Explored} (h : Queue found (x :: rest))
    (new : x.2.target ∉ found.map Explored.items) (reached : x.2.target = e.items)
    (ascending : e.moves.Pairwise fun m m' => m.symbol < m'.symbol) :
    Queue (found ++ [e]) (rest ++ e.moves.map fun m => (found.length, m)) := by
  have departs := h.departs x List.mem_cons_self
  obtain ⟨first, sorted⟩ := List.pairwise_cons.1 h.ascending
  constructor
  · intro y mem
    apply departs_append.2
    rcases List.mem_append.1 mem with old | mem
    · exact .inl (h.departs y (List.mem_cons_of_mem x old))
    · obtain ⟨m, listed, rfl⟩ := List.mem_map.1 mem
      exact .inr ⟨rfl, listed⟩
  · apply List.pairwise_append.2
    refine ⟨sorted, ?_, ?_⟩
    · rw [List.pairwise_map]
      exact ascending.imp fun less => .inr ⟨rfl, less⟩
    · intro y old z mem
      obtain ⟨m, -, rfl⟩ := List.mem_map.1 mem
      exact (h.departs y (List.mem_cons_of_mem x old)).earlier rfl
  · intro y leaves
    rw [List.map_append, List.mem_append, List.mem_append]
    rcases departs_append.1 leaves with old | ⟨last, listed⟩
    · rcases h.missing y old with mem | known
      · rcases List.mem_cons.1 mem with rfl | mem
        · right
          right
          simp [reached]
        · exact .inl (.inl mem)
      · exact .inr (.inl known)
    · left
      right
      exact List.mem_map.2 ⟨y.2, listed, by rw [← last]⟩
  · apply h.entered.append departs reached
    -- All moves to sets that are not found yet are due, and this one is the first.
    intro y known away
    rcases List.mem_cons.1 ((h.missing y known).resolve_right away) with rfl | mem
    · exact .inl rfl
    · exact .inr (first y mem)

theorem start {e : Explored} (ascending : e.moves.Pairwise fun m m' => m.symbol < m'.symbol) :
    Queue [e] (e.moves.map fun m => (0, m)) where
  departs x mem := by
    obtain ⟨m, listed, rfl⟩ := List.mem_map.1 mem
    exact ⟨e, rfl, listed⟩
  ascending := by
    rw [List.pairwise_map]
    exact ascending.imp fun less => .inr ⟨rfl, less⟩
  missing x departs := by
    obtain ⟨e', here, listed⟩ := departs
    left
    obtain ⟨inside, rfl⟩ := List.getElem?_eq_some_iff.1 here
    obtain ⟨number, m⟩ := x
    obtain rfl : number = 0 := Nat.lt_one_iff.1 inside
    exact List.mem_map.2 ⟨m, listed, rfl⟩
  entered number e' here := by
    rw [List.getElem?_cons_succ, List.getElem?_nil] at here
    cases here

end Queue

namespace Augmented

theorem explore_known {room : Nat} {due : List ItemSet} (known : items ∈ found.map Explored.items) :
    a.explore (room + 1) found (items :: due) = a.explore (room + 1) found due := by
  rw [explore, explore, List.dropWhile_cons_of_pos]
  exact any_items_iff.2 known

theorem explore_new {room : Nat} {due : List ItemSet} (new : items ∉ found.map Explored.items) :
    a.explore (room + 1) found (items :: due) =
      a.explore room (found ++ [⟨items, a.moves items⟩]) (due ++ (a.moves items).map Move.target) := by
  rw [explore, List.dropWhile_cons_of_neg]
  intro known
  exact new (any_items_iff.1 known)

theorem explore_entered {room : Nat} {queue : List Departure} (h : Queue found queue) :
    EnteredInTurn (a.explore room found (queue.map fun x => x.2.target)) := by
  induction room generalizing found queue with
  | zero => exact h.entered
  | succ room ih =>
    induction queue with
    | nil => exact h.entered
    | cons x rest rest_ih =>
      rw [List.map_cons]
      by_cases known : x.2.target ∈ found.map Explored.items
      · rw [explore_known known]
        exact rest_ih (h.pass known)
      · have next := ih (h.enter (e := ⟨x.2.target, a.moves x.2.target⟩) known rfl (moves_ascending a _))
        rw [List.map_append, List.map_map] at next
        rw [explore_new known]
        exact next

theorem collection_entered (a : Augmented) : EnteredInTurn a.collection := by
  obtain ⟨room, e⟩ := a.exists_collection_eq
  have due : (a.moves (a.closure [a.startItem])).map Move.target =
      ((a.moves (a.closure [a.startItem])).map fun m => (0, m)).map fun x => x.2.target := by
    rw [List.map_map]
    rfl
  rw [e, due]
  apply explore_entered
  exact Queue.start (moves_ascending a _)

variable {state source : Nat} {symbol : Name}

theorem items?_of_explored {e : Explored} (here : a.collection[state]? = some e) :
    a.graph.items? state = some e.items := by
  rw [items?_eq, List.getElem?_map, here]
  rfl

theorem next?_eq_some_iff_departs : a.graph.next? source symbol = some state ↔
    ∃ target, Departs a.collection (source, ⟨symbol, target⟩) ∧ a.graph.items? state = some target := by
  constructor
  · intro edge
    obtain ⟨s, here, -⟩ := StateGraph.next?_eq_some_iff.1 edge
    have known := StateGraph.items?_of_state here
    rw [next?_of_items? known] at edge
    split at edge
    · rename_i listed
      rw [items?_eq, List.getElem?_map] at known
      obtain ⟨e, found, same⟩ := Option.map_eq_some_iff.1 known
      refine ⟨_, ⟨e, found, ?_⟩, index?_eq_some_iff.1 edge⟩
      rw [a.collection_exploration.moves e (List.mem_of_getElem? found), same]
      exact List.mem_map_of_mem listed
    · cases edge
  · rintro ⟨target, ⟨e, found, listed⟩, numbered⟩
    rw [a.collection_exploration.moves e (List.mem_of_getElem? found)] at listed
    obtain ⟨symbol', next, same⟩ := List.mem_map.1 listed
    obtain ⟨rfl, rfl⟩ := Move.mk.inj same
    rw [next?_of_items? (items?_of_explored found), if_pos next]
    exact index?_eq_some_iff.2 numbered

/-- A state but the first is entered by an edge from one before it, and every edge to it or to a
later one is the same or comes after that. -/
theorem exists_first_edge (inside : state + 1 < a.graph.size) : ∃ source symbol, source ≤ state ∧
    a.graph.next? source symbol = some (state + 1) ∧
    ∀ source' symbol' state', a.graph.next? source' symbol' = some state' → state < state' →
      source < source' ∨ source = source' ∧ (symbol = symbol' ∨ symbol < symbol') := by
  have here := List.getElem?_eq_getElem (a.size_graph ▸ inside)
  obtain ⟨⟨source, symbol, target⟩, departs, before, entered, least⟩ :=
    a.collection_entered state _ here
  refine ⟨source, symbol, before, ?_, ?_⟩
  · apply next?_eq_some_iff_departs.2
    refine ⟨target, departs, ?_⟩
    rw [items?_of_explored here]
    exact congrArg some entered.symm
  · intro source' symbol' state' edge after
    obtain ⟨target', departs', numbered⟩ := next?_eq_some_iff_departs.1 edge
    have away : target' ∉ (a.collection.take (state + 1)).map Explored.items := by
      intro mem
      rw [List.map_take] at mem
      obtain ⟨other, less, same⟩ := List.mem_take_iff_getElem.1 mem
      obtain ⟨early, present⟩ := Nat.lt_min.1 less
      have twice : a.graph.items? other = some target' := by
        rw [items?_eq, List.getElem?_eq_getElem present, same]
      have e := (index?_eq_some_iff.2 twice).symm.trans (index?_eq_some_iff.2 numbered)
      have := Option.some.inj e
      omega
    rcases least _ departs' away with same | less | ⟨same, less⟩
    · obtain ⟨rfl, move⟩ := Prod.mk.inj same
      exact .inr ⟨rfl, .inl (Move.mk.inj move).1⟩
    · exact .inl less
    · exact .inr ⟨same, .inr less⟩

open StateGraph

/-- Some symbols lead to the state that precede all others which lead to it or to a later one. -/
theorem exists_least_word (inside : state < a.graph.size) : ∃ word,
    a.graph.follow word = some state ∧ ∀ word' state', a.graph.follow word' = some state' →
      state ≤ state' → NotAfter Precedes word word' := by
  induction state using Nat.strongRecOn with
  | ind state ih =>
    cases state with
    | zero =>
      refine ⟨[], rfl, fun word' _ _ _ => ?_⟩
      rcases List.shortlex_nil_or_eq_nil word' with first | rfl
      · exact .inr first
      · exact .inl rfl
    | succ state =>
      obtain ⟨source, symbol, before, edge, first⟩ := exists_first_edge inside
      obtain ⟨word, follow, least⟩ := ih source (by omega) (by omega)
      refine ⟨word ++ [symbol], ?_, ?_⟩
      · rw [follow_append_singleton, follow]
        exact edge
      · intro word' state' follow' after
        rcases List.eq_nil_or_concat word' with rfl | ⟨front, last, rfl⟩
        · obtain rfl : 0 = state' := Option.some.inj follow'
          omega
        · rw [List.concat_eq_append] at follow' ⊢
          rw [follow_append_singleton] at follow'
          obtain ⟨source', there, edge'⟩ := Option.bind_eq_some_iff.1 follow'
          rcases first source' last state' edge' after with less | ⟨rfl, symbols⟩
          · rcases least front source' there (Nat.le_of_lt less) with rfl | precedes
            · have := Option.some.inj (follow.symm.trans there)
              omega
            · exact .inr (precedes.append symbol last)
          · exact notAfter_append (least front source there (Nat.le_refl _)) symbols

theorem successors?_ascending {edges : Dictionary Name Nat} (leads : a.graph.successors? state = some edges) :
    edges.entries.Pairwise fun edge edge' => edge.1 < edge'.1 := by
  obtain ⟨s, here, rfl⟩ := Option.map_eq_some_iff.1 leads
  rw [graph, graphOf, List.getElem?_map] at here
  obtain ⟨e, found, rfl⟩ := Option.map_eq_some_iff.1 here
  have moves := a.collection_exploration.moves e (List.mem_of_getElem? found)
  have ascending : (e.moves.filterMap (Move.edge? a.collection)).Pairwise
      fun edge edge' => edge.1 < edge'.1 := by
    rw [moves, List.pairwise_filterMap]
    apply (moves_ascending a e.items).imp
    intro m m' less edge numbered edge' numbered'
    obtain ⟨_, -, rfl⟩ := Option.map_eq_some_iff.1 numbered
    obtain ⟨_, -, rfl⟩ := Option.map_eq_some_iff.1 numbered'
    exact less
  have distinct : ((e.moves.filterMap (Move.edge? a.collection)).map Prod.fst).Nodup := by
    rw [List.Nodup, List.pairwise_map]
    exact ascending.imp fun less => Text.CodePoints.ne_of_lt less
  change (Dictionary.ofList (e.moves.filterMap (Move.edge? a.collection))).entries.Pairwise _
  rw [Dictionary.entries_ofList distinct]
  exact ascending

theorem precedes_visitOrder (a : Augmented) : a.graph.VisitOrder Precedes where
  trans := Precedes.trans
  extend := precedes_extend
  append symbol symbol' h := h.append symbol symbol'
  siblings _ _ leads p := (successors?_ascending leads).imp fun less => precedes_siblings p less

theorem follow_path {path : List Name} (found : a.graph.path state = .ok path) :
    a.graph.follow path = some state := by
  have answers := path_answers a.graph_closed a.size_pos state
  rw [found] at answers
  obtain ⟨state', same, follow⟩ := answers
  rwa [Int.ofNat_inj.1 same] at follow

theorem lt_size_of_follow {word : List Name} (follow : a.graph.follow word = some state) :
    state < a.graph.size := by
  obtain ⟨s, here⟩ := exists_state_of_follow follow
  exact (List.getElem?_eq_some_iff.1 here).1

theorem path_least {path word : List Name} {state' : Nat} (found : a.graph.path state = .ok path)
    (follow : a.graph.follow word = some state') (after : state ≤ state') :
    NotAfter Precedes path word := by
  have leads := follow_path found
  obtain ⟨least, there, first⟩ := exists_least_word (lt_size_of_follow leads)
  have same := path_notAfter a.precedes_visitOrder found there rfl
  exact same.trans a.precedes_visitOrder (first word state' follow after)

/-- Each state has a path, which precedes all other symbols that lead there. States are numbered in the
order of their paths. -/
theorem graph_numbered (g : Grammar) :
    (∀ state < (augment g).graph.size, ∃ path, (augment g).graph.path state = .ok path ∧
      (augment g).graph.follow path = some state ∧
      ∀ word, (augment g).graph.follow word = some state → word ≠ path →
        List.Shortlex (· < ·) path word) ∧
    ∀ (i j : Nat) (p q : List Name), (augment g).graph.path i = .ok p →
      (augment g).graph.path j = .ok q → (i < j ↔ List.Shortlex (· < ·) p q) := by
  constructor
  · intro state inside
    obtain ⟨path, found, leads⟩ := exists_path (List.getElem?_eq_getElem inside)
    refine ⟨path, found, leads, ?_⟩
    intro word follow other
    exact (path_least found follow (Nat.le_refl _)).resolve_left other.symm
  · intro i j p q foundI foundJ
    have leadsI := follow_path foundI
    have leadsJ := follow_path foundJ
    constructor
    · intro less
      apply (path_least foundI leadsJ (Nat.le_of_lt less)).resolve_left
      rintro rfl
      have := Option.some.inj (leadsI.symm.trans leadsJ)
      omega
    · intro precedes
      by_contra more
      exact Precedes.not_notAfter precedes (path_least foundJ leadsI (Nat.le_of_not_lt more))

end Augmented

end

end DeclarationChecker.Lr
