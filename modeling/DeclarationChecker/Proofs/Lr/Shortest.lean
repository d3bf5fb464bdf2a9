import DeclarationChecker.Proofs.Lr.Path

set_option autoImplicit false

namespace DeclarationChecker.Lr.StateGraph

variable {g : StateGraph} {target : Int} {visited : List Nat} {due rest trail : List Visit}
  {before : List Name → List Name → Prop}

/-- The loop of a search, one visit at a time. A visit is compared with the target first, and passed
over if its state has been visited. There is no answer while the turns do not suffice. -/
def turns (g : StateGraph) (target : Int) :
    Nat → List Nat → List Visit → Option (Except PathFault (List Name))
  | 0, _, _ => none
  | _ + 1, _, [] => some (.error .unreachable)
  | more + 1, visited, v :: rest =>
    if (v.state : Int) = target then some (.ok v.path)
    else if v.state ∈ visited then turns g target more visited rest
    else
      match g.successors? v.state with
      | none => some (.error .missingState)
      | some edges => turns g target more (v.state :: visited) (rest ++ onward v edges)

theorem search_known {rounds : Nat} {v : Visit} (known : v.state ∈ visited) :
    g.search target (rounds + 1) visited (v :: rest) = g.search target (rounds + 1) visited rest := by
  rw [search, search, List.dropWhile_cons_of_pos]
  exact List.contains_iff_mem.2 known

theorem search_new {rounds : Nat} {v : Visit} (new : v.state ∉ visited) :
    g.search target (rounds + 1) visited (v :: rest) =
      if (v.state : Int) = target then .ok v.path
      else
        match g.successors? v.state with
        | none => .error .missingState
        | some edges => g.search target rounds (v.state :: visited) (rest ++ onward v edges) := by
  rw [search, List.dropWhile_cons_of_neg]
  · rfl
  · intro known
    exact new (List.contains_iff_mem.1 known)

theorem lt_size_of_successors? {state : Nat} {edges : Dictionary Name Nat}
    (leads : g.successors? state = some edges) : state < g.size := by
  obtain ⟨s, here, -⟩ := Option.map_eq_some_iff.1 leads
  exact (List.getElem?_eq_some_iff.1 here).1

/-- The loop ends, with the answer of the search. Each round of it passes over the visits that are
known and makes one that is new. -/
theorem exists_turns {rounds : Nat} (distinct : visited.Nodup) (inside : ∀ state ∈ visited, state < g.size)
    (missed : ∀ state ∈ visited, (state : Int) ≠ target) (enough : g.size < rounds + visited.length) :
    ∃ n, g.turns target n visited due = some (g.search target rounds visited due) := by
  induction rounds generalizing visited due with
  | zero =>
    have count := length_le_size distinct inside
    omega
  | succ rounds ih =>
    induction due with
    | nil => exact ⟨1, rfl⟩
    | cons v rest rest_ih =>
      by_cases known : v.state ∈ visited
      · obtain ⟨n, same⟩ := rest_ih
        refine ⟨n + 1, ?_⟩
        rw [turns, if_neg (missed v.state known), if_pos known, search_known known, same]
      · rw [search_new known]
        by_cases hit : (v.state : Int) = target
        · refine ⟨1, ?_⟩
          rw [turns, if_pos hit, if_pos hit]
        · rw [if_neg hit]
          cases leads : g.successors? v.state with
          | none =>
            refine ⟨1, ?_⟩
            rw [turns, if_neg hit, if_neg known, leads]
          | some edges =>
            have next : ∃ n, g.turns target n (v.state :: visited) (rest ++ onward v edges) =
                some (g.search target rounds (v.state :: visited) (rest ++ onward v edges)) := by
              apply ih
              · exact List.nodup_cons.2 ⟨known, distinct⟩
              · exact List.forall_mem_cons.2 ⟨lt_size_of_successors? leads, inside⟩
              · exact List.forall_mem_cons.2 ⟨hit, missed⟩
              · rw [List.length_cons]
                omega
            obtain ⟨n, same⟩ := next
            refine ⟨n + 1, ?_⟩
            rw [turns, if_neg hit, if_neg known, leads]
            exact same

/-- An order of symbol strings in which a search makes its visits: extending a string takes it
further, extending two strings keeps their order, and so do the edges of one state. -/
structure VisitOrder (g : StateGraph) (before : List Name → List Name → Prop) : Prop where
  trans : ∀ {p q r}, before p q → before q r → before p r
  extend : ∀ p symbol, before p (p ++ [symbol])
  append : ∀ {p q} symbol symbol', before p q → before (p ++ [symbol]) (q ++ [symbol'])
  siblings : ∀ state edges, g.successors? state = some edges → ∀ p,
    edges.entries.Pairwise fun edge edge' => before (p ++ [edge.1]) (p ++ [edge'.1])

def NotAfter (before : List Name → List Name → Prop) (p q : List Name) : Prop :=
  p = q ∨ before p q

theorem NotAfter.before_of_before {p q r : List Name} (order : g.VisitOrder before)
    (h : NotAfter before p q) (next : before q r) : before p r := by
  rcases h with rfl | h
  · exact next
  · exact order.trans h next

theorem NotAfter.append {p q : List Name} (order : g.VisitOrder before) (h : NotAfter before p q)
    (symbol : Name) : NotAfter before (p ++ [symbol]) (q ++ [symbol]) := by
  rcases h with rfl | h
  · exact .inl rfl
  · exact .inr (order.append symbol symbol h)

theorem NotAfter.trans {p q r : List Name} (order : g.VisitOrder before) (h : NotAfter before p q)
    (h' : NotAfter before q r) : NotAfter before p r := by
  rcases h' with rfl | h'
  · exact h
  · exact .inr (h.before_of_before order h')

def Covered (before : List Name → List Name → Prop) (trail due : List Visit) (v : Visit) : Prop :=
  v ∈ due ∨ ∃ u ∈ trail, u.state = v.state ∧ NotAfter before u.path v.path

/-- How the visits made and those due are ordered: the ones made come first, those due are in order and
are all made before any that they lead to. Nothing has been lost of what the visits made lead to. -/
structure Ordered (g : StateGraph) (before : List Name → List Name → Prop)
    (trail due : List Visit) : Prop where
  ascending : due.Pairwise fun v w => before v.path w.path
  level : ∀ v ∈ due, ∀ w ∈ due, ∀ symbol, before v.path (w.path ++ [symbol])
  earlier : ∀ u ∈ trail, ∀ v ∈ due, before u.path v.path
  first : Covered before trail due ⟨0, []⟩
  onward : ∀ u ∈ trail, ∀ edges, g.successors? u.state = some edges →
    ∀ w ∈ onward u edges, Covered before trail due w

namespace Ordered

theorem start (order : g.VisitOrder before) : Ordered g before [] [⟨0, []⟩] where
  ascending := List.pairwise_singleton _ _
  level v mem w mem' symbol := by
    rw [List.mem_singleton.1 mem, List.mem_singleton.1 mem']
    exact order.extend [] symbol
  earlier u mem := absurd mem List.not_mem_nil
  first := .inl List.mem_cons_self
  onward u mem := absurd mem List.not_mem_nil

theorem pass {v : Visit} (h : Ordered g before trail (v :: rest))
    (known : v.state ∈ trail.map Visit.state) : Ordered g before trail rest := by
  have covered : ∀ w, Covered before trail (v :: rest) w → Covered before trail rest w := by
    intro w cover
    rcases cover with mem | made
    · rcases List.mem_cons.1 mem with rfl | mem
      · obtain ⟨u, listed, same⟩ := List.mem_map.1 known
        exact .inr ⟨u, listed, same, .inr (h.earlier u listed w List.mem_cons_self)⟩
      · exact .inl mem
    · exact .inr made
  refine ⟨(List.pairwise_cons.1 h.ascending).2, ?_, ?_, covered _ h.first, ?_⟩
  · intro v mem w mem' symbol
    exact h.level v (List.mem_cons_of_mem _ mem) w (List.mem_cons_of_mem _ mem') symbol
  · exact fun u mem v mem' => h.earlier u mem v (List.mem_cons_of_mem _ mem')
  · exact fun u mem edges leads w mem' => covered w (h.onward u mem edges leads w mem')

theorem mem_onward {v w : Visit} {edges : Dictionary Name Nat} : w ∈ StateGraph.onward v edges ↔
    ∃ edge ∈ edges.entries, w = ⟨edge.2, v.path ++ [edge.1]⟩ := by
  rw [StateGraph.onward, List.mem_map]
  simp only [eq_comm]

theorem visit {v : Visit} {edges : Dictionary Name Nat} (order : g.VisitOrder before)
    (h : Ordered g before trail (v :: rest)) (leads : g.successors? v.state = some edges) :
    Ordered g before (v :: trail) (rest ++ StateGraph.onward v edges) := by
  obtain ⟨first, ascending⟩ := List.pairwise_cons.1 h.ascending
  have here : v ∈ v :: rest := List.mem_cons_self
  have there : ∀ {w}, w ∈ rest → w ∈ v :: rest := List.mem_cons_of_mem v
  have covered : ∀ w, Covered before trail (v :: rest) w →
      Covered before (v :: trail) (rest ++ StateGraph.onward v edges) w := by
    intro w cover
    rcases cover with mem | ⟨u, mem, made⟩
    · rcases List.mem_cons.1 mem with rfl | mem
      · exact .inr ⟨w, List.mem_cons_self, rfl, .inl rfl⟩
      · exact .inl (List.mem_append_left _ mem)
    · exact .inr ⟨u, List.mem_cons_of_mem _ mem, made⟩
  refine ⟨?_, ?_, ?_, covered _ h.first, ?_⟩
  · apply List.pairwise_append.2
    refine ⟨ascending, ?_, ?_⟩
    · rw [StateGraph.onward, List.pairwise_map]
      exact order.siblings v.state edges leads v.path
    · intro w mem w' mem'
      obtain ⟨edge, -, rfl⟩ := mem_onward.1 mem'
      exact h.level w (there mem) v here edge.1
  · intro w mem w' mem' symbol
    rcases List.mem_append.1 mem with old | new
    · rcases List.mem_append.1 mem' with old' | new'
      · exact h.level w (there old) w' (there old') symbol
      · obtain ⟨edge, -, rfl⟩ := mem_onward.1 new'
        exact order.trans (h.level w (there old) v here edge.1) (order.extend _ symbol)
    · obtain ⟨edge, -, rfl⟩ := mem_onward.1 new
      rcases List.mem_append.1 mem' with old' | new'
      · exact order.append edge.1 symbol (first w' old')
      · obtain ⟨edge', -, rfl⟩ := mem_onward.1 new'
        exact order.append edge.1 symbol (order.extend v.path edge'.1)
  · intro u mem w mem'
    have made : NotAfter before u.path v.path := by
      rcases List.mem_cons.1 mem with rfl | mem
      · exact .inl rfl
      · exact .inr (h.earlier u mem v here)
    apply made.before_of_before order
    rcases List.mem_append.1 mem' with old | new
    · exact first w old
    · obtain ⟨edge, -, rfl⟩ := mem_onward.1 new
      exact order.extend v.path edge.1
  · intro u mem edges' leads' w mem'
    rcases List.mem_cons.1 mem with rfl | mem
    · rw [leads] at leads'
      rw [← Option.some.inj leads'] at mem'
      exact .inl (List.mem_append_right _ mem')
    · exact covered w (h.onward u mem edges' leads' w mem')

/-- Whatever state some symbols lead to, no later a string has led there already, or is due. -/
theorem covers (order : g.VisitOrder before) (h : Ordered g before trail due) {word : List Name}
    {state : Nat} (follow : g.follow word = some state) :
    (∃ u ∈ trail, u.state = state ∧ NotAfter before u.path word) ∨
      ∃ v ∈ due, NotAfter before v.path word := by
  have of_covered : ∀ {v : Visit} {word : List Name}, Covered before trail due v →
      NotAfter before v.path word → (∃ u ∈ trail, u.state = v.state ∧ NotAfter before u.path word) ∨
        ∃ v ∈ due, NotAfter before v.path word := by
    intro v word cover least
    rcases cover with mem | ⟨u, mem, same, least'⟩
    · exact .inr ⟨v, mem, least⟩
    · exact .inl ⟨u, mem, same, least'.trans order least⟩
  induction word using List.reverseRecOn generalizing state with
  | nil =>
    obtain rfl : 0 = state := Option.some.inj follow
    exact of_covered h.first (.inl rfl)
  | append_singleton word symbol ih =>
    rw [follow_append_singleton] at follow
    obtain ⟨source, path, edge⟩ := Option.bind_eq_some_iff.1 follow
    rcases ih path with ⟨u, mem, rfl, least⟩ | ⟨v, mem, least⟩
    · obtain ⟨edges, leads, found⟩ := Option.bind_eq_some_iff.1 edge
      have listed : (⟨state, u.path ++ [symbol]⟩ : Visit) ∈ StateGraph.onward u edges :=
        mem_onward.2 ⟨_, (Dictionary.get?_eq_some_iff _ _ _).1 found, rfl⟩
      exact of_covered (h.onward u mem edges leads _ listed) (least.append order symbol)
    · exact .inr ⟨v, mem, .inr (least.before_of_before order (order.extend word symbol))⟩

theorem search {rounds : Nat} (order : g.VisitOrder before) (h : Ordered g before trail due)
    {path word : List Name} {state : Nat}
    (found : g.search target rounds (trail.map Visit.state) due = .ok path)
    (follow : g.follow word = some state) (hit : (state : Int) = target) :
    NotAfter before path word := by
  induction rounds generalizing trail due with
  | zero => cases found
  | succ rounds ih =>
    induction due with
    | nil => cases found
    | cons v rest rest_ih =>
      by_cases known : v.state ∈ trail.map Visit.state
      · rw [search_known known] at found
        exact rest_ih (h.pass known) found
      · rw [search_new known] at found
        by_cases here : (v.state : Int) = target
        · rw [if_pos here] at found
          obtain rfl := Except.ok.inj found
          obtain rfl : v.state = state := Int.ofNat_inj.1 (here.trans hit.symm)
          rcases h.covers order follow with ⟨u, mem, same, -⟩ | ⟨w, mem, least⟩
          · exact absurd (List.mem_map.2 ⟨u, mem, same⟩) known
          · rcases List.mem_cons.1 mem with rfl | mem
            · exact least
            · have head := (List.pairwise_cons.1 h.ascending).1 w mem
              exact NotAfter.trans order (.inr head) least
        · rw [if_neg here] at found
          cases leads : g.successors? v.state with
          | none =>
            rw [leads] at found
            cases found
          | some edges =>
            rw [leads] at found
            exact ih (h.visit order leads) found

end Ordered

/-- A path that is found comes before all others to its target. -/
theorem path_notAfter (order : g.VisitOrder before) {path word : List Name} {state : Nat}
    (found : g.path target = .ok path) (follow : g.follow word = some state)
    (hit : (state : Int) = target) : NotAfter before path word :=
  (Ordered.start order).search order found follow hit

/-- Visits are made in the order of their distance, whatever the edges of a state. -/
theorem length_visitOrder (g : StateGraph) :
    g.VisitOrder fun p q : List Name => p.length ≤ q.length where
  trans := Nat.le_trans
  extend p symbol := by simp
  append symbol symbol' h := by simpa using h
  siblings state edges _ p := by
    apply List.pairwise_of_forall
    intro edge edge'
    simp

theorem closed_iff : g.Closed ↔ ∀ s ∈ g.states, ∀ edge ∈ s.successors.entries, edge.2 < g.size := by
  constructor
  · intro h s mem
    obtain ⟨state, here⟩ := List.getElem?_of_mem mem
    apply h state
    rw [successors?, here]
    rfl
  · intro h state edges leads
    obtain ⟨s, here, rfl⟩ := Option.map_eq_some_iff.1 leads
    exact h s (List.mem_of_getElem? here)

/-- In a graph that has a state and whose edges lead to its states, the search ends. It finds no path
just if no symbols lead to the target, and otherwise a path that leads there and is a shortest one. -/
theorem path_shortest (nonempty : 0 < g.size) (closed : g.Closed) (target : Int) :
    (∃ n, g.turns target n [] [⟨0, []⟩] = some (g.path target)) ∧
    (g.path target = .error .unreachable ↔
      ∀ word (state : Nat), g.follow word = some state → (state : Int) ≠ target) ∧
    (∀ fault, g.path target = .error fault → fault = .unreachable) ∧
    ∀ path, g.path target = .ok path →
      (∃ state : Nat, (state : Int) = target ∧ g.follow path = some state) ∧
      ∀ word (state : Nat), g.follow word = some state → (state : Int) = target →
        path.length ≤ word.length := by
  refine ⟨?_, path_eq_unreachable_iff closed nonempty, ?_, ?_⟩
  · apply exists_turns List.nodup_nil
    · exact fun state mem => absurd mem List.not_mem_nil
    · exact fun state mem => absurd mem List.not_mem_nil
    · exact Nat.lt_succ_self g.size
  · intro fault found
    exact eq_unreachable closed nonempty found
  · intro path found
    have answers := path_answers closed nonempty target
    rw [found] at answers
    refine ⟨answers, ?_⟩
    intro word state follow hit
    rcases path_notAfter g.length_visitOrder found follow hit with rfl | shorter
    · exact Nat.le_refl _
    · exact shorter

def marker (name : Name) : ItemSet := .ofList [.start name [] Grammar.endSymbol]

/-- States in a circle, the first with an edge to itself and one that has been turned, and a last
state that nothing leads to. -/
def circle : Except PathFault StateGraph :=
  let registered := ["A", "B", "C", "D"].foldl (fun g name => (g.register (marker name)).graph) .empty
  [(0, "x", 0), (0, "y", 1), (1, "x", 0), (2, "z", 1), (0, "y", 2), (3, "x", 1)].foldlM
    (fun g edge => g.link edge.1 edge.2.1 edge.2.2) registered

theorem path_shortest_circle : ∃ g, circle = .ok g ∧ 0 < g.size ∧ g.Closed ∧
    g.path 1 = .ok ["y", "z"] ∧ (∀ word, g.follow word = some 1 → 2 ≤ word.length) ∧
    g.path 3 = .error .unreachable ∧ ∀ word, g.follow word ≠ some 3 := by
  let g : StateGraph :=
    ⟨[⟨marker "A", .ofList [("x", 0), ("y", 2)]⟩, ⟨marker "B", .ofList [("x", 0)]⟩,
      ⟨marker "C", .ofList [("z", 1)]⟩, ⟨marker "D", .ofList [("x", 1)]⟩]⟩
  have nonempty : 0 < g.size := by decide
  have closed : g.Closed := closed_iff.2 (by decide)
  have found : g.path 1 = .ok ["y", "z"] := by decide
  have none : g.path 3 = .error .unreachable := by decide
  refine ⟨g, by decide +kernel, nonempty, closed, found, ?_, none, ?_⟩
  · intro word follow
    exact ((path_shortest nonempty closed 1).2.2.2 _ found).2 word 1 follow rfl
  · intro word follow
    exact (path_shortest nonempty closed 3).2.1.1 none word 3 follow rfl

end DeclarationChecker.Lr.StateGraph
