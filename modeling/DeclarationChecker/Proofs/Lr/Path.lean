import Mathlib.Data.List.Induction
import Mathlib.Data.List.TakeWhile
import DeclarationChecker.Proofs.Lr.Canonical

set_option autoImplicit false

namespace DeclarationChecker.Lr.StateGraph

variable {g : StateGraph} {target : Int} {visited : List Nat} {due rest : List Visit}

def Closed (g : StateGraph) : Prop :=
  ∀ (state : Nat) (edges : Dictionary Name Nat), g.successors? state = some edges →
    ∀ edge ∈ edges.entries, edge.2 < g.size

theorem successors?_isSome {state : Nat} (h : state < g.size) :
    ∃ edges, g.successors? state = some edges :=
  ⟨g.states[state].successors, by rw [successors?, List.getElem?_eq_getElem h]; rfl⟩

theorem length_le_size (distinct : visited.Nodup) (inside : ∀ state ∈ visited, state < g.size) :
    visited.length ≤ g.size := by
  have few : visited ⊆ List.range g.size := fun state mem => List.mem_range.2 (inside state mem)
  have count := (distinct.subperm few).length_le
  rwa [List.length_range] at count

def known (visited : List Nat) (due : List Visit) : List Nat := visited ++ due.map Visit.state

/-- What holds all along a search: the states that are known, visited or due, are states of the
graph that can be followed to, and the target has not been visited. -/
structure Search (g : StateGraph) (target : Int) (visited : List Nat) (due : List Visit) : Prop where
  distinct : visited.Nodup
  inside : ∀ state ∈ known visited due, state < g.size
  missed : ∀ state ∈ visited, (state : Int) ≠ target
  first : 0 ∈ known visited due
  expanded : ∀ state ∈ visited, ∀ symbol next, g.next? state symbol = some next →
    next ∈ known visited due
  followed : ∀ v ∈ due, g.follow v.path = some v.state

def onward (v : Visit) (edges : Dictionary Name Nat) : List Visit :=
  edges.entries.map fun edge => ⟨edge.2, v.path ++ [edge.1]⟩

theorem mem_known_dropWhile {state : Nat} :
    state ∈ known visited (due.dropWhile fun v => visited.contains v.state) ↔
      state ∈ known visited due := by
  rw [known, known, List.mem_append, List.mem_append]
  constructor
  · rintro (old | new)
    · exact .inl old
    · obtain ⟨v, mem, rfl⟩ := List.mem_map.1 new
      exact .inr (List.mem_map_of_mem ((List.dropWhile_sublist _).subset mem))
  · rintro (old | new)
    · exact .inl old
    · obtain ⟨v, mem, rfl⟩ := List.mem_map.1 new
      rw [← List.takeWhile_append_dropWhile (p := fun v => visited.contains v.state) (l := due),
        List.mem_append] at mem
      rcases mem with dropped | left
      · have seen := List.mem_takeWhile_imp (p := fun v : Visit => visited.contains v.state) dropped
        exact .inl (List.contains_iff_mem.1 seen)
      · exact .inr (List.mem_map_of_mem left)

theorem mem_known_visit {v : Visit} {edges : Dictionary Name Nat} {state : Nat} :
    state ∈ known (v.state :: visited) (rest ++ onward v edges) ↔
      state ∈ known visited (v :: rest) ∨ ∃ symbol, (symbol, state) ∈ edges.entries := by
  simp only [known, onward, List.map_append, List.map_map, List.mem_append, List.mem_cons,
    List.map_cons, List.mem_map, Function.comp_apply, Prod.exists, exists_eq_right]
  rw [or_comm (a := state = v.state)]
  simp only [or_assoc]

namespace Search

theorem start (nonempty : 0 < g.size) : Search g target [] [⟨0, []⟩] := by
  refine ⟨List.nodup_nil, ?_, ?_, List.mem_singleton.2 rfl, ?_, ?_⟩
  · intro state mem
    rw [List.mem_singleton.1 mem]
    exact nonempty
  · intro state mem
    cases mem
  · intro state mem
    cases mem
  · intro v mem
    rw [List.mem_singleton.1 mem]
    rfl

theorem dropWhile (h : Search g target visited due) :
    Search g target visited (due.dropWhile fun v => visited.contains v.state) where
  distinct := h.distinct
  inside := fun state mem => h.inside state (mem_known_dropWhile.1 mem)
  missed := h.missed
  first := mem_known_dropWhile.2 h.first
  expanded := fun state mem symbol next edge =>
    mem_known_dropWhile.2 (h.expanded state mem symbol next edge)
  followed := fun v mem => h.followed v ((List.dropWhile_sublist _).subset mem)

theorem visit {v : Visit} {edges : Dictionary Name Nat} (closed : g.Closed)
    (h : Search g target visited (v :: rest)) (new : v.state ∉ visited)
    (other : (v.state : Int) ≠ target) (leads : g.successors? v.state = some edges) :
    Search g target (v.state :: visited) (rest ++ onward v edges) := by
  have next : ∀ symbol state, g.next? v.state symbol = some state ↔ (symbol, state) ∈ edges.entries := by
    intro symbol state
    rw [← Dictionary.get?_eq_some_iff, next?, leads]
    rfl
  constructor
  · exact List.nodup_cons.2 ⟨new, h.distinct⟩
  · intro state mem
    rcases mem_known_visit.1 mem with old | ⟨symbol, edge⟩
    · exact h.inside state old
    · exact closed v.state edges leads _ edge
  · intro state mem
    rcases List.mem_cons.1 mem with rfl | old
    · exact other
    · exact h.missed state old
  · exact mem_known_visit.2 (.inl h.first)
  · intro state mem symbol state' edge
    rcases List.mem_cons.1 mem with rfl | old
    · exact mem_known_visit.2 (.inr ⟨symbol, (next symbol state').1 edge⟩)
    · exact mem_known_visit.2 (.inl (h.expanded state old symbol state' edge))
  · intro v' mem
    rcases List.mem_append.1 mem with old | fresh
    · exact h.followed v' (List.mem_cons_of_mem _ old)
    · obtain ⟨edge, listed, rfl⟩ := List.mem_map.1 fresh
      rw [follow_append_singleton, h.followed v List.mem_cons_self]
      exact (next edge.1 edge.2).2 listed

theorem length_le (h : Search g target visited due) : visited.length ≤ g.size :=
  length_le_size h.distinct fun state mem => h.inside state (List.mem_append_left _ mem)

/-- With nothing due, all that can be followed to has been visited. -/
theorem mem_visited (h : Search g target visited []) {word : List Name} {state : Nat}
    (follow : g.follow word = some state) : state ∈ visited := by
  have all : ∀ state ∈ known visited [], state ∈ visited := fun state mem => by
    rwa [known, List.map_nil, List.append_nil] at mem
  induction word using List.reverseRecOn generalizing state with
  | nil =>
    obtain rfl : 0 = state := Option.some.inj follow
    exact all 0 h.first
  | append_singleton word symbol ih =>
    rw [follow_append_singleton] at follow
    obtain ⟨before, path, edge⟩ := Option.bind_eq_some_iff.1 follow
    exact all state (h.expanded before (ih path) symbol state edge)

end Search

def Answers (g : StateGraph) (target : Int) : Except PathFault (List Name) → Prop
  | .ok path => ∃ state : Nat, (state : Int) = target ∧ g.follow path = some state
  | .error .unreachable => ∀ word (state : Nat), g.follow word = some state → (state : Int) ≠ target
  | .error .missingState => False

theorem Search.answers {rounds : Nat} (closed : g.Closed) (h : Search g target visited due)
    (enough : g.size < rounds + visited.length) :
    g.Answers target (g.search target rounds visited due) := by
  induction rounds generalizing visited due with
  | zero =>
    have := h.length_le
    omega
  | succ rounds ih =>
    have left := h.dropWhile
    have new := List.head?_dropWhile_not (fun v : Visit => visited.contains v.state) due
    rw [search]
    cases e : due.dropWhile fun v => visited.contains v.state with
    | nil =>
      rw [e] at left
      exact fun word state follow => left.missed state (left.mem_visited follow)
    | cons v rest =>
      rw [e] at left new
      have fresh : v.state ∉ visited := by
        rw [← List.contains_iff_mem, Bool.not_eq_true]
        exact new
      have inside := left.inside v.state (List.mem_append_right _ List.mem_cons_self)
      obtain ⟨edges, leads⟩ := successors?_isSome inside
      dsimp only
      split
      · rename_i hit
        exact ⟨v.state, hit, left.followed v List.mem_cons_self⟩
      · rename_i other
        rw [leads]
        refine ih (left.visit closed fresh other leads) ?_
        rw [List.length_cons]
        omega

theorem path_answers (closed : g.Closed) (nonempty : 0 < g.size) (target : Int) :
    g.Answers target (g.path target) :=
  (Search.start nonempty).answers closed (Nat.lt_succ_self _)

theorem eq_unreachable {fault : PathFault} (closed : g.Closed) (nonempty : 0 < g.size)
    (found : g.path target = .error fault) : fault = .unreachable := by
  have answers := path_answers closed nonempty target
  rw [found] at answers
  cases fault with
  | unreachable => rfl
  | missingState => exact answers.elim

theorem path_eq_unreachable_iff (closed : g.Closed) (nonempty : 0 < g.size) :
    g.path target = .error .unreachable ↔
      ∀ word (state : Nat), g.follow word = some state → (state : Int) ≠ target := by
  have answers := path_answers closed nonempty target
  constructor
  · intro none
    rw [none] at answers
    exact answers
  · intro away
    cases found : g.path target with
    | ok path =>
      rw [found] at answers
      obtain ⟨state, hit, follow⟩ := answers
      exact absurd hit (away path state follow)
    | error fault => rw [eq_unreachable closed nonempty found]

theorem exists_path {word : List Name} {state : Nat} (closed : g.Closed) (nonempty : 0 < g.size)
    (follow : g.follow word = some state) :
    ∃ path, g.path state = .ok path ∧ g.follow path = some state := by
  have answers := path_answers closed nonempty state
  cases found : g.path state with
  | ok path =>
    rw [found] at answers
    obtain ⟨state', same, follow'⟩ := answers
    rw [Int.ofNat_inj.1 same] at follow'
    exact ⟨path, rfl, follow'⟩
  | error fault =>
    obtain rfl := eq_unreachable closed nonempty found
    rw [path_eq_unreachable_iff closed nonempty] at found
    exact absurd rfl (found word state follow)

end DeclarationChecker.Lr.StateGraph
