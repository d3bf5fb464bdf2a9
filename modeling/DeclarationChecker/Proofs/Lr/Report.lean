import DeclarationChecker.Proofs.Lr.Cells

set_option autoImplicit false

namespace DeclarationChecker.Lr

def Contested (items : ItemSet) : Prop :=
  ∃ i ∈ items, ∃ j ∈ items, i.atEnd = true ∧ j.atEnd = true ∧ i ≠ j

/-- What a completed item calls for: to accept if it is of the fresh start symbol, and else to reduce
by the first place of its production. -/
def Claim.IsOwn (g : Grammar) (claim : Claim) : Prop :=
  claim.item.lhs = (augment g).start ∧ claim.action = .accept ∨
    claim.item.lhs ≠ (augment g).start ∧ ∃ index : Nat,
      claim.action = .reduce claim.item.lhs index claim.item.rhs.length ∧
      (productionsOf g)[index]? = some ⟨claim.item.lhs, claim.item.rhs⟩ ∧
      ∀ earlier < index, (productionsOf g)[earlier]? ≠ some ⟨claim.item.lhs, claim.item.rhs⟩

/-- The conflict is about the end symbol in the first contested state, and about the two completed
items that come before all others there. -/
structure Reports (g : Grammar) (c : Conflict) (number : Nat) (items : ItemSet) : Prop where
  kind : c.kind.name = "reduce/reduce"
  symbol : c.symbol = "$"
  state : c.state = number
  found : (augment g).graph.items? number = some items
  contested : Contested items
  first : ∀ earlier < number, ∀ items', (augment g).graph.items? earlier = some items' →
    ¬ Contested items'
  existing_complete : c.existing.item ∈ items ∧ c.existing.item.atEnd = true
  added_complete : c.added.item ∈ items ∧ c.added.item.atEnd = true
  ascending : compare c.existing.item c.added.item = .lt
  others : ∀ item ∈ items, item.atEnd = true → item ≠ c.existing.item → item ≠ c.added.item →
    compare c.added.item item = .lt
  existing_own : c.existing.IsOwn g
  added_own : c.added.IsOwn g
  path : (augment g).graph.follow c.path = some number

variable {g : Grammar} {s : GraphState} {i j item : Item}

theorem contested_iff : Contested s.items ↔ 1 < (completed s).length := by
  constructor
  · rintro ⟨i, memI, j, memJ, endI, endJ, other⟩
    by_contra one
    apply other
    apply eq_of_mem_completed (Nat.le_of_not_lt one)
    · exact mem_completed.2 ⟨memI, endI⟩
    · exact mem_completed.2 ⟨memJ, endJ⟩
  · intro two
    match e : completed s with
    | i :: j :: rest =>
      have less := (List.pairwise_cons.1 (e ▸ completed_ascending s)).1 j List.mem_cons_self
      obtain ⟨memI, endI⟩ := mem_completed.1 (e ▸ List.mem_cons_self : i ∈ completed s)
      obtain ⟨memJ, endJ⟩ :=
        mem_completed.1 (e ▸ List.mem_cons_of_mem i List.mem_cons_self : j ∈ completed s)
      refine ⟨i, memI, j, memJ, endI, endJ, ?_⟩
      rintro rfl
      exact SortedSet.not_lt_self i less
    | [] | [_] =>
      rw [e] at two
      simp at two

theorem FirstContest.not_contested {graph : StateGraph} {number earlier : Nat} {items : ItemSet}
    (h : FirstContest graph number i j) (less : earlier < number)
    (here : graph.items? earlier = some items) : ¬ Contested items := by
  obtain ⟨before, s, after, rest, split, rfl, one, -⟩ := h
  obtain ⟨t, there, rfl⟩ := Option.map_eq_some_iff.1 here
  rw [split, List.getElem?_append_left less] at there
  rw [contested_iff]
  exact Nat.not_lt_of_le (one t (List.mem_of_getElem? there))

theorem completion_isOwn (h : s ∈ (augment g).graph.states) (mem : item ∈ completed s) :
    Claim.IsOwn g ⟨item, (augment g).completion item⟩ := by
  rcases Augmented.completion_cases (augment g) item with start | ⟨other, action⟩
  · exact .inl start
  · have every := Augmented.mem_everyItem_of_state h (mem_completed.1 mem).1
    have listed := Augmented.mem_productions every other
    exact .inr ⟨other, _, action, (eq_idxOf_iff listed).1 rfl⟩

/-- The conflict for which a table is refused is that of the first contested state. -/
theorem tableOf_reports {c : Conflict} (valid : g.problem? = none)
    (refused : (augment g).tableOf (augment g).graph = .error (.conflict c)) :
    ∃ number items, Reports g c number items := by
  have reserved := endSymbol_not_mem valid
  rcases uncontested_or (augment g).graph with none | ⟨number, i, j, contest⟩
  · rw [Augmented.tableOf_uncontested reserved none] at refused
    cases refused
  · obtain ⟨path, -, leads, refused'⟩ := Augmented.tableOf_contested reserved contest
    rw [refused'] at refused
    obtain rfl := TableFault.conflict.inj (Except.error.inj refused)
    obtain ⟨s, rest, here, two⟩ := contest.exists_state
    have mem := List.mem_of_getElem? here
    have memI : i ∈ completed s := by simp [two]
    have memJ : j ∈ completed s := by simp [two]
    have ascending := completed_ascending s
    rw [two, List.pairwise_cons, List.pairwise_cons] at ascending
    refine ⟨number, s.items, ?_⟩
    constructor
    · rw [Augmented.contest_kind]
      rfl
    · rfl
    · rfl
    · exact StateGraph.items?_of_state here
    · rw [contested_iff, two]
      simp
    · intro earlier less items there
      exact contest.not_contested less there
    · exact mem_completed.1 memI
    · exact mem_completed.1 memJ
    · exact ascending.1 j List.mem_cons_self
    · intro item listed atEnd otherI otherJ
      have known : item ∈ completed s := mem_completed.2 ⟨listed, atEnd⟩
      rw [two] at known
      have later := (List.mem_cons.1 known).resolve_left otherI
      exact ascending.2.1 item ((List.mem_cons.1 later).resolve_left otherJ)
    · exact completion_isOwn mem memI
    · exact completion_isOwn mem memJ
    · exact leads

def circular : Grammar := ⟨["a"], ["S"], "S", .ofList [("S", [["a"], ["S"]])]⟩

def circularConflict : Conflict where
  state := 1
  symbol := "$"
  path := ["S"]
  existing := ⟨⟨"S", ["S"], 1, "$"⟩, .reduce "S" 1 1⟩
  added := ⟨⟨"S'", ["S"], 1, "$"⟩, .accept⟩

theorem tableOf_reports_circular : circular.problem? = none ∧
    (augment circular).tableOf (augment circular).graph = .error (.conflict circularConflict) ∧
      ∃ number items, Reports circular circularConflict number items := by
  have valid : circular.problem? = none := by decide
  have refused : (augment circular).tableOf (augment circular).graph =
    .error (.conflict circularConflict) := by decide +kernel
  exact ⟨valid, refused, tableOf_reports valid refused⟩

end DeclarationChecker.Lr
