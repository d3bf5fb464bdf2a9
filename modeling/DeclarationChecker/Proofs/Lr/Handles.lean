import DeclarationChecker.Proofs.Lr.Contest

set_option autoImplicit false

namespace DeclarationChecker.Lr

variable {a : Augmented} {g : Grammar} {s : GraphState} {item : Item} {number : Nat}
  {word : List Name} {p : Production}

namespace Augmented

theorem items_eq_after (here : a.graph.states[number]? = some s)
    (follow : a.graph.follow word = some number) : s.items = a.after word := by
  rw [follow_eq_some_iff, StateGraph.items?_of_state here] at follow
  exact Option.some.inj follow

theorem mem_items_iff (here : (augment g).graph.states[number]? = some s)
    (follow : (augment g).graph.follow word = some number) :
    item ∈ s.items ↔ (augment g).Valid word item := by
  rw [items_eq_after here follow, mem_after (augment_startsOnce g)]

theorem exists_state (valid : (augment g).Valid word item) :
    ∃ number s, (augment g).graph.states[number]? = some s ∧
      (augment g).graph.follow word = some number := by
  have mem := (mem_after (augment_startsOnce g)).2 valid
  have found : ((augment g).graph.index? ((augment g).after word)).isSome = true :=
    index?_isSome_iff.2 ⟨⟨item, mem⟩, word, rfl⟩
  rw [← follow_eq] at found
  obtain ⟨number, follow⟩ := Option.isSome_iff_exists.1 found
  obtain ⟨s, here⟩ := exists_state_of_follow follow
  exact ⟨number, s, here, follow⟩

/-- The word ends in the right side of the production, and a chain of productions leads to its left
side over what stands before. -/
def EndsIn (a : Augmented) (word : List Name) (p : Production) : Prop :=
  p ∈ a.allProductions ∧ ∃ above, a.Reached above p.lhs ∧ word = above ++ p.rhs

theorem valid_complete_iff :
    a.Valid word ⟨p.lhs, p.rhs, p.rhs.length, Grammar.endSymbol⟩ ↔ a.EndsIn word p := by
  obtain ⟨lhs, rhs⟩ := p
  constructor
  · rintro ⟨above, name, before, after, reached, mem, rfl, e⟩
    obtain ⟨rfl, rfl, dot, -⟩ := Item.mk.inj e
    have nothing : after = [] := by
      rw [List.length_append] at dot
      exact List.length_eq_zero_iff.1 (by omega)
    subst nothing
    exact ⟨mem, above, reached, by rw [List.append_nil]⟩
  · rintro ⟨mem, above, reached, rfl⟩
    rw [← List.append_nil rhs] at mem
    exact ⟨above, lhs, rhs, [], reached, mem, rfl, by rw [List.append_nil]⟩

theorem endsIn_of_mem_completed (here : (augment g).graph.states[number]? = some s)
    (follow : (augment g).graph.follow word = some number) (mem : item ∈ completed s) :
    (augment g).EndsIn word ⟨item.lhs, item.rhs⟩ := by
  rw [← valid_complete_iff, ← eq_complete (List.mem_of_getElem? here) mem, ← mem_items_iff here follow]
  exact (mem_completed.1 mem).1

theorem exists_mem_completed (h : (augment g).EndsIn word p) :
    ∃ number s, (augment g).graph.states[number]? = some s ∧
      (augment g).graph.follow word = some number ∧
      ⟨p.lhs, p.rhs, p.rhs.length, Grammar.endSymbol⟩ ∈ completed s := by
  have valid := valid_complete_iff.2 h
  obtain ⟨number, s, here, follow⟩ := exists_state valid
  exact ⟨number, s, here, follow,
    mem_completed.2 ⟨(mem_items_iff here follow).2 valid, decide_eq_true rfl⟩⟩

/-- If no state is contested, symbols end in one production at most. -/
theorem endsIn_unique (h : Uncontested (augment g).graph) {q : Production}
    (hp : (augment g).EndsIn word p) (hq : (augment g).EndsIn word q) : p = q := by
  obtain ⟨number, s, here, follow, memP⟩ := exists_mem_completed hp
  obtain ⟨number', s', here', follow', memQ⟩ := exists_mem_completed hq
  obtain rfl : number = number' := Option.some.inj (follow.symm.trans follow')
  obtain rfl : s = s' := Option.some.inj (here.symm.trans here')
  obtain ⟨lhs, rhs, -⟩ := Item.mk.inj (eq_of_mem_completed (h s (List.mem_of_getElem? here)) memP memQ)
  cases p
  cases q
  exact Production.mk.injEq .. ▸ ⟨lhs, rhs⟩

theorem reached_start (g : Grammar) : (augment g).Reached [] g.start := by
  have used : ⟨(augment g).start, [] ++ g.start :: []⟩ ∈ (augment g).allProductions :=
    List.mem_cons_self
  exact .step .start used

end Augmented

open Augmented

theorem FirstContest.endsIn {i j : Item} (h : FirstContest (augment g).graph number i j)
    (follow : (augment g).graph.follow word = some number) :
    ∃ p q, p ≠ q ∧ (augment g).EndsIn word p ∧ (augment g).EndsIn word q := by
  obtain ⟨s, rest, here, contested⟩ := h.exists_state
  have different := completion_ne (List.mem_of_getElem? here) contested
  refine ⟨⟨i.lhs, i.rhs⟩, ⟨j.lhs, j.rhs⟩, fun e => different ?_, ?_, ?_⟩
  · obtain ⟨lhs, rhs⟩ := Production.mk.inj e
    rw [completion, completion, lhs, rhs]
  · exact endsIn_of_mem_completed here follow (contested ▸ List.mem_cons_self)
  · exact endsIn_of_mem_completed here follow
      (contested ▸ List.mem_cons_of_mem _ List.mem_cons_self)

/-- A well-formed grammar is judged, and refused just if some symbols end in two productions. Each
refusal is for two such productions, both of which would reduce. -/
theorem judge_refuses_iff (valid : g.problem? = none) :
    ∃ verdict, judge g = .ok verdict ∧
      (verdict.ok = false ↔
        ∃ word p q, p ≠ q ∧ (augment g).EndsIn word p ∧ (augment g).EndsIn word q) ∧
      ∀ states conflict, verdict = .conflicting states conflict → conflict.kind = .reduceReduce ∧
        ∃ p q, p ≠ q ∧ (augment g).EndsIn conflict.path p ∧ (augment g).EndsIn conflict.path q := by
  rcases uncontested_or (augment g).graph with none | ⟨number, i, j, first⟩
  · refine ⟨_, judge_uncontested valid none, ?_, fun _ _ e => Verdict.noConfusion e⟩
    refine iff_of_false Bool.true_eq_false_eq_False ?_
    rintro ⟨word, p, q, other, endsP, endsQ⟩
    exact other (Augmented.endsIn_unique none endsP endsQ)
  · obtain ⟨path, -, leads, refused⟩ := judge_contested valid first
    have two := first.endsIn leads
    refine ⟨_, refused, iff_of_true rfl ⟨path, two⟩, ?_⟩
    rintro _ _ ⟨⟩
    exact ⟨contest_kind _ number path i j, two⟩

/-- Two nonterminals that are both empty, with nothing to tell them apart. -/
def twoEmpty : Grammar :=
  ⟨["a"], ["S", "X", "Y"], "S", .ofList [("S", [["X"], ["Y"]]), ("X", [[]]), ("Y", [[]])]⟩

theorem judge_refuses_iff_twoEmpty : twoEmpty.problem? = none ∧
    ∃ verdict, judge twoEmpty = .ok verdict ∧ verdict.ok = false := by
  have valid : twoEmpty.problem? = none := by decide
  have empty : ∀ name ∈ (["X", "Y"] : List Name), (augment twoEmpty).EndsIn [] ⟨name, []⟩ := by
    intro name mem
    have chosen : ⟨"S", ([] : List Name) ++ name :: []⟩ ∈ productionsOf twoEmpty := by
      revert name
      decide
    have dropped : ⟨name, []⟩ ∈ productionsOf twoEmpty := by
      revert name
      decide
    exact ⟨List.mem_cons_of_mem _ dropped, [],
      .step (reached_start twoEmpty) (List.mem_cons_of_mem _ chosen), rfl⟩
  obtain ⟨verdict, judged, refused, -⟩ := judge_refuses_iff valid
  refine ⟨valid, verdict, judged, refused.2 ⟨[], ⟨"X", []⟩, ⟨"Y", []⟩, by decide, ?_, ?_⟩⟩
  · exact empty "X" (by decide)
  · exact empty "Y" (by decide)

end DeclarationChecker.Lr
