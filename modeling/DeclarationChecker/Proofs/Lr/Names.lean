import DeclarationChecker.Proofs.Grammar.Validity
import DeclarationChecker.Proofs.Lr.Cells

set_option autoImplicit false

namespace DeclarationChecker

open Text

namespace Grammar

variable {g : Grammar} {problem : Problem}

theorem mem_names_of_terminal {name : Name} (mem : name ∈ g.terminals) : name ∈ g.names := by
  simp [names, mem]

theorem mem_names_of_nonterminal {name : Name} (mem : name ∈ g.nonterminals) : name ∈ g.names := by
  simp [names, mem]

theorem start_mem_names (g : Grammar) : g.start ∈ g.names := by simp [names]

theorem mem_names_of_alternative {name symbol : Name} {rhs : List Name}
    (listed : rhs ∈ g.alternatives name) (mem : symbol ∈ rhs) : symbol ∈ g.names := by
  cases found : g.productions.get? name with
  | none =>
    rw [alternatives, found] at listed
    cases listed
  | some alternatives =>
    rw [Grammar.alternatives, found] at listed
    have entry := (Dictionary.get?_eq_some_iff _ _ _).1 found
    refine List.mem_append_right _ (List.mem_flatMap.2 ⟨_, entry, ?_⟩)
    exact List.mem_cons_of_mem _ (List.mem_flatten.2 ⟨rhs, listed, mem⟩)

def Problem.offenders : Problem → List Name
  | .noTerminals | .noNonterminals | .reservedSymbol => []
  | .repeatedTerminal name | .repeatedNonterminal name | .ambiguousSymbol name | .unknownStart name
  | .foreignProductions name | .noProductions name => [name]
  | .unknownSymbol name symbol => [name, symbol]

theorem mem_names_of_problem (found : g.problem? = some problem) :
    ∀ name ∈ problem.offenders, name ∈ g.names := by
  rw [problem?_eq_findSome?] at found
  obtain ⟨requirement, -, found⟩ := List.exists_of_findSome?_eq_some found
  have has := (problemWith?_eq_some_iff.1 found).2
  cases problem with
  | noTerminals | noNonterminals | reservedSymbol => exact List.forall_mem_nil _
  | repeatedTerminal name =>
    exact List.forall_mem_singleton.2 (mem_names_of_terminal (RepeatsFirst.mem has))
  | repeatedNonterminal name =>
    exact List.forall_mem_singleton.2 (mem_names_of_nonterminal (RepeatsFirst.mem has))
  | ambiguousSymbol name | noProductions name =>
    rw [Has] at has
    exact List.forall_mem_singleton.2 (mem_names_of_nonterminal has.mem)
  | unknownStart name =>
    obtain ⟨rfl, -⟩ := has
    exact List.forall_mem_singleton.2 (start_mem_names g)
  | foreignProductions name =>
    rw [Has] at has
    obtain ⟨entry, listed, rfl⟩ := List.mem_map.1 has.mem
    refine List.forall_mem_singleton.2 (List.mem_append_right _ ?_)
    exact List.mem_flatMap.2 ⟨entry, listed, List.mem_cons_self⟩
  | unknownSymbol name symbol =>
    obtain ⟨rhs, listed, mem⟩ := List.mem_flatten.1 has.2.mem
    have used := mem_names_of_alternative listed mem
    have declared := mem_names_of_nonterminal has.1.mem
    simp [Problem.offenders, declared, used]

theorem Problem.isWellFormed_message (h : ∀ name ∈ problem.offenders, name.isWellFormed = true) :
    problem.message.isWellFormed = true := by
  cases problem <;> simp_all [offenders, message, endSymbol]

end Grammar

namespace Lr

variable {g : Grammar} {s : GraphState} {state : Nat} {item : Item} {symbol : Name} {word : List Name}

theorem isWellFormed_freshName {taken : List Name} {candidate : Name}
    (h : candidate.isWellFormed = true) : (freshName taken candidate).isWellFormed = true := by
  induction taken, candidate using freshName.induct with
  | case1 taken candidate mem ih =>
    rw [freshName, if_pos mem]
    exact ih (by simp [h])
  | case2 taken candidate free =>
    rw [freshName, if_neg free]
    exact h

/-- The start symbol is the only name that the construction makes up. -/
theorem isWellFormed_of_production (h : g.Spelled) {p : Production}
    (mem : p ∈ (augment g).allProductions) :
    p.lhs.isWellFormed = true ∧ ∀ name ∈ p.rhs, name.isWellFormed = true := by
  have start : g.start.isWellFormed = true := h _ g.start_mem_names
  rcases List.mem_cons.1 mem with rfl | listed
  · exact ⟨isWellFormed_freshName (by simp [start]), List.forall_mem_singleton.2 start⟩
  · obtain ⟨declared, alternative⟩ := mem_productionsOf.1 listed
    refine ⟨h _ (Grammar.mem_names_of_nonterminal declared), fun name mem => ?_⟩
    exact h name (Grammar.mem_names_of_alternative alternative mem)

theorem isWellFormed_of_next (h : g.Spelled) (listed : item ∈ (augment g).everyItem)
    (next : item.next? = some symbol) : symbol.isWellFormed = true :=
  (isWellFormed_of_production h (Augmented.mem_everyItem.1 listed).1).2 symbol
    (List.mem_of_getElem? next)

theorem isWellFormed_describe (h : g.Spelled) (listed : item ∈ (augment g).everyItem) :
    item.describe.isWellFormed = true := by
  obtain ⟨production, -, lookahead⟩ := Augmented.mem_everyItem.1 listed
  obtain ⟨lhs, rhs⟩ := isWellFormed_of_production h production
  have symbols : (CodePoints.intercalate " " item.markedSymbols).isWellFormed = true := by
    refine CodePoints.isWellFormed_intercalate (CodePoints.isWellFormed_ofString " ") fun text mem => ?_
    obtain ⟨index, inside, rfl⟩ := List.mem_mapIdx.1 mem
    have here := rhs _ (List.getElem_mem inside)
    split <;> simp [here]
  have ending : (if item.atEnd then (" *" : CodePoints) else "").isWellFormed = true := by
    split <;> exact CodePoints.isWellFormed_ofString _
  simp [Item.describe, lhs, symbols, ending, lookahead, Grammar.endSymbol]

theorem isWellFormed_of_successor (h : g.Spelled) {target : Nat}
    (here : (augment g).graph.states[state]? = some s) (edge : s.successors.get? symbol = some target) :
    symbol.isWellFormed = true := by
  obtain ⟨item, mem, next⟩ := (Augmented.successor_isSome_iff here symbol).1 (by rw [edge]; rfl)
  exact isWellFormed_of_next h (Augmented.mem_everyItem_of_state (List.mem_of_getElem? here) mem) next

theorem isWellFormed_of_follow (h : g.Spelled) (leads : (augment g).graph.follow word = some state) :
    ∀ name ∈ word, name.isWellFormed = true := by
  induction word using List.reverseRecOn generalizing state with
  | nil => exact List.forall_mem_nil _
  | append_singleton word symbol ih =>
    rw [StateGraph.follow_append_singleton] at leads
    obtain ⟨source, leads, step⟩ := Option.bind_eq_some_iff.1 leads
    obtain ⟨s, here, edge⟩ := StateGraph.next?_eq_some_iff.1 step
    exact List.forall_mem_append.2
      ⟨ih leads, List.forall_mem_singleton.2 (isWellFormed_of_successor h here edge)⟩

/-! ### Messages -/

theorem isWellFormed_completion (h : g.Spelled) (listed : item ∈ (augment g).everyItem) :
    ((augment g).completion item).describe.isWellFormed = true := by
  have lhs := (isWellFormed_of_production h (Augmented.mem_everyItem.1 listed).1).1
  rcases Augmented.completion_cases (augment g) item with ⟨-, e⟩ | ⟨-, e⟩ <;> rw [e]
  · exact CodePoints.isWellFormed_ofString _
  · simp [Action.describe, lhs]

theorem isWellFormed_contest (h : g.Spelled) {number : Nat} {path : List Name} {i j : Item}
    (leads : (augment g).graph.follow path = some number) (hi : i ∈ (augment g).everyItem)
    (hj : j ∈ (augment g).everyItem) :
    ((augment g).contest number path i j).message.isWellFormed = true := by
  have parsed : (CodePoints.intercalate " " path).isWellFormed = true :=
    CodePoints.isWellFormed_intercalate (CodePoints.isWellFormed_ofString " ")
      (isWellFormed_of_follow h leads)
  refine CodePoints.isWellFormed_intercalate (CodePoints.isWellFormed_ofString "\n") ?_
  simp [Conflict.summary, Conflict.situation, Claim.describe, Augmented.contest, Grammar.endSymbol,
    parsed, isWellFormed_describe h, isWellFormed_completion h, hi, hj]

/-! ### Tables -/

theorem isWellFormed_cells {width : Nat} {texts : List CodePoints}
    (h : ∀ text ∈ texts, text.isWellFormed = true) : (ParseTable.cells width texts).isWellFormed = true := by
  refine CodePoints.isWellFormed_intercalate (CodePoints.isWellFormed_ofString " ") fun text mem => ?_
  obtain ⟨text, listed, rfl⟩ := List.mem_map.1 mem
  simp [CodePoints.padRight, h text listed]

theorem isWellFormed_render {t : ParseTable}
    (actions : ∀ symbol ∈ ParseTable.columns t.actions, symbol.isWellFormed = true)
    (gotos : ∀ symbol ∈ ParseTable.columns t.gotos, symbol.isWellFormed = true) :
    t.render.isWellFormed = true := by
  have heading : t.heading.isWellFormed = true := by
    simp [ParseTable.heading, isWellFormed_cells actions, isWellFormed_cells gotos]
  refine CodePoints.isWellFormed_intercalate (CodePoints.isWellFormed_ofString "\n") ?_
  refine List.forall_mem_cons.2 ⟨heading, List.forall_mem_cons.2 ⟨CodePoints.isWellFormed_ofString _, ?_⟩⟩
  intro line mem
  obtain ⟨index, inside, rfl⟩ := List.mem_mapIdx.1 mem
  -- The cells of a row hold only letters and digits.
  have actionCells : ∀ columns row, (ParseTable.actionCells columns row).isWellFormed = true :=
    fun _ _ => isWellFormed_cells (List.forall_mem_map.2 fun _ _ => CodePoints.isWellFormed_ofString _)
  have gotoCells : ∀ columns row, (ParseTable.gotoCells columns row).isWellFormed = true :=
    fun _ _ => isWellFormed_cells (List.forall_mem_map.2 fun _ _ => CodePoints.isWellFormed_ofString _)
  simp [ParseTable.row, actionCells, gotoCells]

theorem isWellFormed_of_actionRow (h : g.Spelled) {s : GraphState}
    (mem : symbol ∈ ((augment g).actionRow s).keys) : symbol.isWellFormed = true := by
  obtain ⟨action, written⟩ := Dictionary.mem_keys_iff.1 mem
  rw [Augmented.actionRow, Dictionary.get?_map, get?_firstClaims] at written
  obtain ⟨claim, first, -⟩ := Option.map_eq_some_iff.1 written
  obtain ⟨before, after, e, -⟩ := List.lookup_eq_some_iff.1 first
  have called : (symbol, claim) ∈ (augment g).calls s := by simp [e]
  obtain ⟨item, -, call⟩ := List.mem_filterMap.1 called
  rcases Augmented.call?_eq_some_iff.1 call with ⟨-, rfl, -⟩ | ⟨-, terminal, -⟩
  · rfl
  · exact h symbol (Grammar.mem_names_of_terminal terminal)

theorem isWellFormed_of_gotoRow (h : g.Spelled) {successors : Dictionary Name Nat}
    (mem : symbol ∈ ((augment g).gotoRow successors).keys) : symbol.isWellFormed = true := by
  obtain ⟨target, gone⟩ := Dictionary.mem_keys_iff.1 mem
  rcases List.mem_cons.1 (Augmented.get?_gotoRow_iff.1 gone).1 with rfl | listed
  · exact (isWellFormed_of_production h List.mem_cons_self).1
  · exact h symbol (Grammar.mem_names_of_nonterminal listed)

theorem mem_columns {α : Type} {rows : List (Dictionary Name α)} :
    symbol ∈ ParseTable.columns rows ↔ ∃ row ∈ rows, symbol ∈ row.keys := by
  rw [ParseTable.columns, ← SortedSet.mem_iff, SortedSet.mem_ofList, List.mem_flatMap]

theorem isWellFormed_rows (h : g.Spelled) (graph : StateGraph) :
    ((augment g).rows graph).render.isWellFormed = true := by
  refine isWellFormed_render (fun symbol mem => ?_) fun symbol mem => ?_
  · obtain ⟨row, listed, mem⟩ := mem_columns.1 mem
    obtain ⟨s, -, rfl⟩ := List.mem_map.1 listed
    exact isWellFormed_of_actionRow h mem
  · obtain ⟨row, listed, mem⟩ := mem_columns.1 mem
    obtain ⟨s, -, rfl⟩ := List.mem_map.1 listed
    exact isWellFormed_of_gotoRow h mem

/-- Whatever is said about a description is spelled with the names in it. -/
theorem isWellFormed_of_judge (h : g.Spelled) {verdict : Verdict} (judged : judge g = .ok verdict) :
    verdict.message.isWellFormed = true ∧
      ∀ table, verdict.table? = some table → table.render.isWellFormed = true := by
  cases problem : g.problem? with
  | some problem' =>
    have found : judge g = .ok (.malformed problem') := by rw [judge, problem]
    obtain rfl := Except.ok.inj (judged.symm.trans found)
    refine ⟨Grammar.Problem.isWellFormed_message fun name mem => ?_, nofun⟩
    exact h name (Grammar.mem_names_of_problem problem name mem)
  | none =>
    rcases uncontested_or (augment g).graph with free | ⟨number, i, j, first⟩
    · obtain rfl := Except.ok.inj (judged.symm.trans (judge_uncontested problem free))
      refine ⟨CodePoints.isWellFormed_ofString _, fun table built => ?_⟩
      obtain rfl := Option.some.inj built
      exact isWellFormed_rows h _
    · obtain ⟨path, -, leads, refused⟩ := judge_contested problem first
      obtain rfl := Except.ok.inj (judged.symm.trans refused)
      obtain ⟨s, rest, here, two⟩ := first.exists_state
      have known : ∀ item ∈ completed s, item ∈ (augment g).everyItem := fun item mem =>
        Augmented.mem_everyItem_of_state (List.mem_of_getElem? here) (mem_completed.1 mem).1
      refine ⟨isWellFormed_contest h leads (known i ?_) (known j ?_), nofun⟩ <;> simp [two]

end Lr

end DeclarationChecker
