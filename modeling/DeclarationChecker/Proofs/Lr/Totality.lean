import DeclarationChecker.Proofs.Lr.Filling

set_option autoImplicit false

namespace DeclarationChecker.Lr

def marked (name : Name) : Nat → Name
  | 0 => name
  | marks + 1 => marked (name ++ "'") marks

/-- As many marks are appended as it takes, and no more. -/
theorem freshName_eq_marked (taken : List Name) (candidate : Name) :
    ∃ marks, freshName taken candidate = marked candidate marks ∧
      ∀ fewer < marks, marked candidate fewer ∈ taken := by
  induction taken, candidate using freshName.induct with
  | case1 taken candidate mem ih =>
    obtain ⟨marks, e, known⟩ := ih
    refine ⟨marks + 1, ?_, fun fewer less => ?_⟩
    · rw [freshName, if_pos mem, e, marked]
    · cases fewer with
      | zero => exact mem
      | succ fewer => exact List.mem_of_mem_erase (known fewer (Nat.lt_of_succ_lt_succ less))
  | case2 taken candidate free =>
    exact ⟨0, by rw [freshName, if_neg free, marked], fun fewer less => absurd less (Nat.not_lt_zero _)⟩

def addRules (g : Grammar) (rules : Dictionary Name (List (List Name))) (name : Name) :
    Dictionary Name (List (List Name)) :=
  rules.insert name ((rules.get? name).getD [] ++ g.alternatives name)

def rulesOf (g : Grammar) : Dictionary Name (List (List Name)) :=
  g.nonterminals.foldl (addRules g) (Dictionary.empty.insert (augment g).start [[g.start]])

section

variable {g : Grammar} {rules : Dictionary Name (List (List Name))} {names : List Name} {symbol : Name}
  {rhs : List Name}

theorem get?_addRules (name : Name) : (addRules g rules name).get? symbol =
    if symbol = name then some ((rules.get? name).getD [] ++ g.alternatives name)
    else rules.get? symbol :=
  Dictionary.get?_insert _ _ _ _

theorem rules_foldl : ((names.foldl (addRules g) rules).get? symbol).isSome = true ↔
    (rules.get? symbol).isSome = true ∨ symbol ∈ names := by
  induction names generalizing rules with
  | nil => simp
  | cons name names ih =>
    rw [List.foldl_cons, ih, get?_addRules, List.mem_cons]
    split
    · rename_i same
      simp [same]
    · rename_i other
      rw [or_iff_right (a := symbol = name) other]

theorem mem_rules_foldl : rhs ∈ ((names.foldl (addRules g) rules).get? symbol).getD [] ↔
    rhs ∈ (rules.get? symbol).getD [] ∨ symbol ∈ names ∧ rhs ∈ g.alternatives symbol := by
  induction names generalizing rules with
  | nil => simp
  | cons name names ih =>
    rw [List.foldl_cons, ih, get?_addRules, List.mem_cons]
    split
    · rename_i same
      subst same
      rw [Option.getD_some, List.mem_append, or_assoc, eq_self, true_or, true_and]
      exact or_congr_right (or_iff_left_of_imp And.right)
    · rename_i other
      rw [or_iff_right (a := symbol = name) other]

theorem get?_rulesOf_isSome :
    ((rulesOf g).get? symbol).isSome = true ↔ symbol ∈ (augment g).nonterminals := by
  rw [rulesOf, rules_foldl, Dictionary.get?_insert]
  refine Iff.trans (or_congr_left ?_) List.mem_cons.symm
  split
  · rename_i same
    exact iff_of_true rfl same
  · rename_i other
    exact iff_of_false Bool.false_ne_true other

theorem mem_rulesOf : rhs ∈ ((rulesOf g).get? symbol).getD [] ↔
    ⟨symbol, rhs⟩ ∈ (augment g).allProductions := by
  rw [rulesOf, mem_rules_foldl, Dictionary.get?_insert]
  have others : ⟨symbol, rhs⟩ ∈ (augment g).productions ↔
      symbol ∈ g.nonterminals ∧ rhs ∈ g.alternatives symbol := mem_productionsOf
  refine Iff.trans (or_congr ?_ others.symm) List.mem_cons.symm
  split
  · rename_i same
    rw [same, Option.getD_some, List.mem_singleton]
    exact ⟨fun e => e ▸ rfl, fun e => congrArg Production.rhs e⟩
  · rename_i other
    exact iff_of_false List.not_mem_nil fun e => other (congrArg Production.lhs e)

theorem brings_iff {item fresh : Item} (next : item.next? = some symbol) :
    (augment g).Brings item fresh ↔
      ∃ rhs ∈ ((rulesOf g).get? symbol).getD [], fresh = .start symbol rhs item.lookahead := by
  constructor
  · rintro h
    obtain rfl : symbol = fresh.lhs := Option.some.inj (next.symm.trans h.next)
    exact ⟨fresh.rhs, mem_rulesOf.2 h.mem, h.eq⟩
  · rintro ⟨rhs, mem, rfl⟩
    exact ⟨next, rfl, rfl, mem_rulesOf.1 mem⟩

end

section

variable {calls : List Call} {call : Call}

theorem agree_append_singleton (agree : Agree calls)
    (same : ∀ x ∈ calls, x.1 = call.1 → x.2.action = call.2.action) : Agree (calls ++ [call]) := by
  intro x hx y hy cell
  rcases List.mem_append.1 hx with hx | last
  · rcases List.mem_append.1 hy with hy | last'
    · exact agree x hx y hy cell
    · rw [List.mem_singleton.1 last'] at cell ⊢
      exact same x hx cell
  · rw [List.mem_singleton.1 last] at cell ⊢
    rcases List.mem_append.1 hy with hy | last'
    · exact (same y hy cell.symm).symm
    · rw [List.mem_singleton.1 last']

/-- A call that differs from one for its cell differs from the first one. -/
theorem exists_lookup_of_disagree (agree : Agree calls) {x : Call} (mem : x ∈ calls)
    (cell : x.1 = call.1) (other : x.2.action ≠ call.2.action) :
    ∃ existing, calls.lookup call.1 = some existing ∧ existing.action ≠ call.2.action := by
  cases found : calls.lookup call.1 with
  | none =>
    have apart := List.lookup_eq_none_iff.1 found x mem
    rw [cell, bne_self_eq_false] at apart
    cases apart
  | some existing =>
    obtain ⟨left, right, rfl, -⟩ := List.lookup_eq_some_iff.1 found
    refine ⟨existing, rfl, fun e => other ?_⟩
    rw [agree x mem (call.1, existing) (by simp) cell]
    exact e

end

namespace Augmented

variable {a : Augmented} {successors : Dictionary Name Nat}

/-- The items of a row agree, or one of them is the first to call for something else. -/
theorem agree_or_disagree (items : List Item) : Agree (items.filterMap (a.call? successors)) ∨
    ∃ before item after symbol existing added, items = before ++ item :: after ∧
      Agree (before.filterMap (a.call? successors)) ∧
      a.call? successors item = some (symbol, added) ∧
      (before.filterMap (a.call? successors)).lookup symbol = some existing ∧
      existing.action ≠ added.action := by
  induction items using List.reverseRecOn with
  | nil => exact .inl fun x mem => absurd mem List.not_mem_nil
  | append_singleton items item ih =>
    rcases ih with agree | ⟨before, other, after, symbol, existing, added, rfl, h⟩
    · rw [List.filterMap_append, List.filterMap_cons]
      cases called : a.call? successors item with
      | none => exact .inl (by rwa [List.filterMap_nil, List.append_nil])
      | some call =>
        by_cases same : ∀ x ∈ items.filterMap (a.call? successors), x.1 = call.1 →
            x.2.action = call.2.action
        · exact .inl (agree_append_singleton agree same)
        · simp only [not_forall] at same
          obtain ⟨x, mem, cell, other⟩ := same
          obtain ⟨existing, found, other⟩ := exists_lookup_of_disagree agree mem cell other
          exact .inr ⟨items, item, [], call.1, existing, call.2, rfl, agree, called, found, other⟩
    · exact .inr ⟨before, other, after ++ [item], symbol, existing, added, List.append_assoc .., h⟩

/-- A row is refused for a conflict if nothing else stands in its way and it cannot be filled. -/
theorem writeState_refused {s : GraphState} (h : ∀ item ∈ s.items.elements, a.Writable s.successors item)
    (disagree : ¬ Agree (a.calls s)) (number : Nat) (path : List Name) :
    ∃ c, ∀ b : TableBuilder, b.graph.path number = .ok path →
      a.writeState b (s, number) = .error (.conflict c) := by
  rcases agree_or_disagree s.items.elements with agree |
    ⟨before, item, after, symbol, existing, added, split, agree, call, first, other⟩
  · exact absurd agree disagree
  · exact ⟨_, fun b => writeState_conflict h split agree call first other⟩

variable {g : Grammar}

theorem edge?_of_move {e : Explored} {move : Move} (found : e ∈ a.collection) (mem : move ∈ e.moves) :
    ∃ index, move.edge? a.collection = some (move.symbol, index) := by
  rw [a.collection_exploration.moves e found] at mem
  obtain ⟨symbol, next, rfl⟩ := List.mem_map.1 mem
  have listed := a.collection_exploration.closed e.items (List.mem_map_of_mem found) symbol next
  rw [List.append_nil, mem_collection_iff, ← index?_isSome_iff, Option.isSome_iff_exists] at listed
  obtain ⟨index, numbered⟩ := listed
  rw [index?_eq] at numbered
  exact ⟨index, by rw [Move.edge?, numbered]; rfl⟩

/-- There is a table, unless two actions conflict. -/
theorem tableOf_cases (g : Grammar) :
    (augment g).tableOf (augment g).graph = .ok ((augment g).rows (augment g).graph) ∨
      ∃ c, (augment g).tableOf (augment g).graph = .error (.conflict c) := by
  rcases all_or_first (augment g).Fills (augment g).graph.states with
    fills | ⟨before, s, after, split, earlier, refused⟩
  · exact .inl (tableOf_eq fills)
  · have here : (augment g).graph.states[before.length]? = some s := by
      rw [split, List.getElem?_append_right (Nat.le_refl _), Nat.sub_self]
      rfl
    have writable := writable_of_mem (List.mem_of_getElem? here)
    obtain ⟨path, found, -⟩ := exists_path here
    obtain ⟨c, fails⟩ := writeState_refused writable (fun agree => refused ⟨writable, agree⟩)
      before.length path
    exact .inr ⟨c, tableOf_error split earlier fun b same => fails b (same ▸ found)⟩

end Augmented

/-- All that the construction looks up on its way is there: the rules of each symbol that has any, the
number of each set of items that is moved to, the edges and productions that items ask for, and a
path to each state. The search for a fresh name, closing and exploring come to an end by themselves. -/
structure Supplied (g : Grammar) : Prop where
  fresh : ∃ marks, (augment g).start = marked (g.start ++ "'") marks ∧
    (augment g).start ∉ g.terminals ++ g.nonterminals ∧
    ∀ fewer < marks, marked (g.start ++ "'") fewer ∈ g.terminals ++ g.nonterminals
  rules : ∀ symbol ∈ (augment g).nonterminals, ∃ alternatives,
    (rulesOf g).get? symbol = some alternatives ∧
    ∀ item fresh, item.next? = some symbol → ((augment g).Brings item fresh ↔
      ∃ rhs ∈ alternatives, fresh = .start symbol rhs item.lookahead)
  bare : ∀ symbol, symbol ∉ (augment g).nonterminals →
    ∀ item fresh, item.next? = some symbol → ¬ (augment g).Brings item fresh
  closed : ∀ seeds item, item ∈ (augment g).closure seeds ↔
    ∃ seed ∈ seeds, Relation.ReflTransGen (augment g).Brings seed item
  ends : ∀ room, 2 ^ (augment g).everyItem.length ≤ room →
    (augment g).explore room [] [(augment g).closure [(augment g).startItem]] = (augment g).collection
  numbered : ∀ e ∈ (augment g).collection, ∀ move ∈ e.moves,
    ∃ index, move.edge? (augment g).collection = some (move.symbol, index)
  asked : ∀ s ∈ (augment g).graph.states, ∀ item ∈ s.items.elements,
    (augment g).Writable s.successors item
  paths : ∀ number < (augment g).graph.size, ∃ path, (augment g).graph.path number = .ok path

theorem supplied (g : Grammar) : Supplied g where
  fresh := by
    obtain ⟨marks, e, known⟩ := freshName_eq_marked (g.terminals ++ g.nonterminals) (g.start ++ "'")
    exact ⟨marks, e, freshName_not_mem _ _, known⟩
  rules symbol mem := by
    obtain ⟨alternatives, found⟩ := Option.isSome_iff_exists.1 (get?_rulesOf_isSome.2 mem)
    refine ⟨alternatives, found, fun item fresh next => ?_⟩
    rw [brings_iff next, found, Option.getD_some]
  bare symbol other item fresh next := by
    have none : (rulesOf g).get? symbol = none := by
      rw [← Option.not_isSome_iff_eq_none, get?_rulesOf_isSome]
      exact other
    rw [brings_iff next, none]
    rintro ⟨rhs, mem, -⟩
    cases mem
  closed seeds item := Augmented.mem_closure
  ends room enough := Augmented.explore_eq_collection enough
  numbered e found move mem := Augmented.edge?_of_move found mem
  asked s mem := Augmented.writable_of_mem mem
  paths number inside := by
    obtain ⟨path, found, -⟩ := Augmented.exists_path (List.getElem?_eq_getElem inside)
    exact ⟨path, found⟩

theorem stateCount_rows (a : Augmented) (graph : StateGraph) : (a.rows graph).stateCount = graph.size :=
  List.length_map _

theorem judge_cases (g : Grammar) : (∃ problem, judge g = .ok (.malformed problem)) ∨
    judge g = .ok (.accepted ((augment g).rows (augment g).graph)) ∧
      (augment g).tableOf (augment g).graph = .ok ((augment g).rows (augment g).graph) ∨
    ∃ c, judge g = .ok (.conflicting (augment g).graph.size c) := by
  unfold judge
  cases g.problem? with
  | some problem => exact .inl ⟨problem, rfl⟩
  | none =>
    dsimp only
    rcases Augmented.tableOf_cases g with built | ⟨c, refused⟩
    · rw [built]
      exact .inr (.inl ⟨rfl, rfl⟩)
    · rw [refused]
      exact .inr (.inr ⟨c, rfl⟩)

/-- Whatever a description is like, its construction ends with a table or with a conflict, and a
verdict is given: it is favourable just if there is a table, and tells the number of states. -/
theorem judge_total (g : Grammar) : Supplied g ∧
    ((∃ t, (augment g).tableOf (augment g).graph = .ok t) ∨
      ∃ c, (augment g).tableOf (augment g).graph = .error (.conflict c)) ∧
    ∃ v, judge g = .ok v ∧ (v.ok = true ↔ ∃ t, v.table? = some t) ∧
      ∀ t, v.table? = some t → (augment g).tableOf (augment g).graph = .ok t ∧
        v.message = s!"Built {(augment g).graph.size} states" := by
  refine ⟨supplied g, (Augmented.tableOf_cases g).imp_left fun built => ⟨_, built⟩, ?_⟩
  rcases judge_cases g with ⟨problem, e⟩ | ⟨e, built⟩ | ⟨c, e⟩
  · exact ⟨_, e, ⟨nofun, nofun⟩, nofun⟩
  · refine ⟨_, e, ⟨fun _ => ⟨_, rfl⟩, fun _ => rfl⟩, fun t given => ?_⟩
    obtain rfl := Option.some.inj given
    refine ⟨built, ?_⟩
    rw [← stateCount_rows]
    rfl
  · exact ⟨_, e, ⟨nofun, nofun⟩, nofun⟩

end DeclarationChecker.Lr
