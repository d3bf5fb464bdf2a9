import DeclarationChecker.Lr.Verdict
import DeclarationChecker.Proofs.Lr.Canonical

set_option autoImplicit false

namespace DeclarationChecker.Lr

abbrev Call := Name × Claim

def Agree (calls : List Call) : Prop :=
  ∀ x ∈ calls, ∀ y ∈ calls, x.1 = y.1 → x.2.action = y.2.action

def addClaim (row : Dictionary Name Claim) (call : Call) : Dictionary Name Claim :=
  if row.contains call.1 then row else row.insert call.1 call.2

def firstClaims (calls : List Call) : Dictionary Name Claim := calls.foldl addClaim .empty

theorem firstClaims_append_singleton (calls : List Call) (call : Call) :
    firstClaims (calls ++ [call]) = addClaim (firstClaims calls) call := by
  rw [firstClaims, List.foldl_append]
  rfl

theorem get?_addClaim (row : Dictionary Name Claim) (call : Call) (symbol : Name) :
    (addClaim row call).get? symbol =
      (row.get? symbol).or (if symbol = call.1 then some call.2 else none) := by
  unfold addClaim Dictionary.contains
  by_cases e : symbol = call.1
  · subst e
    cases h : row.get? call.1 with
    | none => simp [Dictionary.get?_insert]
    | some claim => simp [h]
  · rw [if_neg e, Option.or_none]
    split
    · rfl
    · rw [Dictionary.get?_insert, if_neg e]

theorem get?_firstClaims (calls : List Call) (symbol : Name) :
    (firstClaims calls).get? symbol = calls.lookup symbol := by
  induction calls using List.reverseRecOn with
  | nil => rfl
  | append_singleton calls call ih =>
    rw [firstClaims_append_singleton, get?_addClaim, ih, List.lookup_append]
    congr 1
    rw [Dictionary.lookup_cons_eq_ite]
    rfl

namespace TableBuilder

def writing (b : TableBuilder) (row : OpenRow) : TableBuilder := { b with openRow := some row }

def settled (b : TableBuilder) : TableBuilder := { b.flushRow with gotos := b.flushRow.gotoRows }

variable {b : TableBuilder} {row : OpenRow} {symbol : Name} {claim : Claim}

theorem newRow_eq (b : TableBuilder) (state : Int) :
    b.newRow state = b.settled.writing ⟨state, .empty, .empty, 0⟩ := rfl

theorem settled_writing (b : TableBuilder) (state : Int) (claims : Dictionary Name Claim)
    (gotos : Dictionary Name Int) : (b.writing ⟨state, claims, gotos, 0⟩).settled =
      ⟨b.graph, b.actions ++ [claims.map Claim.action], b.gotos ++ [gotos],
        some ⟨state, claims, gotos, 1⟩⟩ := rfl

theorem graph_settled (b : TableBuilder) : b.settled.graph = b.graph := by
  unfold settled flushRow
  split <;> rfl

theorem setAction_writing (same : ∀ existing, row.claims.get? symbol = some existing →
    existing.action = claim.action) : (b.writing row).setAction symbol claim =
      .ok (b.writing { row with claims := addClaim row.claims (symbol, claim) }) := by
  unfold setAction addClaim Dictionary.contains
  dsimp only [writing]
  cases h : row.claims.get? symbol with
  | none => rfl
  | some existing =>
    dsimp only
    rw [if_pos (same existing h)]
    rfl

theorem setAction_conflict {existing : Claim} {path : List Name}
    (taken : row.claims.get? symbol = some existing) (other : existing.action ≠ claim.action)
    (found : b.graph.path row.state = .ok path) : (b.writing row).setAction symbol claim =
      .error (.conflict ⟨row.state, symbol, path, existing, claim⟩) := by
  unfold setAction
  dsimp only [writing]
  rw [taken]
  dsimp only
  rw [if_neg other, found]

theorem foldlM_setAction {calls : List Call} (before : List Call) (agree : Agree (before ++ calls))
    (claims : row.claims = firstClaims before) :
    calls.foldlM (fun b call => b.setAction call.1 call.2) (b.writing row) =
      .ok (b.writing { row with claims := firstClaims (before ++ calls) }) := by
  induction calls generalizing row before with
  | nil =>
    rw [List.append_nil, ← claims]
    rfl
  | cons call calls ih =>
    have same : ∀ existing, row.claims.get? call.1 = some existing →
        existing.action = call.2.action := by
      intro existing taken
      rw [claims, get?_firstClaims] at taken
      obtain ⟨left, right, rfl, -⟩ := List.lookup_eq_some_iff.1 taken
      exact agree (call.1, existing) (by simp) call (by simp) rfl
    rw [List.append_cons] at agree ⊢
    rw [List.foldlM_cons, setAction_writing same]
    refine ih _ agree ?_
    rw [firstClaims_append_singleton, ← claims]

end TableBuilder

namespace Augmented

def completion (a : Augmented) (item : Item) : Action :=
  if item.lhs = a.start then .accept
  else .reduce item.lhs (a.productions.idxOf ⟨item.lhs, item.rhs⟩) item.rhs.length

/-- The cell an item is about and the action it calls for. Nothing is to be done before a
nonterminal. -/
def call? (a : Augmented) (successors : Dictionary Name Nat) (item : Item) : Option Call :=
  match item.next? with
  | none => some (Grammar.endSymbol, ⟨item, a.completion item⟩)
  | some symbol =>
    if symbol ∈ a.terminals then
      (successors.get? symbol).map fun target : Nat => (symbol, ⟨item, .shift target⟩)
    else none

def calls (a : Augmented) (s : GraphState) : List Call :=
  s.items.elements.filterMap (a.call? s.successors)

def gotoRow (a : Augmented) (successors : Dictionary Name Nat) : Dictionary Name Int :=
  .ofList ((successors.entries.filter fun edge => a.nonterminals.contains edge.1).map fun edge =>
    (edge.1, (edge.2 : Int)))

/-- What the item of a state has for its cell to be written: the lookahead that the cell is for, a
production in the list, and an edge for the symbol after the dot. -/
structure Writable (a : Augmented) (successors : Dictionary Name Nat) (item : Item) : Prop where
  lookahead : item.lookahead = Grammar.endSymbol
  known : item.lhs ≠ a.start → ⟨item.lhs, item.rhs⟩ ∈ a.productions
  linked : ∀ symbol, item.next? = some symbol → ∃ target, successors.get? symbol = some target

variable {a : Augmented} {b : TableBuilder} {row : OpenRow} {successors : Dictionary Name Nat}
  {item : Item} {items : List Item}

theorem productionIndex_eq (h : ⟨item.lhs, item.rhs⟩ ∈ a.productions) :
    a.productionIndex item = .ok (a.productions.idxOf ⟨item.lhs, item.rhs⟩) := by
  have test : (fun p : Production => decide (p.lhs = item.lhs) && decide (p.rhs = item.rhs)) =
      fun p => p == ⟨item.lhs, item.rhs⟩ := by
    funext p
    rw [Bool.eq_iff_iff, Bool.and_eq_true, decide_eq_true_eq, decide_eq_true_eq, beq_iff_eq]
    cases p
    exact Production.mk.injEq .. ▸ Iff.rfl
  rw [productionIndex, test, List.findIdx?_eq_some_of_exists
    (p := fun p => p == ⟨item.lhs, item.rhs⟩) ⟨_, h, beq_self_eq_true _⟩]
  rfl

theorem writeItem_eq (h : a.Writable successors item) : a.writeItem successors b item =
    match a.call? successors item with
    | none => .ok b
    | some call => b.setAction call.1 call.2 := by
  unfold writeItem call?
  cases next : item.next? with
  | none =>
    dsimp only
    unfold completion
    split
    · rfl
    · rename_i other
      rw [productionIndex_eq (h.known other), h.lookahead]
      rfl
  | some symbol =>
    obtain ⟨target, edge⟩ := h.linked symbol next
    dsimp only
    rw [edge]
    by_cases terminal : symbol ∈ a.terminals
    · rw [if_pos (List.contains_iff_mem.2 terminal), if_pos terminal]
      rfl
    · rw [if_neg fun contains => terminal (List.contains_iff_mem.1 contains), if_neg terminal]

theorem foldlM_writeItem (h : ∀ item ∈ items, a.Writable successors item) :
    items.foldlM (a.writeItem successors) b =
      (items.filterMap (a.call? successors)).foldlM (fun b call => b.setAction call.1 call.2) b := by
  induction items generalizing b with
  | nil => rfl
  | cons item items ih =>
    obtain ⟨here, others⟩ := List.forall_mem_cons.1 h
    rw [List.foldlM_cons, writeItem_eq here, List.filterMap_cons]
    cases a.call? successors item with
    | none => exact ih others
    | some call =>
      rw [List.foldlM_cons]
      exact bind_congr fun b => ih others

theorem writeEdge_writing {edge : Name × Nat} (free : row.gotos.get? edge.1 = none) :
    a.writeEdge (b.writing row) edge = .ok (b.writing { row with
      gotos := if a.nonterminals.contains edge.1 then row.gotos.insert edge.1 edge.2
        else row.gotos }) := by
  unfold writeEdge TableBuilder.setGoto
  dsimp only [TableBuilder.writing]
  rw [free]
  split <;> rfl

theorem foldlM_writeEdge {edges : List (Name × Nat)} (distinct : (edges.map Prod.fst).Nodup)
    (free : ∀ edge ∈ edges, row.gotos.get? edge.1 = none) :
    edges.foldlM a.writeEdge (b.writing row) = .ok (b.writing { row with
      gotos := ((edges.filter fun edge => a.nonterminals.contains edge.1).map fun edge =>
        (edge.1, (edge.2 : Int))).foldl (fun d entry => d.insert entry.1 entry.2) row.gotos }) := by
  induction edges generalizing row with
  | nil => rfl
  | cons edge edges ih =>
    obtain ⟨apart, distinct⟩ := List.nodup_cons.1 distinct
    obtain ⟨here, others⟩ := List.forall_mem_cons.1 free
    rw [List.foldlM_cons, writeEdge_writing here]
    have free' : ∀ edge' ∈ edges, (if a.nonterminals.contains edge.1 then
        row.gotos.insert edge.1 edge.2 else row.gotos).get? edge'.1 = none := by
      intro edge' mem
      have other : edge'.1 ≠ edge.1 := fun e => apart (List.mem_map.2 ⟨edge', mem, e⟩)
      split
      · rw [Dictionary.get?_insert, if_neg other]
        exact others edge' mem
      · exact others edge' mem
    refine (ih distinct free').trans ?_
    rw [List.filter_cons]
    cases a.nonterminals.contains edge.1 <;> rfl

variable {s : GraphState}

/-- A state whose items agree on each cell has a row, to which all of them contribute. -/
theorem writeState_eq (h : ∀ item ∈ s.items.elements, a.Writable s.successors item)
    (agree : Agree (a.calls s)) (b : TableBuilder) (number : Nat) :
    a.writeState b (s, number) = .ok (b.settled.writing
      ⟨number, firstClaims (a.calls s), a.gotoRow s.successors, 0⟩) := by
  unfold writeState
  dsimp only
  rw [foldlM_writeItem h, TableBuilder.newRow_eq, TableBuilder.foldlM_setAction [] agree rfl]
  exact foldlM_writeEdge s.successors.distinct fun _ _ => rfl

/-- Where an item first calls for another action than the items before it, the row is refused. -/
theorem writeState_conflict {before after : List Item} {symbol : Name} {existing added : Claim}
    {path : List Name} {number : Nat}
    (h : ∀ item ∈ s.items.elements, a.Writable s.successors item)
    (split : s.items.elements = before ++ item :: after)
    (agree : Agree (before.filterMap (a.call? s.successors)))
    (call : a.call? s.successors item = some (symbol, added))
    (first : (before.filterMap (a.call? s.successors)).lookup symbol = some existing)
    (other : existing.action ≠ added.action) (found : b.graph.path number = .ok path) :
    a.writeState b (s, number) = .error (.conflict ⟨number, symbol, path, existing, added⟩) := by
  have calls : s.items.elements.filterMap (a.call? s.successors) =
      before.filterMap (a.call? s.successors) ++
        (symbol, added) :: after.filterMap (a.call? s.successors) := by
    rw [split, List.filterMap_append, List.filterMap_cons, call]
  have taken : (firstClaims (before.filterMap (a.call? s.successors))).get? symbol = some existing := by
    rw [get?_firstClaims, first]
  have found' : b.settled.graph.path number = .ok path := by
    rw [TableBuilder.graph_settled, found]
  unfold writeState
  dsimp only
  rw [foldlM_writeItem h, calls, List.foldlM_append, TableBuilder.newRow_eq,
    TableBuilder.foldlM_setAction [] agree rfl]
  change ((List.foldlM _ _ _ : Except TableFault TableBuilder) >>= _) = _
  rw [List.foldlM_cons, TableBuilder.setAction_conflict taken other found']
  rfl

end Augmented

end DeclarationChecker.Lr
