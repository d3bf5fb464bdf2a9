import Mathlib.Data.List.Forall2
import Mathlib.Data.List.ModifyLast
import DeclarationChecker.Proofs.Lr.Row

set_option autoImplicit false

namespace DeclarationChecker.Lr.TableBuilder

inductive Operation where
  | newRow (state : Int)
  | setShift (symbol : Name) (state : Int) (item : Item)
  | setReduce (symbol : Name) (production : Int) (item : Item)
  | setAccept (item : Item)
  | setGoto (symbol : Name) (state : Int)
  deriving DecidableEq, Repr

namespace Operation

def opensRow : Operation → Bool
  | newRow _ => true
  | _ => false

def call? : Operation → Option Call
  | setShift symbol state item => some (symbol, ⟨item, .shift state⟩)
  | setReduce symbol production item =>
    some (symbol, ⟨item, .reduce item.lhs production item.rhs.length⟩)
  | setAccept item => some (Grammar.endSymbol, ⟨item, .accept⟩)
  | _ => none

def edge? : Operation → Option (Name × Int)
  | setGoto symbol state => some (symbol, state)
  | _ => none

theorem cases (op : Operation) : (∃ state, op = newRow state) ∨
    (∃ call, op.opensRow = false ∧ op.call? = some call ∧ op.edge? = none) ∨
    (∃ edge, op.opensRow = false ∧ op.call? = none ∧ op.edge? = some edge) := by
  cases op with
  | newRow state => exact .inl ⟨state, rfl⟩
  | setShift | setReduce | setAccept => exact .inr (.inl ⟨_, rfl, rfl, rfl⟩)
  | setGoto => exact .inr (.inr ⟨_, rfl, rfl, rfl⟩)

end Operation

def perform (b : TableBuilder) : Operation → Except TableFault TableBuilder
  | .newRow state => .ok (b.newRow state)
  | .setShift symbol state item => b.setShift symbol state item
  | .setReduce symbol production item => b.setReduce symbol production item
  | .setAccept item => b.setAccept item
  | .setGoto symbol state => b.setGoto symbol state

/-- A refused operation leaves the builder as it is. -/
def follow (b : TableBuilder) (op : Operation) : TableBuilder :=
  match b.perform op with
  | .ok b' => b'
  | .error _ => b

def run (graph : StateGraph) (ops : List Operation) : TableBuilder := ops.foldl follow (.ofGraph graph)

def successes (b : TableBuilder) : List Operation → List Operation
  | [] => []
  | op :: ops =>
    match b.perform op with
    | .ok b' => op :: b'.successes ops
    | .error _ => b.successes ops

def addToRows (rows : List (List Operation)) (op : Operation) : List (List Operation) :=
  if op.opensRow then rows ++ [[]] else rows.modifyLast (· ++ [op])

def rows (graph : StateGraph) (ops : List Operation) : List (List Operation) :=
  (successes (.ofGraph graph) ops).foldl addToRows []

def firstWrite {α : Type} (written? : Operation → Option (Name × α)) (row : List Operation)
    (symbol : Name) : Option α :=
  (row.filterMap written?).lookup symbol

def actionCell (row : List Operation) (symbol : Name) : Option Claim :=
  firstWrite Operation.call? row symbol

def gotoCell (row : List Operation) (symbol : Name) : Option Int :=
  firstWrite Operation.edge? row symbol

def HoldsActions (row : List Operation) (actions : Dictionary Name Action) : Prop :=
  ∀ symbol, actions.get? symbol = (actionCell row symbol).map Claim.action

def HoldsGotos (row : List Operation) (gotos : Dictionary Name Int) : Prop :=
  ∀ symbol, gotos.get? symbol = gotoCell row symbol

/-- A cell is to be written while no row is open, or the open row has something else there. -/
def Refused (rows : List (List Operation)) (op : Operation) : Prop :=
  op.opensRow = false ∧ rows = [] ∨
  ∃ row, rows.getLast? = some row ∧
    ((∃ symbol claim existing, op.call? = some (symbol, claim) ∧
      actionCell row symbol = some existing ∧ existing.action ≠ claim.action) ∨
    (∃ symbol state existing, op.edge? = some (symbol, state) ∧
      gotoCell row symbol = some existing ∧ existing ≠ state))

def Repeated (rows : List (List Operation)) (op : Operation) : Prop :=
  ∃ row, rows.getLast? = some row ∧
    ((∃ symbol claim existing, op.call? = some (symbol, claim) ∧
      actionCell row symbol = some existing ∧ existing.action = claim.action) ∨
    (∃ symbol state, op.edge? = some (symbol, state) ∧ gotoCell row symbol = some state))

variable {b b' : TableBuilder} {graph : StateGraph} {op : Operation} {ops : List Operation}
  {symbol : Name} {claim : Claim}

theorem perform_of_call {call : Call} (h : op.call? = some call) :
    b.perform op = b.setAction call.1 call.2 := by
  cases op <;> cases h <;> rfl

theorem perform_of_edge {edge : Name × Int} (h : op.edge? = some edge) :
    b.perform op = b.setGoto edge.1 edge.2 := by
  cases op <;> cases h
  rfl

theorem run_concat (graph : StateGraph) (ops : List Operation) (op : Operation) :
    run graph (ops ++ [op]) = (run graph ops).follow op := by
  rw [run, List.foldl_append]
  rfl

theorem successes_concat (b : TableBuilder) (ops : List Operation) (op : Operation) :
    b.successes (ops ++ [op]) = b.successes ops ++
      match (ops.foldl follow b).perform op with
      | .ok _ => [op]
      | .error _ => [] := by
  induction ops generalizing b with
  | nil => cases answer : b.perform op <;> simp [successes, answer]
  | cons first ops ih =>
    rw [List.cons_append, successes, successes, List.foldl_cons, follow]
    cases b.perform first with
    | ok b' =>
      dsimp only
      rw [ih, List.cons_append]
    | error fault => exact ih b

theorem rows_of_ok (h : (run graph ops).perform op = .ok b') :
    rows graph (ops ++ [op]) = addToRows (rows graph ops) op := by
  have h' : (ops.foldl follow (.ofGraph graph)).perform op = .ok b' := h
  rw [rows, successes_concat, h', List.foldl_append]
  rfl

theorem rows_of_error {fault : TableFault} (h : (run graph ops).perform op = .error fault) :
    rows graph (ops ++ [op]) = rows graph ops := by
  have h' : (ops.foldl follow (.ofGraph graph)).perform op = .error fault := h
  rw [rows, successes_concat, h', List.append_nil]
  rfl

section

variable {α : Type} {written? : Operation → Option (Name × α)} {row : List Operation} {value : α}
  {d : Dictionary Name α}

theorem firstWrite_concat (written? : Operation → Option (Name × α)) (row : List Operation)
    (op : Operation) (symbol : Name) :
    firstWrite written? (row ++ [op]) symbol = (firstWrite written? row symbol).or
      ((written? op).bind fun cell => if symbol = cell.1 then some cell.2 else none) := by
  rw [firstWrite, List.filterMap_append, List.lookup_append, List.filterMap_cons]
  cases written? op with
  | none => rfl
  | some cell => exact congrArg _ (Dictionary.lookup_cons_eq_ite cell.1 symbol cell.2 [])

variable (holds : ∀ symbol, d.get? symbol = firstWrite written? row symbol)
include holds

theorem firstWrite_elsewhere (none : written? op = none) (symbol : Name) :
    d.get? symbol = firstWrite written? (row ++ [op]) symbol := by
  rw [firstWrite_concat, none, Option.bind_none, Option.or_none, holds]

theorem firstWrite_free (write : written? op = some (symbol, value)) (free : d.get? symbol = none)
    (other : Name) : (d.insert symbol value).get? other = firstWrite written? (row ++ [op]) other := by
  rw [firstWrite_concat, write, Option.bind_some, Dictionary.get?_insert, ← holds]
  split
  · rename_i e
    rw [e, free, Option.none_or]
  · rw [Option.or_none]

theorem firstWrite_taken {existing : α} (write : written? op = some (symbol, value))
    (taken : d.get? symbol = some existing) (other : Name) :
    d.get? other = firstWrite written? (row ++ [op]) other := by
  rw [firstWrite_concat, write, Option.bind_some, ← holds]
  dsimp only
  split
  · rename_i e
    rw [e, taken, Option.some_or]
  · rw [Option.or_none]

end

/-- What becomes of a write to a cell of the open row, be it an action cell or a goto cell. -/
inductive Writes {α : Type} (row : OpenRow) (cells : Dictionary Name α)
    (put : Dictionary Name α → TableBuilder) (agrees : α → Prop) (symbol : Name) (value : α) :
    Except TableFault TableBuilder → Prop
  | first (free : cells.get? symbol = none) :
      Writes row cells put agrees symbol value (.ok (put (cells.insert symbol value)))
  | again {existing : α} (taken : cells.get? symbol = some existing) (same : agrees existing) :
      Writes row cells put agrees symbol value (.ok (put cells))
  | refused {existing : α} {fault : TableFault} (taken : cells.get? symbol = some existing)
      (different : ¬ agrees existing)
      (conflicts : ∀ conflict, fault = .conflict conflict →
        row.claims.get? conflict.symbol = some conflict.existing) :
      Writes row cells put agrees symbol value (.error fault)

theorem setAction_writes (b : TableBuilder) (row : OpenRow) (symbol : Name) (claim : Claim) :
    Writes row row.claims (fun claims => b.writing { row with claims := claims })
      (fun existing => existing.action = claim.action) symbol claim
      ((b.writing row).setAction symbol claim) := by
  unfold setAction
  dsimp only [writing]
  cases cell : row.claims.get? symbol with
  | none => exact .first cell
  | some existing =>
    dsimp only
    split
    · rename_i same
      exact .again cell same
    · rename_i different
      -- The search for a path to the state of the row may fail, too.
      cases b.graph.path row.state with
      | ok path => exact .refused cell different fun conflict e => by cases e; exact cell
      | error fault => exact .refused cell different nofun

theorem setGoto_writes (b : TableBuilder) (row : OpenRow) (symbol : Name) (state : Int) :
    Writes row row.gotos (fun gotos => b.writing { row with gotos := gotos })
      (fun existing => existing = state) symbol state ((b.writing row).setGoto symbol state) := by
  unfold setGoto
  dsimp only [writing]
  cases cell : row.gotos.get? symbol with
  | none => exact .first cell
  | some existing =>
    dsimp only
    split
    · rename_i same
      exact .again cell same
    · rename_i different
      exact .refused cell different nofun

/-- What a builder has kept of the successful writes. No copy of the row that is open is part of the
table yet. -/
inductive Keeps (graph : StateGraph) : List (List Operation) → TableBuilder → Prop
  | noRow : Keeps graph [] (.ofGraph graph)
  | openRow {closed : List (List Operation)} {current : List Operation}
      {actions : List (Dictionary Name Action)} {gotos : List (Dictionary Name Int)} {state : Int}
      {claims : Dictionary Name Claim} {edges : Dictionary Name Int}
      (holdsActions : List.Forall₂ HoldsActions closed actions)
      (holdsGotos : List.Forall₂ HoldsGotos closed gotos)
      (holdsClaims : ∀ symbol, claims.get? symbol = actionCell current symbol)
      (holdsEdges : HoldsGotos current edges) :
      Keeps graph (closed ++ [current]) ⟨graph, actions, gotos, some ⟨state, claims, edges, 0⟩⟩

section

variable {closed : List (List Operation)} {current : List Operation}

theorem not_refused_newRow (rows : List (List Operation)) (state : Int) :
    ¬ Refused rows (.newRow state) := by
  rintro (⟨write, -⟩ | ⟨row, -, ⟨_, _, _, call, -⟩ | ⟨_, _, _, edge, -⟩⟩)
  · cases write
  · cases call
  · cases edge

theorem refused_call_iff (call : op.call? = some (symbol, claim)) (edge : op.edge? = none) :
    Refused (closed ++ [current]) op ↔
      ∃ existing, actionCell current symbol = some existing ∧ existing.action ≠ claim.action := by
  simp [Refused, call, edge]

theorem refused_edge_iff {state : Int} (call : op.call? = none) (edge : op.edge? = some (symbol, state)) :
    Refused (closed ++ [current]) op ↔
      ∃ existing, gotoCell current symbol = some existing ∧ existing ≠ state := by
  simp [Refused, call, edge]

theorem repeated_call_iff (call : op.call? = some (symbol, claim)) (edge : op.edge? = none) :
    Repeated (closed ++ [current]) op ↔
      ∃ existing, actionCell current symbol = some existing ∧ existing.action = claim.action := by
  simp [Repeated, call, edge]

theorem not_repeated_nil : ¬ Repeated [] op := by
  rintro ⟨row, ⟨⟩, -⟩

theorem repeated_edge_iff {state : Int} (call : op.call? = none)
    (edge : op.edge? = some (symbol, state)) :
    Repeated (closed ++ [current]) op ↔
      ∃ existing, gotoCell current symbol = some existing ∧ existing = state := by
  simp [Repeated, call, edge]

end

inductive Answers (graph : StateGraph) (rows : List (List Operation)) (b : TableBuilder)
    (op : Operation) : Prop
  | refuses {fault : TableFault} (refused : Refused rows op) (differs : ¬ Repeated rows op)
      (fails : b.perform op = .error fault)
      (conflicts : ∀ conflict, fault = .conflict conflict → ∃ row, rows.getLast? = some row ∧
        actionCell row conflict.symbol = some conflict.existing) : Answers graph rows b op
  | does {b' : TableBuilder} (allowed : ¬ Refused rows op) (succeeds : b.perform op = .ok b')
      (keeps : Keeps graph (addToRows rows op) b') (same : Repeated rows op → b' = b) :
      Answers graph rows b op

theorem addToRows_write (write : op.opensRow = false) (closed : List (List Operation))
    (current : List Operation) :
    addToRows (closed ++ [current]) op = closed ++ [current ++ [op]] := by
  rw [addToRows, write, if_neg Bool.false_ne_true, List.modifyLast_concat]

theorem answers_newRow {rows : List (List Operation)} (h : Keeps graph rows b) (state : Int) :
    Answers graph rows b (.newRow state) := by
  have empty : ∀ symbol, (Dictionary.empty : Dictionary Name Claim).get? symbol = actionCell [] symbol :=
    fun _ => rfl
  have none : HoldsGotos [] .empty := fun _ => rfl
  have same : ∀ b', Repeated rows (.newRow state) → b' = b := by
    rintro b' ⟨row, -, ⟨_, _, _, call, -⟩ | ⟨_, _, edge, -⟩⟩
    · cases call
    · cases edge
  refine .does (not_refused_newRow rows state) rfl ?_ (same _)
  cases h with
  | noRow =>
    have nothing : List.Forall₂ HoldsActions [] [] ∧ List.Forall₂ HoldsGotos [] [] := ⟨.nil, .nil⟩
    exact .openRow nothing.1 nothing.2 empty none
  | openRow holdsActions holdsGotos holdsClaims holdsEdges =>
    refine .openRow (List.rel_append holdsActions (.cons (fun symbol => ?_) .nil))
      (List.rel_append holdsGotos (.cons holdsEdges .nil)) empty none
    rw [Dictionary.get?_map, holdsClaims]

theorem answers_ofGraph (write : op.opensRow = false) : Answers graph [] (.ofGraph graph) op := by
  have fails : (ofGraph graph).perform op = .error .noOpenRow := by
    cases op with
    | newRow => cases write
    | _ => rfl
  exact .refuses (.inl ⟨write, rfl⟩) not_repeated_nil fails nofun

section

variable {α : Type} {written? : Operation → Option (Name × α)} {row : OpenRow} {value : α}
  {cells : Dictionary Name α} {put : Dictionary Name α → TableBuilder} {agrees : α → Prop}
  {closed : List (List Operation)} {current : List Operation}

/-- The argument for both kinds of cells: the open row has in its cells what was written there first. -/
theorem answers_write (write : op.opensRow = false) (cell : written? op = some (symbol, value))
    (holds : ∀ symbol, cells.get? symbol = firstWrite written? current symbol)
    (holdsClaims : ∀ symbol, row.claims.get? symbol = actionCell current symbol)
    (refused_iff : Refused (closed ++ [current]) op ↔
      ∃ existing, firstWrite written? current symbol = some existing ∧ ¬ agrees existing)
    (repeated_iff : Repeated (closed ++ [current]) op ↔
      ∃ existing, firstWrite written? current symbol = some existing ∧ agrees existing)
    (keeps : ∀ cells', (∀ symbol, cells'.get? symbol = firstWrite written? (current ++ [op]) symbol) →
      Keeps graph (closed ++ [current ++ [op]]) (put cells'))
    (writes : Writes row cells put agrees symbol value ((put cells).perform op)) :
    Answers graph (closed ++ [current]) (put cells) op := by
  rw [← holds] at refused_iff repeated_iff
  generalize performed : (put cells).perform op = answer at writes
  cases writes with
  | first free =>
    rw [free] at refused_iff repeated_iff
    refine .does ?_ performed ?_ ?_
    · rw [refused_iff]
      rintro ⟨existing, ⟨⟩, -⟩
    · rw [addToRows_write write]
      exact keeps _ (firstWrite_free holds cell free)
    · rw [repeated_iff]
      rintro ⟨existing, ⟨⟩, -⟩
  | again taken same =>
    rw [taken] at refused_iff
    refine .does ?_ performed ?_ fun _ => rfl
    · rw [refused_iff]
      rintro ⟨_, ⟨⟩, different⟩
      exact different same
    · rw [addToRows_write write]
      exact keeps _ (firstWrite_taken holds cell taken)
  | refused taken different conflicts =>
    rw [taken] at refused_iff repeated_iff
    refine .refuses (refused_iff.2 ⟨_, rfl, different⟩) ?_ performed fun conflict e => ?_
    · rw [repeated_iff]
      rintro ⟨_, ⟨⟩, same⟩
      exact different same
    · refine ⟨current, List.getLast?_concat, ?_⟩
      rw [← holdsClaims, conflicts conflict e]

end

theorem answers_call {rows : List (List Operation)} (h : Keeps graph rows b)
    (write : op.opensRow = false) (call : op.call? = some (symbol, claim)) (edge : op.edge? = none) :
    Answers graph rows b op := by
  cases h with
  | noRow => exact answers_ofGraph write
  | @openRow closed current actions gotos state claims edges holdsActions holdsGotos holdsClaims
      holdsEdges =>
    have writes := setAction_writes ⟨graph, actions, gotos, none⟩ ⟨state, claims, edges, 0⟩ symbol claim
    have later := firstWrite_elsewhere holdsEdges edge
    rw [← perform_of_call call] at writes
    exact answers_write write call holdsClaims holdsClaims (refused_call_iff call edge)
      (repeated_call_iff call edge) (fun _ holds => .openRow holdsActions holdsGotos holds later) writes

theorem answers_edge {rows : List (List Operation)} {state : Int} (h : Keeps graph rows b)
    (write : op.opensRow = false) (call : op.call? = none) (edge : op.edge? = some (symbol, state)) :
    Answers graph rows b op := by
  cases h with
  | noRow => exact answers_ofGraph write
  | @openRow closed current actions gotos number claims edges holdsActions holdsGotos holdsClaims
      holdsEdges =>
    have writes := setGoto_writes ⟨graph, actions, gotos, none⟩ ⟨number, claims, edges, 0⟩ symbol state
    have later := firstWrite_elsewhere holdsClaims call
    rw [← perform_of_edge edge] at writes
    exact answers_write write edge holdsEdges holdsClaims (refused_edge_iff call edge)
      (repeated_edge_iff call edge) (fun _ holds => .openRow holdsActions holdsGotos later holds) writes

theorem answers {rows : List (List Operation)} (h : Keeps graph rows b) (op : Operation) :
    Answers graph rows b op := by
  rcases op.cases with ⟨state, rfl⟩ | ⟨call, write, some, none⟩ | ⟨edge, write, none, some⟩
  · exact answers_newRow h state
  · exact answers_call h write some none
  · exact answers_edge h write none some

theorem keeps_run (graph : StateGraph) (ops : List Operation) :
    Keeps graph (rows graph ops) (run graph ops) := by
  induction ops using List.reverseRecOn with
  | nil => exact .noRow
  | append_singleton ops op ih =>
    rw [run_concat, follow]
    cases answers ih op with
    | refuses refused differs fails conflicts =>
      rw [rows_of_error fails, fails]
      exact ih
    | does allowed succeeds keeps same =>
      rw [rows_of_ok succeeds, succeeds]
      exact keeps

theorem length_addToRows (rows : List (List Operation)) (op : Operation) :
    (addToRows rows op).length = rows.length + if op.opensRow then 1 else 0 := by
  unfold addToRows
  split
  · exact List.length_append
  · cases rows using List.reverseRecOn with
    | nil => rfl
    | append_singleton closed current =>
      rw [List.modifyLast_concat, List.length_append, List.length_append]
      rfl

/-- A row is always opened, so there are as many as were asked for. -/
theorem length_rows (graph : StateGraph) (ops : List Operation) :
    (rows graph ops).length = ops.countP Operation.opensRow := by
  induction ops using List.reverseRecOn with
  | nil => rfl
  | append_singleton ops op ih =>
    rw [List.countP_append, ← ih, List.countP_singleton]
    cases answers (keeps_run graph ops) op with
    | does allowed succeeds keeps same => rw [rows_of_ok succeeds, length_addToRows]
    | refuses refused differs fails conflicts =>
      have write : op.opensRow = false := by
        cases op with
        | newRow state => exact absurd refused (not_refused_newRow _ state)
        | _ => rfl
      rw [rows_of_error fails, write, if_neg Bool.false_ne_true, Nat.add_zero]

theorem Keeps.table {rows : List (List Operation)} (h : Keeps graph rows b)
    (productions : List Production) :
    List.Forall₂ HoldsActions rows (b.flushRow.table productions).actions ∧
    List.Forall₂ HoldsGotos rows (b.flushRow.table productions).gotos := by
  cases h with
  | noRow => exact ⟨.nil, .nil⟩
  | openRow holdsActions holdsGotos holdsClaims holdsEdges =>
    refine ⟨List.rel_append holdsActions (.cons (fun symbol => ?_) .nil),
      List.rel_append holdsGotos (.cons holdsEdges .nil)⟩
    rw [Dictionary.get?_map, holdsClaims]

/-- Whatever a builder has been asked to do before, it refuses a write exactly if no row is open or
the cell holds something else, and a write that agrees with the cell changes nothing, no more than a
refused one does. A conflict is with the first item that claimed the cell. The table has just the rows
that were opened, in order, each with the first successful write to every cell. -/
theorem run_writesOnce (graph : StateGraph) (ops : List Operation) (productions : List Production) :
    (∀ op, (∃ fault, (run graph ops).perform op = .error fault) ↔ Refused (rows graph ops) op) ∧
    (∀ op, Refused (rows graph ops) op → run graph (ops ++ [op]) = run graph ops ∧
      ∀ conflict, (run graph ops).perform op = .error (.conflict conflict) →
        ∃ row, (rows graph ops).getLast? = some row ∧
          actionCell row conflict.symbol = some conflict.existing) ∧
    (∀ op, Repeated (rows graph ops) op → (run graph ops).perform op = .ok (run graph ops)) ∧
    (rows graph ops).length = ops.countP Operation.opensRow ∧
    List.Forall₂ HoldsActions (rows graph ops) ((run graph ops).flushRow.table productions).actions ∧
    List.Forall₂ HoldsGotos (rows graph ops) ((run graph ops).flushRow.table productions).gotos := by
  have kept := keeps_run graph ops
  refine ⟨fun op => ?_, fun op refused => ?_, fun op repeated => ?_, length_rows graph ops,
    kept.table productions⟩
  · cases answers kept op with
    | refuses refused differs fails conflicts => exact ⟨fun _ => refused, fun _ => ⟨_, fails⟩⟩
    | does allowed succeeds keeps same =>
      refine ⟨fun ⟨fault, fails⟩ => ?_, fun refused => absurd refused allowed⟩
      rw [succeeds] at fails
      cases fails
  · cases answers kept op with
    | refuses refused differs fails conflicts =>
      rw [run_concat, follow, fails]
      exact ⟨rfl, fun conflict e => conflicts conflict (Except.error.inj e)⟩
    | does allowed succeeds keeps same => exact absurd refused allowed
  · cases answers kept op with
    | refuses refused differs fails conflicts => exact absurd repeated differs
    | does allowed succeeds keeps same => rw [succeeds, same repeated]

def opening : List Operation :=
  [.setAccept ⟨"S'", ["S"], 1, "$"⟩, .newRow 7, .setShift "a" 1 ⟨"S", ["a"], 0, "$"⟩]

/-- The graph has no state, so the conflict cannot even be described, but the write is refused. -/
theorem run_writesOnce_opening :
    run .empty (opening ++ [.setShift "a" 2 ⟨"T", ["a"], 0, "$"⟩]) = run .empty opening ∧
    (run .empty opening).perform (.setShift "a" 1 ⟨"T", ["a"], 0, "$"⟩) = .ok (run .empty opening) := by
  have kept : rows .empty opening = [[.setShift "a" 1 ⟨"S", ["a"], 0, "$"⟩]] := by decide
  obtain ⟨-, refuses, repeats, -⟩ := run_writesOnce .empty opening []
  rw [kept] at refuses repeats
  constructor
  · exact (refuses (.setShift "a" 2 ⟨"T", ["a"], 0, "$"⟩)
      (.inr ⟨_, rfl, .inl ⟨"a", _, _, rfl, rfl, by decide⟩⟩)).1
  · exact repeats (.setShift "a" 1 ⟨"T", ["a"], 0, "$"⟩)
      ⟨_, rfl, .inl ⟨"a", _, _, rfl, rfl, by decide⟩⟩

end DeclarationChecker.Lr.TableBuilder
