import DeclarationChecker.Lr.Table
import DeclarationChecker.Lr.Collection
import DeclarationChecker.Grammar.Basic

set_option autoImplicit false

/-!
Building a table row by row. A cell is written once: writing the same again changes nothing,
and writing anything else is refused. A row that has been flushed stays open, and goto cells
written to it later show in the copies that were flushed.
-/

namespace DeclarationChecker.Lr

open Text

inductive TableFault where
  | noOpenRow
  | gotoTaken
  | conflict (conflict : Conflict)
  | path (fault : PathFault)
  /-- No edge bears a symbol that stands after a dot. -/
  | unlinked (symbol : Name)
  /-- An item is of no production of the grammar. -/
  | unknownProduction (item : Item)
  deriving DecidableEq, Repr

/-- The row being written. `flushes` counts the copies that are part of the table already. -/
structure OpenRow where
  state : Int
  claims : Dictionary Name Claim
  gotos : Dictionary Name Int
  flushes : Nat
  deriving DecidableEq, Repr

structure TableBuilder where
  graph : StateGraph
  actions : List (Dictionary Name Action)
  /-- The goto rows before those of the open row. -/
  gotos : List (Dictionary Name Int)
  openRow : Option OpenRow
  deriving DecidableEq

namespace TableBuilder

def ofGraph (graph : StateGraph) : TableBuilder := ⟨graph, [], [], none⟩

def rowCount (b : TableBuilder) : Nat := b.actions.length

def flushRow (b : TableBuilder) : TableBuilder :=
  match b.openRow with
  | none => b
  | some row =>
    { b with
      actions := b.actions ++ [row.claims.map Claim.action]
      openRow := some { row with flushes := row.flushes + 1 } }

def gotoRows (b : TableBuilder) : List (Dictionary Name Int) :=
  match b.openRow with
  | none => b.gotos
  | some row => b.gotos ++ List.replicate row.flushes row.gotos

def table (b : TableBuilder) (productions : List Production) : ParseTable :=
  ⟨b.actions, b.gotoRows, productions⟩

def newRow (b : TableBuilder) (state : Int) : TableBuilder :=
  let flushed := b.flushRow
  { flushed with gotos := flushed.gotoRows, openRow := some ⟨state, .empty, .empty, 0⟩ }

def setAction (b : TableBuilder) (symbol : Name) (claim : Claim) :
    Except TableFault TableBuilder :=
  match b.openRow with
  | none => .error .noOpenRow
  | some row =>
    match row.claims.get? symbol with
    | none =>
      .ok { b with openRow := some { row with claims := row.claims.insert symbol claim } }
    | some existing =>
      if existing.action = claim.action then .ok b
      else
        match b.graph.path row.state with
        | .ok path => .error (.conflict ⟨row.state, symbol, path, existing, claim⟩)
        | .error fault => .error (.path fault)

def setShift (b : TableBuilder) (symbol : Name) (state : Int) (item : Item) :
    Except TableFault TableBuilder :=
  b.setAction symbol ⟨item, .shift state⟩

def setReduce (b : TableBuilder) (symbol : Name) (production : Int) (item : Item) :
    Except TableFault TableBuilder :=
  b.setAction symbol ⟨item, .reduce item.lhs production item.rhs.length⟩

def setAccept (b : TableBuilder) (item : Item) : Except TableFault TableBuilder :=
  b.setAction Grammar.endSymbol ⟨item, .accept⟩

def setGoto (b : TableBuilder) (symbol : Name) (state : Int) : Except TableFault TableBuilder :=
  match b.openRow with
  | none => .error .noOpenRow
  | some row =>
    match row.gotos.get? symbol with
    | none => .ok { b with openRow := some { row with gotos := row.gotos.insert symbol state } }
    | some existing => if existing = state then .ok b else .error .gotoTaken

end TableBuilder

/-! ### Verdicts -/

namespace Augmented

def productionIndex (a : Augmented) (item : Item) : Except TableFault Nat :=
  match a.productions.findIdx? fun p => p.lhs = item.lhs && p.rhs = item.rhs with
  | some index => .ok index
  | none => .error (.unknownProduction item)

def writeItem (a : Augmented) (successors : Dictionary Name Nat) (b : TableBuilder) (item : Item) :
    Except TableFault TableBuilder :=
  match item.next? with
  | none =>
    if item.lhs = a.start then b.setAccept item
    else do b.setReduce item.lookahead (← a.productionIndex item) item
  | some symbol =>
    if a.terminals.contains symbol then
      match successors.get? symbol with
      | some state => b.setShift symbol state item
      | none => .error (.unlinked symbol)
    else .ok b

def writeEdge (a : Augmented) (b : TableBuilder) (edge : Name × Nat) :
    Except TableFault TableBuilder :=
  if a.nonterminals.contains edge.1 then b.setGoto edge.1 edge.2 else .ok b

def writeState (a : Augmented) (b : TableBuilder) (numbered : GraphState × Nat) :
    Except TableFault TableBuilder := do
  let state := numbered.1
  let shifted ← state.items.elements.foldlM (a.writeItem state.successors)
    (b.newRow numbered.2)
  state.successors.entries.foldlM a.writeEdge shifted

def tableOf (a : Augmented) (graph : StateGraph) : Except TableFault ParseTable := do
  let filled ← graph.states.zipIdx.foldlM a.writeState (.ofGraph graph)
  return filled.flushRow.table a.productions

end Augmented

inductive Verdict where
  | malformed (problem : Grammar.Problem)
  | conflicting (states : Nat) (conflict : Conflict)
  | accepted (table : ParseTable)
  deriving DecidableEq, Repr

namespace Verdict

def ok : Verdict → Bool
  | accepted _ => true
  | _ => false

def table? : Verdict → Option ParseTable
  | accepted table => some table
  | _ => none

def stateCount (v : Verdict) : Nat := (v.table?.map ParseTable.stateCount).getD 0

def message : Verdict → CodePoints
  | malformed problem => problem.message
  | conflicting _ conflict => conflict.message
  | accepted table => s!"Built {table.stateCount} states"

end Verdict

def judge (g : Grammar) : Except TableFault Verdict :=
  match g.problem? with
  | some problem => .ok (.malformed problem)
  | none =>
    let a := augment g
    let graph := a.graph
    match a.tableOf graph with
    | .ok table => .ok (.accepted table)
    | .error (.conflict conflict) => .ok (.conflicting graph.size conflict)
    | .error fault => .error fault

end DeclarationChecker.Lr
