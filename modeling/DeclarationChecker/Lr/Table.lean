import DeclarationChecker.Lr.Closure

set_option autoImplicit false

namespace DeclarationChecker.Lr

open Text

inductive Action where
  | shift (state : Int)
  | reduce (name : Name) (production : Int) (count : Nat)
  | accept
  deriving DecidableEq, Repr

namespace Action

def cell : Action → String
  | .shift state => s!"s{state}"
  | .reduce _ production _ => s!"r{production}"
  | .accept => "acc"

def describe : Action → CodePoints
  | .shift state => s!"consume the token and go to state {state}"
  | .reduce name _ count => s!"use the {count} values to make a " ++ name
  | .accept => "accept the parse"

end Action

structure ParseTable where
  actions : List (Dictionary Name Action)
  gotos : List (Dictionary Name Int)
  productions : List Production
  deriving DecidableEq, Repr

namespace ParseTable

def stateCount (t : ParseTable) : Nat := t.actions.length

def columns {α : Type} (rows : List (Dictionary Name α)) : List Name :=
  (SortedSet.ofList (rows.flatMap Dictionary.keys)).elements

def actionWidth : Nat := 6

def gotoWidth : Nat := 5

def cells (width : Nat) (texts : List CodePoints) : CodePoints :=
  .intercalate " " (texts.map (.padRight width))

def actionCells (columns : List Name) (row : Dictionary Name Action) : CodePoints :=
  cells actionWidth (columns.map fun symbol => ((row.get? symbol).map Action.cell).getD "")

def gotoCells (columns : List Name) (row : Dictionary Name Int) : CodePoints :=
  cells gotoWidth (columns.map fun symbol => ((row.get? symbol).map toString).getD "")

def heading (t : ParseTable) : CodePoints :=
  "     | " ++ cells actionWidth (columns t.actions) ++ " | " ++ cells gotoWidth (columns t.gotos)

def row (t : ParseTable) (index : Nat) (actions : Dictionary Name Action)
    (gotos : Dictionary Name Int) : CodePoints :=
  padRight 4 (toString index) ++ " | " ++ actionCells (columns t.actions) actions ++ " | " ++
    gotoCells (columns t.gotos) gotos

def render (t : ParseTable) : CodePoints :=
  let rule := String.ofList (List.replicate t.heading.length '-')
  let rows := (t.actions.zip t.gotos).mapIdx fun index pair => t.row index pair.1 pair.2
  .intercalate "\n" (t.heading :: rule :: rows)

end ParseTable

/-! ### Conflicts -/

structure Claim where
  item : Item
  action : Action
  deriving DecidableEq, Repr

def Claim.describe (c : Claim) : CodePoints :=
  "- We are in the rule `" ++ c.item.describe ++ "` and we should " ++ c.action.describe

inductive ConflictKind where
  | shiftShift
  | shiftReduce
  | reduceReduce
  deriving DecidableEq, Repr

def ConflictKind.name : ConflictKind → String
  | .shiftShift => "shift/shift"
  | .shiftReduce => "shift/reduce"
  | .reduceReduce => "reduce/reduce"

/-- Accepting counts as a reduction, by the production of the fresh start symbol. -/
def ConflictKind.of : Action → Action → ConflictKind
  | .shift _, .shift _ => .shiftShift
  | .shift _, _ => .shiftReduce
  | _, .shift _ => .shiftReduce
  | _, _ => .reduceReduce

/-- Two claims to the cell of a state and a symbol. The path leads to the state. -/
structure Conflict where
  state : Int
  symbol : Name
  path : List Name
  existing : Claim
  added : Claim
  deriving DecidableEq, Repr

namespace Conflict

def kind (c : Conflict) : ConflictKind := .of c.existing.action c.added.action

def summary (c : Conflict) : CodePoints :=
  s!"{c.kind.name} conflict in state {c.state} on symbol '" ++ c.symbol ++ "'"

def situation (c : Conflict) : CodePoints :=
  "When we have parsed '" ++ .intercalate " " c.path ++ "' and see '" ++ c.symbol ++
    "' we don't know whether:"

def message (c : Conflict) : CodePoints :=
  .intercalate "\n" [c.summary, c.situation, c.existing.describe, c.added.describe]

end Conflict

end DeclarationChecker.Lr
