import DeclarationChecker.Dictionary
import DeclarationChecker.Lr.Closure

set_option autoImplicit false

namespace DeclarationChecker.Lr

structure GraphState where
  items : ItemSet
  successors : Dictionary Name Nat
  deriving DecidableEq

structure StateGraph where
  states : List GraphState
  deriving DecidableEq

/-- Why a search for a path fails: the state is out of reach, or an edge on the way leads to a
state that does not exist. -/
inductive PathFault where
  | unreachable
  | missingState
  deriving DecidableEq, Repr

def PathFault.message : PathFault → String
  | .unreachable => "Unable to find a path to the target state!"
  | .missingState => "list index out of range"

namespace StateGraph

def empty : StateGraph := ⟨[]⟩

def size (g : StateGraph) : Nat := g.states.length

def index? (g : StateGraph) (items : ItemSet) : Option Nat :=
  g.states.findIdx? fun s => s.items = items

structure Registered where
  graph : StateGraph
  index : Nat
  isNew : Bool

def register (g : StateGraph) (items : ItemSet) : Registered :=
  match g.index? items with
  | some index => ⟨g, index, false⟩
  | none => ⟨⟨g.states ++ [⟨items, .empty⟩]⟩, g.size, true⟩

/-- Adds an edge, or turns it if there is one with its symbol. Nothing is asked of the state it
leads to. -/
def link (g : StateGraph) (source : Nat) (symbol : Name) (target : Nat) :
    Except PathFault StateGraph :=
  if source < g.size then
    .ok ⟨g.states.modify source fun s =>
      { s with successors := s.successors.insert symbol target }⟩
  else .error .missingState

def successors? (g : StateGraph) (index : Nat) : Option (Dictionary Name Nat) :=
  (g.states[index]?).map GraphState.successors

structure Visit where
  state : Nat
  path : List Name
  deriving DecidableEq, Repr

/-- Goes on with the visits that are due, in order. `rounds` bounds the states still to be
expanded. -/
def search (g : StateGraph) (target : Int) :
    Nat → List Nat → List Visit → Except PathFault (List Name)
  | 0, _, _ => .error .unreachable
  | rounds + 1, visited, due =>
    match due.dropWhile fun v => visited.contains v.state with
    | [] => .error .unreachable
    | v :: rest =>
      if (v.state : Int) = target then .ok v.path
      else
        match g.successors? v.state with
        | none => .error .missingState
        | some edges =>
          search g target rounds (v.state :: visited)
            (rest ++ edges.entries.map fun edge => ⟨edge.2, v.path ++ [edge.1]⟩)

def path (g : StateGraph) (target : Int) : Except PathFault (List Name) :=
  g.search target (g.size + 1) [] [⟨0, []⟩]

end StateGraph

/-! ### The canonical collection -/

structure Move where
  symbol : Name
  target : ItemSet
  deriving DecidableEq

structure Explored where
  items : ItemSet
  moves : List Move
  deriving DecidableEq

namespace Augmented

def moves (a : Augmented) (items : ItemSet) : List Move :=
  items.nextSymbols.map fun symbol => ⟨symbol, a.goto items symbol⟩

/-- Explores the item sets that are due, in order, each one once. `room` bounds how many more
there can be. -/
def explore (a : Augmented) : Nat → List Explored → List ItemSet → List Explored
  | 0, found, _ => found
  | room + 1, found, due =>
    match due.dropWhile fun items => found.any fun e => e.items = items with
    | [] => found
    | items :: rest =>
      let moves := a.moves items
      explore a room (found ++ [⟨items, moves⟩]) (rest ++ moves.map Move.target)

def everyItem (a : Augmented) : List Item :=
  a.allProductions.flatMap fun p =>
    (List.range (p.rhs.length + 1)).map fun dot => ⟨p.lhs, p.rhs, dot, Grammar.endSymbol⟩

/-- The item sets to be found are sets of items that all have the lookahead of the start item, so
there is room for every such set. -/
def collection (a : Augmented) : List Explored :=
  a.explore (Nat.pow 2 a.everyItem.length) [] [a.closure [a.startItem]]

end Augmented

def Move.edge? (found : List Explored) (move : Move) : Option (Name × Nat) :=
  (found.findIdx? fun e => e.items = move.target).map fun index => (move.symbol, index)

def graphOf (found : List Explored) : StateGraph :=
  ⟨found.map fun e => ⟨e.items, .ofList (e.moves.filterMap (Move.edge? found))⟩⟩

def Augmented.graph (a : Augmented) : StateGraph := graphOf a.collection

end DeclarationChecker.Lr
