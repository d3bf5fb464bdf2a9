import DeclarationChecker.Dictionary
import DeclarationChecker.Repetition
import DeclarationChecker.Text.Lines

set_option autoImplicit false

/-!
Nested name spaces. A declaration looks only at the innermost scope, so an inner scope may use
a name of an outer one again. Within one scope a name is declared once, except that a forward
declaration may be completed by one later declaration of its kind.
-/

namespace DeclarationChecker

open Text

inductive SymbolKind where
  | procedure
  | function
  | parameter
  | variable
  deriving DecidableEq, Repr

def SymbolKind.name : SymbolKind → String
  | .procedure => "procedure"
  | .function => "function"
  | .parameter => "parameter"
  | .variable => "variable"

/-- What is known about a declared name. `forward` says that its body is still to come. -/
structure Symbol where
  kind : SymbolKind
  declaredAt : Position
  forward : Bool
  returnType : Option String
  deriving DecidableEq, Repr

structure Scope where
  label : String
  symbols : Dictionary String Symbol
  deriving DecidableEq, Repr

namespace Scope

def named (label : String) : Scope := ⟨label, .empty⟩

def describe (s : Scope) : String := s!"<Scope {s.label} ({s.symbols.size} symbols)>"

def put (s : Scope) (name : String) (symbol : Symbol) : Scope :=
  { s with symbols := s.symbols.insert name symbol }

inductive Fault where
  | nameConflict (name : String) (firstLine : Int)
  | duplicateParameter (name : String)
  deriving DecidableEq, Repr

def Fault.message : Fault → String
  | .nameConflict name firstLine =>
    s!"Name '{name}' conflicts with an earlier declaration on line {firstLine}"
  | .duplicateParameter name => s!"Duplicate parameter '{name}'"

structure Refusal where
  fault : Fault
  position : Position
  deriving DecidableEq, Repr

structure Declared where
  scope : Scope
  symbol : Symbol
  completes : Bool
  deriving DecidableEq, Repr

def completes (earlier later : Symbol) : Bool :=
  earlier.forward && earlier.kind = later.kind && !later.forward

/-- The announced record, completed: it keeps its first place and takes the return type of the
completing function. -/
def completion (earlier later : Symbol) : Symbol :=
  { earlier with
    forward := false
    returnType := if later.kind = .function then later.returnType else earlier.returnType }

def declare (s : Scope) (name : String) (symbol : Symbol) : Except Refusal Declared :=
  match s.symbols.get? name with
  | none => .ok ⟨s.put name symbol, symbol, false⟩
  | some earlier =>
    if completes earlier symbol then
      .ok ⟨s.put name (completion earlier symbol), completion earlier symbol, true⟩
    else .error ⟨.nameConflict name earlier.declaredAt.line, symbol.declaredAt⟩

/-- Parameters have to differ from each other; they enter no scope. The first one that repeats
an earlier name is to blame. -/
def checkParameters (parameters : List (String × Position)) : Except Refusal Unit :=
  match Repetition.first? Prod.fst parameters with
  | none => .ok ()
  | some (name, position) => .error ⟨.duplicateParameter name, position⟩

end Scope

/-- The open scopes. The outermost one is the global scope, which never closes. -/
structure ScopeTable where
  current : Scope
  enclosing : List Scope
  deriving DecidableEq, Repr

namespace ScopeTable

def initial : ScopeTable := ⟨.named "global", []⟩

def depth (t : ScopeTable) : Nat := t.enclosing.length

def enter (t : ScopeTable) (label : String) : ScopeTable :=
  ⟨.named label, t.current :: t.enclosing⟩

def exit (t : ScopeTable) : ScopeTable :=
  match t.enclosing with
  | [] => t
  | outer :: rest => ⟨outer, rest⟩

def lookup (t : ScopeTable) (name : String) : Option Symbol :=
  (t.current :: t.enclosing).findSome? fun s => s.symbols.get? name

def hasLocal (t : ScopeTable) (name : String) : Bool := t.current.symbols.contains name

def put (t : ScopeTable) (name : String) (symbol : Symbol) : ScopeTable :=
  { t with current := t.current.put name symbol }

structure Declared where
  table : ScopeTable
  symbol : Symbol
  completes : Bool
  deriving DecidableEq, Repr

def declare (t : ScopeTable) (name : String) (symbol : Symbol) : Except Scope.Refusal Declared :=
  (t.current.declare name symbol).map fun d =>
    ⟨{ t with current := d.scope }, d.symbol, d.completes⟩

def declareVariable (t : ScopeTable) (name : String) (position : Position) :
    Except Scope.Refusal Declared :=
  t.declare name ⟨.variable, position, false, none⟩

def declareProcedure (t : ScopeTable) (name : String) (position : Position) (forward : Bool) :
    Except Scope.Refusal Declared :=
  t.declare name ⟨.procedure, position, forward, none⟩

def declareFunction (t : ScopeTable) (name returnType : String) (position : Position)
    (forward : Bool) : Except Scope.Refusal Declared :=
  t.declare name ⟨.function, position, forward, some returnType⟩

end ScopeTable

end DeclarationChecker
