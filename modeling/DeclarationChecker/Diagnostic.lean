import DeclarationChecker.DeclaredType
import DeclarationChecker.Scope
import DeclarationChecker.Token.Basic

set_option autoImplicit false

namespace DeclarationChecker

open Text

inductive Expected where
  | spelling (text : String)
  | identifier
  | number
  | type
  | declaration
  | declarationOrEnd
  | beginOrForward
  deriving DecidableEq, Repr

def Expected.describe : Expected → String
  | .spelling text => s!"'{text}'"
  | .identifier => "an identifier"
  | .number => "a number"
  | .type => "a type"
  | .declaration => "'var', 'procedure' or 'function'"
  | .declarationOrEnd => "a declaration or 'end'"
  | .beginOrForward => "'begin' or 'forward'"

namespace Diagnostic

inductive Kind where
  | lexical
  | syntactic
  | semantic
  deriving DecidableEq, Repr

def Kind.name : Kind → String
  | .lexical => "lexical"
  | .syntactic => "syntax"
  | .semantic => "semantic"

inductive Cause where
  | invalidCharacter (found : Token.InvalidCharacter)
  | unexpected (expected : Expected) (found : Token)
  | tooDeep
  | refused (fault : Scope.Fault)
  | range (bounds : DeclaredType.Range)
  | stringSize (size : Numeral)
  | returnType (function : String) (type : DeclaredType)
  deriving DecidableEq, Repr

def Cause.kind : Cause → Kind
  | .invalidCharacter _ => .lexical
  | .unexpected _ _ => .syntactic
  | .tooDeep => .syntactic
  | .refused _ => .semantic
  | .range _ => .semantic
  | .stringSize _ => .semantic
  | .returnType _ _ => .semantic

def Cause.message : Cause → String
  | .invalidCharacter found => found.message
  | .unexpected expected found => s!"Expected {expected.describe}, found {found.describe}"
  | .tooDeep => "Declarations are nested too deep"
  | .refused fault => fault.message
  | .range bounds =>
    s!"Invalid array range [{bounds.low}..{bounds.high}]; the lower bound must be less than " ++
      s!"the upper bound ({bounds.low} >= {bounds.high})"
  | .stringSize size =>
    s!"Invalid string size {size}; it must be between 1 and {DeclaredType.maxStringSize}"
  | .returnType function type =>
    s!"Invalid return type '{type.describe}' for function '{function}'; " ++
      "a function must return integer or real"

end Diagnostic

structure Diagnostic where
  cause : Diagnostic.Cause
  position : Position
  deriving DecidableEq, Repr

namespace Diagnostic

def kind (d : Diagnostic) : Kind := d.cause.kind

def message (d : Diagnostic) : String := d.cause.message

def describe (d : Diagnostic) : String :=
  s!"{d.position.describe}: {d.kind.name}: {d.message}"

/-- The diagnostics in reading order, those at one place in the order in which they were made. -/
def inOrder (diagnostics : List Diagnostic) : List Diagnostic :=
  diagnostics.mergeSort fun d e => d.position.le e.position

end Diagnostic

end DeclarationChecker
