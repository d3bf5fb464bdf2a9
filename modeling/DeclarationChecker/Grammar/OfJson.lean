import DeclarationChecker.Grammar.Basic
import DeclarationChecker.Json.Reader

set_option autoImplicit false

namespace DeclarationChecker.Grammar

open Json Text

inductive ShapeFault where
  | notObject
  | notStrings (key : CodePoints)
  | startNotString
  | productionsNotObject
  | alternativesNotList (name : Name)
  | alternativeNotList (name : Name)
  deriving DecidableEq, Repr

def ShapeFault.message : ShapeFault → CodePoints
  | .notObject => "The grammar description must be a JSON object"
  | .notStrings key => "'" ++ key ++ "' must be a list of strings"
  | .startNotString => "'startSymbol' must be a string"
  | .productionsNotObject => "'productions' must be an object"
  | .alternativesNotList name => "The productions for '" ++ name ++ "' must be a list"
  | .alternativeNotList name => "Each production for '" ++ name ++ "' must be a list of symbols"

def string? : Value → Option CodePoints
  | .string text => some text
  | _ => none

/-- A member that is a list of strings; a missing one is empty. -/
def stringList (members : List (CodePoints × Value)) (key : CodePoints) :
    Except ShapeFault (List Name) :=
  match Value.member? key members with
  | none => .ok []
  | some (.array items) =>
    match items.mapM string? with
    | some texts => .ok texts
    | none => .error (.notStrings key)
  | some _ => .error (.notStrings key)

def alternativeOf (name : Name) : Value → Except ShapeFault (List Name)
  | .array symbols => .ok (symbols.filterMap string?)
  | _ => .error (.alternativeNotList name)

def alternativesOf (name : Name) : Value → Except ShapeFault (List (List Name))
  | .array alternatives => alternatives.mapM (alternativeOf name)
  | _ => .error (.alternativesNotList name)

def productionsOf (members : List (CodePoints × Value)) :
    Except ShapeFault (Dictionary Name (List (List Name))) :=
  match Value.member? "productions" members with
  | none => .ok .empty
  | some (.object productions) => do
    let entries ← (Dictionary.ofList productions).entries.mapM fun entry =>
      return (entry.1, ← alternativesOf entry.1 entry.2)
    return .ofList entries
  | some _ => .error .productionsNotObject

def ofValue : Value → Except ShapeFault Grammar
  | .object members => do
    let terminals ← stringList members "terminals"
    let nonterminals ← stringList members "nonterminals"
    match Value.member? "startSymbol" members with
    | some (.string start) => return ⟨terminals, nonterminals, start, ← productionsOf members⟩
    | _ => throw .startNotString
  | _ => throw .notObject

def strings (texts : List Name) : Value := .array (texts.map .string)

def toValue (g : Grammar) : Value :=
  .object
    [("terminals", strings g.terminals),
      ("nonterminals", strings g.nonterminals),
      ("startSymbol", .string g.start),
      ("productions",
        .object (g.productions.entries.map fun entry => (entry.1, .array (entry.2.map strings))))]

inductive LoadFault where
  | json (text : List Char) (flaw : Flaw) (offset : Nat)
  | overlongInteger (digits : Nat)
  | shape (fault : ShapeFault)
  deriving DecidableEq, Repr

def LoadFault.message : LoadFault → CodePoints
  | .json text flaw offset => s!"Invalid grammar JSON: {describeFlaw text flaw offset}"
  | .overlongInteger digits => describeOverlong digits
  | .shape fault => fault.message

def ofJson (text : List Char) : Except LoadFault Grammar :=
  match Json.read text with
  | .error (.malformed flaw offset) => .error (.json text flaw offset)
  | .error (.overlongInteger digits) => .error (.overlongInteger digits)
  | .ok value =>
    match ofValue value with
    | .ok g => .ok g
    | .error fault => .error (.shape fault)

end DeclarationChecker.Grammar
