set_option autoImplicit false

/-!
Numerals of any length, kept as digits. Without leading zeros a longer numeral is the larger
one, and numerals of one length compare digit by digit, so no value is ever computed.
-/

namespace DeclarationChecker

structure Numeral where
  digits : List Char
  deriving DecidableEq, Repr

namespace Numeral

def ofText (text : String) : Numeral :=
  match text.toList.dropWhile (· = '0') with
  | [] => ⟨['0']⟩
  | digits => ⟨digits⟩

def toText (n : Numeral) : String := String.ofList n.digits

instance : ToString Numeral := ⟨toText⟩

/-- Smaller: shorter, or of one length and smaller at the first digit that differs. -/
def lt (m n : Numeral) : Bool :=
  m.digits.length < n.digits.length ||
    (m.digits.length = n.digits.length && m.digits < n.digits)

end Numeral

/-! ### Types -/

inductive PrimitiveType where
  | integer
  | real
  | char
  | boolean
  deriving DecidableEq, Repr

namespace PrimitiveType

def name : PrimitiveType → String
  | .integer => "integer"
  | .real => "real"
  | .char => "char"
  | .boolean => "boolean"

def ofName? (name : String) : Option PrimitiveType :=
  [integer, real, char, boolean].find? fun p => p.name = name

theorem ofName?_name (p : PrimitiveType) : ofName? p.name = some p := by
  cases p <;> decide

end PrimitiveType

/-- A type as it is declared. Sizes and bounds are kept as written, also when they are out of
range. -/
inductive DeclaredType where
  | primitive (type : PrimitiveType)
  | string (size : Option Numeral)
  | array (low high : Numeral) (element : DeclaredType)
  deriving DecidableEq, Repr

namespace DeclaredType

def describe : DeclaredType → String
  | primitive type => type.name
  | string none => "string"
  | string (some size) => s!"string[{size}]"
  | array low high element => s!"array[{low}..{high}] of " ++ element.describe

def isReturnType : DeclaredType → Bool
  | primitive .integer => true
  | primitive .real => true
  | _ => false

structure Range where
  low : Numeral
  high : Numeral
  deriving DecidableEq, Repr

/-- The element type under array ranges, the outermost range first. -/
def ofRanges (ranges : List Range) (element : DeclaredType) : DeclaredType :=
  ranges.foldr (fun range type => array range.low range.high type) element

def maxStringSize : Numeral := ⟨['2', '5', '5']⟩

def isStringSize (size : Numeral) : Bool :=
  size ≠ ⟨['0']⟩ && !maxStringSize.lt size

end DeclaredType

end DeclarationChecker
