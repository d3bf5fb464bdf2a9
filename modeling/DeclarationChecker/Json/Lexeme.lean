import DeclarationChecker.Text.CodePoints
import DeclarationChecker.Text.Lines

set_option autoImplicit false

namespace DeclarationChecker.Json

open Text

inductive Value where
  | null
  | boolean (b : Bool)
  | number (spelling : String)
  | string (text : CodePoints)
  | array (items : List Value)
  /-- The members as they stand in the text, repeated names included. -/
  | object (members : List (CodePoints × Value))
  deriving Repr

inductive Flaw where
  | byteOrderMark
  | noValue
  | noName
  | noColon
  | noComma
  | extraData
  | unterminatedString
  | controlCharacter
  | unknownEscape
  | brokenUnicodeEscape
  deriving DecidableEq, Repr

def Flaw.describe : Flaw → String
  | .byteOrderMark => "Unexpected UTF-8 BOM (decode using utf-8-sig)"
  | .noValue => "Expecting value"
  | .noName => "Expecting property name enclosed in double quotes"
  | .noColon => "Expecting ':' delimiter"
  | .noComma => "Expecting ',' delimiter"
  | .extraData => "Extra data"
  | .unterminatedString => "Unterminated string starting at"
  | .controlCharacter => "Invalid control character at"
  | .unknownEscape => "Invalid \\escape"
  | .brokenUnicodeEscape => "Invalid \\uXXXX escape"

def maxIntegerDigits : Nat := 4300

/-- Why no value is read: a flaw and its offset, or an integer with too many digits. -/
inductive Fault where
  | malformed (flaw : Flaw) (offset : Nat)
  | overlongInteger (digits : Nat)
  deriving DecidableEq, Repr

def describeFlaw (text : List Char) (flaw : Flaw) (offset : Nat) : String :=
  let place := (LineTable.ofText text).position offset
  s!"{flaw.describe}: line {place.line} column {place.column} (char {offset})"

def describeOverlong (digits : Nat) : String :=
  s!"Exceeds the limit ({maxIntegerDigits} digits) for integer string conversion: value has " ++
    s!"{digits} digits; use sys.set_int_max_str_digits() to increase the limit"

namespace Value

/-- The value of a member; of several members of one name the last one counts. -/
def member? (name : CodePoints) (members : List (CodePoints × Value)) : Option Value :=
  members.reverse.lookup name

end Value

/-! ### Lexemes -/

inductive Lexeme where
  | openArray
  | closeArray
  | openObject
  | closeObject
  | comma
  | colon
  | string (text : CodePoints)
  /-- A number or one of the words that stand for a value. -/
  | scalar (value : Value)
  | overlongInteger (digits : Nat)
  /-- A string that cannot be read, with the offset of the flaw. -/
  | brokenString (flaw : Flaw) (offset : Nat)
  | unknown
  deriving Repr

structure PlacedLexeme where
  lexeme : Lexeme
  offset : Nat
  deriving Repr

def isJsonBlank (c : Char) : Bool := c = ' ' || c = '\t' || c = '\n' || c = '\r'

/-! ### Strings -/

def hexValue? (c : Char) : Option Nat :=
  if c.isDigit then some (c.toNat - 0x30)
  else if 'a' ≤ c ∧ c ≤ 'f' then some (c.toNat - 0x61 + 10)
  else if 'A' ≤ c ∧ c ≤ 'F' then some (c.toNat - 0x41 + 10)
  else none

/-- The unit that four hexadecimal digits spell. The text has to go on after them. -/
def unit? : List Char → Option Nat
  | a :: b :: c :: d :: _ :: _ => do
    return ((← hexValue? a) * 16 + (← hexValue? b)) * 256 +
      ((← hexValue? c) * 16 + (← hexValue? d))
  | _ => none

def escapedUnit? : List Char → Option Nat
  | '\\' :: 'u' :: rest => unit? rest
  | _ => none

def isHighSurrogate (unit : Nat) : Bool := 0xD800 ≤ unit && unit < 0xDC00

def isLowSurrogate (unit : Nat) : Bool := 0xDC00 ≤ unit && unit < 0xE000

/-- What an escape spells, and how many characters after the `u` it takes. -/
structure Escaped where
  codePoint : CodePoint
  length : Nat
  deriving Repr

/-- The code point whose escape has `unit` first, when `rest` follows the four digits. Two
surrogates make one character; a surrogate alone stays one. -/
def joinUnits (unit : Nat) (rest : List Char) : Escaped :=
  if isHighSurrogate unit then
    match escapedUnit? rest with
    | some low =>
      if isLowSurrogate low then
        ⟨.ofNat (0x10000 + (unit - 0xD800) * 0x400 + (low - 0xDC00)), 10⟩
      else ⟨.ofNat unit, 4⟩
    | none => ⟨.ofNat unit, 4⟩
  else ⟨.ofNat unit, 4⟩

def shortEscape? (c : Char) : Option Char :=
  if c = '"' ∨ c = '\\' ∨ c = '/' then some c
  else if c = 'b' then some '\x08'
  else if c = 'f' then some '\x0C'
  else if c = 'n' then some '\n'
  else if c = 'r' then some '\r'
  else if c = 't' then some '\t'
  else none

structure StringContent where
  codePoints : List CodePoint
  length : Nat
  deriving Repr

def StringContent.cons (p : CodePoint) (length : Nat) (content : StringContent) : StringContent :=
  ⟨p :: content.codePoints, length + content.length⟩

structure PlacedFlaw where
  flaw : Flaw
  offset : Nat
  deriving DecidableEq, Repr

def readString (start offset : Nat) : List Char → Except PlacedFlaw StringContent
  | [] => .error ⟨.unterminatedString, start⟩
  | c :: rest =>
    if c = '"' then .ok ⟨[], 1⟩
    else if c = '\\' then
      match rest with
      | [] => .error ⟨.unterminatedString, start⟩
      | e :: more =>
        if e = 'u' then
          match unit? more with
          | none => .error ⟨.brokenUnicodeEscape, offset + 1⟩
          | some unit =>
            let escaped := joinUnits unit (more.drop 4)
            (readString start (offset + 2 + escaped.length) (more.drop escaped.length)).map
              (·.cons escaped.codePoint (2 + escaped.length))
        else
          match shortEscape? e with
          | none => .error ⟨.unknownEscape, offset⟩
          | some character =>
            (readString start (offset + 2) more).map (·.cons (.ofChar character) 2)
    else if c.toNat < 0x20 then .error ⟨.controlCharacter, offset⟩
    else (readString start (offset + 1) rest).map (·.cons (.ofChar c) 1)
termination_by text => text.length
decreasing_by all_goals simp only [List.length_drop, List.length_cons]; omega

/-! ### Numbers -/

def leadingInteger : List Char → List Char
  | [] => []
  | c :: rest =>
    if c = '0' then ['0']
    else if c.isDigit then c :: rest.takeWhile Char.isDigit
    else []

def leadingFraction : List Char → List Char
  | [] => []
  | c :: rest =>
    let digits := rest.takeWhile Char.isDigit
    if c = '.' ∧ digits ≠ [] then '.' :: digits else []

def leadingSign : List Char → List Char
  | [] => []
  | c :: _ => if c = '+' ∨ c = '-' then [c] else []

def leadingExponent : List Char → List Char
  | [] => []
  | c :: rest =>
    let sign := leadingSign rest
    let digits := (rest.drop sign.length).takeWhile Char.isDigit
    if (c = 'e' ∨ c = 'E') ∧ digits ≠ [] then c :: (sign ++ digits) else []

structure NumberSpelling where
  sign : List Char
  integer : List Char
  tail : List Char
  deriving DecidableEq, Repr

def NumberSpelling.characters (n : NumberSpelling) : List Char := n.sign ++ n.integer ++ n.tail

def leadingNumber? (text : List Char) : Option NumberSpelling :=
  let sign := if text.head? = some '-' then ['-'] else []
  let afterSign := text.drop sign.length
  let integer := leadingInteger afterSign
  let afterInteger := afterSign.drop integer.length
  let fraction := leadingFraction afterInteger
  let exponent := leadingExponent (afterInteger.drop fraction.length)
  if integer = [] then none else some ⟨sign, integer, fraction ++ exponent⟩

/-- Only integers are limited in length. -/
def NumberSpelling.lexeme (n : NumberSpelling) : Lexeme :=
  if n.tail = [] ∧ maxIntegerDigits < n.integer.length then .overlongInteger n.integer.length
  else .scalar (.number (String.ofList n.characters))

/-! ### All lexemes -/

def valueWords : List (String × Value) :=
  [("null", .null), ("true", .boolean true), ("false", .boolean false),
    ("NaN", .number "NaN"), ("Infinity", .number "Infinity"),
    ("-Infinity", .number "-Infinity")]

def leadingWord? (text : List Char) : Option (String × Value) :=
  valueWords.find? fun word => word.1.toList.isPrefixOf text

def mark? (c : Char) : Option Lexeme :=
  if c = '[' then some .openArray
  else if c = ']' then some .closeArray
  else if c = '{' then some .openObject
  else if c = '}' then some .closeObject
  else if c = ',' then some .comma
  else if c = ':' then some .colon
  else none

/-- What stands at the head of a text. `extra` is the number of characters it takes beyond the
first; after something unknown nothing is read. -/
inductive LexStep where
  | blank
  | lexeme (lexeme : Lexeme) (extra : Nat)
  | final (lexeme : Lexeme)
  deriving Repr

def lexStep (offset : Nat) (c : Char) (rest : List Char) : LexStep :=
  if isJsonBlank c then .blank
  else if c = '"' then
    match readString offset (offset + 1) rest with
    | .ok content => .lexeme (.string ⟨content.codePoints⟩) content.length
    | .error e => .final (.brokenString e.flaw e.offset)
  else
    match mark? c, leadingWord? (c :: rest), leadingNumber? (c :: rest) with
    | some mark, _, _ => .lexeme mark 0
    | none, some word, _ => .lexeme (.scalar word.2) (word.1.length - 1)
    | none, none, some n => .lexeme n.lexeme (n.characters.length - 1)
    | none, none, none => .final .unknown

def lexemesFrom (offset : Nat) : List Char → List PlacedLexeme
  | [] => []
  | c :: rest =>
    match lexStep offset c rest with
    | .blank => lexemesFrom (offset + 1) rest
    | .lexeme lexeme extra =>
      ⟨lexeme, offset⟩ :: lexemesFrom (offset + 1 + extra) (rest.drop extra)
    | .final lexeme => [⟨lexeme, offset⟩]
termination_by text => text.length
decreasing_by all_goals simp only [List.length_drop, List.length_cons]; omega

def lexemes (text : List Char) : List PlacedLexeme := lexemesFrom 0 text

end DeclarationChecker.Json
