import DeclarationChecker.Text.Lines
import DeclarationChecker.Text.CharacterClass
import DeclarationChecker.Text.CodePoints

set_option autoImplicit false

namespace DeclarationChecker

open Text

namespace Token

inductive Kind where
  | identifier
  | number
  | keyword
  | punctuation
  | dots
  | endOfInput
  deriving DecidableEq, Repr

def Kind.name : Kind → String
  | .identifier => "IDENTIFIER"
  | .number => "NUMBER"
  | .keyword => "KEYWORD"
  | .punctuation => "PUNCTUATION"
  | .dots => "DOTS"
  | .endOfInput => "EOF"

end Token

/-- A word, spelled `text`. Positions and offsets come from a text or from a caller, who may
choose any integers. -/
structure Token where
  kind : Token.Kind
  text : String
  position : Position
  offset : Int
  deriving DecidableEq, Repr

namespace Token

def isKeyword (t : Token) (word : String) : Bool := t.kind = .keyword && t.text = word

def isPunctuation (t : Token) (mark : String) : Bool := t.kind = .punctuation && t.text = mark

def isEnd (t : Token) : Bool := t.kind = .endOfInput

def describe (t : Token) : String := if t.isEnd then "end of input" else s!"'{t.text}'"

def endAfter (tokens : List Token) : Token :=
  match tokens.getLast? with
  | none => ⟨.endOfInput, "", ⟨1, 1⟩, 0⟩
  | some last =>
    ⟨.endOfInput, "", ⟨last.position.line, last.position.column + last.text.length⟩,
      last.offset + last.text.length⟩

def prepare (tokens : List Token) : List Token :=
  if (tokens.getLast?.map isEnd).getD false then tokens else tokens ++ [endAfter tokens]

end Token

end DeclarationChecker

/-! ### Scanning -/

namespace DeclarationChecker.Token

open Text

/-- The words that never name anything, whatever the case of their letters. -/
def keywords : List String :=
  ["var", "procedure", "function", "forward", "begin", "end", "array", "of", "integer", "real",
    "char", "boolean", "string"]

def punctuationMarks : List Char := [':', ';', ',', '(', ')', '[', ']']

def isLetter (c : Char) : Bool := c.isAlpha || c = '_'

def isWordChar (c : Char) : Bool := c.isAlphanum || c = '_'

def classify (word : List Char) : Kind × String :=
  let lowered := String.ofList (word.map Char.toLower)
  if lowered ∈ keywords then (.keyword, lowered) else (.identifier, String.ofList word)

/-- What stands at the head of the text. `extra` is the number of characters it takes beyond
the first. -/
inductive Step where
  | skip (extra : Nat)
  | lexeme (kind : Kind) (text : String) (extra : Nat)
  | invalid
  deriving DecidableEq, Repr

def step (c : Char) (rest : List Char) : Step :=
  if isBlank c then .skip 0
  else if c = '/' ∧ rest.head? = some '/' then .skip (rest.takeWhile (· ≠ '\n')).length
  else if c = '.' ∧ rest.head? = some '.' then .lexeme .dots ".." 1
  else if c ∈ punctuationMarks then .lexeme .punctuation (String.ofList [c]) 0
  else if c.isDigit then
    let more := rest.takeWhile Char.isDigit
    .lexeme .number (String.ofList (c :: more)) more.length
  else if isLetter c then
    let more := rest.takeWhile isWordChar
    let word := classify (c :: more)
    .lexeme word.1 word.2 more.length
  else .invalid

structure Lexeme where
  kind : Kind
  text : String
  offset : Nat
  deriving DecidableEq, Repr

structure InvalidCharacter where
  offset : Nat
  character : Char
  deriving DecidableEq, Repr

def InvalidCharacter.message (e : InvalidCharacter) : String :=
  s!"Invalid character '{e.character}'"

structure Scan where
  lexemes : List Lexeme
  stopped : Option InvalidCharacter
  deriving DecidableEq, Repr

def Scan.cons (lexeme : Lexeme) (scan : Scan) : Scan := ⟨lexeme :: scan.lexemes, scan.stopped⟩

def scanFrom (offset : Nat) : List Char → Scan
  | [] => ⟨[], none⟩
  | c :: rest =>
    match step c rest with
    | .skip extra => scanFrom (offset + 1 + extra) (rest.drop extra)
    | .lexeme kind text extra =>
      (scanFrom (offset + 1 + extra) (rest.drop extra)).cons ⟨kind, text, offset⟩
    | .invalid => ⟨[], some ⟨offset, c⟩⟩
termination_by text => text.length
decreasing_by all_goals simp only [List.length_drop, List.length_cons]; omega

def scan (source : String) : Scan := scanFrom 0 source.toList

structure LexicalError where
  cause : InvalidCharacter
  position : Position
  deriving DecidableEq, Repr

def LexicalError.message (e : LexicalError) : String :=
  s!"{e.position.describe}: {e.cause.message}"

def Lexeme.place (lines : LineTable) (lexeme : Lexeme) : Token :=
  ⟨lexeme.kind, lexeme.text, lines.position lexeme.offset, lexeme.offset⟩

def tokenize (source : String) : Except LexicalError (List Token) :=
  let lines := LineTable.ofText source.toList
  let result := scan source
  match result.stopped with
  | some cause => .error ⟨cause, lines.position cause.offset⟩
  | none => .ok (result.lexemes.map (Lexeme.place lines))

/-! ### Listing -/

open Text

structure ListingWidths where
  offset : Nat
  kind : Nat
  deriving DecidableEq, Repr

def ListingWidths.ofTokens (tokens : List Token) : ListingWidths where
  offset := (tokens.getLast?.map fun t => (toString t.offset).length).getD 0
  kind := (tokens.map fun t => t.kind.name.length).foldl max 0

def lineCell (previous : Option Int) (line : Int) : String :=
  if previous = some line then "   |" else padLeft 4 (toString line)

def listingRow (widths : ListingWidths) (previous : Option Int) (t : Token) : String :=
  let offset := padLeft widths.offset (toString t.offset)
  let line := lineCell previous t.position.line
  let column := padLeft 3 (toString t.position.column)
  let kind := padRight widths.kind t.kind.name
  s!"{offset} {line} {column} {kind} {quoted t.text}"

def listingRows (widths : ListingWidths) (previous : Option Int) : List Token → List String
  | [] => []
  | t :: rest => listingRow widths previous t :: listingRows widths (some t.position.line) rest

def listing (tokens : List Token) : List String :=
  listingRows (ListingWidths.ofTokens tokens) none tokens

end DeclarationChecker.Token
