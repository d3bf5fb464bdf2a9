import DeclarationChecker.Json.Lexeme

set_option autoImplicit false

/-!
Reading a JSON value. The reader goes over the lexemes once, with the arrays and objects that
are still open on a stack, so it does not matter how deep they nest.
-/

namespace DeclarationChecker.Json

open Text

/-- An array or object that waits for a value to be complete. -/
inductive Frame where
  | item (before : List Value)
  | member (before : List (CodePoints × Value)) (name : CodePoints)
  deriving Repr

inductive Need where
  | value
  /-- After an opening bracket. -/
  | itemOrClose
  /-- After an opening brace. -/
  | nameOrClose
  /-- After a comma in an object. -/
  | name (before : List (CodePoints × Value))
  /-- After the name of a member. -/
  | colon (before : List (CodePoints × Value)) (name : CodePoints)
  /-- After a complete value. -/
  | delimiter (complete : Value)
  deriving Repr

def Need.flaw (stack : List Frame) : Need → Flaw
  | .value => .noValue
  | .itemOrClose => .noValue
  | .nameOrClose => .noName
  | .name _ => .noName
  | .colon _ _ => .noColon
  | .delimiter _ => if stack.isEmpty then .extraData else .noComma

structure ReaderState where
  stack : List Frame
  need : Need
  deriving Repr

def startValue (stack : List Frame) (l : PlacedLexeme) : Except Fault ReaderState :=
  match l.lexeme with
  | .openArray => .ok ⟨stack, .itemOrClose⟩
  | .openObject => .ok ⟨stack, .nameOrClose⟩
  | .string text => .ok ⟨stack, .delimiter (.string text)⟩
  | .scalar value => .ok ⟨stack, .delimiter value⟩
  | .overlongInteger digits => .error (.overlongInteger digits)
  | .brokenString flaw offset => .error (.malformed flaw offset)
  | _ => .error (.malformed .noValue l.offset)

def startMember (stack : List Frame) (before : List (CodePoints × Value)) (l : PlacedLexeme) :
    Except Fault ReaderState :=
  match l.lexeme with
  | .string name => .ok ⟨stack, .colon before name⟩
  | .brokenString flaw offset => .error (.malformed flaw offset)
  | _ => .error (.malformed .noName l.offset)

def afterValue (stack : List Frame) (complete : Value) (l : PlacedLexeme) :
    Except Fault ReaderState :=
  match stack with
  | [] => .error (.malformed .extraData l.offset)
  | .item before :: outer =>
    let items := before ++ [complete]
    match l.lexeme with
    | .comma => .ok ⟨.item items :: outer, .value⟩
    | .closeArray => .ok ⟨outer, .delimiter (.array items)⟩
    | _ => .error (.malformed .noComma l.offset)
  | .member before name :: outer =>
    let members := before ++ [(name, complete)]
    match l.lexeme with
    | .comma => .ok ⟨outer, .name members⟩
    | .closeObject => .ok ⟨outer, .delimiter (.object members)⟩
    | _ => .error (.malformed .noComma l.offset)

def ReaderState.next (s : ReaderState) (l : PlacedLexeme) : Except Fault ReaderState :=
  match s.need with
  | .value => startValue s.stack l
  | .itemOrClose =>
    match l.lexeme with
    | .closeArray => .ok ⟨s.stack, .delimiter (.array [])⟩
    | _ => startValue (.item [] :: s.stack) l
  | .nameOrClose =>
    match l.lexeme with
    | .closeObject => .ok ⟨s.stack, .delimiter (.object [])⟩
    | _ => startMember s.stack [] l
  | .name before => startMember s.stack before l
  | .colon before name =>
    match l.lexeme with
    | .colon => .ok ⟨.member before name :: s.stack, .value⟩
    | _ => .error (.malformed .noColon l.offset)
  | .delimiter complete => afterValue s.stack complete l

def ReaderState.finish (s : ReaderState) (length : Nat) : Except Fault Value :=
  match s.stack, s.need with
  | [], .delimiter complete => .ok complete
  | stack, need => .error (.malformed (need.flaw stack) length)

def read (text : List Char) : Except Fault Value :=
  if text.head? = some '\uFEFF' then .error (.malformed .byteOrderMark 0)
  else do
    let last ← (lexemes text).foldlM ReaderState.next ⟨[], .value⟩
    last.finish text.length

end DeclarationChecker.Json
