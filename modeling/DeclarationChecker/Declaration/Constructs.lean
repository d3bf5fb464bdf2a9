import DeclarationChecker.Declaration.Reader

set_option autoImplicit false

/-!
The constructs of the language, each read by looking one token ahead:

    declarations = (variableList | subprogram)*
    variableList = "var" names ":" type ";"
    subprogram   = ("procedure" name parameters | "function" name parameters ":" type) ";"
                   ("forward" ";" | body)
    parameters   = ("(" (section (";" section)*)? ")")?
    section      = names ":" type
    names        = name ("," name)*
    type         = ("array" "[" number ".." number "]" "of")* element
    element      = "integer" | "real" | "char" | "boolean" | "string" ("[" number "]")?
    body         = "begin" declarations "end" ";"?
-/

namespace DeclarationChecker.Declaration

open Reader

def names : Reader (List Token) := do
  let first ← expectIdentifier
  let others ← many (fun t => t.isPunctuation ",") fun _ => expectIdentifier
  return first :: others

def range : Reader DeclaredType.Range := do
  let _ ← expectPunctuation "["
  let low ← expectNumber
  let _ ← expectDots
  let high ← expectNumber
  let _ ← expectPunctuation "]"
  let _ ← expectKeyword "of"
  let bounds : DeclaredType.Range := ⟨Numeral.ofText low.text, Numeral.ofText high.text⟩
  report (.range bounds low.position)
  return bounds

def stringSize : Reader DeclaredType := do
  if ← acceptPunctuation "[" then
    let number ← expectNumber
    let _ ← expectPunctuation "]"
    let size := Numeral.ofText number.text
    report (.stringSize size number.position)
    return .string (some size)
  else return .string none

def primitive? (t : Token) : Option PrimitiveType :=
  if t.kind = .keyword then PrimitiveType.ofName? t.text else none

def elementType : Reader DeclaredType := do
  let t ← current
  match primitive? t with
  | some type =>
    let _ ← advance
    return .primitive type
  | none =>
    if t.isKeyword "string" then
      let _ ← advance
      stringSize
    else unexpected .type

def type : Reader DeclaredType := do
  let ranges ← many (fun t => t.isKeyword "array") fun _ => range
  let element ← elementType
  return .ofRanges ranges element

def variableList : Reader Unit := do
  let declaredNames ← names
  reportAll (declaredNames.map .variable)
  let _ ← expectPunctuation ":"
  let declared ← type
  let _ ← expectPunctuation ";"
  report (.variableList declared)

structure Parameter where
  name : Token
  type : DeclaredType
  deriving DecidableEq, Repr

def parameterSection : Reader (List Parameter) := do
  let shared ← names
  let _ ← expectPunctuation ":"
  let declared ← type
  return shared.map fun name => ⟨name, declared⟩

def parameters : Reader (List Parameter) := do
  if ← acceptPunctuation "(" then
    if ← acceptPunctuation ")" then return []
    else
      let first ← parameterSection
      let others ← many (fun t => t.isPunctuation ";") fun _ => parameterSection
      let _ ← expectPunctuation ")"
      return first ++ others.flatten
  else return []

def returnType (function : Token) : Reader DeclaredType := do
  let _ ← expectPunctuation ":"
  let first ← current
  let declared ← type
  report (.returnType function declared first.position)
  return declared

/-- What follows the keyword of a procedure or function, up to its first semicolon. -/
def header (keyword : Token) : Reader Header := do
  let name ← expectIdentifier
  let listed ← parameters
  let returned ← if keyword.isKeyword "function" then some <$> returnType name else pure none
  let _ ← expectPunctuation ";"
  let next ← current
  return ⟨keyword, name, listed.map Parameter.name, returned, next.isKeyword "forward"⟩

def headerTail (body : Reader Unit) (h : Header) : Reader Unit := do
  report (.parameters h.parameters)
  if h.forward then
    let _ ← advance
    let _ ← expectPunctuation ";"
  else if (← current).isKeyword "begin" then body
  else unexpected .beginOrForward

/-- What follows the keyword of a procedure or function. It is declared where it stands, and has
a scope of its own, which closes in any case. -/
def subprogram (body : Reader Unit) (keyword : Token) : Reader Unit := do
  let h ← header keyword
  report (.subprogram h)
  report (.enter h.name.text)
  (headerTail body h).reportAfter .leave

def startsDeclaration (t : Token) : Bool :=
  t.isKeyword "var" || t.isKeyword "procedure" || t.isKeyword "function"

def declarations (body : Reader Unit) : Reader Unit := do
  let _ ← many startsDeclaration fun keyword =>
    if keyword.isKeyword "var" then variableList else subprogram body keyword

def body : Nat → Reader Unit
  | 0 => tooDeep
  | depth + 1 => do
    let _ ← expectKeyword "begin"
    declarations (body depth)
    if (← current).isKeyword "end" then
      let _ ← advance
      let _ ← acceptPunctuation ";"
    else unexpected .declarationOrEnd

def nestingLimit : Nat := 500

def program : Reader Unit := stopTooDeep do
  declarations (body nestingLimit)
  if !(← current).isEnd then unexpected .declaration

/-! ### Sessions -/

structure Session where
  tokens : List Token
  index : Nat
  findings : Findings
  deriving DecidableEq, Repr

namespace Session

def ofTokens (tokens : List Token) : Session := ⟨Token.prepare tokens, 0, .quiet .initial⟩

def ahead (s : Session) : List Token := (s.tokens.drop s.index).takeWhile fun t => !t.isEnd

def stop (s : Session) : Token := (s.tokens.find? Token.isEnd).getD (Token.endAfter s.tokens)

def current (s : Session) : Token := s.ahead.headD s.stop

structure Step (α : Type) where
  outcome : Outcome α
  session : Session

def perform {α : Type} (s : Session) (r : Reader α) : Step α :=
  let reading := r s.stop s.ahead
  { outcome := reading.outcome
    session :=
      { s with
        index := s.index + reading.used
        findings := s.findings.followedBy (observeAll s.findings.scopes reading.events) } }

def readProgram (s : Session) : Session := (s.perform program).session

end Session

def read (tokens : List Token) : Findings := ((Session.ofTokens tokens).readProgram).findings

/-- Reads and checks a text. A character that starts no token is all there is to say. -/
def check (source : String) : Findings :=
  match Token.tokenize source with
  | .ok tokens => read tokens
  | .error e => .diagnose .initial (.invalidCharacter e.cause) e.position

end DeclarationChecker.Declaration
