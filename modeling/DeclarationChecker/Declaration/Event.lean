import DeclarationChecker.Diagnostic

set_option autoImplicit false

/-!
What reading declarations gives rise to. Reading itself knows nothing of scopes; it reports, in
order, what was declared and what has to be checked, and `observe` says what each report means
for the open scopes, the diagnostics and the notes.
-/

namespace DeclarationChecker.Declaration

open Text

/-- The opening of a procedure or function, up to its first semicolon. -/
structure Header where
  keyword : Token
  name : Token
  parameters : List Token
  returnType : Option DeclaredType
  forward : Bool
  deriving DecidableEq, Repr

inductive Event where
  /-- A variable name of a complete list of names. -/
  | variable (name : Token)
  /-- The semicolon after a list of variables and their type. -/
  | variableList (type : DeclaredType)
  /-- The range of an array, after its `of`; the place is that of the lower bound. -/
  | range (bounds : DeclaredType.Range) (position : Position)
  /-- The size of a string, after its bracket. -/
  | stringSize (size : Numeral) (position : Position)
  /-- The type a function returns; the place is that of its first token. -/
  | returnType (function : Token) (type : DeclaredType) (position : Position)
  /-- A procedure or function is declared where it stands. -/
  | subprogram (header : Header)
  | enter (label : String)
  /-- The parameters of a procedure or function, inside its own scope. -/
  | parameters (names : List Token)
  | leave
  | unexpected (expected : Expected) (found : Token)
  | tooDeep (position : Position)
  deriving DecidableEq, Repr

inductive Note where
  | variableList (type : DeclaredType) (depth : Nat)
  | header (header : Header) (depth : Nat)
  | completed (kind : SymbolKind) (name : String)
  | entered (label : String) (depth : Nat)
  | left (label : String) (depth : Nat)
  | tooDeep (position : Position)
  deriving DecidableEq, Repr

/-- The scopes after some events, with the diagnostics and notes that came of them. -/
structure Findings where
  scopes : ScopeTable
  diagnostics : List Diagnostic
  notes : List Note
  deriving DecidableEq, Repr

namespace Findings

def quiet (scopes : ScopeTable) : Findings := ⟨scopes, [], []⟩

def diagnose (scopes : ScopeTable) (cause : Diagnostic.Cause) (position : Position) : Findings :=
  ⟨scopes, [⟨cause, position⟩], []⟩

def followedBy (earlier later : Findings) : Findings :=
  ⟨later.scopes, earlier.diagnostics ++ later.diagnostics, earlier.notes ++ later.notes⟩

def ofDeclared (scopes : ScopeTable) (name : String) :
    Except Scope.Refusal ScopeTable.Declared → Findings
  | .ok d => ⟨d.table, [], if d.completes then [.completed d.symbol.kind name] else []⟩
  | .error refusal => diagnose scopes (.refused refusal.fault) refusal.position

def ofParameters (scopes : ScopeTable) : Except Scope.Refusal Unit → Findings
  | .ok () => quiet scopes
  | .error refusal => diagnose scopes (.refused refusal.fault) refusal.position

end Findings

def declareSubprogram (scopes : ScopeTable) (h : Header) :
    Except Scope.Refusal ScopeTable.Declared :=
  match h.returnType with
  | some type =>
    scopes.declareFunction h.name.text type.describe h.name.position h.forward
  | none => scopes.declareProcedure h.name.text h.name.position h.forward

def observe (scopes : ScopeTable) : Event → Findings
  | .variable name =>
    .ofDeclared scopes name.text (scopes.declareVariable name.text name.position)
  | .variableList type => ⟨scopes, [], [.variableList type scopes.depth]⟩
  | .range bounds position =>
    if bounds.low.lt bounds.high then .quiet scopes
    else .diagnose scopes (.range bounds) position
  | .stringSize size position =>
    if DeclaredType.isStringSize size then .quiet scopes
    else .diagnose scopes (.stringSize size) position
  | .returnType function type position =>
    if type.isReturnType then .quiet scopes
    else .diagnose scopes (.returnType function.text type) position
  | .subprogram h =>
    let announced : Findings := ⟨scopes, [], [.header h scopes.depth]⟩
    announced.followedBy (.ofDeclared scopes h.name.text (declareSubprogram scopes h))
  | .enter label => ⟨scopes.enter label, [], [.entered label (scopes.depth + 1)]⟩
  | .parameters names =>
    .ofParameters scopes (Scope.checkParameters (names.map fun t => (t.text, t.position)))
  | .leave =>
    match scopes.enclosing with
    | [] => .quiet scopes
    | _ :: _ => ⟨scopes.exit, [], [.left scopes.current.label scopes.exit.depth]⟩
  | .unexpected expected found => .diagnose scopes (.unexpected expected found) found.position
  | .tooDeep position => ⟨scopes, [⟨.tooDeep, position⟩], [.tooDeep position]⟩

def observeAll (scopes : ScopeTable) : List Event → Findings
  | [] => .quiet scopes
  | event :: rest =>
    let first := observe scopes event
    first.followedBy (observeAll first.scopes rest)

theorem observeAll_append (scopes : ScopeTable) (xs ys : List Event) :
    observeAll scopes (xs ++ ys) =
      (observeAll scopes xs).followedBy (observeAll (observeAll scopes xs).scopes ys) := by
  induction xs generalizing scopes with
  | nil => simp [observeAll, Findings.followedBy, Findings.quiet]
  | cons x xs ih => simp [observeAll, Findings.followedBy, ih, List.append_assoc]

end DeclarationChecker.Declaration
