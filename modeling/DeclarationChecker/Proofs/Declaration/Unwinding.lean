import Mathlib.Data.List.Forall2
import DeclarationChecker.Proofs.Declaration.Operations
import DeclarationChecker.Proofs.Declaration.Places

set_option autoImplicit false

namespace DeclarationChecker

structure Symbol.Stays (earlier later : Symbol) : Prop where
  kind : later.kind = earlier.kind
  declaredAt : later.declaredAt = earlier.declaredAt
  forward : later.forward = true → earlier.forward = true

theorem Symbol.Stays.refl (symbol : Symbol) : symbol.Stays symbol := ⟨rfl, rfl, id⟩

theorem Symbol.Stays.trans {first second third : Symbol} (h : first.Stays second)
    (h' : second.Stays third) : first.Stays third :=
  ⟨h'.kind.trans h.kind, h'.declaredAt.trans h.declaredAt, fun e => h.forward (h'.forward e)⟩

def Symbol.EntryStays (earlier later : String × Symbol) : Prop :=
  later.1 = earlier.1 ∧ earlier.2.Stays later.2

namespace Scope

/-- The names of the scope keep their places and records, and new names come behind them. -/
structure Grows (s s' : Scope) : Prop where
  label : s'.label = s.label
  symbols : ∃ kept added, s'.symbols.entries = kept ++ added ∧
    List.Forall₂ Symbol.EntryStays s.symbols.entries kept

theorem entriesStay_refl (entries : List (String × Symbol)) :
    List.Forall₂ Symbol.EntryStays entries entries :=
  List.forall₂_same.2 fun entry _ => ⟨rfl, .refl entry.2⟩

theorem Grows.refl (s : Scope) : s.Grows s :=
  ⟨rfl, s.symbols.entries, [], (List.append_nil _).symm, entriesStay_refl _⟩

theorem entriesStay_trans {first second third : List (String × Symbol)}
    (h : List.Forall₂ Symbol.EntryStays first second) (h' : List.Forall₂ Symbol.EntryStays second third) :
    List.Forall₂ Symbol.EntryStays first third := by
  induction h generalizing third with
  | nil => exact h'
  | cons stays _ ih =>
    cases h' with
    | cons stays' others =>
      exact .cons ⟨stays'.1.trans stays.1, stays.2.trans stays'.2⟩ (ih others)

theorem Grows.trans {s s' s'' : Scope} (h : s.Grows s') (h' : s'.Grows s'') : s.Grows s'' := by
  obtain ⟨label, kept, added, e, stays⟩ := h
  obtain ⟨label', kept', added', e', stays'⟩ := h'
  rw [e] at stays'
  have old := List.forall₂_take kept.length stays'
  rw [List.take_left] at old
  refine ⟨label'.trans label, kept'.take kept.length, kept'.drop kept.length ++ added', ?_,
    entriesStay_trans stays old⟩
  rw [e', ← List.append_assoc, List.take_append_drop]

/-- A name that is set anew keeps its place, and a new one comes last. -/
theorem insertEntry_stays {name : String} {symbol : Symbol} {entries : List (String × Symbol)}
    (h : ∀ earlier, entries.lookup name = some earlier → earlier.Stays symbol) :
    ∃ kept added, Dictionary.insertEntry name symbol entries = kept ++ added ∧
      List.Forall₂ Symbol.EntryStays entries kept := by
  induction entries with
  | nil => exact ⟨[], [(name, symbol)], rfl, .nil⟩
  | cons entry entries ih =>
    obtain ⟨key, old⟩ := entry
    rw [Dictionary.insertEntry]
    rw [Dictionary.lookup_cons_eq_ite] at h
    by_cases same : key = name
    · subst same
      rw [if_pos rfl] at h
      rw [if_pos rfl]
      exact ⟨(key, symbol) :: entries, [], (List.append_nil _).symm,
        .cons ⟨rfl, h old rfl⟩ (entriesStay_refl entries)⟩
    · rw [if_neg (Ne.symm same)] at h
      rw [if_neg same]
      obtain ⟨kept, added, e, stays⟩ := ih h
      exact ⟨(key, old) :: kept, added, by rw [e, List.cons_append], .cons ⟨rfl, .refl old⟩ stays⟩

theorem grows_put {s : Scope} {name : String} {symbol : Symbol}
    (h : ∀ earlier, s.symbols.get? name = some earlier → earlier.Stays symbol) :
    s.Grows (s.put name symbol) :=
  ⟨rfl, insertEntry_stays h⟩

theorem stays_completion {earlier later : Symbol} : earlier.Stays (completion earlier later) :=
  ⟨rfl, rfl, nofun⟩

theorem grows_declare {s : Scope} {name : String} {symbol : Symbol} {d : Declared}
    (h : s.declare name symbol = .ok d) : s.Grows d.scope := by
  unfold declare at h
  split at h
  · rename_i absent
    cases h
    exact grows_put fun earlier found => nomatch absent.symm.trans found
  · rename_i earlier present
    split at h
    · cases h
      refine grows_put fun old found => ?_
      obtain rfl := Option.some.inj (present.symm.trans found)
      exact stays_completion
    · cases h

end Scope

namespace Declaration

open Token

def Note.isScope : Note → Bool
  | .entered _ _ => true
  | .left _ _ => true
  | _ => false

/-- Every scope that is entered is left again under its name and at its depth, and the ones inside it
are one deeper. -/
inductive Bracketed : Nat → List Note → Prop
  | nil {depth : Nat} : Bracketed depth []
  | aside {depth : Nat} {note : Note} {notes : List Note} (h : note.isScope = false)
      (rest : Bracketed depth notes) : Bracketed depth (note :: notes)
  | scope {depth : Nat} {label : String} {inner notes : List Note}
      (inside : Bracketed (depth + 1) inner) (rest : Bracketed depth notes) :
      Bracketed depth (.entered label (depth + 1) :: (inner ++ .left label depth :: notes))

theorem Bracketed.append {depth : Nat} {notes later : List Note} (h : Bracketed depth notes)
    (h' : Bracketed depth later) : Bracketed depth (notes ++ later) := by
  induction h with
  | nil => exact h'
  | aside h _ ih => exact .aside h (ih h')
  | scope inside _ _ ih =>
    rw [List.cons_append, List.append_assoc, List.cons_append]
    exact .scope inside (ih h')

theorem Bracketed.of_asides {depth : Nat} {notes : List Note}
    (h : ∀ note ∈ notes, note.isScope = false) : Bracketed depth notes := by
  induction notes with
  | nil => exact .nil
  | cons note notes ih =>
    obtain ⟨first, others⟩ := List.forall_mem_cons.1 h
    exact .aside first (ih others)

structure Settles (scopes : ScopeTable) (findings : Findings) : Prop where
  enclosing : findings.scopes.enclosing = scopes.enclosing
  current : scopes.current.Grows findings.scopes.current
  notes : Bracketed scopes.depth findings.notes

namespace Settles

variable {scopes : ScopeTable} {findings later : Findings}

theorem depth (h : Settles scopes findings) : findings.scopes.depth = scopes.depth :=
  congrArg List.length h.enclosing

theorem followedBy (h : Settles scopes findings) (h' : Settles findings.scopes later) :
    Settles scopes (findings.followedBy later) where
  enclosing := h'.enclosing.trans h.enclosing
  current := h.current.trans h'.current
  notes := h.notes.append (h.depth ▸ h'.notes)

theorem of_scopes {diagnostics : List Diagnostic} {notes : List Note}
    (asides : ∀ note ∈ notes, note.isScope = false) : Settles scopes ⟨scopes, diagnostics, notes⟩ :=
  ⟨rfl, .refl _, .of_asides asides⟩

theorem ofDeclared {name : String} {symbol : Symbol} :
    Settles scopes (.ofDeclared scopes name (scopes.declare name symbol)) := by
  unfold ScopeTable.declare
  cases declared : scopes.current.declare name symbol with
  | error refusal => exact of_scopes fun _ mem => nomatch mem
  | ok d =>
    refine ⟨rfl, Scope.grows_declare declared, .of_asides fun note mem => ?_⟩
    dsimp only [Findings.ofDeclared, Except.map] at mem
    split at mem
    · rw [List.mem_singleton.1 mem]
      rfl
    · cases mem

theorem ofParameters {checked : Except Scope.Refusal Unit} :
    Settles scopes (.ofParameters scopes checked) := by
  cases checked with
  | ok _ => exact of_scopes fun _ mem => nomatch mem
  | error refusal => exact of_scopes fun _ mem => nomatch mem

theorem of_ite (c : Bool) {cause : Diagnostic.Cause} {position : Text.Position} :
    Settles scopes (if c = true then .quiet scopes else .diagnose scopes cause position) := by
  cases c with
  | false => exact of_scopes fun _ mem => nomatch mem
  | true => exact of_scopes fun _ mem => nomatch mem

end Settles

section

variable (scopes : ScopeTable)

theorem declareSubprogram_settles (h : Header) :
    Settles scopes (.ofDeclared scopes h.name.text (declareSubprogram scopes h)) := by
  unfold declareSubprogram
  split
  · exact .ofDeclared
  · exact .ofDeclared

theorem observe_settles {event : Event} (h : event.isPlain = true) :
    Settles scopes (observe scopes event) := by
  cases event with
  | «variable» name => exact .ofDeclared
  | variableList type => exact .of_scopes (List.forall_mem_singleton.2 rfl)
  | range bounds position => exact .of_ite _
  | stringSize size position => exact .of_ite _
  | returnType function type position => exact .of_ite _
  | subprogram heading =>
    have announced : Settles scopes ⟨scopes, [], [.header heading scopes.depth]⟩ :=
      .of_scopes (List.forall_mem_singleton.2 rfl)
    exact announced.followedBy (declareSubprogram_settles scopes heading)
  | parameters names => exact .ofParameters
  | enter label => cases h
  | leave => cases h
  | unexpected expected found => cases h
  | tooDeep position => cases h

/-- A scope that is closed again leaves the open scopes just as they were. -/
theorem observeAll_scope {label : String} {inner : List Event}
    (inside : Settles (scopes.enter label) (observeAll (scopes.enter label) inner)) :
    (observeAll scopes (.enter label :: (inner ++ [.leave]))).scopes = scopes ∧
      (observeAll scopes (.enter label :: (inner ++ [.leave]))).notes =
        .entered label (scopes.depth + 1) ::
          ((observeAll (scopes.enter label) inner).notes ++ [.left label scopes.depth]) := by
  have whole : observeAll scopes (.enter label :: (inner ++ [.leave])) =
      (observe scopes (.enter label)).followedBy ((observeAll (scopes.enter label) inner).followedBy
        (observeAll (observeAll (scopes.enter label) inner).scopes [.leave])) := by
    rw [← observeAll_append]
    rfl
  rw [whole]
  obtain ⟨enclosing, grown, -⟩ := inside
  have outer : (observeAll (scopes.enter label) inner).scopes.enclosing =
      scopes.current :: scopes.enclosing := enclosing
  have named : (observeAll (scopes.enter label) inner).scopes.current.label = label := grown.label
  generalize observeAll (scopes.enter label) inner = findings at outer named
  obtain ⟨⟨current, enclosing⟩, diagnostics, notes⟩ := findings
  subst outer named
  exact ⟨rfl, rfl⟩

theorem observeAll_settles {events : List Event} (h : Balanced events) :
    Settles scopes (observeAll scopes events) := by
  induction h generalizing scopes with
  | nil => exact .of_scopes fun _ mem => nomatch mem
  | plain h _ ih => exact (observe_settles scopes h).followedBy (ih _)
  | @unexpected expected found events _ ih =>
    have given : Settles scopes (observe scopes (.unexpected expected found)) :=
      .of_scopes fun _ mem => nomatch mem
    exact given.followedBy (ih scopes)
  | @scope label inner events _ _ inside ih =>
    obtain ⟨same, notes⟩ := observeAll_scope scopes (inside (scopes.enter label))
    rw [← List.cons_append, ← List.singleton_append (l := events), ← List.append_assoc, List.cons_append,
      observeAll_append]
    refine .followedBy ⟨?_, ?_, ?_⟩ (ih _)
    · rw [same]
    · rw [same]
      exact .refl _
    · rw [notes]
      exact .scope (inside (scopes.enter label)).notes .nil

end

/-- New diagnostics about anything but the syntax, with one about `next` behind them just if reading
gave up there. -/
structure GaveUpAt (next : Token) (gaveUp : Prop) (new : List Diagnostic) : Prop where
  gaveUp_iff : gaveUp ↔ ∃ d ∈ new, d.kind = .syntactic
  last : ∀ d ∈ new, d.kind = .syntactic → ∃ others expected, new = others ++ [d] ∧
    (∀ e ∈ others, e.kind ≠ .syntactic) ∧ d = ⟨.unexpected expected next, next.position⟩

theorem GaveUpAt.of_semantic {next : Token} {gaveUp : Prop} {new : List Diagnostic} (going : ¬gaveUp)
    (semantic : ∀ d ∈ new, d.kind = .semantic) : GaveUpAt next gaveUp new where
  gaveUp_iff := iff_of_false going fun ⟨d, mem, kind⟩ => nomatch (semantic d mem).symm.trans kind
  last d mem kind := nomatch (semantic d mem).symm.trans kind

theorem Ends.gaveUpAt {α : Type} {stop : Token} {ahead : List Token} {reading : Reading α}
    (h : Ends stop ahead reading) (scopes : ScopeTable) :
    GaveUpAt ((ahead.drop reading.used).headD stop) (reading.outcome = .unexpected)
      (observeAll scopes reading.events).diagnostics := by
  by_cases gaveUp : reading.outcome = .unexpected
  · obtain ⟨before, expected, found, closing, e, leaves⟩ := h.last gaveUp
    obtain ⟨expected', blame⟩ := h.blame gaveUp
    rw [e] at blame ⊢
    obtain ⟨quiet, rfl, rfl⟩ := syntaxEvents_giveUp blame
    rw [observeAll_giveUp scopes expected _ leaves]
    have others : ∀ e ∈ (observeAll scopes before).diagnostics, e.kind ≠ .syntactic := fun e mem kind =>
      nomatch (observeAll_semantic scopes quiet e mem).symm.trans kind
    refine ⟨iff_of_true gaveUp ⟨_, List.mem_append_right _ List.mem_cons_self, rfl⟩, fun d mem kind => ?_⟩
    rcases List.mem_append.1 mem with earlier | last
    · exact absurd kind (others d earlier)
    · obtain rfl := List.mem_singleton.1 last
      exact ⟨_, expected, rfl, others, rfl⟩
  · exact .of_semantic gaveUp (observeAll_semantic scopes (h.quiet gaveUp))

/-- The session `later` comes of `s` by an operation: what had been found is still there, what is new
says whether the operation gave up, and the scopes are those that were open before. -/
structure Session.Unwinds (s later : Session) (gaveUp : Prop) : Prop where
  diagnostics : ∃ new next, later.findings.diagnostics = s.findings.diagnostics ++ new ∧
    later.tokens[later.index]? = some next ∧ GaveUpAt next gaveUp new
  enclosing : later.findings.scopes.enclosing = s.findings.scopes.enclosing
  current : s.findings.scopes.current.Grows later.findings.scopes.current
  notes : ∃ new, later.findings.notes = s.findings.notes ++ new ∧
    Bracketed s.findings.scopes.depth new

section

variable {tokens : List Token} {s : Session}

theorem Reached.perform_unwinds (reached : Reached tokens s) {α : Type} (op : Operation α) :
    s.Unwinds (s.perform op.reader).session ((s.perform op.reader).outcome = .unexpected) := by
  obtain ⟨-, xs, last, spans⟩ := reached.spans
  have within := op.used_le s.stop s.ahead
  have ends := op.holds ends_compositional ends_tooDeep s.stop s.ahead
  have balanced := op.holds balanced_compositional (fun _ _ => .nil) s.stop s.ahead
  have settles := observeAll_settles s.findings.scopes balanced
  exact
    { diagnostics := ⟨_, _, rfl, spans.getElem?_eq within, ends.gaveUpAt s.findings.scopes⟩
      enclosing := settles.enclosing
      current := settles.current
      notes := ⟨_, rfl, settles.notes⟩ }

theorem Reached.diagnose_unwinds (reached : Reached tokens s) {cause : Diagnostic.Cause}
    (semantic : cause.kind = .semantic) (position : Text.Position) :
    s.Unwinds (s.diagnose cause position) False := by
  obtain ⟨-, xs, last, spans⟩ := reached.spans
  exact
    { diagnostics := ⟨_, _, rfl, spans.current_eq, .of_semantic id (List.forall_mem_singleton.2 semantic)⟩
      enclosing := rfl
      current := .refl _
      notes := ⟨[], rfl, .nil⟩ }

/-- However an operation ends, it leaves the session in order behind it. -/
theorem reached_unwinds (reached : Reached tokens s) (nests : BodiesNest 200 (prepare tokens)) :
    (∀ {α : Type} (op : Operation α),
      ((∃ a, (s.perform op.reader).outcome = .value a) ∨ (s.perform op.reader).outcome = .unexpected) ∧
      s.Unwinds (s.perform op.reader).session ((s.perform op.reader).outcome = .unexpected)) ∧
    ∀ cause position, cause.kind = .semantic → s.Unwinds (s.diagnose cause position) False :=
  ⟨fun op => ⟨reached.progresses.perform_ends nests op, reached.perform_unwinds op⟩,
    fun _ position semantic => reached.diagnose_unwinds semantic position⟩

/-- A body that breaks off inside another one still completes what was announced, and all scopes are
closed behind it. -/
theorem reached_unwinds_nested :
    let token (kind : Token.Kind) (text : String) (column : Int) : Token := ⟨kind, text, ⟨1, column⟩, column - 1⟩
    let tokens := [token .keyword "procedure" 1, token .identifier "p" 11, token .punctuation ";" 12,
      token .keyword "forward" 13, token .punctuation ";" 20, token .keyword "procedure" 21,
      token .identifier "p" 31, token .punctuation ";" 32, token .keyword "begin" 33,
      token .keyword "procedure" 39, token .identifier "q" 49, token .punctuation ";" 50,
      token .keyword "begin" 51, token .number "1" 57]
    ∃ s, Reached tokens s ∧ s.index = 5 ∧ s.findings.scopes.current.symbols.get? "p" =
        some ⟨.procedure, ⟨1, 11⟩, true, none⟩ ∧
      (s.perform Operation.subprogram.reader).outcome = .unexpected ∧
      (s.perform Operation.subprogram.reader).session.index = 13 ∧
      (s.perform Operation.subprogram.reader).session.findings.scopes.current.symbols.get? "p" =
        some ⟨.procedure, ⟨1, 11⟩, false, none⟩ ∧
      (∀ {α : Type} (op : Operation α),
        ((∃ a, (s.perform op.reader).outcome = .value a) ∨ (s.perform op.reader).outcome = .unexpected) ∧
        s.Unwinds (s.perform op.reader).session ((s.perform op.reader).outcome = .unexpected)) ∧
      ∀ cause position, cause.kind = .semantic → s.Unwinds (s.diagnose cause position) False := by
  intro token tokens
  have reached : Reached tokens _ := .perform (.start (.quiet .initial)) .subprogram
  have nests : BodiesNest 200 (prepare tokens) := bodiesNest_of_length_le (by decide)
  exact ⟨_, reached, by decide +kernel, by decide +kernel, by decide +kernel, by decide +kernel,
    by decide +kernel, reached_unwinds reached nests⟩

end

end Declaration

end DeclarationChecker
