import DeclarationChecker.Proofs.Declaration.SyntaxErrors
import DeclarationChecker.Proofs.Declaration.Violations

set_option autoImplicit false

namespace DeclarationChecker.Declaration

open Text Token SyntaxTree Entry

/-- A symbol that tells the first of some declarations of one name, and whether it is a forward one
that still waits to be completed. -/
def Recalls : List Entry → Option Symbol → Prop
  | [], found => found = none
  | first :: more, found => ∃ symbol, found = some symbol ∧ symbol.kind = first.kind ∧
      symbol.declaredAt = first.name.position ∧
      symbol.forward = (first.forward && !more.any first.completes)

def Represents (entries : List Entry) (s : Scope) : Prop :=
  ∀ name, Recalls (namesakes name entries) (s.symbols.get? name)

structure Stands (symbol : Symbol) (e : Entry) : Prop where
  kind : symbol.kind = e.kind
  declaredAt : symbol.declaredAt = e.name.position
  forward : symbol.forward = e.forward

theorem represents_nil (label : String) : Represents [] (Scope.named label) := fun _ => rfl

section

variable {entries : List Entry} {s : Scope} {e : Entry} {symbol : Symbol}

theorem namesakes_append_of_ne {name : String} (apart : e.name.text ≠ name) :
    namesakes name (entries ++ [e]) = namesakes name entries := by
  simp [namesakes, List.filter_append, apart]

theorem namesakes_append_self :
    namesakes e.name.text (entries ++ [e]) = namesakes e.name.text entries ++ [e] := by
  simp [namesakes, List.filter_append]

theorem Represents.append {s' : Scope} (h : Represents entries s)
    (same : ∀ name, name ≠ e.name.text → s'.symbols.get? name = s.symbols.get? name)
    (new : Recalls (namesakes e.name.text entries ++ [e]) (s'.symbols.get? e.name.text)) :
    Represents (entries ++ [e]) s' := by
  intro name
  by_cases this : name = e.name.text
  · subst this
    rw [namesakes_append_self]
    exact new
  · rw [namesakes_append_of_ne (Ne.symm this), same name this]
    exact h name

theorem Represents.put (h : Represents entries s)
    (new : Recalls (namesakes e.name.text entries ++ [e]) (some symbol)) :
    Represents (entries ++ [e]) (s.put e.name.text symbol) := by
  refine h.append (fun name apart => ?_) ?_
  · exact (Dictionary.get?_insert _ _ _ _).trans (if_neg apart)
  · have found : (s.put e.name.text symbol).symbols.get? e.name.text = some symbol :=
      (Dictionary.get?_insert _ _ _ _).trans (if_pos rfl)
    rw [found]
    exact new

theorem recalls_first (stands : Stands symbol e) : Recalls [e] (some symbol) :=
  ⟨symbol, rfl, stands.kind, stands.declaredAt, by rw [stands.forward, List.any_nil, Bool.not_false,
    Bool.and_true]⟩

section

variable {first : Entry} {more : List Entry} {earlier : Symbol}

theorem completes_eq (kind : earlier.kind = first.kind)
    (forward : earlier.forward = (first.forward && !more.any first.completes))
    (stands : Stands symbol e) : Scope.completes earlier symbol =
      (first.forward && first.completes e && !more.any first.completes) := by
  have turned : decide (first.kind = e.kind) = decide (e.kind = first.kind) :=
    decide_eq_decide.2 eq_comm
  have completing : first.completes e = (decide (e.kind = first.kind) && !e.forward) := rfl
  rw [Scope.completes, forward, kind, stands.kind, stands.forward, turned, completing,
    Bool.and_assoc, Bool.and_right_comm]

theorem recalls_completion (kind : earlier.kind = first.kind)
    (place : earlier.declaredAt = first.name.position) (completing : first.completes e = true) :
    Recalls (first :: (more ++ [e])) (some (Scope.completion earlier symbol)) := by
  refine ⟨_, rfl, kind, place, ?_⟩
  simp [Scope.completion, List.any_append, completing]

theorem recalls_refused (h : Recalls (first :: more) (some earlier))
    (conflict : (first.forward && first.completes e && !more.any first.completes) = false) :
    Recalls (first :: (more ++ [e])) (some earlier) := by
  obtain ⟨_, ⟨⟩, kind, place, forward⟩ := h
  refine ⟨earlier, rfl, kind, place, ?_⟩
  rw [forward, List.any_append, List.any_cons, List.any_nil, Bool.or_false, Bool.not_or,
    ← Bool.and_assoc]
  rw [Bool.and_right_comm] at conflict
  generalize (first.forward && !more.any first.completes) = waiting at conflict
  cases waiting with
  | false => rfl
  | true =>
    rw [Bool.true_and] at conflict
    rw [conflict]
    rfl

end

/-- A declaration is refused just if it is a conflict, and counts as one of its name space in any
case. -/
theorem declare_represents (h : Represents entries s) (stands : Stands symbol e) :
    match s.declare e.name.text symbol with
    | .ok d => conflict? entries e = none ∧ Represents (entries ++ [e]) d.scope
    | .error r => conflict? entries e = some ⟨.refused r.fault, r.position⟩ ∧
        Represents (entries ++ [e]) s := by
  have known := h e.name.text
  unfold conflict? Scope.declare
  cases before : namesakes e.name.text entries with
  | nil =>
    rw [before] at known
    rw [show s.symbols.get? e.name.text = none from known]
    refine ⟨rfl, h.put ?_⟩
    rw [before]
    exact recalls_first stands
  | cons first more =>
    rw [before] at known
    obtain ⟨earlier, found, kind, place, forward⟩ := id known
    rw [found] at known ⊢
    dsimp only
    rw [completes_eq kind forward stands]
    cases excused : first.forward && first.completes e && !more.any first.completes with
    | true =>
      simp only [Bool.and_eq_true] at excused
      refine ⟨rfl, h.put ?_⟩
      rw [before]
      exact recalls_completion kind place excused.1.2
    | false =>
      refine ⟨?_, h.append (fun _ _ => rfl) ?_⟩
      · rw [← place, ← stands.declaredAt]
        rfl
      · rw [before, found]
        exact recalls_refused known excused

end

/-- What some findings add to the innermost name space, and the errors that they report. -/
structure Adds (before added : List Entry) (scopes : ScopeTable) (findings : Findings)
    (errors : List Diagnostic) : Prop where
  represents : Represents (before ++ added) findings.scopes.current
  enclosing : findings.scopes.enclosing = scopes.enclosing
  errors : findings.diagnostics = errors

/-- What some events declare in any name space that has the entries `before` already. -/
def Declares (events : List Event) (before added : List Entry) (errors : List Diagnostic) : Prop :=
  ∀ scopes : ScopeTable, Represents before scopes.current →
    Adds before added scopes (observeAll scopes events) errors

namespace Declares

variable {events later : List Event} {before added added' : List Entry}
  {errors errors' : List Diagnostic}

theorem nil : Declares [] before [] [] := by
  intro scopes h
  refine ⟨?_, rfl, rfl⟩
  rw [List.append_nil]
  exact h

theorem append (h : Declares events before added errors)
    (h' : Declares later (before ++ added) added' errors') :
    Declares (events ++ later) before (added ++ added') (errors ++ errors') := by
  intro scopes start
  have first := h scopes start
  have second := h' _ first.represents
  rw [observeAll_append]
  refine ⟨?_, second.enclosing.trans first.enclosing, ?_⟩
  · rw [← List.append_assoc]
    exact second.represents
  · rw [← first.errors, ← second.errors]
    rfl

theorem quiet {event : Event} {errors : List Diagnostic}
    (scopes_eq : ∀ scopes, (observe scopes event).scopes = scopes)
    (errors_eq : ∀ scopes, (observe scopes event).diagnostics = errors) :
    Declares [event] before [] errors := by
  intro scopes h
  refine ⟨?_, ?_, ?_⟩
  · rw [List.append_nil]
    change Represents before (observe scopes event).scopes.current
    rw [scopes_eq]
    exact h
  · change (observe scopes event).scopes.enclosing = _
    rw [scopes_eq]
  · change (observe scopes event).diagnostics ++ [] = errors
    rw [errors_eq, List.append_nil]

theorem append_quiet (h : Declares events before [] errors)
    (h' : Declares later before added errors') :
    Declares (events ++ later) before added (errors ++ errors') := by
  refine h.append ?_
  rw [List.append_nil]
  exact h'

theorem quiet_append (h : Declares events before added errors)
    (h' : Declares later (before ++ added) [] errors') :
    Declares (events ++ later) before added (errors ++ errors') := by
  have both := h.append h'
  rw [List.append_nil] at both
  exact both

theorem flatMap {ι : Type} {items : List ι} {events : ι → List Event} {errors : ι → List Diagnostic}
    (h : ∀ i ∈ items, Declares (events i) before [] (errors i)) :
    Declares (items.flatMap events) before [] (items.flatMap errors) := by
  induction items with
  | nil => exact nil
  | cons i items ih =>
    obtain ⟨first, others⟩ := List.forall_mem_cons.1 h
    exact first.append_quiet (ih others)

theorem leave {outer : Scope} {rest : List Scope} {scopes : ScopeTable}
    (h : scopes.enclosing = outer :: rest) :
    (observeAll scopes [.leave]).scopes = ⟨outer, rest⟩ ∧
      (observeAll scopes [.leave]).diagnostics = [] := by
  unfold observeAll observe
  simp only [h, ScopeTable.exit]
  exact ⟨rfl, rfl⟩

/-- A scope of its own keeps its declarations to itself. -/
theorem inside (h : Declares events [] added errors) (before : List Entry) (label : String) :
    Declares (.enter label :: (events ++ [.leave])) before [] errors := by
  intro scopes start
  have inner := h (scopes.enter label) (represents_nil label)
  obtain ⟨scopes_eq, quiet⟩ := leave inner.enclosing
  have outcome : observeAll scopes (.enter label :: (events ++ [.leave])) =
      (observe scopes (.enter label)).followedBy
        ((observeAll (scopes.enter label) events).followedBy
          (observeAll (observeAll (scopes.enter label) events).scopes [.leave])) := by
    rw [← observeAll_append]
    rfl
  have last : (observeAll scopes (.enter label :: (events ++ [.leave]))).scopes = scopes := by
    rw [outcome]
    exact scopes_eq
  refine ⟨?_, ?_, ?_⟩
  · rw [last, List.append_nil]
    exact start
  · rw [last]
  · rw [outcome]
    change [] ++ (_ ++ (observeAll _ [.leave]).diagnostics) = errors
    rw [quiet, inner.errors, List.append_nil, List.nil_append]

end Declares

theorem ofDeclared_adds {entries : List Entry} {e : Entry} {symbol : Symbol} {scopes : ScopeTable}
    (h : Represents entries scopes.current) (stands : Stands symbol e) :
    Adds entries [e] scopes
      (.ofDeclared scopes e.name.text (scopes.declare e.name.text symbol))
      (conflict? entries e).toList := by
  have declared := declare_represents h stands
  unfold ScopeTable.declare
  cases outcome : scopes.current.declare e.name.text symbol with
  | ok d =>
    rw [outcome] at declared
    exact ⟨declared.2, rfl, by rw [declared.1]; rfl⟩
  | error r =>
    rw [outcome] at declared
    exact ⟨declared.2, rfl, by rw [declared.1]; rfl⟩

theorem Declares.entry (symbol : Symbol) {event : Event} {before : List Entry} {e : Entry}
    (stands : Stands symbol e) (h : ∀ scopes, ∃ notes, observe scopes event =
      (⟨scopes, [], notes⟩ : Findings).followedBy
        (.ofDeclared scopes e.name.text (scopes.declare e.name.text symbol))) :
    Declares [event] before [e] (conflict? before e).toList := by
  intro scopes start
  have declared := ofDeclared_adds start stands
  obtain ⟨notes, found⟩ := h scopes
  have outcome : observeAll scopes [event] =
      (observe scopes event).followedBy (.quiet (observe scopes event).scopes) := rfl
  rw [outcome, found]
  refine ⟨declared.represents, declared.enclosing, ?_⟩
  change [] ++ _ ++ [] = _
  rw [List.nil_append, List.append_nil, declared.errors]

theorem variable_declares (name : Token) (before : List Entry) :
    Declares [.variable name] before [⟨name, .variable, false⟩]
      (conflict? before ⟨name, .variable, false⟩).toList :=
  .entry ⟨.variable, name.position, false, none⟩ ⟨rfl, rfl, rfl⟩ fun _ => ⟨[], rfl⟩

theorem subprogram_declares (h : Heading) (forward : Bool) (before : List Entry) :
    Declares [.subprogram (h.header forward)] before [h.entry forward]
      (conflict? before (h.entry forward)).toList := by
  obtain ⟨keyword, name, list, returned, returns, semicolon⟩ := h
  cases returned with
  | none =>
    exact .entry ⟨.procedure, name.val.position, forward, none⟩ ⟨rfl, rfl, rfl⟩
      fun _ => ⟨_, rfl⟩
  | some r =>
    exact .entry ⟨.function, name.val.position, forward, some r.2.declared.describe⟩
      ⟨rfl, rfl, rfl⟩ fun _ => ⟨_, rfl⟩

def conflictsAfter (before entries : List Entry) : List Diagnostic :=
  (withEarlierFrom before entries).filterMap fun e => conflict? e.1 e.2

theorem conflictsAfter_append (before entries entries' : List Entry) :
    conflictsAfter before (entries ++ entries') =
      conflictsAfter before entries ++ conflictsAfter (before ++ entries) entries' := by
  rw [conflictsAfter, withEarlierFrom_append, List.filterMap_append]
  rfl

theorem conflictsAfter_singleton (before : List Entry) (e : Entry) :
    conflictsAfter before [e] = (conflict? before e).toList := by
  rw [conflictsAfter, withEarlierFrom, withEarlierFrom, List.filterMap_cons]
  cases conflict? before e <;> rfl

theorem conflicts_eq (entries : List Entry) : conflicts entries = conflictsAfter [] entries := by
  rw [conflicts, withEarlier_eq]
  rfl

theorem variables_declare (names : List Token) (before : List Entry) :
    Declares (names.map .variable) before (names.map fun name => ⟨name, .variable, false⟩)
      (conflictsAfter before (names.map fun name => ⟨name, .variable, false⟩)) := by
  induction names generalizing before with
  | nil => exact .nil
  | cons name names ih =>
    have both := (variable_declares name before).append (ih _)
    rw [← conflictsAfter_singleton, ← conflictsAfter_append] at both
    exact both

/-! Ranges, sizes, return types and parameters have nothing to do with the scopes. -/

def Numbered (tokens : List Token) : Prop :=
  ∀ t ∈ tokens, t.kind = .number → ∀ c ∈ t.text.toList, c.isDigit = true

theorem numbered_of_spells {tokens : List Token} (spelled : ∀ t ∈ tokens, t.kind.Spells t.text) :
    Numbered tokens := by
  intro t mem kind
  have spells := spelled t mem
  rw [kind] at spells
  obtain ⟨first, rest, e, digits⟩ := spells
  rw [e, String.toList_ofList]
  exact digits

theorem Numbered.sub {tokens part : List Token} (h : Numbered tokens) (sub : part ⊆ tokens) :
    Numbered part := fun t mem => h t (sub mem)

theorem observe_range (r : Range) (h : Numbered r.tokens) (scopes : ScopeTable) :
    observe scopes r.event = ⟨scopes, r.error?.toList, []⟩ := by
  have low := h r.low.val (by simp [Range.tokens, Range.tail]) (of_decide_eq_true r.low.property)
  have high := h r.high.val (by simp [Range.tokens, Range.tail]) (of_decide_eq_true r.high.property)
  have order := Numeral.ofText_lt_iff low high
  change (if r.bounds.low.lt r.bounds.high = true then Findings.quiet scopes else
    .diagnose scopes (.range r.bounds) r.low.val.position) = _
  unfold Range.error?
  by_cases ascending : r.bounds.low.lt r.bounds.high = true
  · rw [if_pos ascending, if_neg (Nat.not_le.2 (order.1 ascending))]
    rfl
  · rw [if_neg ascending, if_pos (Nat.not_lt.1 fun lt => ascending (order.2 lt))]
    rfl

theorem observe_size (s : Size) (h : Numbered s.tokens) (scopes : ScopeTable) :
    observe scopes s.event = ⟨scopes, s.error?.toList, []⟩ := by
  have digits := h s.number.val (by simp [Size.tokens]) (of_decide_eq_true s.number.property)
  have range := Numeral.isStringSize_iff digits
  change (if DeclaredType.isStringSize s.numeral = true then Findings.quiet scopes else
    .diagnose scopes (.stringSize s.numeral) s.number.val.position) = _
  unfold Size.error?
  by_cases allowed : DeclaredType.isStringSize s.numeral = true
  · rw [if_pos allowed, if_pos (range.1 allowed)]
    rfl
  · rw [if_neg allowed, if_neg fun between => allowed (range.2 between)]
    rfl

theorem observeAll_ranges (ranges : List Range) (h : Numbered (ranges.flatMap Range.tokens))
    (scopes : ScopeTable) : observeAll scopes (ranges.map Range.event) =
      ⟨scopes, ranges.flatMap fun r => r.error?.toList, []⟩ := by
  induction ranges with
  | nil => rfl
  | cons r ranges ih =>
    rw [List.flatMap_cons] at h
    have first := observe_range r (h.sub (List.subset_append_left _ _)) scopes
    rw [List.map_cons, observeAll, first, ih (h.sub (List.subset_append_right _ _))]
    rfl

section

variable {before : List Entry}

theorem Declares.of_ite {event : Event} {c : Prop} [Decidable c] {cause : Diagnostic.Cause}
    {position : Position} (h : ∀ scopes, observe scopes event =
      if c then .quiet scopes else .diagnose scopes cause position) :
    Declares [event] before [] (if c then none else some ⟨cause, position⟩ : Option Diagnostic).toList := by
  refine .quiet (fun scopes => ?_) fun scopes => ?_
  · rw [h]
    split <;> rfl
  · rw [h]
    split <;> rfl

theorem return_declares (name : Token) (type : TypeExpr) :
    Declares [.returnType name type.declared type.first.position] before []
      (if type.declared = .primitive .integer ∨ type.declared = .primitive .real then none
        else some ⟨.returnType name.text type.declared, type.first.position⟩ :
          Option Diagnostic).toList := by
  refine .of_ite fun scopes => ?_
  have allowed : type.declared.isReturnType = true ↔
      type.declared = .primitive .integer ∨ type.declared = .primitive .real := by
    generalize type.declared = declared
    cases declared with
    | primitive type => cases type <;> simp [DeclaredType.isReturnType]
    | string size => simp [DeclaredType.isReturnType]
    | array low high element => simp [DeclaredType.isReturnType]
  simp only [observe, allowed]

theorem firstAfter_eq {seen : List String} (earlier names : List Token)
    (same : ∀ text, text ∈ seen ↔ text ∈ earlier.map Token.text) :
    Repetition.firstAfter Prod.fst seen (names.map fun t => (t.text, t.position)) =
      ((withEarlierFrom earlier names).find? fun p => p.2.text ∈ p.1.map Token.text).map fun p =>
        (p.2.text, p.2.position) := by
  induction names generalizing seen earlier with
  | nil => rfl
  | cons name names ih =>
    rw [List.map_cons, Repetition.firstAfter, withEarlierFrom]
    by_cases repeated : name.text ∈ seen
    · rw [if_pos repeated, List.find?_cons_of_pos (by simpa using (same _).1 repeated)]
      rfl
    · have fresh : name.text ∉ earlier.map Token.text := fun mem => repeated ((same _).2 mem)
      rw [if_neg repeated, List.find?_cons_of_neg (by simpa using fresh)]
      refine ih _ fun text => ?_
      rw [List.mem_cons, same, List.map_append, List.mem_append, List.map_singleton,
        List.mem_singleton]
      exact or_comm

theorem parameters_declare (h : Heading) :
    Declares [.parameters h.parameterNames] before [] h.parameterError?.toList := by
  have repeated : Repetition.first? Prod.fst (h.parameterNames.map fun t => (t.text, t.position)) =
      _ := firstAfter_eq [] h.parameterNames fun _ => Iff.rfl
  rw [← withEarlier_eq] at repeated
  unfold Heading.parameterError?
  refine .quiet (fun scopes => ?_) fun scopes => ?_
  · unfold observe Scope.checkParameters
    dsimp only
    rw [repeated]
    cases (withEarlier h.parameterNames).find? fun p => p.2.text ∈ p.1.map Token.text <;> rfl
  · unfold observe Scope.checkParameters
    dsimp only
    rw [repeated]
    cases (withEarlier h.parameterNames).find? fun p => p.2.text ∈ p.1.map Token.text <;> rfl

end

def SyntaxTree.TypeExpr.errors (t : TypeExpr) : List Diagnostic :=
  t.ranges.flatMap (fun r => r.error?.toList) ++ t.element.size?.toList.flatMap fun s =>
    s.error?.toList

theorem observeAll_element (e : Element) (h : Numbered e.tokens) (scopes : ScopeTable) :
    observeAll scopes e.events =
      ⟨scopes, e.size?.toList.flatMap fun s => s.error?.toList, []⟩ := by
  cases e with
  | primitive word type named => rfl
  | string word size =>
    cases size with
    | none => rfl
    | some s =>
      change (observe scopes s.event).followedBy (.quiet (observe scopes s.event).scopes) = _
      rw [observe_size s (h.sub (List.subset_cons_self _ _))]
      rfl

theorem observeAll_type (t : TypeExpr) (h : Numbered t.tokens) (scopes : ScopeTable) :
    observeAll scopes t.events = ⟨scopes, t.errors, []⟩ := by
  have ranges := observeAll_ranges t.ranges (h.sub (List.subset_append_left _ _)) scopes
  have element := observeAll_element t.element (h.sub (List.subset_append_right _ _)) scopes
  rw [TypeExpr.events, observeAll_append, ranges, element]
  rfl

section

variable {before : List Entry}

theorem type_declares (t : TypeExpr) (spelled : ∀ t' ∈ t.tokens, t'.kind.Spells t'.text) :
    Declares t.events before [] t.errors := by
  intro scopes start
  rw [observeAll_type t (numbered_of_spells spelled)]
  refine ⟨?_, rfl, rfl⟩
  rw [List.append_nil]
  exact start

theorem sections_declare (p : Parameters) (spelled : ∀ t ∈ p.tokens, t.kind.Spells t.text) :
    Declares p.events before [] (p.types.flatMap TypeExpr.errors) := by
  cases p with
  | absent => exact .nil
  | empty opening closing => exact .nil
  | listed opening first others closing =>
    obtain ⟨hfirst, hothers⟩ := List.forall_mem_append.1 (List.forall_mem_cons.1 spelled).2
    rw [Parameters.types, List.flatMap_cons, List.flatMap_map]
    refine .append_quiet (type_declares first.type fun t mem => hfirst t (by
      simp [SyntaxTree.Section.tokens, mem])) ?_
    refine .flatMap fun other mem => type_declares other.2.type fun t mem' => ?_
    refine hothers t (List.mem_append_left _ (List.mem_flatMap.2 ⟨other, mem, ?_⟩))
    simp [SyntaxTree.Section.tokens, mem']

theorem heading_declares (h : Heading) (spelled : ∀ t ∈ h.tokens, t.kind.Spells t.text) :
    Declares h.events before [] (h.types.flatMap TypeExpr.errors ++ h.returnError?.toList) := by
  have inParameters : ∀ t ∈ h.parameters.tokens, t.kind.Spells t.text := fun t mem =>
    spelled t (by simp [Heading.tokens, Heading.tail, mem])
  have inReturned : ∀ t ∈ Heading.returnedTokens h.returned, t.kind.Spells t.text := fun t mem =>
    spelled t (by simp [Heading.tokens, Heading.tail, mem])
  rw [Heading.types, List.flatMap_append, List.append_assoc]
  refine .append_quiet (sections_declare h.parameters inParameters) ?_
  unfold Heading.returnError?
  cases returned : h.returned with
  | none => exact .nil
  | some r =>
    obtain ⟨colon, type⟩ := r
    rw [returned] at inReturned
    have typed : Declares type.events before [] _ := type_declares type fun t mem =>
      inReturned t (List.mem_cons_of_mem _ mem)
    have whole := typed.append_quiet (return_declares h.name.val type)
    rw [← List.append_nil type.errors] at whole
    exact whole

end

namespace SyntaxTree.Block

def errorsAfter (before : List Entry) : Block → List Diagnostic
  | empty => []
  | var list rest => conflictsAfter before list.entries ++
      (list.type.errors ++ errorsAfter (before ++ list.entries) rest)
  | forward heading _ _ rest => heading.types.flatMap TypeExpr.errors ++ heading.returnError?.toList ++
      ((conflict? before (heading.entry true)).toList ++ (heading.parameterError?.toList ++
        errorsAfter (before ++ [heading.entry true]) rest))
  | defined heading _ inner _ _ rest =>
      heading.types.flatMap TypeExpr.errors ++ heading.returnError?.toList ++
      ((conflict? before (heading.entry false)).toList ++ (heading.parameterError?.toList ++
        errorsAfter [] inner ++ errorsAfter (before ++ [heading.entry false]) rest))

end SyntaxTree.Block

theorem subprogram_and_scope (h : Heading) (forward : Bool) (before : List Entry)
    (spelled : ∀ t ∈ h.tokens, t.kind.Spells t.text) {inner : List Event} {added : List Entry}
    {errors : List Diagnostic} (hinner : Declares inner [] added errors) :
    Declares (h.events ++ (h.opening forward ++ (inner ++ [.leave]))) before [h.entry forward]
      (h.types.flatMap TypeExpr.errors ++ h.returnError?.toList ++
        ((conflict? before (h.entry forward)).toList ++ (h.parameterError?.toList ++ errors))) := by
  have own := ((parameters_declare h).append_quiet hinner).inside (before ++ [h.entry forward])
    h.name.val.text
  have entered := (subprogram_declares h forward before).quiet_append own
  exact (heading_declares h spelled).append_quiet entered

theorem block_declares (b : Block) (before : List Entry)
    (spelled : ∀ t ∈ b.tokens, t.kind.Spells t.text) :
    Declares b.events before b.entries (b.errorsAfter before) := by
  induction b generalizing before with
  | empty => exact .nil
  | var list rest ih =>
    obtain ⟨hlist, hrest⟩ := List.forall_mem_append.1 spelled
    have typed : Declares list.type.events (before ++ list.entries) [] _ :=
      type_declares list.type fun t mem => hlist t (by simp [Variables.tokens, Variables.tail, mem])
    have semicolon : Declares [.variableList list.type.declared] (before ++ list.entries) [] [] :=
      .quiet (fun _ => rfl) fun _ => rfl
    have names := (variables_declare list.names.list before).quiet_append (typed.append_quiet semicolon)
    have whole := names.append (ih _ hrest)
    rw [List.append_nil, List.append_assoc (conflictsAfter _ _)] at whole
    exact whole
  | forward heading word semicolon rest ih =>
    obtain ⟨hheading, hothers⟩ := List.forall_mem_append.1 spelled
    obtain ⟨-, hrest⟩ := List.forall_mem_append.1 hothers
    have whole := (subprogram_and_scope heading true before hheading .nil).append (ih _ hrest)
    simpa only [Block.events, Block.entries, Block.errorsAfter, List.append_assoc, List.cons_append,
      List.nil_append] using whole
  | defined heading opening inner closing semicolon rest ihInner ih =>
    obtain ⟨hheading, hothers⟩ := List.forall_mem_append.1 spelled
    obtain ⟨hbody, hrest⟩ := List.forall_mem_append.1 hothers
    have hinner := (List.forall_mem_append.1 (List.forall_mem_cons.1 hbody).2).1
    have whole := (subprogram_and_scope heading false before hheading (ihInner [] hinner)).append
      (ih _ hrest)
    simpa only [Block.events, Block.entries, Block.errorsAfter, List.append_assoc, List.cons_append,
      List.nil_append] using whole

/-! The errors in the order of the rules are those in the order in which they are reported. -/

theorem flatMap_toList {ι : Type} (f : ι → Option Diagnostic) (items : List ι) :
    items.flatMap (fun i => (f i).toList) = items.filterMap f := by
  induction items with
  | nil => rfl
  | cons i items ih =>
    rw [List.flatMap_cons, List.filterMap_cons, ih]
    cases f i <;> rfl

section

variable (d : Diagnostic)

theorem count_types (types : List TypeExpr) : (types.flatMap TypeExpr.errors).count d =
    ((types.flatMap TypeExpr.ranges).filterMap Range.error?).count d +
      ((types.filterMap fun type => type.element.size?).filterMap Size.error?).count d := by
  induction types with
  | nil => rfl
  | cons type types ih =>
    have size : ((type :: types).filterMap fun type => type.element.size?) =
        type.element.size?.toList ++ types.filterMap fun type => type.element.size? := by
      rw [List.filterMap_cons]
      cases type.element.size? <;> rfl
    rw [size, List.flatMap_cons, List.flatMap_cons, List.filterMap_append, List.filterMap_append,
      List.count_append, List.count_append, List.count_append, ih, TypeExpr.errors, flatMap_toList,
      flatMap_toList, List.count_append]
    omega

def localErrors (b : Block) : List Diagnostic :=
  b.types.flatMap TypeExpr.errors ++ b.headings.filterMap Heading.returnError? ++
    b.headings.filterMap Heading.parameterError? ++ b.bodies.flatMap conflicts

theorem count_filterMap_cons {ι : Type} (f : ι → Option Diagnostic) (i : ι) (items : List ι) :
    ((i :: items).filterMap f).count d = (f i).toList.count d + (items.filterMap f).count d := by
  rw [← flatMap_toList, List.flatMap_cons, List.count_append, flatMap_toList]

theorem count_localErrors (b : Block) : (localErrors b).count d =
    (b.types.flatMap TypeExpr.errors).count d + (b.headings.filterMap Heading.returnError?).count d +
      (b.headings.filterMap Heading.parameterError?).count d + (b.bodies.flatMap conflicts).count d := by
  simp only [localErrors, List.count_append]

theorem conflictsAfter_cons (before : List Entry) (e : Entry) (entries : List Entry) :
    conflictsAfter before (e :: entries) =
      (conflict? before e).toList ++ conflictsAfter (before ++ [e]) entries := by
  rw [← conflictsAfter_singleton, ← conflictsAfter_append]
  rfl

theorem count_errorsAfter (b : Block) (before : List Entry) : (b.errorsAfter before).count d =
    (localErrors b).count d + (conflictsAfter before b.entries).count d := by
  induction b generalizing before with
  | empty => rfl
  | var list rest ih =>
    simp only [Block.errorsAfter, Block.types, Block.headings, Block.bodies, Block.entries, ih,
      count_localErrors, conflictsAfter_append, List.flatMap_cons, List.count_append]
    omega
  | forward heading word semicolon rest ih =>
    simp only [Block.errorsAfter, Block.types, Block.headings, Block.bodies, Block.entries, ih,
      count_localErrors, count_filterMap_cons, conflictsAfter_cons, List.flatMap_append,
      List.count_append]
    omega
  | defined heading opening inner closing semicolon rest ihInner ih =>
    simp only [Block.errorsAfter, Block.types, Block.headings, Block.bodies, Block.entries, ih,
      ihInner, count_localErrors, count_filterMap_cons, conflictsAfter_cons, conflicts_eq,
      List.filterMap_append, List.flatMap_cons, List.flatMap_append, List.count_append]
    omega

end

theorem errors_perm_violations (b : Block) : (b.errorsAfter []).Perm b.violations := by
  rw [List.perm_iff_count]
  intro d
  rw [count_errorsAfter, count_localErrors, count_types]
  simp only [Block.violations, Block.namespaces, List.flatMap_cons, List.count_append, conflicts_eq]
  omega

theorem observe_block (b : Block) (spelled : ∀ t ∈ b.tokens, t.kind.Spells t.text) :
    (observeAll .initial b.events).diagnostics.Perm b.violations := by
  have declared := block_declares b [] spelled .initial (represents_nil "global")
  rw [declared.errors]
  exact errors_perm_violations b

/-- A text without syntax errors is the text of a tree, and what is said of it is, each error
once, what the tree does against the rules. -/
theorem check_perm_violations {source : String} {tokens : List Token}
    (ok : tokenize source = .ok tokens) (nests : NestsAtMost 200 (terminals tokens))
    (correct : ∀ d ∈ (check source).diagnostics, d.kind ≠ .syntactic) :
    (∃ b : Block, b.tokens = tokens) ∧
      ∀ b : Block, b.tokens = tokens → (check source).diagnostics.Perm b.violations := by
  have spelled := tokenize_spells ok
  have sentence := (program_quiet_iff spelled nests (by decide) (isEnd_endAfter tokens)).1
    ((check_quiet_iff ok).1 correct)
  refine ⟨(isSentence_iff_block spelled).1 sentence, ?_⟩
  rintro b rfl
  have within : b.depth ≤ nestingLimit := Nat.le_trans (depth_le_of_nestsAtMost nests) (by decide)
  have last := isEnd_endAfter b.tokens
  have reading := program_eq_toEnd nests (by decide) last
  rw [check_eq ok, reading, toEnd_takes b within last]
  exact observe_block b spelled

theorem check_perm_violations_empty_string :
    ∃ tokens, tokenize "var a: string[0];" = .ok tokens ∧ NestsAtMost 200 (terminals tokens) ∧
      (∀ d ∈ (check "var a: string[0];").diagnostics, d.kind ≠ .syntactic) ∧
      (∃ b : Block, b.tokens = tokens) ∧ ∀ b : Block, b.tokens = tokens →
        (check "var a: string[0];").diagnostics.Perm b.violations := by
  have ok : tokenize "var a: string[0];" = .ok [⟨.keyword, "var", ⟨1, 1⟩, 0⟩,
      ⟨.identifier, "a", ⟨1, 5⟩, 4⟩, ⟨.punctuation, ":", ⟨1, 6⟩, 5⟩,
      ⟨.keyword, "string", ⟨1, 8⟩, 7⟩, ⟨.punctuation, "[", ⟨1, 14⟩, 13⟩,
      ⟨.number, "0", ⟨1, 15⟩, 14⟩, ⟨.punctuation, "]", ⟨1, 16⟩, 15⟩,
      ⟨.punctuation, ";", ⟨1, 17⟩, 16⟩] := by decide +kernel
  have nests : NestsAtMost 200 ["var", "ident", ":", "string", "[", "number", "]", ";"] :=
    nestsAtMost_of_length_le (by decide)
  have correct : ∀ d ∈ (check "var a: string[0];").diagnostics, d.kind ≠ .syntactic := by
    decide +kernel
  exact ⟨_, ok, nests, correct, check_perm_violations ok nests correct⟩

end DeclarationChecker.Declaration
