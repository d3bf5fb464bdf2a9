import DeclarationChecker.Proofs.Declaration.Program

set_option autoImplicit false

namespace DeclarationChecker.Declaration

open Text Reader Token SyntaxTree

def Event.syntaxError? : Event → Option Diagnostic
  | .unexpected expected found => some ⟨.unexpected expected found, found.position⟩
  | .tooDeep position => some ⟨.tooDeep, position⟩
  | _ => none

theorem syntaxError?_eq_none {event : Event} (h : event.isSyntactic = false) :
    event.syntaxError? = none := by
  cases event with
  | unexpected expected found => cases h
  | tooDeep position => cases h
  | _ => rfl

section

variable (scopes : ScopeTable)

theorem ofDeclared_semantic (name : String)
    (declared : Except Scope.Refusal ScopeTable.Declared) :
    ∀ d ∈ (Findings.ofDeclared scopes name declared).diagnostics, d.kind = .semantic := by
  cases declared with
  | ok declared => exact fun d mem => nomatch mem
  | error refusal =>
    intro d mem
    rw [List.mem_singleton.1 mem]
    rfl

theorem ofParameters_semantic (checked : Except Scope.Refusal Unit) :
    ∀ d ∈ (Findings.ofParameters scopes checked).diagnostics, d.kind = .semantic := by
  cases checked with
  | ok _ => exact fun d mem => nomatch mem
  | error refusal =>
    intro d mem
    rw [List.mem_singleton.1 mem]
    rfl

theorem diagnose_semantic {cause : Diagnostic.Cause} (h : cause.kind = .semantic)
    (position : Position) (c : Bool) : ∀ d ∈ (if c = true then Findings.quiet scopes else
      Findings.diagnose scopes cause position).diagnostics, d.kind = .semantic := by
  intro d mem
  cases c with
  | true => exact nomatch mem
  | false =>
    rw [List.mem_singleton.1 mem]
    exact h

theorem observe_semantic {event : Event} (h : event.isSyntactic = false) :
    ∀ d ∈ (observe scopes event).diagnostics, d.kind = .semantic := by
  cases event with
  | «variable» name => exact ofDeclared_semantic scopes name.text _
  | subprogram header => exact ofDeclared_semantic scopes header.name.text _
  | range bounds position => exact diagnose_semantic scopes rfl position _
  | stringSize size position => exact diagnose_semantic scopes rfl position _
  | returnType function type position => exact diagnose_semantic scopes rfl position _
  | unexpected expected found => cases h
  | tooDeep position => cases h
  | variableList type => exact fun d mem => nomatch mem
  | enter label => exact fun d mem => nomatch mem
  | leave =>
    unfold observe
    cases scopes.enclosing <;> exact fun d mem => nomatch mem
  | parameters names => exact ofParameters_semantic scopes _

theorem observe_syntactic (event : Event) (d : Diagnostic) :
    (d ∈ (observe scopes event).diagnostics ∧ d.kind = .syntactic) ↔
      event.syntaxError? = some d := by
  cases syntactic : event.isSyntactic with
  | false =>
    rw [syntaxError?_eq_none syntactic]
    constructor
    · rintro ⟨mem, kind⟩
      have semantic := observe_semantic scopes syntactic d mem
      exact nomatch semantic.symm.trans kind
    · exact fun h => nomatch h
  | true =>
    cases event with
    | unexpected expected found =>
      constructor
      · rintro ⟨mem, -⟩
        rw [List.mem_singleton.1 mem]
        rfl
      · rintro ⟨⟩
        exact ⟨List.mem_singleton.2 rfl, rfl⟩
    | tooDeep position =>
      constructor
      · rintro ⟨mem, -⟩
        rw [List.mem_singleton.1 mem]
        rfl
      · rintro ⟨⟩
        exact ⟨List.mem_singleton.2 rfl, rfl⟩
    | _ => cases syntactic

end

theorem mem_observeAll_cons {scopes : ScopeTable} {event : Event} {events : List Event}
    {d : Diagnostic} : d ∈ (observeAll scopes (event :: events)).diagnostics ↔
      d ∈ (observe scopes event).diagnostics ∨
        d ∈ (observeAll (observe scopes event).scopes events).diagnostics :=
  List.mem_append

theorem observeAll_syntactic (scopes : ScopeTable) (events : List Event) (d : Diagnostic) :
    (d ∈ (observeAll scopes events).diagnostics ∧ d.kind = .syntactic) ↔
      ∃ event ∈ events, event.syntaxError? = some d := by
  induction events generalizing scopes with
  | nil => simp [observeAll, Findings.quiet]
  | cons event events ih =>
    rw [mem_observeAll_cons, or_and_right, observe_syntactic, ih]
    simp only [List.mem_cons, exists_eq_or_imp]

theorem observeAll_of_syntactic (scopes : ScopeTable) {events : List Event}
    (h : ∀ event ∈ events, event.isSyntactic = true) :
    ∀ d ∈ (observeAll scopes events).diagnostics, d.kind = .syntactic := by
  induction events generalizing scopes with
  | nil => exact fun d mem => nomatch mem
  | cons event events ih =>
    obtain ⟨first, others⟩ := List.forall_mem_cons.1 h
    intro d mem
    rcases mem_observeAll_cons.1 mem with here | later
    · cases event with
      | unexpected expected found =>
        rw [List.mem_singleton.1 here]
        rfl
      | tooDeep position =>
        rw [List.mem_singleton.1 here]
        rfl
      | _ => cases first
    · exact ih _ others d later

theorem isSyntactic_of_syntaxError? {event : Event} {d : Diagnostic}
    (h : event.syntaxError? = some d) : event.isSyntactic = true := by
  cases event with
  | unexpected expected found => rfl
  | tooDeep position => rfl
  | _ => cases h

theorem exists_syntaxError {event : Event} (h : event.isSyntactic = true) :
    ∃ d, event.syntaxError? = some d := by
  cases event with
  | unexpected expected found => exact ⟨_, rfl⟩
  | tooDeep position => exact ⟨_, rfl⟩
  | _ => cases h

theorem exists_syntaxError_iff {events : List Event} {d : Diagnostic} :
    (∃ event ∈ events, event.syntaxError? = some d) ↔
      ∃ event ∈ syntaxEvents events, event.syntaxError? = some d := by
  constructor
  · rintro ⟨event, mem, h⟩
    exact ⟨event, List.mem_filter.2 ⟨mem, isSyntactic_of_syntaxError? h⟩, h⟩
  · rintro ⟨event, mem, h⟩
    exact ⟨event, (List.mem_filter.1 mem).1, h⟩

theorem observeAll_quiet_iff (scopes : ScopeTable) (events : List Event) :
    (∀ d ∈ (observeAll scopes events).diagnostics, d.kind ≠ .syntactic) ↔ syntaxEvents events = [] := by
  have errors := observeAll_syntactic scopes events
  constructor
  · intro none
    rw [List.eq_nil_iff_forall_not_mem]
    intro event mem
    obtain ⟨mem, syntactic⟩ := List.mem_filter.1 mem
    obtain ⟨d, said⟩ := exists_syntaxError syntactic
    obtain ⟨mem', kind⟩ := (errors d).2 ⟨event, mem, said⟩
    exact none d mem' kind
  · intro quiet d mem kind
    obtain ⟨event, mem', -⟩ := exists_syntaxError_iff.1 ((errors d).1 ⟨mem, kind⟩)
    rw [quiet] at mem'
    cases mem'

section

variable {source : String} {tokens : List Token}

theorem prepare_eq (noEnd : ∀ t ∈ tokens, t.isEnd = false) :
    prepare tokens = tokens ++ [endAfter tokens] := by
  have open_ended : (tokens.getLast?.map Token.isEnd).getD false = false := by
    cases last : tokens.getLast? with
    | none => rfl
    | some t => exact noEnd t (List.mem_of_getLast? last)
  rw [prepare, open_ended, if_neg Bool.false_ne_true]

theorem isEnd_endAfter (tokens : List Token) : (endAfter tokens).isEnd = true := by
  unfold endAfter
  cases tokens.getLast? <;> rfl

theorem Session.isEnd_stop (s : Session) : s.stop.isEnd = true := by
  unfold stop
  cases first : s.tokens.find? Token.isEnd with
  | none => exact isEnd_endAfter s.tokens
  | some t => exact List.find?_some first

theorem Session.ahead_inside (s : Session) : s.ahead <:+: s.tokens :=
  (List.takeWhile_prefix _).isInfix.trans (List.drop_suffix _ _).isInfix

theorem stop_ofTokens (noEnd : ∀ t ∈ tokens, t.isEnd = false) :
    (Session.ofTokens tokens).stop = endAfter tokens := by
  have none : tokens.find? Token.isEnd = none := by
    rw [List.find?_eq_none]
    exact fun t mem => Bool.eq_false_iff.1 (noEnd t mem)
  simp [Session.stop, Session.ofTokens, prepare_eq noEnd, List.find?_append, none,
    isEnd_endAfter tokens]

theorem ahead_ofTokens (noEnd : ∀ t ∈ tokens, t.isEnd = false) :
    (Session.ofTokens tokens).ahead = tokens := by
  have all : ∀ t ∈ tokens, (!t.isEnd) = true := fun t mem => by rw [noEnd t mem]; rfl
  simp [Session.ahead, Session.ofTokens, prepare_eq noEnd, List.takeWhile_append_of_pos all,
    isEnd_endAfter tokens]

/-- What is found in tokens without an end comes from reading them up to the end behind them. -/
theorem read_eq (noEnd : ∀ t ∈ tokens, t.isEnd = false) :
    (read tokens).diagnostics =
      (observeAll .initial (program (endAfter tokens) tokens).events).diagnostics := by
  unfold read Session.readProgram Session.perform
  rw [stop_ofTokens noEnd, ahead_ofTokens noEnd]
  rfl

theorem check_eq (ok : tokenize source = .ok tokens) : (check source).diagnostics =
    (observeAll .initial (program (endAfter tokens) tokens).events).diagnostics := by
  rw [← read_eq fun t mem => isEnd_eq_false (tokenize_spells ok t mem)]
  unfold check
  rw [ok]

end

section

variable {tokens : List Token} {stop : Token} {depth : Nat}

theorem program_eq_toEnd (nests : NestsAtMost depth (terminals tokens))
    (within : depth < nestingLimit) (hstop : stop.isEnd = true) :
    program stop tokens = toEnd nestingLimit stop tokens := by
  have open_ended := toEnd_not_tooDeep nests within hstop
  rw [program_eq]
  unfold stopTooDeep
  generalize toEnd nestingLimit stop tokens = reading at open_ended
  obtain ⟨outcome, events, used⟩ := reading
  cases outcome with
  | value u => rfl
  | unexpected => rfl
  | tooDeep => exact absurd rfl open_ended

/-- Up to the token it gave up at, no text of a tree begins like what a reader has read. -/
theorem not_block_of_unexpected (limit : Nat) (tokens : List Token) (hstop : stop.isEnd = true)
    (h : (toEnd limit stop tokens).outcome = .unexpected) (b : Block) :
    b.tokens.take ((toEnd limit stop tokens).used + 1) ≠
      tokens.take ((toEnd limit stop tokens).used + 1) := by
  intro same
  -- If one did, its tree would be read in the same way as far as that, and a tree is read to its end.
  have notDeep : (toEnd limit stop tokens).outcome ≠ .tooDeep := by
    rw [h]
    exact fun e => nomatch e
  have foretold := toEnd_foretells (Nat.le_max_left limit b.depth) stop tokens b.tokens notDeep same
  rw [← foretold, toEnd_takes b (Nat.le_max_right _ _) hstop] at h
  cases h

theorem take_length_add_one (xs more : List Token) (t : Token) :
    (xs ++ [t] ++ more).take (xs.length + 1) = xs ++ [t] :=
  List.take_left' (by rw [List.length_append, List.length_singleton])

theorem not_viable_of_not_block {xs rest : List Token} {t : Token}
    (spelled : ∀ t' ∈ xs ++ t :: rest, t'.kind.Spells t'.text)
    (h : ∀ b : Block, b.tokens.take (xs.length + 1) ≠ (xs ++ t :: rest).take (xs.length + 1)) :
    ¬ Grammar.declarations.IsViable (terminals (xs ++ [t])) := by
  intro viable
  rw [List.append_cons] at spelled h
  obtain ⟨b, more, e⟩ := exists_block_of_isViable (List.forall_mem_append.1 spelled).1 viable
  refine h b ?_
  rw [e, take_length_add_one, take_length_add_one]

/-- A program is read without a syntax error, or up to a token that may not stand there. -/
theorem program_cases (spelled : ∀ t ∈ tokens, t.kind.Spells t.text)
    (nests : NestsAtMost depth (terminals tokens)) (within : depth < nestingLimit)
    (hstop : stop.isEnd = true) :
    (Grammar.declarations.IsSentence (terminals tokens) ∧
      syntaxEvents (program stop tokens).events = []) ∨
    ∃ xs rest expected, tokens = xs ++ rest ∧ Grammar.declarations.IsViable (terminals xs) ∧
      ¬ Grammar.declarations.IsSentence (terminals tokens) ∧
      (∀ t more, rest = t :: more → ¬ Grammar.declarations.IsViable (terminals (xs ++ [t]))) ∧
      syntaxEvents (program stop tokens).events = [.unexpected expected (rest.headD stop)] := by
  have noEnd : ∀ t ∈ tokens, t.isEnd = false := fun t mem => isEnd_eq_false (spelled t mem)
  have notDeep := toEnd_not_tooDeep nests within hstop
  have account := (toEnd_reads nestingLimit).accounts stop tokens hstop
  have refuses := not_block_of_unexpected nestingLimit tokens hstop
  have reads := exists_block_of_value nestingLimit noEnd hstop
  rw [program_eq_toEnd nests within hstop]
  -- From here on only what is known of the reading counts, not how it came about.
  generalize toEnd nestingLimit stop tokens = reading at notDeep account refuses reads
  cases account with
  | tooDeep viable quiet deep => exact absurd rfl notDeep
  | value complete quiet => exact .inl ⟨(isSentence_iff_block spelled).2 (reads rfl), quiet⟩
  | @unexpected xs rest more a events expected viable blame =>
    obtain ⟨b, e⟩ := viable
    refine .inr ⟨xs, rest, expected, rfl, isViable_of_block e, ?_, ?_, blame⟩
    · intro sentence
      obtain ⟨whole, e'⟩ := (isSentence_iff_block spelled).1 sentence
      exact refuses rfl whole (by rw [e'])
    · rintro t rest' rfl
      exact not_viable_of_not_block spelled (refuses rfl)

theorem program_quiet_iff (spelled : ∀ t ∈ tokens, t.kind.Spells t.text)
    (nests : NestsAtMost depth (terminals tokens)) (within : depth < nestingLimit)
    (hstop : stop.isEnd = true) : syntaxEvents (program stop tokens).events = [] ↔
      Grammar.declarations.IsSentence (terminals tokens) := by
  rcases program_cases spelled nests within hstop with
    ⟨sentence, quiet⟩ | ⟨xs, rest, expected, -, -, notSentence, -, blame⟩
  · exact iff_of_true quiet sentence
  · rw [blame]
    exact iff_of_false (List.cons_ne_nil _ _) notSentence

end

section

variable {source : String} {tokens : List Token}

/-- The syntax errors of a check are those of reading the tokens up to the end behind them. -/
theorem mem_check_syntactic (ok : tokenize source = .ok tokens) (d : Diagnostic) :
    (d ∈ (check source).diagnostics ∧ d.kind = .syntactic) ↔
      ∃ event ∈ syntaxEvents (program (endAfter tokens) tokens).events,
        event.syntaxError? = some d := by
  rw [check_eq ok, observeAll_syntactic, exists_syntaxError_iff]

theorem check_quiet_iff (ok : tokenize source = .ok tokens) :
    (∀ d ∈ (check source).diagnostics, d.kind ≠ .syntactic) ↔
      syntaxEvents (program (endAfter tokens) tokens).events = [] := by
  rw [check_eq ok]
  exact observeAll_quiet_iff _ _

/-- A text has no syntax error just if it is a sentence of the grammar, whatever else is wrong
with it. -/
theorem check_not_syntactic_iff (ok : tokenize source = .ok tokens)
    (nests : NestsAtMost 200 (terminals tokens)) :
    (∀ d ∈ (check source).diagnostics, d.kind ≠ .syntactic) ↔
      Grammar.declarations.IsSentence (terminals tokens) := by
  rw [check_quiet_iff ok]
  exact program_quiet_iff (tokenize_spells ok) nests (by decide) (isEnd_endAfter tokens)

theorem check_not_syntactic_iff_missing_type :
    ∃ tokens, tokenize "var a;" = .ok tokens ∧ terminals tokens = Text.CodePoints.ofStrings ["var", "ident", ";"] ∧
      NestsAtMost 200 (terminals tokens) ∧
      ((∀ d ∈ (check "var a;").diagnostics, d.kind ≠ .syntactic) ↔
        Grammar.declarations.IsSentence (terminals tokens)) := by
  have ok : tokenize "var a;" = .ok [⟨.keyword, "var", ⟨1, 1⟩, 0⟩,
      ⟨.identifier, "a", ⟨1, 5⟩, 4⟩, ⟨.punctuation, ";", ⟨1, 6⟩, 5⟩] := by decide +kernel
  have nests : NestsAtMost 200 ["var", "ident", ";"] := nestsAtMost_of_length_le (by decide)
  exact ⟨_, ok, rfl, nests, check_not_syntactic_iff ok nests⟩

/-- A syntax error is reported at the first token that no sentence goes on with. -/
theorem syntactic_position (ok : tokenize source = .ok tokens)
    (nests : NestsAtMost 200 (terminals tokens)) {d : Diagnostic}
    (mem : d ∈ (check source).diagnostics) (kind : d.kind = .syntactic) :
    ∃ (k : Nat) (token : Token), (prepare tokens)[k]? = some token ∧ d.position = token.position ∧
      Grammar.declarations.IsViable ((terminals tokens).take k) ∧
      (k < tokens.length → ¬ Grammar.declarations.IsViable ((terminals tokens).take (k + 1))) ∧
      (k = tokens.length → ¬ Grammar.declarations.IsSentence (terminals tokens)) := by
  obtain ⟨event, mem', said⟩ := (mem_check_syntactic ok d).1 ⟨mem, kind⟩
  have noEnd : ∀ t ∈ tokens, t.isEnd = false := fun t mem => isEnd_eq_false (tokenize_spells ok t mem)
  rcases program_cases (tokenize_spells ok) nests (by decide) (isEnd_endAfter tokens) with
    ⟨sentence, quiet⟩ | ⟨xs, rest, expected, rfl, viable, notSentence, refused, blame⟩
  · rw [quiet] at mem'
    cases mem'
  · rw [blame, List.mem_singleton] at mem'
    subst mem'
    obtain rfl := Option.some.inj said
    refine ⟨xs.length, rest.headD (endAfter (xs ++ rest)), ?_, rfl, ?_, ?_, fun _ => notSentence⟩
    · rw [prepare_eq noEnd, List.append_assoc, List.getElem?_append_right (le_refl _), Nat.sub_self]
      cases rest <;> rfl
    · rw [terminals_append, List.take_left' (List.length_map _)]
      exact viable
    · intro shorter
      cases rest with
      | nil =>
        rw [List.append_nil] at shorter
        exact absurd shorter (Nat.lt_irrefl _)
      | cons t more =>
        have head : (terminals (xs ++ t :: more)).take (xs.length + 1) = terminals (xs ++ [t]) := by
          rw [List.append_cons, Token.terminals, ← List.map_take, take_length_add_one]
        rw [head]
        exact refused t more rfl

theorem syntactic_position_missing_type :
    ∃ tokens d, tokenize "var a;" = .ok tokens ∧ NestsAtMost 200 (terminals tokens) ∧
      d ∈ (check "var a;").diagnostics ∧ d.kind = .syntactic ∧
      ∃ (k : Nat) (token : Token), (prepare tokens)[k]? = some token ∧ d.position = token.position ∧
        Grammar.declarations.IsViable ((terminals tokens).take k) ∧
        (k < tokens.length → ¬ Grammar.declarations.IsViable ((terminals tokens).take (k + 1))) ∧
        (k = tokens.length → ¬ Grammar.declarations.IsSentence (terminals tokens)) := by
  have ok : tokenize "var a;" = .ok [⟨.keyword, "var", ⟨1, 1⟩, 0⟩,
      ⟨.identifier, "a", ⟨1, 5⟩, 4⟩, ⟨.punctuation, ";", ⟨1, 6⟩, 5⟩] := by decide +kernel
  have nests : NestsAtMost 200 ["var", "ident", ";"] := nestsAtMost_of_length_le (by decide)
  have mem : ⟨.unexpected (.spelling ":") ⟨.punctuation, ";", ⟨1, 6⟩, 5⟩, ⟨1, 6⟩⟩ ∈
      (check "var a;").diagnostics := by decide +kernel
  exact ⟨_, _, ok, nests, mem, rfl, syntactic_position ok nests mem rfl⟩

end

end DeclarationChecker.Declaration
