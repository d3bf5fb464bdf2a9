import Mathlib.Data.List.TakeWhile
import DeclarationChecker.Proofs.Declaration.Endings
import DeclarationChecker.Proofs.Declaration.SyntaxErrors

set_option autoImplicit false

namespace DeclarationChecker.Declaration

open Reader Token

variable {α : Type}

/-- A single step of reading, by what it answers. Reading a whole program is not among them. -/
inductive Operation : Type → Type
  | current : Operation Token
  | advance : Operation Token
  | acceptPunctuation (mark : String) : Operation Bool
  | expectPunctuation (mark : String) : Operation Token
  | expectKeyword (word : String) : Operation Token
  | expectKind (kind : Kind) (expected : Expected) : Operation Token
  | giveUp (expected : Expected) : Operation Unit
  | names : Operation (List Token)
  | elementType : Operation DeclaredType
  | type : Operation DeclaredType
  | parameters : Operation (List Parameter)
  | variableList : Operation Unit
  | subprogram : Operation Unit
  | body : Operation Unit
  | declarations : Operation Unit

/-- A list of variables has to begin with its keyword; a procedure or function takes any token for
its own. -/
def Operation.reader : Operation α → Reader α
  | current => Reader.current
  | advance => Reader.advance
  | acceptPunctuation mark => Reader.acceptPunctuation mark
  | expectPunctuation mark => Reader.expectPunctuation mark
  | expectKeyword word => Reader.expectKeyword word
  | expectKind kind expected => Reader.expect (fun t => t.kind = kind) expected
  | giveUp expected => Reader.unexpected expected
  | names => Declaration.names
  | elementType => Declaration.elementType
  | type => Declaration.type
  | parameters => Declaration.parameters
  | variableList => Reader.expectKeyword "var" >>= fun _ => Declaration.variableList
  | subprogram => Reader.advance >>= Declaration.subprogram (Declaration.body nestingLimit)
  | body => Declaration.body nestingLimit
  | declarations => Declaration.declarations (Declaration.body nestingLimit)

theorem Operation.madeOf (op : Operation α) :
    MadeOf Event.isPlain (Declaration.body nestingLimit) op.reader := by
  cases op with
  | current => exact .current
  | advance => exact .advance
  | acceptPunctuation mark => exact .accept _
  | expectPunctuation mark => exact .expect _ _
  | expectKeyword word => exact .expect _ _
  | expectKind kind expected => exact .expect _ _
  | giveUp expected => exact .unexpected expected
  | names => exact names_madeOf
  | elementType => exact elementType_madeOf.mono fun _ => Event.isPlain_of_isCheck
  | type => exact type_madeOf.mono fun _ => Event.isPlain_of_isCheck
  | parameters => exact parameters_madeOf.mono fun _ => Event.isPlain_of_isCheck
  | variableList => exact .bind (.expect _ _) fun _ => variableList_madeOf
  | subprogram => exact .bind .advance fun keyword => subprogram_madeOf keyword
  | body => exact .inner
  | declarations => exact declarations_madeOf

theorem Operation.holds {P : Property} (op : Operation α) (c : Compositional Event.isPlain P)
    (deep : ∀ stop ahead, P stop ahead (⟨.tooDeep, [], 0⟩ : Reading Unit)) (stop : Token)
    (ahead : List Token) : P stop ahead (op.reader stop ahead) :=
  op.madeOf.holds c (body_holds c deep nestingLimit) stop ahead

theorem toEnd_madeOf (depth : Nat) : MadeOf Event.isPlain (body depth) (toEnd depth) :=
  .bind declarations_madeOf fun _ => .bind .current fun _ => .ite _ (.unexpected _) (.pure _)

theorem toEnd_holds {P : Property} (c : Compositional Event.isPlain P)
    (deep : ∀ stop ahead, P stop ahead (⟨.tooDeep, [], 0⟩ : Reading Unit)) (depth : Nat) (stop : Token)
    (ahead : List Token) : P stop ahead (toEnd depth stop ahead) :=
  (toEnd_madeOf depth).holds c (body_holds c deep depth) stop ahead

def Session.diagnose (s : Session) (cause : Diagnostic.Cause) (position : Text.Position) : Session :=
  { s with findings := s.findings.followedBy (.diagnose s.findings.scopes cause position) }

/-- The sessions that operations lead to, from the start of the tokens on, whatever has been found
before and whatever scopes are open there. -/
inductive Reached (tokens : List Token) : Session → Prop
  | start (found : Findings) : Reached tokens ⟨prepare tokens, 0, found⟩
  | perform {α : Type} {s : Session} (reached : Reached tokens s) (op : Operation α) :
      Reached tokens (s.perform op.reader).session
  | diagnose {s : Session} (reached : Reached tokens s) (cause : Diagnostic.Cause)
      (position : Text.Position) : Reached tokens (s.diagnose cause position)
  | readProgram {s : Session} (reached : Reached tokens s) : Reached tokens s.readProgram

structure Session.Spans (tokens : List Token) (last : Token) (s : Session) : Prop where
  tokens_eq : ∃ behind, s.tokens = tokens ++ last :: behind
  noEnd : ∀ t ∈ tokens, t.isEnd = false
  isEnd : last.isEnd = true
  index_le : s.index ≤ tokens.length

namespace Session.Spans

variable {tokens : List Token} {last : Token} {s : Session}

theorem ahead_eq (h : s.Spans tokens last) : s.ahead = tokens.drop s.index := by
  obtain ⟨behind, e⟩ := h.tokens_eq
  have going : ∀ t ∈ tokens.drop s.index, (!t.isEnd) = true := fun t mem => by
    rw [h.noEnd t (List.mem_of_mem_drop mem), Bool.not_false]
  rw [ahead, e, List.drop_append_of_le_length h.index_le, List.takeWhile_append_of_pos going,
    List.takeWhile_cons_of_neg (by rw [h.isEnd]; exact Bool.false_ne_true), List.append_nil]

theorem stop_eq (h : s.Spans tokens last) : s.stop = last := by
  obtain ⟨behind, e⟩ := h.tokens_eq
  have none : tokens.find? Token.isEnd = none :=
    List.find?_eq_none.2 fun t mem => Bool.eq_false_iff.1 (h.noEnd t mem)
  rw [stop, e, List.find?_append, none, Option.none_or, List.find?_cons_of_pos h.isEnd]
  rfl

theorem findIdx_eq (h : s.Spans tokens last) : s.tokens.findIdx Token.isEnd = tokens.length := by
  obtain ⟨behind, e⟩ := h.tokens_eq
  have none : tokens.findIdx Token.isEnd = tokens.length := List.findIdx_eq_length.2 h.noEnd
  rw [e, List.findIdx_append, none, if_neg (Nat.lt_irrefl _), List.findIdx_cons, h.isEnd]
  exact Nat.zero_add _

theorem getElem?_eq (h : s.Spans tokens last) {used : Nat} (within : used ≤ s.ahead.length) :
    s.tokens[s.index + used]? = some ((s.ahead.drop used).headD s.stop) := by
  obtain ⟨behind, e⟩ := h.tokens_eq
  rw [h.ahead_eq, List.length_drop] at within
  rw [h.ahead_eq, h.stop_eq, List.drop_drop, e, ← List.head?_drop,
    List.drop_append_of_le_length (Nat.add_le_of_le_sub' h.index_le within)]
  cases tokens.drop (s.index + used) with
  | nil => rfl
  | cons t rest => rfl

theorem current_eq (h : s.Spans tokens last) : s.tokens[s.index]? = some s.current :=
  h.getElem?_eq (Nat.zero_le _)

theorem forward (h : s.Spans tokens last) {used : Nat} (within : used ≤ s.ahead.length)
    (found : Findings) : Spans tokens last { s with index := s.index + used, findings := found } where
  tokens_eq := h.tokens_eq
  noEnd := h.noEnd
  isEnd := h.isEnd
  index_le := by
    rw [h.ahead_eq, List.length_drop] at within
    exact Nat.add_le_of_le_sub' h.index_le within

end Session.Spans

theorem prepare_spans (tokens : List Token) (found : Findings) :
    ∃ xs last, Session.Spans xs last ⟨prepare tokens, 0, found⟩ := by
  have ends : ∃ t ∈ prepare tokens, t.isEnd = true := by
    unfold prepare
    split
    · rename_i ending
      cases last : tokens.getLast? with
      | none =>
        rw [last] at ending
        cases ending
      | some t =>
        rw [last] at ending
        exact ⟨t, List.mem_of_getLast? last, ending⟩
    · exact ⟨_, List.mem_append_right _ List.mem_cons_self, isEnd_endAfter tokens⟩
  obtain ⟨t, mem, isEnd⟩ := ends
  obtain ⟨last, first⟩ := Option.isSome_iff_exists.1 (List.find?_isSome.2 ⟨t, mem, isEnd⟩)
  obtain ⟨isEnd, xs, behind, e, noEnd⟩ := List.find?_eq_some_iff_append.1 first
  exact ⟨xs, last, ⟨behind, e⟩, fun t mem => Bool.not_eq_true' _ ▸ noEnd t mem, isEnd, Nat.zero_le _⟩

section

variable {tokens : List Token} {s : Session}

theorem Operation.used_le (op : Operation α) (stop : Token) (ahead : List Token) :
    (op.reader stop ahead).used ≤ ahead.length :=
  op.holds within_compositional (fun _ _ => Nat.zero_le _) stop ahead

theorem program_used_le (stop : Token) (ahead : List Token) :
    (program stop ahead).used ≤ ahead.length := by
  have within : (toEnd nestingLimit stop ahead).used ≤ ahead.length :=
    toEnd_holds within_compositional (fun _ _ => Nat.zero_le _) nestingLimit stop ahead
  rw [program_eq]
  unfold stopTooDeep
  dsimp only
  split <;> exact within

theorem Reached.spans (reached : Reached tokens s) :
    s.tokens = prepare tokens ∧ ∃ xs last, s.Spans xs last := by
  induction reached with
  | start found => exact ⟨rfl, prepare_spans tokens found⟩
  | @perform α s reached op ih =>
    obtain ⟨e, xs, last, spans⟩ := ih
    exact ⟨e, xs, last, spans.forward (op.used_le s.stop s.ahead) _⟩
  | diagnose _ cause position ih =>
    obtain ⟨e, xs, last, spans⟩ := ih
    exact ⟨e, xs, last, spans.forward (Nat.zero_le _) _⟩
  | @readProgram s reached ih =>
    obtain ⟨e, xs, last, spans⟩ := ih
    exact ⟨e, xs, last, spans.forward (program_used_le s.stop s.ahead) _⟩

end

inductive Loop : Type → Type
  | names : Loop Token
  | ranges : Loop DeclaredType.Range
  | sections : Loop (List Parameter)
  | declarations (body : Reader Unit) : Loop Unit

namespace Loop

def starts : Loop α → Token → Bool
  | names, t => t.isPunctuation ","
  | ranges, t => t.isKeyword "array"
  | sections, t => t.isPunctuation ";"
  | declarations _, t => startsDeclaration t

def piece : Loop α → Token → Reader α
  | names, _ => expectIdentifier
  | ranges, _ => range
  | sections, _ => parameterSection
  | declarations body, keyword => declarationTail body keyword

def round (l : Loop α) : Reader α := advance >>= l.piece

def reader (l : Loop α) : Reader (List α) := many l.starts l.piece

theorem starts_eq_false (l : Loop α) {t : Token} (h : t.isEnd = true) : l.starts t = false := by
  cases l with
  | names => exact isPunctuation_eq_false_of_isEnd h ","
  | ranges => exact isKeyword_eq_false_of_isEnd h "array"
  | sections => exact isPunctuation_eq_false_of_isEnd h ";"
  | declarations body => exact (closes_of_isEnd h).1

variable {stop : Token} {ahead : List Token}

theorem reader_eq (l : Loop α) (hstop : stop.isEnd = true) : l.reader stop ahead = (do
    if l.starts (← current) then
      let a ← l.round
      let others ← l.reader
      return a :: others
    else return []) stop ahead := by
  rw [Reader.current_bind]
  cases ahead with
  | nil =>
    rw [List.headD_nil, l.starts_eq_false hstop, if_neg Bool.false_ne_true, reader, many]
    rfl
  | cons t rest =>
    rw [List.headD_cons]
    cases starting : l.starts t with
    | false =>
      rw [if_neg Bool.false_ne_true, reader, many, starting, if_neg Bool.false_ne_true]
      rfl
    | true =>
      rw [if_pos rfl, reader, many_cons starting, round, bind_assoc]

theorem round_used (l : Loop α) (hstop : stop.isEnd = true)
    (starting : l.starts (ahead.headD stop) = true) : 0 < (l.round stop ahead).used := by
  cases ahead with
  | nil => exact nomatch (l.starts_eq_false hstop).symm.trans starting
  | cons t rest =>
    change 0 < 1 + (l.piece t stop rest).used
    omega

/-- A loop goes round for as long as the next token starts a round, and each round takes a token. -/
structure Advances (l : Loop α) : Prop where
  goes_round (stop : Token) (ahead : List Token) (hstop : stop.isEnd = true) :
    l.reader stop ahead = (do
      if l.starts (← current) then
        let a ← l.round
        let others ← l.reader
        return a :: others
      else return []) stop ahead
  takes (stop : Token) (ahead : List Token) (hstop : stop.isEnd = true)
    (starting : l.starts (ahead.headD stop) = true) : 0 < (l.round stop ahead).used

theorem advances (l : Loop α) : l.Advances :=
  ⟨fun _ _ hstop => l.reader_eq hstop, fun _ _ hstop starting => l.round_used hstop starting⟩

end Loop

section

variable {stop : Token} {ahead : List Token}

/-- The first section of a list has no token of its own to start it, but takes at least a name. -/
theorem parameterSection_used {listed : List Parameter} (hstop : stop.isEnd = true)
    (h : (parameterSection stop ahead).outcome = .value listed) :
    0 < (parameterSection stop ahead).used := by
  obtain ⟨shared, named, -, used⟩ := Reader.bind_value h
  obtain ⟨first, found, -, used'⟩ := Reader.bind_value named
  obtain ⟨rest, -, taken⟩ := Reader.expect_value (decide_kind_eq_false_of_isEnd (by decide) hstop) found
  change (parameterSection stop ahead).used = _ at used
  change (names stop ahead).used = _ at used'
  change (expectIdentifier stop ahead).used = 1 at taken
  omega

end

/-- The session is at one of the tokens, the first end of the input at the furthest, and whatever is
done next goes forward and comes to an end. -/
structure Session.Progresses (tokens : List Token) (s : Session) : Prop where
  tokens_eq : s.tokens = prepare tokens
  index_le : s.index ≤ (prepare tokens).findIdx Token.isEnd
  current_eq : (prepare tokens)[s.index]? = some s.current
  perform_le {α : Type} (op : Operation α) : s.index ≤ (s.perform op.reader).session.index
  readProgram_le : s.index ≤ s.readProgram.index
  perform_ends (nests : BodiesNest 200 (prepare tokens)) {α : Type} (op : Operation α) :
    (∃ a, (s.perform op.reader).outcome = .value a) ∨ (s.perform op.reader).outcome = .unexpected
  readProgram_ends (nests : BodiesNest 200 (prepare tokens)) :
    s.readProgram = (s.perform (toEnd nestingLimit)).session ∧
      ((s.perform (toEnd nestingLimit)).outcome = .value () ∨
        (s.perform (toEnd nestingLimit)).outcome = .unexpected)

theorem Outcome.answered {outcome : Outcome α} (h : outcome ≠ .tooDeep) :
    (∃ a, outcome = .value a) ∨ outcome = .unexpected := by
  cases outcome with
  | value a => exact .inl ⟨a, rfl⟩
  | unexpected => exact .inr rfl
  | tooDeep => exact absurd rfl h

theorem stopTooDeep_eq {r : Reader Unit} {stop : Token} {ahead : List Token}
    (h : (r stop ahead).outcome ≠ .tooDeep) : stopTooDeep r stop ahead = r stop ahead := by
  unfold stopTooDeep
  dsimp only
  generalize r stop ahead = reading at h
  obtain ⟨outcome, events, used⟩ := reading
  cases outcome with
  | value u => rfl
  | unexpected => rfl
  | tooDeep => exact absurd rfl h

section

variable {tokens : List Token} {s : Session}

theorem Reached.progresses (reached : Reached tokens s) : s.Progresses tokens := by
  obtain ⟨e, xs, last, spans⟩ := reached.spans
  have ends : ∀ {α : Type} {r : Reader α}, MadeOf Event.isPlain (body nestingLimit) r →
      BodiesNest 200 (prepare tokens) → (r s.stop s.ahead).outcome ≠ .tooDeep := by
    intro α r made nests
    rw [← e] at nests
    exact made.not_tooDeep (nests.inside s.ahead_inside) (by decide) s.isEnd_stop
  have index_le := spans.index_le
  have current_eq := spans.current_eq
  rw [← spans.findIdx_eq, e] at index_le
  rw [e] at current_eq
  refine ⟨e, index_le, current_eq, fun op => Nat.le_add_right _ _, Nat.le_add_right _ _,
    fun nests α op => Outcome.answered (ends op.madeOf nests), fun nests => ?_⟩
  have notDeep := ends (toEnd_madeOf nestingLimit) nests
  refine ⟨?_, (Outcome.answered notDeep).imp_left fun ⟨_, value⟩ => value⟩
  unfold Session.readProgram Session.perform
  rw [program_eq, stopTooDeep_eq notDeep]

/-- Whatever the tokens are and whatever has been asked for, a session never leaves them, never goes
back and never goes on for ever. -/
theorem reached_progresses (reached : Reached tokens s) :
    s.Progresses tokens ∧ (∀ {α : Type} (l : Loop α), l.Advances) ∧
    ∀ stop ahead listed, stop.isEnd = true →
      (parameterSection stop ahead).outcome = .value listed → 0 < (parameterSection stop ahead).used :=
  ⟨reached.progresses, fun l => l.advances, fun _ _ _ => parameterSection_used⟩

/-- An end of the input among the tokens is as far as one gets, also when a name is asked for there. -/
theorem reached_progresses_early_end :
    let word : Token := ⟨.keyword, "procedure", ⟨1, 1⟩, 0⟩
    let early : Token := ⟨.endOfInput, "", ⟨1, 10⟩, 9⟩
    let name : Token := ⟨.identifier, "p", ⟨0, 7⟩, 3⟩
    ∃ s, Reached [word, early, name] s ∧ s.index = 1 ∧ s.findings.diagnostics.length = 1 ∧
      s.Progresses [word, early, name] ∧ (∀ {α : Type} (l : Loop α), l.Advances) ∧
      ∀ stop ahead listed, stop.isEnd = true →
        (parameterSection stop ahead).outcome = .value listed →
          0 < (parameterSection stop ahead).used := by
  intro word early name
  have reached : Reached [word, early, name] _ := .perform (.start (.quiet .initial)) .subprogram
  exact ⟨_, reached, by decide +kernel, by decide +kernel, reached_progresses reached⟩

end

end DeclarationChecker.Declaration
