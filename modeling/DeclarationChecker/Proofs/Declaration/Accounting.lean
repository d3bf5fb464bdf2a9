import DeclarationChecker.Proofs.Declaration.Nesting
import DeclarationChecker.Proofs.Declaration.ReaderLaws

set_option autoImplicit false

/-!
What a reader has read, whatever it came to. If it answers a value it has used a complete tree; if
it gives up, what it has used can still be completed to one, and only the next token is to blame.
-/

namespace DeclarationChecker.Declaration

open Reader SyntaxTree

variable {α β : Type}

abbrev Form (α : Type) := List Token → α → Prop

def Event.isSyntactic : Event → Bool
  | .unexpected _ _ => true
  | .tooDeep _ => true
  | _ => false

def syntaxEvents (events : List Event) : List Event := events.filter Event.isSyntactic

theorem syntaxEvents_append (es fs : List Event) :
    syntaxEvents (es ++ fs) = syntaxEvents es ++ syntaxEvents fs := List.filter_append es fs

/-- Accounts for a reading of the tokens ahead: `xs` was used and `rest` was not. A reader that is
stopped by the depth of bodies has opened at least `depth` of them. -/
inductive Accounts (form : Form α) (depth : Int) (stop : Token) : List Token → Reading α → Prop
  | value {xs rest : List Token} {a : α} {events : List Event} (complete : form xs a)
      (quiet : syntaxEvents events = []) :
      Accounts form depth stop (xs ++ rest) ⟨.value a, events, xs.length⟩
  | unexpected {xs rest more : List Token} {a : α} {events : List Event} {expected : Expected}
      (viable : form (xs ++ more) a)
      (blame : syntaxEvents events = [.unexpected expected (rest.headD stop)]) :
      Accounts form depth stop (xs ++ rest) ⟨.unexpected, events, xs.length⟩
  | tooDeep {xs rest more : List Token} {a : α} {events : List Event}
      (viable : form (xs ++ more) a) (quiet : syntaxEvents events = []) (deep : depth ≤ opens xs) :
      Accounts form depth stop (xs ++ rest) ⟨.tooDeep, events, xs.length⟩

/-- The reader accounts for all it does by texts of the form, of which there are some. -/
structure Reads (form : Form α) (depth : Int) (r : Reader α) : Prop where
  possible : ∃ xs a, form xs a
  accounts : ∀ stop ahead, stop.isEnd = true → Accounts form depth stop ahead (r stop ahead)

namespace Accounts

variable {form form' : Form α} {depth : Int} {stop t : Token} {ahead : List Token}
  {reading : Reading α}

theorem mono (h : Accounts form depth stop ahead reading)
    (sub : ∀ xs a, form xs a → form' xs a) : Accounts form' depth stop ahead reading := by
  cases h with
  | value complete quiet => exact .value (sub _ _ complete) quiet
  | unexpected viable blame => exact .unexpected (sub _ _ viable) blame
  | tooDeep viable quiet deep => exact .tooDeep (sub _ _ viable) quiet deep

theorem map {target : Form β} {g : α → β} (h : Accounts form depth stop ahead reading)
    (sub : ∀ xs a, form xs a → target xs (g a)) :
    Accounts target depth stop ahead ⟨reading.outcome.map g, reading.events, reading.used⟩ := by
  cases h with
  | value complete quiet => exact .value (sub _ _ complete) quiet
  | unexpected viable blame => exact .unexpected (sub _ _ viable) blame
  | tooDeep viable quiet deep => exact .tooDeep (sub _ _ viable) quiet deep

theorem of_value {a : α} (h : Accounts form depth stop ahead reading)
    (value : reading.outcome = .value a) : ∃ xs rest, ahead = xs ++ rest ∧ form xs a := by
  cases h with
  | value complete quiet =>
    cases value
    exact ⟨_, _, rfl, complete⟩
  | unexpected viable blame => cases value
  | tooDeep viable quiet deep => cases value

theorem after {xs rest : List Token} {es : List Event}
    (h : Accounts (fun ys a => form (xs ++ ys) a) (depth - opens xs) stop rest reading)
    (quiet : syntaxEvents es = []) :
    Accounts form depth stop (xs ++ rest)
      ⟨reading.outcome, es ++ reading.events, xs.length + reading.used⟩ := by
  cases h with
  | value complete quiet' =>
    rw [← List.append_assoc, ← List.length_append]
    exact .value complete (by rw [syntaxEvents_append, quiet, quiet', List.nil_append])
  | unexpected viable blame =>
    rw [← List.append_assoc, ← List.length_append]
    rw [← List.append_assoc] at viable
    exact .unexpected viable (by rw [syntaxEvents_append, quiet, blame, List.nil_append])
  | tooDeep viable quiet' deep =>
    rw [← List.append_assoc, ← List.length_append]
    rw [← List.append_assoc] at viable
    refine .tooDeep viable (by rw [syntaxEvents_append, quiet, quiet', List.nil_append]) ?_
    rw [opens_append]
    omega

theorem bind_reportAll {g : Unit → Reader α} {events : List Event}
    (quiet : syntaxEvents events = []) (h : Accounts form depth stop ahead (g () stop ahead)) :
    Accounts form depth stop ahead ((Reader.reportAll events >>= g) stop ahead) := by
  change Accounts form depth stop ([] ++ ahead)
    ⟨(g () stop ahead).outcome, events ++ (g () stop ahead).events, 0 + (g () stop ahead).used⟩
  refine Accounts.after ?_ quiet
  simpa using h

theorem bind_report {g : Unit → Reader α} {event : Event} (quiet : event.isSyntactic = false)
    (h : Accounts form depth stop ahead (g () stop ahead)) :
    Accounts form depth stop ahead ((Reader.report event >>= g) stop ahead) :=
  bind_reportAll (by simp [syntaxEvents, quiet]) h

theorem reportAfter {r : Reader α} {event : Event} (quiet : event.isSyntactic = false)
    (h : Accounts form depth stop ahead (r stop ahead)) :
    Accounts form depth stop ahead (r.reportAfter event stop ahead) := by
  have last : syntaxEvents [event] = [] := by simp [syntaxEvents, quiet]
  unfold Reader.reportAfter
  generalize r stop ahead = reading at *
  cases h with
  | value complete quiet' =>
    exact .value complete (by rw [syntaxEvents_append, quiet', last, List.append_nil])
  | unexpected viable blame =>
    exact .unexpected viable (by rw [syntaxEvents_append, blame, last, List.append_nil])
  | tooDeep viable quiet' deep =>
    exact .tooDeep viable (by rw [syntaxEvents_append, quiet', last, List.append_nil]) deep

end Accounts

namespace Reads

variable {form form' : Form α} {target : Form β} {depth : Int} {r : Reader α} {f : α → Reader β}
  {f' : Token → Reader β}

theorem mono (h : Reads form depth r) (sub : ∀ xs a, form xs a → form' xs a) :
    Reads form' depth r where
  possible := by
    obtain ⟨xs, a, complete⟩ := h.possible
    exact ⟨xs, a, sub xs a complete⟩
  accounts stop ahead hstop := (h.accounts stop ahead hstop).mono sub

theorem pure {a : α} (h : form [] a) : Reads form depth (Pure.pure a) where
  possible := ⟨[], a, h⟩
  accounts _ ahead _ := by
    change Accounts form depth _ ([] ++ ahead) _
    exact .value h rfl

theorem reportAll {events : List Event} {form : Form Unit} (h : form [] ())
    (quiet : syntaxEvents events = []) : Reads form depth (Reader.reportAll events) where
  possible := ⟨[], (), h⟩
  accounts _ ahead _ := by
    change Accounts form depth _ ([] ++ ahead) _
    exact .value h quiet

theorem bind (hr : Reads form depth r)
    (hf : ∀ xs a, form xs a → Reads (fun ys b => target (xs ++ ys) b) (depth - opens xs) (f a)) :
    Reads target depth (r >>= f) where
  possible := by
    obtain ⟨xs, a, complete⟩ := hr.possible
    obtain ⟨ys, b, rest⟩ := (hf xs a complete).possible
    exact ⟨xs ++ ys, b, rest⟩
  accounts stop ahead hstop := by
    change Accounts target depth stop ahead (Reader.bind r f stop ahead)
    have first := hr.accounts stop ahead hstop
    unfold Reader.bind
    generalize r stop ahead = reading at *
    cases first with
    | @value xs rest a events complete quiet =>
      have second := (hf xs a complete).accounts stop rest hstop
      simp only [List.drop_left]
      exact second.after quiet
    | @unexpected xs rest more a events expected viable blame =>
      obtain ⟨ys, b, whole⟩ := (hf _ a viable).possible
      rw [List.append_assoc] at whole
      exact .unexpected whole blame
    | @tooDeep xs rest more a events viable quiet deep =>
      obtain ⟨ys, b, whole⟩ := (hf _ a viable).possible
      rw [List.append_assoc] at whole
      exact .tooDeep whole quiet deep

theorem bind_reportAll {g : Unit → Reader β} (events : List Event)
    (quiet : syntaxEvents events = []) (h : Reads target depth (g ())) :
    Reads target depth (Reader.reportAll events >>= g) where
  possible := h.possible
  accounts stop ahead hstop := .bind_reportAll quiet (h.accounts stop ahead hstop)

theorem bind_report {g : Unit → Reader β} (event : Event) (quiet : event.isSyntactic = false)
    (h : Reads target depth (g ())) : Reads target depth (Reader.report event >>= g) :=
  bind_reportAll [event] (by simp [syntaxEvents, quiet]) h

theorem peek (possible : ∃ ys b, target ys b)
    (h : ∀ stop ahead, stop.isEnd = true →
      Accounts target depth stop ahead (f' (ahead.headD stop) stop ahead)) :
    Reads target depth (Reader.current >>= f') where
  possible := possible
  accounts stop ahead hstop := by
    have rest := h stop ahead hstop
    change Accounts target depth stop ([] ++ ahead) ⟨(f' (ahead.headD stop) stop ahead).outcome,
      [] ++ (f' (ahead.headD stop) stop ahead).events,
      0 + (f' (ahead.headD stop) stop ahead).used⟩
    refine Accounts.after ?_ rfl
    simpa using rest

end Reads

namespace Accounts

variable {form : Form α} {depth : Int} {stop t : Token} {ahead rest : List Token}

theorem giveUp {expected : Expected} (possible : ∃ xs a, form xs a) :
    Accounts form depth stop ahead (Reader.unexpected expected stop ahead) := by
  obtain ⟨xs, a, viable⟩ := possible
  change Accounts form depth stop ([] ++ ahead) _
  exact .unexpected viable rfl

theorem step {f : Token → Reader α}
    (h : Reads (fun ys a => form (t :: ys) a) (depth - opens [t]) (f t)) (hstop : stop.isEnd = true) :
    Accounts form depth stop (t :: rest) ((Reader.advance >>= f) stop (t :: rest)) := by
  have later := h.accounts stop rest hstop
  change Accounts form depth stop ([t] ++ rest)
    ⟨(f t stop rest).outcome, [] ++ (f t stop rest).events, 1 + (f t stop rest).used⟩
  exact Accounts.after later rfl

end Accounts

/-- The end of the input passes no test, so what is done when a test fails is all it asks for. -/
theorem Reads.branch {target : Form β} {depth : Int} {test : Token → Bool} {yes : Token → Reader β}
    {no : Reader β} (notEnd : ∀ t, t.isEnd = true → test t = false) (possible : ∃ ys b, target ys b)
    (hyes : ∀ t, test t = true →
      Reads (fun ys b => target (t :: ys) b) (depth - opens [t]) (yes t))
    (hno : ∀ stop ahead, stop.isEnd = true → Accounts target depth stop ahead (no stop ahead)) :
    Reads target depth
      (Reader.current >>= fun t => if test t then Reader.advance >>= yes else no) := by
  refine .peek possible fun stop ahead hstop => ?_
  cases ahead with
  | nil =>
    rw [List.headD_nil, if_neg (Bool.eq_false_iff.1 (notEnd stop hstop))]
    exact hno stop [] hstop
  | cons t rest =>
    rw [List.headD_cons]
    by_cases passes : test t = true
    · rw [if_pos passes]
      exact .step (hyes t passes) hstop
    · rw [if_neg passes]
      exact hno stop (t :: rest) hstop

def Single (test : Token → Bool) : Form Token := fun xs t => xs = [t] ∧ test t = true

def Optional (test : Token → Bool) : Form Bool := fun xs found =>
  (found = true ∧ ∃ t, xs = [t] ∧ test t = true) ∨ (found = false ∧ xs = [])

theorem expect_reads {test : Token → Bool} (expected : Expected) (depth : Int)
    (possible : ∃ t, test t = true) (notEnd : ∀ t, t.isEnd = true → test t = false) :
    Reads (Single test) depth (expect test expected) := by
  obtain ⟨sample, hsample⟩ := possible
  have possible : ∃ xs t, Single test xs t := ⟨[sample], sample, rfl, hsample⟩
  unfold Reader.expect
  rw [← bind_pure advance]
  refine .branch notEnd possible (fun t passes => ?_) fun stop ahead _ => .giveUp possible
  exact .pure ⟨rfl, passes⟩

theorem accept_reads {test : Token → Bool} (depth : Int)
    (notEnd : ∀ t, t.isEnd = true → test t = false) :
    Reads (Optional test) depth (accept test) := by
  have absent : Optional test [] false := .inr ⟨rfl, rfl⟩
  refine .branch notEnd ⟨[], false, absent⟩ (fun t passes => ?_) fun stop ahead hstop => ?_
  · exact .pure (.inl ⟨rfl, t, rfl, passes⟩)
  · exact (Reads.pure absent).accounts stop ahead hstop

inductive Repeats (starts : Token → Bool) (form : Token → Form α) : Form (List α)
  | nil : Repeats starts form [] []
  | cons {t : Token} {xs ys : List Token} {a : α} {as : List α} (first : starts t = true)
      (piece : form t xs a) (others : Repeats starts form ys as) :
      Repeats starts form (t :: xs ++ ys) (a :: as)

section

variable {starts : Token → Bool} {form : Token → Form α}

/-- A piece that is read in full leaves the rest to the others; one that is not is the last. -/
theorem Repeats.accounts {depth : Int} {stop t : Token} {rest : List Token} {reading : Reading α}
    {others : List Token → Reading (List α)} (starting : starts t = true)
    (balanced : ∀ xs a, form t xs a → opens (t :: xs) = 0)
    (first : Accounts (form t) (depth - opens [t]) stop rest reading)
    (h : Accounts (Repeats starts form) depth stop (rest.drop reading.used)
      (others (rest.drop reading.used))) :
    Accounts (Repeats starts form) depth stop (t :: rest)
      (match reading.outcome with
      | .value a =>
        let others := others (rest.drop reading.used)
        ⟨others.outcome.map (a :: ·), reading.events ++ others.events,
          1 + reading.used + others.used⟩
      | .unexpected => ⟨.unexpected, reading.events, 1 + reading.used⟩
      | .tooDeep => ⟨.tooDeep, reading.events, 1 + reading.used⟩) := by
  have whole : ∀ xs a, form t xs a → Repeats starts form (t :: xs) [a] := fun xs a complete => by
    simpa using Repeats.cons starting complete .nil
  cases first with
  | @value xs rest a events complete quiet =>
    rw [List.drop_left] at h
    have joined := h.map (g := (a :: ·)) fun ys as h => Repeats.cons starting complete h
    rw [show depth = depth - opens (t :: xs) by rw [balanced xs a complete, Int.sub_zero]] at joined
    simp only [List.drop_left, Nat.add_comm 1]
    exact joined.after quiet
  | @unexpected xs rest more a events expected viable blame =>
    simp only [Nat.add_comm 1]
    change Accounts _ depth stop ((t :: xs) ++ rest) _
    exact .unexpected (whole _ a viable) blame
  | @tooDeep xs rest more a events viable quiet deep =>
    have deeper : depth ≤ opens (t :: xs) := by
      rw [← List.singleton_append, opens_append]
      omega
    simp only [Nat.add_comm 1]
    change Accounts _ depth stop ((t :: xs) ++ rest) _
    exact .tooDeep (whole _ a viable) quiet deeper

theorem many_reads {piece : Token → Reader α} {depth : Int}
    (hpiece : ∀ t, starts t = true → Reads (form t) (depth - opens [t]) (piece t))
    (balanced : ∀ t xs a, starts t = true → form t xs a → opens (t :: xs) = 0) :
    Reads (Repeats starts form) depth (many starts piece) where
  possible := ⟨[], [], .nil⟩
  accounts stop ahead hstop := by
    induction ahead using Reader.rounds starts with
    | nil =>
      rw [many]
      change Accounts _ depth stop ([] ++ []) _
      exact .value .nil rfl
    | other t rest other =>
      rw [many, other, if_neg Bool.false_ne_true]
      change Accounts _ depth stop ([] ++ t :: rest) _
      exact .value .nil rfl
    | round t rest starting later =>
      rw [many, if_pos starting]
      exact Repeats.accounts starting (fun xs a => balanced t xs a starting)
        ((hpiece t starting).accounts stop rest hstop) (later _)

end

def Spelled {τ : Type} (tokens : τ → List Token) (value : τ → α) : Form α :=
  fun xs a => ∃ tree, tokens tree = xs ∧ value tree = a

theorem Repeats.items {ι : Type} {starts : Token → Bool} {form : Token → Form α} {ys : List Token}
    {as : List α} {tokens : ι → List Token} {value : ι → α} (h : Repeats starts form ys as)
    (hform : ∀ t xs a, starts t = true → form t xs a → Spelled tokens value (t :: xs) a) :
    Spelled (fun items : List ι => items.flatMap tokens) (fun items => items.map value) ys as := by
  induction h with
  | nil => exact ⟨[], rfl, rfl⟩
  | @cons t xs ys a as first piece others ih =>
    obtain ⟨item, htokens, hvalue⟩ := hform t xs a first piece
    obtain ⟨items, hitems, hvalues⟩ := ih
    refine ⟨item :: items, ?_, ?_⟩
    · rw [← hitems, ← htokens]
      rfl
    · rw [← hvalues, ← hvalue]
      rfl

def sample (kind : Token.Kind) (text : String) : Token := ⟨kind, text, ⟨1, 1⟩, 0⟩

section

variable (depth : Int)

theorem expectKeyword_reads (word : String) :
    Reads (Single fun t => t.isKeyword word) depth (expectKeyword word) :=
  expect_reads _ depth ⟨sample .keyword word, by simp [sample, Token.isKeyword]⟩
    fun _ h => Token.isKeyword_eq_false_of_isEnd h word

theorem expectPunctuation_reads (mark : String) :
    Reads (Single fun t => t.isPunctuation mark) depth (expectPunctuation mark) :=
  expect_reads _ depth ⟨sample .punctuation mark, by simp [sample, Token.isPunctuation]⟩
    fun _ h => Token.isPunctuation_eq_false_of_isEnd h mark

theorem expectIdentifier_reads :
    Reads (Single fun t => t.kind = .identifier) depth expectIdentifier :=
  expect_reads _ depth ⟨sample .identifier "a", rfl⟩ fun _ => Token.decide_kind_eq_false_of_isEnd (by decide)

theorem expectNumber_reads : Reads (Single fun t => t.kind = .number) depth expectNumber :=
  expect_reads _ depth ⟨sample .number "0", rfl⟩ fun _ => Token.decide_kind_eq_false_of_isEnd (by decide)

theorem expectDots_reads : Reads (Single fun t => t.kind = .dots) depth expectDots :=
  expect_reads _ depth ⟨sample .dots "..", rfl⟩ fun _ => Token.decide_kind_eq_false_of_isEnd (by decide)

theorem acceptPunctuation_reads (mark : String) :
    Reads (Optional fun t => t.isPunctuation mark) depth (acceptPunctuation mark) :=
  accept_reads depth fun _ h => Token.isPunctuation_eq_false_of_isEnd h mark

theorem otherNames_reads :
    Reads (Spelled Names.otherTokens fun others => others.map fun other => other.2.val) depth
      (many (fun t => t.isPunctuation ",") fun _ => expectIdentifier) := by
  refine (many_reads (fun _ _ => expectIdentifier_reads _) ?_).mono ?_
  · rintro t _ a ht ⟨rfl, ha⟩
    have comma := opens_cons_mark ⟨t, ht⟩ [a] (by decide) (by decide)
    exact comma.trans (opens_cons_identifier ⟨a, ha⟩ [])
  · intro ys as h
    refine h.items fun t xs a ht hform => ?_
    obtain ⟨rfl, ha⟩ := hform
    exact ⟨(⟨t, ht⟩, ⟨a, ha⟩), rfl, rfl⟩

theorem names_reads : Reads (Spelled Names.tokens Names.list) depth names := by
  refine (expectIdentifier_reads depth).bind ?_
  rintro _ first ⟨rfl, hfirst⟩
  refine (otherNames_reads _).bind ?_
  rintro _ _ ⟨others, rfl, rfl⟩
  exact .pure ⟨⟨⟨first, hfirst⟩, others⟩, by simp [Names.tokens], rfl⟩

theorem range_reads {array : Token} (harray : array.isKeyword "array" = true) :
    Reads (fun xs => Spelled Range.tokens Range.bounds (array :: xs)) depth range := by
  refine (expectPunctuation_reads _ "[").bind ?_
  rintro _ opening ⟨rfl, hopening⟩
  refine (expectNumber_reads _).bind ?_
  rintro _ low ⟨rfl, hlow⟩
  refine (expectDots_reads _).bind ?_
  rintro _ dots ⟨rfl, hdots⟩
  refine (expectNumber_reads _).bind ?_
  rintro _ high ⟨rfl, hhigh⟩
  refine (expectPunctuation_reads _ "]").bind ?_
  rintro _ closing ⟨rfl, hclosing⟩
  refine (expectKeyword_reads _ "of").bind ?_
  rintro _ of ⟨rfl, hof⟩
  refine .bind_report _ rfl (.pure ?_)
  exact ⟨⟨⟨array, harray⟩, ⟨opening, hopening⟩, ⟨low, hlow⟩, ⟨dots, hdots⟩, ⟨high, hhigh⟩,
    ⟨closing, hclosing⟩, ⟨of, hof⟩⟩, rfl, rfl⟩

theorem stringSize_reads {word : Token} (hword : word.isKeyword "string" = true) :
    Reads (fun xs => Spelled Element.tokens Element.declared (word :: xs)) depth stringSize := by
  refine (acceptPunctuation_reads _ "[").bind ?_
  rintro _ _ (⟨rfl, opening, rfl, hopening⟩ | ⟨rfl, rfl⟩)
  · rw [if_pos rfl]
    refine (expectNumber_reads _).bind ?_
    rintro _ number ⟨rfl, hnumber⟩
    refine (expectPunctuation_reads _ "]").bind ?_
    rintro _ closing ⟨rfl, hclosing⟩
    refine .bind_report _ rfl (.pure ?_)
    exact ⟨.string ⟨word, hword⟩ (some ⟨⟨opening, hopening⟩, ⟨number, hnumber⟩,
      ⟨closing, hclosing⟩⟩), rfl, rfl⟩
  · rw [if_neg Bool.false_ne_true]
    exact .pure ⟨.string ⟨word, hword⟩ none, rfl, rfl⟩

theorem primitive?_eq_none_of_isEnd {t : Token} (h : t.isEnd = true) : primitive? t = none := by
  rw [Token.isEnd, decide_eq_true_eq] at h
  simp [primitive?, h]

theorem elementType_reads : Reads (Spelled Element.tokens Element.declared) depth elementType := by
  have possible : ∃ xs a, Spelled Element.tokens Element.declared xs a :=
    ⟨_, _, .string ⟨sample .keyword "string", by decide⟩ none, rfl, rfl⟩
  refine .peek possible fun stop ahead hstop => ?_
  cases ahead with
  | nil =>
    rw [List.headD_nil, primitive?_eq_none_of_isEnd hstop]
    dsimp only
    rw [if_neg (Bool.eq_false_iff.1 (Token.isKeyword_eq_false_of_isEnd hstop "string"))]
    exact .giveUp possible
  | cons t rest =>
    rw [List.headD_cons]
    cases named : primitive? t with
    | some type => exact .step (.pure ⟨.primitive t type named, rfl, rfl⟩) hstop
    | none =>
      dsimp only
      by_cases word : t.isKeyword "string" = true
      · rw [if_pos word]
        exact .step (stringSize_reads _ word) hstop
      · rw [if_neg word]
        exact .giveUp possible

theorem ranges_reads :
    Reads (Spelled (fun rs : List Range => rs.flatMap Range.tokens) fun rs => rs.map Range.bounds)
      depth (many (fun t => t.isKeyword "array") fun _ => range) := by
  refine (many_reads (fun _ ht => range_reads _ ht) ?_).mono ?_
  · rintro t xs a ht ⟨r, e, -⟩
    rw [← e]
    exact opens_range r
  · intro ys as h
    exact h.items fun _ _ _ _ hform => hform

theorem type_reads : Reads (Spelled TypeExpr.tokens TypeExpr.declared) depth type := by
  refine (ranges_reads depth).bind ?_
  rintro _ _ ⟨ranges, rfl, rfl⟩
  refine (elementType_reads _).bind ?_
  rintro _ _ ⟨element, rfl, rfl⟩
  exact .pure ⟨⟨ranges, element⟩, by simp [TypeExpr.tokens], rfl⟩

theorem variableList_reads {var : Token} (hvar : var.isKeyword "var" = true) :
    Reads (fun xs => Spelled Variables.tokens (fun _ => ()) (var :: xs)) depth variableList := by
  refine (names_reads depth).bind ?_
  rintro _ _ ⟨names, rfl, rfl⟩
  refine .bind_reportAll _ (by simp [syntaxEvents, Event.isSyntactic]) ?_
  refine (expectPunctuation_reads _ ":").bind ?_
  rintro _ colon ⟨rfl, hcolon⟩
  refine (type_reads _).bind ?_
  rintro _ _ ⟨type, rfl, rfl⟩
  refine (expectPunctuation_reads _ ";").bind ?_
  rintro _ semicolon ⟨rfl, hsemicolon⟩
  exact .reportAll ⟨⟨⟨var, hvar⟩, names, ⟨colon, hcolon⟩, type, ⟨semicolon, hsemicolon⟩⟩,
    by simp [Variables.tokens, Variables.tail], rfl⟩ rfl

theorem parameterSection_reads :
    Reads (Spelled SyntaxTree.Section.tokens SyntaxTree.Section.parameters) depth parameterSection := by
  refine (names_reads depth).bind ?_
  rintro _ _ ⟨names, rfl, rfl⟩
  refine (expectPunctuation_reads _ ":").bind ?_
  rintro _ colon ⟨rfl, hcolon⟩
  refine (type_reads _).bind ?_
  rintro _ _ ⟨type, rfl, rfl⟩
  exact .pure ⟨⟨names, ⟨colon, hcolon⟩, type⟩, by simp [SyntaxTree.Section.tokens], rfl⟩

theorem otherSections_reads :
    Reads (Spelled Parameters.otherTokens fun others => others.map fun other => other.2.parameters)
      depth (many (fun t => t.isPunctuation ";") fun _ => parameterSection) := by
  refine (many_reads (fun _ _ => parameterSection_reads _) ?_).mono ?_
  · rintro t xs a ht ⟨s, rfl, -⟩
    have semicolon := opens_cons_mark ⟨t, ht⟩ s.tokens (by decide) (by decide)
    exact semicolon.trans (opens_section s)
  · intro ys as h
    refine h.items fun t xs a ht hform => ?_
    obtain ⟨s, rfl, rfl⟩ := hform
    exact ⟨(⟨t, ht⟩, s), rfl, rfl⟩

theorem parameters_reads : Reads (Spelled Parameters.tokens Parameters.list) depth parameters := by
  refine (acceptPunctuation_reads _ "(").bind ?_
  rintro _ _ (⟨rfl, opening, rfl, hopening⟩ | ⟨rfl, rfl⟩)
  · rw [if_pos rfl]
    refine (acceptPunctuation_reads _ ")").bind ?_
    rintro _ _ (⟨rfl, closing, rfl, hclosing⟩ | ⟨rfl, rfl⟩)
    · rw [if_pos rfl]
      exact .pure ⟨.empty ⟨opening, hopening⟩ ⟨closing, hclosing⟩, rfl, rfl⟩
    · rw [if_neg Bool.false_ne_true]
      refine (parameterSection_reads _).bind ?_
      rintro _ _ ⟨first, rfl, rfl⟩
      refine (otherSections_reads _).bind ?_
      rintro _ _ ⟨others, rfl, rfl⟩
      refine (expectPunctuation_reads _ ")").bind ?_
      rintro _ closing ⟨rfl, hclosing⟩
      exact .pure ⟨.listed ⟨opening, hopening⟩ first others ⟨closing, hclosing⟩,
        by simp [Parameters.tokens], rfl⟩
  · rw [if_neg Bool.false_ne_true]
    exact .pure ⟨.absent, rfl, rfl⟩

theorem returnType_reads (function : Token) :
    Reads (Spelled (fun r : Mark ":" × TypeExpr => r.1.val :: r.2.tokens) fun r => r.2.declared)
      depth (returnType function) := by
  refine (expectPunctuation_reads _ ":").bind ?_
  rintro _ colon ⟨rfl, hcolon⟩
  refine .peek ?_ fun stop ahead hstop => ?_
  · obtain ⟨xs, a, type, rfl, rfl⟩ := (type_reads depth).possible
    exact ⟨_, _, (⟨colon, hcolon⟩, type), rfl, rfl⟩
  refine Reads.accounts ?_ stop ahead hstop
  refine (type_reads _).bind ?_
  rintro _ _ ⟨type, rfl, rfl⟩
  exact .bind_report _ rfl (.pure ⟨(⟨colon, hcolon⟩, type), by simp, rfl⟩)

theorem heading_reads {keyword : Token}
    (hkeyword : (keyword.isKeyword "procedure" || keyword.isKeyword "function") = true) :
    Reads (fun xs => Spelled Heading.tokens Heading.header (keyword :: xs)) depth
      (heading keyword) := by
  refine (expectIdentifier_reads _).bind ?_
  rintro _ name ⟨rfl, hname⟩
  refine (parameters_reads _).bind ?_
  rintro _ _ ⟨list, rfl, rfl⟩
  cases returns : keyword.isKeyword "function" with
  | true =>
    rw [if_pos rfl, map_eq_pure_bind, bind_assoc]
    refine (returnType_reads _ name).bind ?_
    rintro _ _ ⟨r, rfl, rfl⟩
    rw [pure_bind]
    refine (expectPunctuation_reads _ ";").bind ?_
    rintro _ semicolon ⟨rfl, hsemicolon⟩
    exact .pure ⟨⟨⟨keyword, hkeyword⟩, ⟨name, hname⟩, list, some r, returns,
      ⟨semicolon, hsemicolon⟩⟩, by simp [Heading.tokens, Heading.tail, Heading.returnedTokens], rfl⟩
  | false =>
    rw [if_neg Bool.false_ne_true, pure_bind]
    refine (expectPunctuation_reads _ ";").bind ?_
    rintro _ semicolon ⟨rfl, hsemicolon⟩
    exact .pure ⟨⟨⟨keyword, hkeyword⟩, ⟨name, hname⟩, list, none, returns,
      ⟨semicolon, hsemicolon⟩⟩, by simp [Heading.tokens, Heading.tail, Heading.returnedTokens], rfl⟩

end

def BodyForm : Form Unit := fun xs _ =>
  ∃ (opening : Keyword "begin") (inner : Block) (closing : Keyword "end")
    (semicolon : Option (Mark ";")),
    xs = opening.val :: (inner.tokens ++ (closing.val :: (semicolon.map Subtype.val).toList))

def TailForm : Form Unit := fun xs _ =>
  (∃ (word : Keyword "forward") (semicolon : Mark ";"), xs = [word.val, semicolon.val]) ∨
    BodyForm xs ()

/-- The form of what follows the first word of a declaration: it can be put before any block. -/
def DeclarationForm (keyword : Token) : Form Unit := fun xs _ =>
  ∃ add : Block → Block, ∀ b, (add b).tokens = keyword :: xs ++ b.tokens

section

variable {depth : Int} {body : Reader Unit}

theorem headerTail_reads {h : Header} (defined : h.forward = false)
    (hbody : Reads BodyForm depth body) : Reads TailForm depth (headerTail body h) := by
  have possible : ∃ xs a, TailForm xs a := by
    obtain ⟨xs, a, complete⟩ := hbody.possible
    exact ⟨xs, a, .inr complete⟩
  refine .bind_report _ rfl ?_
  rw [defined, if_neg Bool.false_ne_true]
  refine .peek possible fun stop ahead hstop => ?_
  by_cases opens : (ahead.headD stop).isKeyword "begin" = true
  · rw [if_pos opens]
    exact (hbody.accounts stop ahead hstop).mono fun xs a complete => .inr complete
  · rw [if_neg opens]
    exact .giveUp possible

theorem headerTail_accounts_forward {h : Header} {word stop : Token} {rest : List Token}
    (forward : h.forward = true) (hword : word.isKeyword "forward" = true)
    (hstop : stop.isEnd = true) :
    Accounts TailForm depth stop (word :: rest) (headerTail body h stop (word :: rest)) := by
  refine .bind_report rfl ?_
  rw [forward, if_pos rfl]
  refine .step ?_ hstop
  refine (expectPunctuation_reads _ ";").bind ?_
  rintro _ semicolon ⟨rfl, hsemicolon⟩
  exact .pure (.inl ⟨⟨word, hword⟩, ⟨semicolon, hsemicolon⟩, rfl⟩)

/-- Whether the next word is `forward` settles what the header says of it, and what follows. -/
theorem afterHeading_reads (h : Heading) (hbody : Reads BodyForm depth body) :
    Reads TailForm depth (do
      let next ← current
      afterHeading body (h.header (next.isKeyword "forward"))) := by
  have possible : ∃ xs a, TailForm xs a := by
    obtain ⟨xs, a, complete⟩ := hbody.possible
    exact ⟨xs, a, .inr complete⟩
  refine .peek possible fun stop ahead hstop => ?_
  refine .bind_report rfl (.bind_report rfl (.reportAfter rfl ?_))
  cases forward : (ahead.headD stop).isKeyword "forward" with
  | false => exact (headerTail_reads rfl hbody).accounts stop ahead hstop
  | true =>
    cases ahead with
    | nil => exact nomatch (Token.isKeyword_eq_false_of_isEnd hstop "forward").symm.trans forward
    | cons word rest => exact headerTail_accounts_forward rfl forward hstop

theorem opens_afterKeyword {keyword : Token} {xs : List Token} (h : Heading)
    (hkeyword : (keyword.isKeyword "procedure" || keyword.isKeyword "function") = true)
    (e : h.tokens = keyword :: xs) : opens xs = 0 := by
  have whole := opens_heading h
  rw [e] at whole
  rcases Bool.or_eq_true_iff.1 hkeyword with word | word
  · exact (opens_cons_keyword ⟨keyword, word⟩ xs (by decide) (by decide)).symm.trans whole
  · exact (opens_cons_keyword ⟨keyword, word⟩ xs (by decide) (by decide)).symm.trans whole

theorem subprogram_reads {keyword : Token}
    (hkeyword : (keyword.isKeyword "procedure" || keyword.isKeyword "function") = true)
    (hbody : Reads BodyForm depth body) :
    Reads (DeclarationForm keyword) depth (subprogram body keyword) := by
  rw [subprogram_eq]
  refine (heading_reads _ hkeyword).bind ?_
  rintro xs _ ⟨h, e, rfl⟩
  rw [opens_afterKeyword h hkeyword e, Int.sub_zero]
  refine (afterHeading_reads h hbody).mono fun ys _ complete => ?_
  rcases complete with ⟨word, semicolon, rfl⟩ | ⟨opening, inner, closing, semicolon, rfl⟩
  · exact ⟨.forward h word semicolon, fun b => by simp [Block.tokens, e]⟩
  · exact ⟨fun b => .defined h opening inner closing semicolon b, fun b => by
      simp [Block.tokens, e]⟩

theorem declaration_reads {keyword : Token} (starts : startsDeclaration keyword = true)
    (hbody : Reads BodyForm depth body) :
    Reads (DeclarationForm keyword) depth (declarationTail body keyword) := by
  unfold declarationTail
  cases var : keyword.isKeyword "var" with
  | true =>
    rw [if_pos rfl]
    refine (variableList_reads _ var).mono fun xs _ complete => ?_
    obtain ⟨v, e, -⟩ := complete
    exact ⟨.var v, fun b => by rw [Block.tokens, e]⟩
  | false =>
    rw [if_neg Bool.false_ne_true]
    rw [startsDeclaration, var, Bool.false_or] at starts
    exact subprogram_reads starts hbody

theorem opens_declaration (keyword : Token) (xs : List Token) (a : Unit)
    (h : DeclarationForm keyword xs a) : opens (keyword :: xs) = 0 := by
  obtain ⟨add, e⟩ := h
  have whole := opens_block (add .empty)
  rw [e, Block.tokens, List.append_nil] at whole
  exact whole

theorem Repeats.block {ys : List Token} {as : List Unit}
    (h : Repeats startsDeclaration DeclarationForm ys as) : ∃ b : Block, b.tokens = ys := by
  induction h with
  | nil => exact ⟨.empty, rfl⟩
  | cons first piece others ih =>
    obtain ⟨add, e⟩ := piece
    obtain ⟨b, rfl⟩ := ih
    exact ⟨add b, e b⟩

theorem opens_of_starts {t : Token} (h : startsDeclaration t = true) : opens [t] = 0 := by
  simp only [startsDeclaration, Bool.or_eq_true] at h
  rcases h with (h | h) | h
  all_goals exact opens_cons_keyword ⟨t, h⟩ [] (by decide) (by decide)

theorem declarations_reads (hbody : Reads BodyForm depth body) :
    Reads (fun xs _ => ∃ b : Block, b.tokens = xs) depth (declarations body) := by
  rw [declarations_eq]
  have pieces : Reads (Repeats startsDeclaration DeclarationForm) depth
      (many startsDeclaration (declarationTail body)) := by
    refine many_reads (fun t starts => ?_) fun t xs a _ => opens_declaration t xs a
    rw [opens_of_starts starts, Int.sub_zero]
    exact declaration_reads starts hbody
  refine pieces.bind fun xs _ complete => ?_
  obtain ⟨b, rfl⟩ := complete.block
  exact .pure ⟨b, (List.append_nil _).symm⟩

end

theorem bodyForm_possible : ∃ xs a, BodyForm xs a :=
  ⟨_, (), ⟨sample .keyword "begin", by decide⟩, .empty, ⟨sample .keyword "end", by decide⟩, none,
    rfl⟩

theorem body_reads (depth : Nat) : Reads BodyForm depth (body depth) := by
  induction depth with
  | zero =>
    -- No token is used, since any body would be one too deep.
    refine ⟨bodyForm_possible, fun stop ahead _ => ?_⟩
    obtain ⟨xs, a, viable⟩ := bodyForm_possible
    change Accounts BodyForm _ stop ([] ++ ahead) _
    exact .tooDeep viable rfl (le_refl _)
  | succ depth ih =>
    refine (expectKeyword_reads _ "begin").bind ?_
    rintro _ opening ⟨rfl, hopening⟩
    have open_one : opens [opening] = 1 := opens_cons_begin ⟨opening, hopening⟩ []
    have inside : Reads BodyForm (↑(depth + 1) - opens [opening]) (body depth) := by
      rw [open_one, Int.natCast_succ, Int.add_sub_cancel]
      exact ih
    refine (declarations_reads inside).bind ?_
    rintro _ _ ⟨inner, rfl⟩
    have possible : ∃ ys a, BodyForm ([opening] ++ (inner.tokens ++ ys)) a :=
      ⟨[sample .keyword "end"], (), ⟨opening, hopening⟩, inner, ⟨sample .keyword "end", by decide⟩,
        none, rfl⟩
    refine .branch (fun _ h => Token.isKeyword_eq_false_of_isEnd h "end") possible
      (fun t ending => ?_) fun stop ahead _ => .giveUp possible
    refine (acceptPunctuation_reads _ ";").bind ?_
    rintro _ _ (⟨rfl, semicolon, rfl, hsemicolon⟩ | ⟨rfl, rfl⟩)
    · exact .pure ⟨⟨opening, hopening⟩, inner, ⟨t, ending⟩, some ⟨semicolon, hsemicolon⟩, rfl⟩
    · exact .pure ⟨⟨opening, hopening⟩, inner, ⟨t, ending⟩, none, rfl⟩

end DeclarationChecker.Declaration
