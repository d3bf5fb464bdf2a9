import DeclarationChecker.Proofs.Declaration.ReaderLaws
import DeclarationChecker.Proofs.Declaration.SyntaxTree
import DeclarationChecker.Proofs.Token.Spelling

set_option autoImplicit false

/-!
Every tree is read as what it is. `Takes` says that a reader takes just the tokens it is meant to
and leaves the ones behind them; it holds of all readers of the language, whatever follows, as
long as the next token does not continue the construct.
-/

namespace DeclarationChecker

namespace Declaration

open Reader

variable {α β : Type}

/-- With `xs` ahead and `rest` behind it, the reader takes just `xs`. -/
def Takes (r : Reader α) (stop : Token) (xs rest : List Token) (a : α) (events : List Event) :
    Prop :=
  r stop (xs ++ rest) = ⟨.value a, events, xs.length⟩

namespace Takes

variable {r : Reader α} {f : α → Reader β} {stop : Token} {xs ys rest : List Token} {a : α} {b : β}
  {es fs : List Event} {test starts : Token → Bool} {t : Token} {piece : Token → Reader α}

theorem pure (a : α) : Takes (Pure.pure a) stop [] rest a [] := rfl

theorem bind (hr : Takes r stop xs (ys ++ rest) a es) (hf : Takes (f a) stop ys rest b fs) :
    Takes (r >>= f) stop (xs ++ ys) rest b (es ++ fs) := by
  unfold Takes at *
  change Reader.bind r f stop (xs ++ ys ++ rest) = _
  unfold Reader.bind
  rw [List.append_assoc, hr]
  simp only [List.drop_left, hf, List.length_append]

/-- Whatever is read behind it, its events come first. -/
theorem events_bind (h : Takes r stop xs rest a es) :
    ((r >>= f) stop (xs ++ rest)).events = es ++ (f a stop rest).events := by
  unfold Takes at h
  change (Reader.bind r f stop (xs ++ rest)).events = _
  unfold Reader.bind
  rw [h]
  dsimp only
  rw [List.drop_left]

theorem bind_silent_left (hr : Takes r stop xs (ys ++ rest) a []) (hf : Takes (f a) stop ys rest b fs) :
    Takes (r >>= f) stop (xs ++ ys) rest b fs :=
  bind hr hf

theorem bind_silent_right (hr : Takes r stop xs (ys ++ rest) a es)
    (hf : Takes (f a) stop ys rest b []) : Takes (r >>= f) stop (xs ++ ys) rest b es := by
  have whole := bind hr hf
  rw [List.append_nil] at whole
  exact whole

theorem bind_nil_right (hr : Takes r stop xs rest a es) (hf : Takes (f a) stop [] rest b fs) :
    Takes (r >>= f) stop xs rest b (es ++ fs) := by
  have whole := bind (show Takes r stop xs ([] ++ rest) a es from hr) hf
  rw [List.append_nil] at whole
  exact whole

theorem bind_cons (hr : Takes r stop [t] (xs ++ rest) a []) (hf : Takes (f a) stop xs rest b fs) :
    Takes (r >>= f) stop (t :: xs) rest b fs :=
  bind hr hf

theorem bind_nil (hr : Takes r stop [] (xs ++ rest) a []) (hf : Takes (f a) stop xs rest b fs) :
    Takes (r >>= f) stop xs rest b fs :=
  bind hr hf

theorem bind_report {g : Unit → Reader β} (event : Event) (hg : Takes (g ()) stop xs rest b fs) :
    Takes (Reader.report event >>= g) stop xs rest b (event :: fs) :=
  bind (show Takes (Reader.report event) stop [] (xs ++ rest) () [event] from rfl) hg

theorem bind_reportAll {g : Unit → Reader β} (events : List Event)
    (hg : Takes (g ()) stop xs rest b fs) :
    Takes (Reader.reportAll events >>= g) stop xs rest b (events ++ fs) :=
  bind (show Takes (Reader.reportAll events) stop [] (xs ++ rest) () events from rfl) hg

theorem map (g : α → β) (h : Takes r stop xs rest a es) :
    Takes (r >>= fun a => Pure.pure (g a)) stop xs rest (g a) es := by
  have whole := bind (f := fun a => Pure.pure (g a)) h (pure (g a))
  rw [List.append_nil, List.append_nil] at whole
  exact whole

theorem current : Takes Reader.current stop [] rest (rest.headD stop) [] := rfl

theorem advance : Takes Reader.advance stop [t] rest t [] := rfl

theorem report (event : Event) : Takes (Reader.report event) stop [] rest () [event] := rfl

theorem reportAfter (h : Takes r stop xs rest a es) (event : Event) :
    Takes (r.reportAfter event) stop xs rest a (es ++ [event]) := by
  unfold Takes at *
  simp only [Reader.reportAfter, h]

theorem ite_pos {c : Bool} {other : Reader α} (hc : c = true) (h : Takes r stop xs rest a es) :
    Takes (if c = true then r else other) stop xs rest a es := by
  rw [if_pos hc]
  exact h

theorem ite_neg {c : Bool} {other : Reader α} (hc : c = false) (h : Takes r stop xs rest a es) :
    Takes (if c = true then other else r) stop xs rest a es := by
  rw [if_neg (Bool.eq_false_iff.1 hc)]
  exact h

theorem expect {expected : Expected} (h : test t = true) :
    Takes (Reader.expect test expected) stop [t] rest t [] :=
  bind_nil current (ite_pos h advance)

theorem accept (h : test t = true) : Takes (Reader.accept test) stop [t] rest true [] :=
  bind_nil current (ite_pos h (bind advance (pure true)))

theorem decline (h : test (rest.headD stop) = false) :
    Takes (Reader.accept test) stop [] rest false [] :=
  bind_nil current (ite_neg h (pure false))

theorem many_nil (h : starts (rest.headD stop) = false) :
    Takes (many starts piece) stop [] rest [] [] := by
  unfold Takes
  cases rest with
  | nil => simp [many]
  | cons t rest =>
    have ht : starts t = false := h
    simp [many, ht]

theorem many_cons {as : List α} (ht : starts t = true)
    (first : Takes (piece t) stop xs (ys ++ rest) a es)
    (others : Takes (many starts piece) stop ys rest as fs) :
    Takes (many starts piece) stop (t :: xs ++ ys) rest (a :: as) (es ++ fs) := by
  unfold Takes at *
  rw [List.append_assoc, List.cons_append, many, if_pos ht]
  simp only [first, List.drop_left, others, Outcome.map, List.length_append, List.length_cons]
  congr 1
  omega

end Takes

open SyntaxTree

variable {stop : Token} {rest : List Token}

theorem names_takes (n : Names) (h : (rest.headD stop).isPunctuation "," = false) :
    Takes names stop n.tokens rest n.list [] := by
  obtain ⟨first, others⟩ := n
  have tail : Takes (many (fun t => t.isPunctuation ",") fun _ => expectIdentifier) stop
      (Names.otherTokens others) rest (others.map fun other => other.2.val) [] := by
    induction others with
    | nil => exact .many_nil h
    | cons other others ih => exact .many_cons other.1.property (.expect other.2.property) ih
  refine .bind_cons (.expect first.property) ?_
  exact tail.map fun others => first.val :: others

theorem range_takes (r : Range) : Takes range stop r.tail rest r.bounds [r.event] := by
  refine .bind_cons (.expect r.opening.property) ?_
  refine .bind_cons (.expect r.low.property) ?_
  refine .bind_cons (.expect r.dots.property) ?_
  refine .bind_cons (.expect r.high.property) ?_
  refine .bind_cons (.expect r.closing.property) ?_
  refine .bind_cons (.expect r.of.property) ?_
  exact .bind_report _ (.pure _)

theorem stringSize_takes (s : Size) :
    Takes stringSize stop s.tokens rest (.string (some s.numeral)) [s.event] := by
  refine .bind_cons (.accept s.opening.property) (.ite_pos rfl ?_)
  refine .bind_cons (.expect s.number.property) ?_
  refine .bind_cons (.expect s.closing.property) ?_
  exact .bind_report _ (.pure _)

theorem stringSize_takes_nil (h : (rest.headD stop).isPunctuation "[" = false) :
    Takes stringSize stop [] rest (.string none) [] :=
  .bind_nil (.decline h) (.ite_neg rfl (.pure _))

theorem primitive?_eq_none {t : Token} {word : String} (h : t.isKeyword word = true)
    (unnamed : PrimitiveType.ofName? word = none) : primitive? t = none := by
  simp only [Token.isKeyword, Bool.and_eq_true, decide_eq_true_eq] at h
  simp [primitive?, h.1, h.2, unnamed]

theorem string_takes (word : Keyword "string") {xs : List Token} {declared : DeclaredType}
    {events : List Event} (h : Takes stringSize stop xs rest declared events) :
    Takes elementType stop (word.val :: xs) rest declared events := by
  refine .bind_nil .current ?_
  have unnamed := primitive?_eq_none word.property (by decide)
  simp only [List.cons_append, List.headD_cons, unnamed]
  exact .ite_pos word.property (.bind_cons .advance h)

theorem elementType_takes (e : Element) (h : (rest.headD stop).isPunctuation "[" = false) :
    Takes elementType stop e.tokens rest e.declared e.events := by
  cases e with
  | primitive word type named =>
    refine .bind_nil .current ?_
    simp only [Element.tokens, Element.first, Element.tail, List.cons_append, List.nil_append,
      List.headD_cons, named]
    exact .bind_cons .advance (.pure _)
  | string word size =>
    cases size with
    | none => exact string_takes word (stringSize_takes_nil h)
    | some size => exact string_takes word (stringSize_takes size)

theorem SyntaxTree.Element.not_array (e : Element) : e.first.isKeyword "array" = false := by
  cases e with
  | primitive word type named =>
    refine Bool.eq_false_iff.2 fun array => ?_
    have unnamed := primitive?_eq_none array (by decide)
    exact nomatch named.symm.trans unnamed
  | string word size => exact Token.not_isKeyword word.property (by decide)

theorem type_takes (t : TypeExpr) (h : (rest.headD stop).isPunctuation "[" = false) :
    Takes type stop t.tokens rest t.declared t.events := by
  obtain ⟨ranges, element⟩ := t
  have prefixes : Takes (many (fun t => t.isKeyword "array") fun _ => range) stop
      (ranges.flatMap Range.tokens) (element.tokens ++ rest) (ranges.map Range.bounds)
      (ranges.map Range.event) := by
    induction ranges with
    | nil => exact .many_nil element.not_array
    | cons r ranges ih => exact .many_cons r.array.property (range_takes r) ih
  refine .bind prefixes ?_
  exact (elementType_takes element h).map (DeclaredType.ofRanges (ranges.map Range.bounds))

theorem variableList_takes (v : Variables) : Takes variableList stop v.tail rest () v.events := by
  refine .bind_silent_left (names_takes v.names ?_) (.bind_reportAll _ ?_)
  · exact Token.not_isPunctuation v.colon.property (by decide)
  refine .bind_cons (.expect v.colon.property) (.bind (type_takes v.type ?_) ?_)
  · exact Token.not_isPunctuation v.semicolon.property (by decide)
  exact .bind_cons (.expect v.semicolon.property) (.report _)

theorem parameterSection_takes (s : SyntaxTree.Section)
    (h : (rest.headD stop).isPunctuation "[" = false) :
    Takes parameterSection stop s.tokens rest s.parameters s.type.events := by
  refine .bind_silent_left (names_takes s.names ?_) (.bind_cons (.expect s.colon.property) ?_)
  · exact Token.not_isPunctuation s.colon.property (by decide)
  exact (type_takes s.type h).map fun declared =>
    s.names.list.map fun name => (⟨name, declared⟩ : Parameter)

theorem parameters_takes (p : Parameters) (h : (rest.headD stop).isPunctuation "(" = false) :
    Takes parameters stop p.tokens rest p.list p.events := by
  cases p with
  | absent => exact .bind_nil (.decline h) (.ite_neg rfl (.pure _))
  | empty opening closing =>
    refine .bind_cons (.accept opening.property) (.ite_pos rfl ?_)
    exact .bind_cons (.accept closing.property) (.ite_pos rfl (.pure _))
  | listed opening first others closing =>
    have next : ∀ others : List (Mark ";" × SyntaxTree.Section), ((Parameters.otherTokens others ++
        ([closing.val] ++ rest)).headD stop).isPunctuation "[" = false := by
      intro others
      cases others with
      | nil => exact Token.not_isPunctuation closing.property (by decide)
      | cons other others => exact Token.not_isPunctuation other.1.property (by decide)
    have semicolons : Takes (many (fun t => t.isPunctuation ";") fun _ => parameterSection) stop
        (Parameters.otherTokens others) ([closing.val] ++ rest)
        (others.map fun other => other.2.parameters)
        (others.flatMap fun other => other.2.type.events) := by
      induction others with
      | nil => exact .many_nil (Token.not_isPunctuation closing.property (by decide))
      | cons other others ih =>
        exact .many_cons other.1.property (parameterSection_takes other.2 (next others)) ih
    refine .bind_cons (.accept opening.property) (.ite_pos rfl ?_)
    refine .bind_nil (.decline ?_) (.ite_neg rfl ?_)
    · exact Token.isPunctuation_eq_false_of_identifier first.names.first.property ")"
    refine .bind (parameterSection_takes first ?_) ?_
    · simpa using next others
    exact .bind_silent_right semicolons (.bind_cons (.expect closing.property) (.pure _))

theorem SyntaxTree.TypeExpr.tokens_eq_cons (t : TypeExpr) : ∃ more, t.tokens = t.first :: more := by
  obtain ⟨ranges, element⟩ := t
  cases ranges with
  | nil => exact ⟨_, rfl⟩
  | cons r ranges => exact ⟨_, rfl⟩

theorem returnType_takes (function : Token) (colon : Mark ":") (t : TypeExpr)
    (h : (rest.headD stop).isPunctuation "[" = false) :
    Takes (returnType function) stop (colon.val :: t.tokens) rest t.declared
      (Heading.returnEvents function (some (colon, t))) := by
  refine .bind_cons (.expect colon.property) (.bind_nil .current ?_)
  have first : ((t.tokens ++ rest).headD stop) = t.first := by
    obtain ⟨more, e⟩ := t.tokens_eq_cons
    rw [e]
    rfl
  rw [first]
  exact .bind_nil_right (type_takes t h) (.bind_report _ (.pure _))

/-- A heading is read up to its semicolon; the token behind tells whether it is a forward one. -/
theorem header_takes (h : Heading) :
    Takes (header h.keyword.val) stop h.tail rest
      (h.header ((rest.headD stop).isKeyword "forward")) h.events := by
  obtain ⟨keyword, name, list, returned, returns, semicolon⟩ := h
  have last : ∀ r, Takes (do
      let _ ← expectPunctuation ";"
      let next ← current
      return (⟨keyword.val, name.val, list.list.map Parameter.name, r, next.isKeyword "forward"⟩ :
        Header)) stop [semicolon.val] rest _ [] := fun r =>
    .bind_cons (.expect semicolon.property) (.bind_nil .current (.pure _))
  refine .bind_cons (.expect name.property) ?_
  cases returned with
  | none =>
    refine .bind (parameters_takes list ?_) ?_
    · exact Token.not_isPunctuation semicolon.property (by decide)
    exact .ite_neg returns (.bind_nil (.pure _) (last none))
  | some r =>
    obtain ⟨colon, type⟩ := r
    refine .bind (parameters_takes list ?_) ?_
    · exact Token.not_isPunctuation colon.property (by decide)
    refine .ite_pos returns (.bind_silent_right (.map some (returnType_takes name.val colon type ?_))
      (last (some type.declared)))
    exact Token.not_isPunctuation semicolon.property (by decide)

theorem headerTail_takes_forward (body : Reader Unit) {h : Header} (forward : h.forward = true)
    (word : Keyword "forward") (semicolon : Mark ";") :
    Takes (headerTail body h) stop [word.val, semicolon.val] rest () [.parameters h.parameters] := by
  refine .bind_report _ (.ite_pos forward (.bind_cons .advance ?_))
  exact .bind_cons (.expect semicolon.property) (.pure _)

theorem headerTail_takes_body {body : Reader Unit} {h : Header} (defined : h.forward = false)
    {xs : List Token} {es : List Event} (hbody : Takes body stop xs rest () es)
    (opens : ((xs ++ rest).headD stop).isKeyword "begin" = true) :
    Takes (headerTail body h) stop xs rest () (.parameters h.parameters :: es) :=
  .bind_report _ (.ite_neg defined (.bind_nil .current (.ite_pos opens hbody)))

theorem forward_takes (body : Reader Unit) (h : Heading) (word : Keyword "forward")
    (semicolon : Mark ";") :
    Takes (subprogram body h.keyword.val) stop (h.tail ++ [word.val, semicolon.val]) rest ()
      (h.events ++ (h.opening true ++ [.leave])) := by
  have forward : (([word.val, semicolon.val] ++ rest).headD stop).isKeyword "forward" = true :=
    word.property
  refine .bind (header_takes h) ?_
  rw [forward]
  refine .bind_report _ (.bind_report _ ?_)
  exact (headerTail_takes_forward body rfl word semicolon).reportAfter .leave

theorem defined_takes {body : Reader Unit} (h : Heading) {xs : List Token} {es : List Event}
    (hbody : Takes body stop xs rest () es)
    (opens : ((xs ++ rest).headD stop).isKeyword "begin" = true) :
    Takes (subprogram body h.keyword.val) stop (h.tail ++ xs) rest ()
      (h.events ++ (h.opening false ++ (es ++ [.leave]))) := by
  refine .bind (header_takes h) ?_
  rw [Token.not_isKeyword opens (by decide)]
  refine .bind_report _ (.bind_report _ ?_)
  exact (headerTail_takes_body rfl hbody opens).reportAfter .leave

theorem SyntaxTree.Heading.starts (h : Heading) : startsDeclaration h.keyword.val = true := by
  rcases Bool.or_eq_true_iff.1 h.keyword.property with e | e <;> simp [startsDeclaration, e]

theorem SyntaxTree.Heading.not_var (h : Heading) : h.keyword.val.isKeyword "var" = false := by
  rcases Bool.or_eq_true_iff.1 h.keyword.property with e | e
  · exact Token.not_isKeyword e (by decide)
  · exact Token.not_isKeyword e (by decide)

theorem isPunctuation_eq_false_of_starts {t : Token} (h : startsDeclaration t = true)
    (mark : String) : t.isPunctuation mark = false := by
  simp only [startsDeclaration, Bool.or_eq_true] at h
  rcases h with (h | h) | h
  all_goals exact Token.isPunctuation_eq_false_of_isKeyword h mark

theorem SyntaxTree.Variables.starts (v : Variables) : startsDeclaration v.var.val = true := by
  simp [startsDeclaration, v.var.property]

theorem startsDeclaration_eq_false {t : Token} {word : String} (h : t.isKeyword word = true)
    (apart : word ∉ ["var", "procedure", "function"]) : startsDeclaration t = false := by
  simp only [List.mem_cons, List.not_mem_nil, or_false, not_or] at apart
  simp only [startsDeclaration, Token.not_isKeyword h apart.1, Token.not_isKeyword h apart.2.1,
    Token.not_isKeyword h apart.2.2, Bool.or_self]

def Closes (t : Token) : Prop := startsDeclaration t = false ∧ t.isPunctuation ";" = false

theorem closes_of_isKeyword_end {t : Token} (h : t.isKeyword "end" = true) : Closes t :=
  ⟨startsDeclaration_eq_false h (by decide), Token.isPunctuation_eq_false_of_isKeyword h ";"⟩

theorem SyntaxTree.Block.not_semicolon (b : Block)
    (h : b = .empty → (rest.headD stop).isPunctuation ";" = false) :
    ((b.tokens ++ rest).headD stop).isPunctuation ";" = false := by
  cases b with
  | empty => exact h rfl
  | var list _ => exact Token.isPunctuation_eq_false_of_isKeyword list.var.property ";"
  | forward heading _ _ _ => exact isPunctuation_eq_false_of_starts heading.starts ";"
  | defined heading _ _ _ _ _ => exact isPunctuation_eq_false_of_starts heading.starts ";"

theorem body_takes {depth : Nat} {inner : Block} {us : List Unit} (opening : Keyword "begin")
    (closing : Keyword "end") (semicolon : Option (Mark ";"))
    (h : semicolon = none → (rest.headD stop).isPunctuation ";" = false)
    (hinner : Takes (many startsDeclaration (declarationTail (body depth))) stop inner.tokens
      (closing.val :: (semicolon.map Subtype.val).toList ++ rest) us inner.events) :
    Takes (body (depth + 1)) stop (opening.val :: (inner.tokens ++
      (closing.val :: (semicolon.map Subtype.val).toList))) rest () inner.events := by
  refine .bind_cons (.expect opening.property) ?_
  refine .bind_silent_right (hinner.map fun _ => ()) (.bind_nil .current ?_)
  refine .ite_pos closing.property (.bind_cons .advance ?_)
  cases semicolon with
  | none => exact .bind_nil (.decline (h rfl)) (.pure _)
  | some semicolon => exact .bind_cons (.accept semicolon.property) (.pure _)

theorem block_takes (b : Block) {depth : Nat} {rest : List Token} (hd : b.depth ≤ depth)
    (h : Closes (rest.headD stop)) :
    ∃ us, Takes (many startsDeclaration (declarationTail (body depth))) stop b.tokens rest us
      b.events := by
  induction b generalizing depth rest with
  | empty => exact ⟨[], .many_nil h.1⟩
  | var list more ih =>
    obtain ⟨us, others⟩ := ih hd h
    exact ⟨() :: us, .many_cons list.starts (.ite_pos list.var.property (variableList_takes list)) others⟩
  | forward heading word semicolon more ih =>
    obtain ⟨us, others⟩ := ih hd h
    have whole := Takes.many_cons heading.starts (.ite_neg heading.not_var
      (forward_takes (body depth) heading word semicolon)) others
    refine ⟨() :: us, ?_⟩
    simpa only [Block.tokens, Block.events, Heading.tokens, List.cons_append, List.append_assoc,
      List.nil_append] using whole
  | defined heading opening inner closing semicolon more ihInner ih =>
    simp only [Block.depth] at hd
    obtain ⟨us, others⟩ := @ih depth rest (by omega) h
    obtain ⟨depth, rfl⟩ : ∃ d, depth = d + 1 := ⟨depth - 1, by omega⟩
    have ends : Closes closing.val := closes_of_isKeyword_end closing.property
    -- The block of the body is read one level down, with the word `end` behind it.
    obtain ⟨vs, inside⟩ := @ihInner depth
      (closing.val :: (semicolon.map Subtype.val).toList ++ (more.tokens ++ rest)) (by omega) ends
    have whole := Takes.many_cons heading.starts (.ite_neg heading.not_var (defined_takes heading
      (body_takes opening closing semicolon (fun _ => more.not_semicolon fun _ => h.2) inside)
      opening.property)) others
    refine ⟨() :: us, ?_⟩
    simpa only [Block.tokens, Block.events, Heading.tokens, List.cons_append, List.append_assoc,
      List.nil_append] using whole

end Declaration

end DeclarationChecker
