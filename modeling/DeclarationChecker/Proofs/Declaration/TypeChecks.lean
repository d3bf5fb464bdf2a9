import DeclarationChecker.Proofs.Declaration.Semantics

set_option autoImplicit false

namespace DeclarationChecker.Declaration

open Reader Token SyntaxTree

variable {α : Type}

def SilentUnless (form : List Token → Prop) (r : Reader α) : Prop :=
  ∀ stop ahead, stop.isEnd = true → (∃ xs more, ahead = xs ++ more ∧ form xs) ∨
    ∀ event ∈ (r stop ahead).events, event.isSyntactic = true

namespace SilentUnless

variable {form : List Token → Prop} {test : Token → Bool} {r : Reader α}

theorem done (h : form []) : SilentUnless form r := fun _ ahead _ => .inl ⟨[], ahead, rfl, h⟩

theorem of_quiet (h : ∀ stop ahead, (r stop ahead).events = []) : SilentUnless form r :=
  fun stop ahead _ => .inr fun event mem => by
    rw [h] at mem
    cases mem

theorem unexpected (expected : Expected) :
    SilentUnless form (Reader.unexpected expected : Reader α) :=
  fun _ _ _ => .inr (List.forall_mem_singleton.2 rfl)

theorem branch {yes no : Token → Reader α} (notEnd : ∀ t, t.isEnd = true → test t = false)
    (hyes : ∀ t, test t = true → SilentUnless (fun xs => form (t :: xs)) (yes t))
    (hno : ∀ t, SilentUnless form (no t)) :
    SilentUnless form (Reader.current >>= fun t => if test t then Reader.advance >>= yes else no t) := by
  intro stop ahead hstop
  rw [Reader.current_bind]
  cases ahead with
  | nil =>
    rw [List.headD_nil, notEnd stop hstop]
    exact hno stop stop [] hstop
  | cons t rest =>
    rw [List.headD_cons]
    cases passes : test t with
    | false => exact hno t stop (t :: rest) hstop
    | true =>
      rcases hyes t passes stop rest hstop with ⟨xs, more, rfl, complete⟩ | quiet
      · exact .inl ⟨t :: xs, more, rfl, complete⟩
      · exact .inr quiet

theorem expect {expected : Expected} {f : Token → Reader α}
    (notEnd : ∀ t, t.isEnd = true → test t = false)
    (h : ∀ t, test t = true → SilentUnless (fun xs => form (t :: xs)) (f t)) :
    SilentUnless form (Reader.expect test expected >>= f) := by
  have split : Reader.expect test expected >>= f = Reader.current >>= fun t =>
      if test t then Reader.advance >>= f else Reader.unexpected expected := by
    unfold Reader.expect
    rw [bind_assoc]
    congr 1
    funext t
    cases test t <;> rfl
  rw [split]
  exact .branch notEnd h fun _ => .unexpected expected

theorem accept {f : Bool → Reader α} (notEnd : ∀ t, t.isEnd = true → test t = false)
    (yes : ∀ t, test t = true → SilentUnless (fun xs => form (t :: xs)) (f true))
    (no : SilentUnless form (f false)) : SilentUnless form (Reader.accept test >>= f) := by
  have split : Reader.accept test >>= f = Reader.current >>= fun t =>
      if test t then Reader.advance >>= fun _ => f true else f false := by
    unfold Reader.accept
    rw [bind_assoc]
    congr 1
    funext t
    cases test t <;> simp
  rw [split]
  exact .branch notEnd yes fun _ => no

end SilentUnless

theorem range_silent (array : Keyword "array") :
    SilentUnless (fun xs => ∃ r : Range, r.tokens = array.val :: xs) range := by
  refine .expect (fun _ h => isPunctuation_eq_false_of_isEnd h "[") fun opening hopening => ?_
  refine .expect (fun _ => decide_kind_eq_false_of_isEnd (by decide)) fun low hlow => ?_
  refine .expect (fun _ => decide_kind_eq_false_of_isEnd (by decide)) fun dots hdots => ?_
  refine .expect (fun _ => decide_kind_eq_false_of_isEnd (by decide)) fun high hhigh => ?_
  refine .expect (fun _ h => isPunctuation_eq_false_of_isEnd h "]") fun closing hclosing => ?_
  refine .expect (fun _ h => isKeyword_eq_false_of_isEnd h "of") fun of hof => .done ?_
  exact ⟨⟨array, ⟨opening, hopening⟩, ⟨low, hlow⟩, ⟨dots, hdots⟩, ⟨high, hhigh⟩,
    ⟨closing, hclosing⟩, ⟨of, hof⟩⟩, rfl⟩

theorem stringSize_silent : SilentUnless (fun xs => ∃ s : Size, s.tokens = xs) stringSize := by
  refine .accept (fun _ h => isPunctuation_eq_false_of_isEnd h "[") (fun opening hopening => ?_)
    (.of_quiet fun _ _ => rfl)
  refine .expect (fun _ => decide_kind_eq_false_of_isEnd (by decide)) fun number hnumber => ?_
  refine .expect (fun _ h => isPunctuation_eq_false_of_isEnd h "]") fun closing hclosing => .done ?_
  exact ⟨⟨⟨opening, hopening⟩, ⟨number, hnumber⟩, ⟨closing, hclosing⟩⟩, rfl⟩

theorem elementType_silent :
    SilentUnless (fun xs => ∃ (word : Keyword "string") (s : Size), word.val :: s.tokens = xs)
      elementType := by
  have split : elementType = Reader.current >>= fun t =>
      if t.isKeyword "string" then advance >>= fun _ => stringSize
      else (primitive? t).elim (Reader.unexpected .type) fun type => do
        let _ ← advance
        return .primitive type := by
    unfold elementType
    congr 1
    funext t
    cases word : t.isKeyword "string" with
    | true =>
      rw [primitive?_eq_none word (by decide)]
      rfl
    | false => cases primitive? t <;> rfl
  rw [split]
  refine .branch (fun _ h => isKeyword_eq_false_of_isEnd h "string") (fun word hword => ?_) fun t => ?_
  · intro stop ahead hstop
    refine (stringSize_silent stop ahead hstop).imp_left ?_
    rintro ⟨_, more, rfl, s, rfl⟩
    exact ⟨s.tokens, more, rfl, ⟨word, hword⟩, s, rfl⟩
  · cases primitive? t with
    | some type => exact .of_quiet fun stop ahead => by cases ahead <;> rfl
    | none => exact .unexpected .type

/-- Reads a type, and puts its ranges and its element together in any way. Behind a range it goes on
as it began, with one range more to put in front. -/
def typeThen (f : List DeclaredType.Range → DeclaredType → α) : Reader α := do
  let ranges ← many (fun t => t.isKeyword "array") fun _ => range
  let element ← elementType
  return f ranges element

variable {f : List DeclaredType.Range → DeclaredType → α} {stop : Token} {rest : List Token}

theorem type_eq : type = typeThen .ofRanges := rfl

theorem typeThen_array {t : Token} (array : t.isKeyword "array" = true) :
    typeThen f stop (t :: rest) =
      (advance >>= fun _ => range >>= fun bounds => typeThen fun ranges => f (bounds :: ranges)) stop
        (t :: rest) := by
  change Reader.bind _ _ stop (t :: rest) = _
  have rounds := @Reader.many_cons _ (fun t => t.isKeyword "array") (fun _ => range) stop t rest array
  unfold Reader.bind
  rw [rounds]
  change (_ >>= _ : Reader α) stop (t :: rest) = _
  simp [typeThen]

theorem typeThen_range (r : Range) : (typeThen f stop (r.tokens ++ rest)).events =
    r.event :: (typeThen (fun ranges => f (r.bounds :: ranges)) stop rest).events := by
  have round : Takes (advance >>= fun _ => range) stop r.tokens rest r.bounds [r.event] :=
    .bind_cons .advance (range_takes r)
  have split := @typeThen_array α f stop (r.tail ++ rest) r.array.val r.array.property
  rw [← bind_assoc] at split
  rw [Range.tokens, List.cons_append, split, ← List.cons_append]
  exact round.events_bind

theorem typeThen_rest (hstop : stop.isEnd = true) (last : ∀ (r : Range) more, rest ≠ r.tokens ++ more) :
    (typeThen f stop rest).events = (elementType stop rest).events ∨
      (rest.headD stop).isKeyword "array" = true ∧
        ∀ event ∈ (typeThen f stop rest).events, event.isSyntactic = true := by
  cases array : (rest.headD stop).isKeyword "array" with
  | false =>
    left
    have none : Takes (many (fun t => t.isKeyword "array") fun _ => range) stop [] rest [] [] :=
      .many_nil array
    exact none.events_bind.trans (map_events elementType (f []) stop rest)
  | true =>
    refine .inr ⟨rfl, ?_⟩
    cases rest with
    | nil => exact nomatch (isKeyword_eq_false_of_isEnd hstop "array").symm.trans array
    | cons t rest =>
      rw [List.headD_cons] at array
      rw [typeThen_array array]
      have incomplete : ∀ xs more, rest = xs ++ more → ¬ ∃ r : Range, r.tokens = t :: xs := by
        rintro xs more rfl ⟨r, e⟩
        exact last r more (by rw [e, List.cons_append])
      have quiet := (range_silent ⟨t, array⟩ stop rest hstop).resolve_left
        fun ⟨xs, more, e, complete⟩ => incomplete xs more e complete
      change ∀ event ∈ ((range >>= _) stop rest).events, _
      refine Reader.bind_cases (motive := fun reading => ∀ event ∈ reading.events,
        event.isSyntactic = true) (fun a value => ?_) (fun _ => quiet) fun _ => quiet
      -- A range that is read to its end is a complete one.
      obtain ⟨xs, more, e, r, tokens, -⟩ :=
        ((range_reads 0 array).accounts stop rest hstop).of_value value
      exact absurd ⟨r, tokens⟩ (incomplete xs more e)

structure Ranged (tokens : List Token) (ranges : List Range) (rest : List Token) : Prop where
  split : tokens = ranges.flatMap Range.tokens ++ rest
  last : ∀ (r : Range) more, rest ≠ r.tokens ++ more

theorem exists_ranged (tokens : List Token) : ∃ ranges rest, Ranged tokens ranges rest := by
  induction e : tokens.length using Nat.strongRecOn generalizing tokens with
  | ind n ih =>
    by_cases first : ∃ (r : Range) (more : List Token), tokens = r.tokens ++ more
    · obtain ⟨r, more, rfl⟩ := first
      have shorter : more.length < n := by
        rw [← e, List.length_append, Range.tokens, List.length_cons]
        omega
      obtain ⟨ranges, rest, rfl, last⟩ := ih _ shorter more rfl
      exact ⟨r :: ranges, rest, by rw [List.flatMap_cons, List.append_assoc], last⟩
    · exact ⟨[], tokens, rfl, fun r more e => first ⟨r, more, e⟩⟩

/-- What is reported of an element type: of a string with a size, whether the size is out of range,
and of anything else no more than a syntax error. -/
structure SizeChecked (tokens : List Token) (reported : List Diagnostic) : Prop where
  size : ∀ (word : Keyword "string") (s : Size) more, tokens = word.val :: s.tokens ++ more →
    reported = s.error?.toList
  other : (∀ (word : Keyword "string") (s : Size) more, tokens ≠ word.val :: s.tokens ++ more) →
    ∀ d ∈ reported, d.kind = .syntactic

theorem elementType_checks (hstop : stop.isEnd = true) {ahead : List Token} (h : Numbered ahead)
    (scopes : ScopeTable) :
    SizeChecked ahead (observeAll scopes (elementType stop ahead).events).diagnostics where
  size := by
    rintro word s more rfl
    have taken : elementType stop (word.val :: s.tokens ++ more) = _ :=
      string_takes word (stringSize_takes s)
    have checked := observe_size s (h.sub fun t mem => by simp [mem]) scopes
    rw [taken]
    change (observe scopes s.event).diagnostics ++ [] = _
    rw [checked, List.append_nil]
  other none := by
    refine observeAll_of_syntactic scopes ((elementType_silent stop ahead hstop).resolve_left ?_)
    rintro ⟨_, more, rfl, word, s, rfl⟩
    exact none word s more rfl

theorem typeThen_checks (hstop : stop.isEnd = true) (scopes : ScopeTable) {ahead : List Token}
    {ranges : List Range} (ranged : Ranged ahead ranges rest) (h : Numbered ahead) :
    ∃ later, SizeChecked rest later ∧ (observeAll scopes (typeThen f stop ahead).events).diagnostics =
      ranges.filterMap Range.error? ++ later := by
  obtain ⟨rfl, last⟩ := ranged
  induction ranges generalizing f with
  | nil =>
    refine ⟨_, ?_, rfl⟩
    rcases typeThen_rest (f := f) hstop last with same | ⟨array, quiet⟩
    · rw [List.flatMap_nil, List.nil_append, same]
      exact elementType_checks hstop h scopes
    · refine ⟨?_, fun _ => observeAll_of_syntactic scopes quiet⟩
      rintro word s more rfl
      exact nomatch (not_isKeyword word.property (by decide)).symm.trans array
  | cons r ranges ih =>
    rw [List.flatMap_cons, List.append_assoc] at h ⊢
    obtain ⟨later, checked, reported⟩ := ih (f := fun ranges => f (r.bounds :: ranges))
      (h.sub (List.subset_append_right _ _))
    refine ⟨later, checked, ?_⟩
    have first := observe_range r (h.sub (List.subset_append_left _ _)) scopes
    rw [typeThen_range, observeAll, first, ← flatMap_toList, List.flatMap_cons, List.append_assoc,
      flatMap_toList, ← reported]
    rfl

/-- Numerals of any length compare like numbers, and so a session reports of the types it reads just
the ranges that do not ascend and the sizes that are not between 1 and 255. -/
theorem numbers_compared :
    (∀ text text' : String, (∀ c ∈ text.toList, c.isDigit = true) →
      (∀ c ∈ text'.toList, c.isDigit = true) →
      ((Numeral.ofText text).lt (Numeral.ofText text') = true ↔
        Numeral.valueOf text < Numeral.valueOf text') ∧
      (Numeral.ofText text = Numeral.ofText text' ↔
        Numeral.valueOf text = Numeral.valueOf text')) ∧
    ∀ s : Session, Numbered s.tokens →
      (∃ ranges rest later, Ranged s.ahead ranges rest ∧ SizeChecked rest later ∧
        (s.perform type).session.findings.diagnostics =
          s.findings.diagnostics ++ (ranges.filterMap Range.error? ++ later)) ∧
      ∃ later, SizeChecked s.ahead later ∧
        (s.perform elementType).session.findings.diagnostics = s.findings.diagnostics ++ later := by
  refine ⟨fun text text' digits digits' => ?_, fun s numbered => ?_⟩
  · exact ⟨Numeral.ofText_lt_iff digits digits', Numeral.ofText_inj_iff digits digits'⟩
  · have numbered' : Numbered s.ahead := numbered.sub s.ahead_inside.subset
    obtain ⟨ranges, rest, ranged⟩ := exists_ranged s.ahead
    obtain ⟨later, checked, reported⟩ := typeThen_checks (f := DeclaredType.ofRanges) s.isEnd_stop
      s.findings.scopes ranged numbered'
    rw [← type_eq] at reported
    have element := elementType_checks s.isEnd_stop numbered' s.findings.scopes
    exact ⟨⟨ranges, rest, later, ranged, checked, congrArg (s.findings.diagnostics ++ ·) reported⟩,
      _, element, rfl⟩

/-- Neither more digits nor leading zeros make a number larger: the range does not ascend, and the size
is one too much. -/
theorem numbers_compared_descending :
    let s : Session := .ofTokens [⟨.keyword, "array", ⟨1, 1⟩, 0⟩, ⟨.punctuation, "[", ⟨1, 6⟩, 5⟩,
      ⟨.number, "0010", ⟨1, 7⟩, 6⟩, ⟨.dots, "..", ⟨1, 11⟩, 10⟩, ⟨.number, "9", ⟨1, 13⟩, 12⟩,
      ⟨.punctuation, "]", ⟨1, 14⟩, 13⟩, ⟨.keyword, "of", ⟨1, 16⟩, 15⟩,
      ⟨.keyword, "string", ⟨1, 19⟩, 18⟩, ⟨.punctuation, "[", ⟨1, 25⟩, 24⟩,
      ⟨.number, "256", ⟨1, 26⟩, 25⟩, ⟨.punctuation, "]", ⟨1, 29⟩, 28⟩]
    ((Numeral.ofText "0010").lt (Numeral.ofText "9") = true ↔
        Numeral.valueOf "0010" < Numeral.valueOf "9") ∧
      Numeral.valueOf "0010" = 10 ∧ Numeral.valueOf "9" = 9 ∧ Numbered s.tokens ∧
      (s.perform type).session.findings.diagnostics =
        [⟨.range ⟨⟨['1', '0']⟩, ⟨['9']⟩⟩, ⟨1, 7⟩⟩, ⟨.stringSize ⟨['2', '5', '6']⟩, ⟨1, 26⟩⟩] ∧
      ∃ ranges rest later, Ranged s.ahead ranges rest ∧ SizeChecked rest later ∧
        (s.perform type).session.findings.diagnostics =
          s.findings.diagnostics ++ (ranges.filterMap Range.error? ++ later) := by
  intro s
  have digits : s.tokens.all (fun t => t.kind ≠ .number || t.text.toList.all Char.isDigit) = true := by
    decide +kernel
  have numbered : Numbered s.tokens := fun t mem kind => by
    have checked := List.all_eq_true.1 digits t mem
    simpa [kind] using checked
  have compared := numbers_compared.1 "0010" "9" (List.all_eq_true.1 (by decide))
    (List.all_eq_true.1 (by decide))
  exact ⟨compared.1, by decide +kernel, by decide +kernel, numbered, by decide +kernel,
    (numbers_compared.2 s numbered).1⟩

end DeclarationChecker.Declaration
