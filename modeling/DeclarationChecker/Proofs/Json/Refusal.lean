import DeclarationChecker.Proofs.Json.Reading

set_option autoImplicit false

namespace DeclarationChecker.Json

open Text

open Token (head?_dropWhile)

/-! ### What a reader has taken -/

def itemsBefore (items : List Value) : List Lexeme := items.flatMap fun item => item.lexemes ++ [.comma]

def membersBefore (members : List (CodePoints × Value)) : List Lexeme :=
  members.flatMap fun member => .string member.1 :: .colon :: (member.2.lexemes ++ [.comma])

def Frame.lexemes : Frame → List Lexeme
  | .item before => .openArray :: itemsBefore before
  | .member before name => .openObject :: (membersBefore before ++ [.string name, .colon])

/-- The lexemes that have been taken since the innermost array or object that waits. -/
def Need.lexemes : Need → List Lexeme
  | .value => []
  | .itemOrClose => [.openArray]
  | .nameOrClose => [.openObject]
  | .name before => .openObject :: membersBefore before
  | .colon before key => .openObject :: (membersBefore before ++ [.string key])
  | .delimiter complete => complete.lexemes

def ReaderState.taken (s : ReaderState) : List Lexeme :=
  s.stack.reverse.flatMap Frame.lexemes ++ s.need.lexemes

def Lexeme.IsOwn : Lexeme → Prop
  | .scalar v => v.lexemes = [.scalar v]
  | _ => True

theorem itemLexemes_append (before : List Value) (item : Value) :
    itemLexemes (before ++ [item]) = itemsBefore before ++ (item.lexemes ++ [.closeArray]) := by
  induction before with
  | nil => rfl
  | cons first before ih =>
    have further : furtherItems (before ++ [item]) = .comma :: itemLexemes (before ++ [item]) := by
      cases before <;> rfl
    rw [List.cons_append, itemLexemes, further, ih, itemsBefore, itemsBefore, List.flatMap_cons]
    simp only [List.append_assoc, List.cons_append, List.nil_append]

theorem memberLexemes_append (before : List (CodePoints × Value)) (name : CodePoints) (value : Value) :
    memberLexemes (before ++ [(name, value)]) =
      membersBefore before ++ .string name :: .colon :: (value.lexemes ++ [.closeObject]) := by
  induction before with
  | nil => rfl
  | cons first before ih =>
    have further : furtherMembers (before ++ [(name, value)]) =
        .comma :: memberLexemes (before ++ [(name, value)]) := by
      cases before <;> rfl
    rw [List.cons_append, memberLexemes, further, ih, membersBefore, membersBefore, List.flatMap_cons]
    simp only [List.append_assoc, List.cons_append, List.nil_append]

theorem taken_startValue (stack : List Frame) {l : PlacedLexeme} {s : ReaderState}
    (own : l.lexeme.IsOwn) (h : startValue stack l = .ok s) :
    s.taken = stack.reverse.flatMap Frame.lexemes ++ [l.lexeme] := by
  obtain ⟨lexeme, offset⟩ := l
  cases lexeme with
  | scalar v =>
    cases h
    exact congrArg _ own
  | openArray | openObject | string =>
    cases h
    rfl
  | _ => cases h

theorem taken_startMember {stack : List Frame} {before : List (CodePoints × Value)} {l : PlacedLexeme}
    {s : ReaderState} (h : startMember stack before l = .ok s) : s.taken =
      stack.reverse.flatMap Frame.lexemes ++ (.openObject :: (membersBefore before ++ [l.lexeme])) := by
  obtain ⟨lexeme, offset⟩ := l
  cases lexeme with
  | string text =>
    cases h
    rfl
  | _ => cases h

theorem flatMap_reverse_cons (frame : Frame) (stack : List Frame) :
    (frame :: stack).reverse.flatMap Frame.lexemes =
      stack.reverse.flatMap Frame.lexemes ++ frame.lexemes := by
  rw [List.reverse_cons, List.flatMap_append, List.flatMap_singleton]

theorem taken_afterValue {stack : List Frame} {complete : Value} {l : PlacedLexeme} {s : ReaderState}
    (h : afterValue stack complete l = .ok s) :
    s.taken = stack.reverse.flatMap Frame.lexemes ++ (complete.lexemes ++ [l.lexeme]) := by
  obtain ⟨lexeme, offset⟩ := l
  cases stack with
  | nil => cases h
  | cons frame outer =>
    cases frame with
    | item before =>
      cases lexeme with
      | comma =>
        cases h
        simp [ReaderState.taken, Need.lexemes, Frame.lexemes, itemsBefore]
      | closeArray =>
        cases h
        simp [ReaderState.taken, Need.lexemes, Frame.lexemes, Value.lexemes, itemLexemes_append]
      | _ => cases h
    | member before key =>
      cases lexeme with
      | comma =>
        cases h
        simp [ReaderState.taken, Need.lexemes, Frame.lexemes, membersBefore]
      | closeObject =>
        cases h
        simp [ReaderState.taken, Need.lexemes, Frame.lexemes, Value.lexemes, memberLexemes_append]
      | _ => cases h

theorem taken_next {s s' : ReaderState} {l : PlacedLexeme} (own : l.lexeme.IsOwn)
    (h : s.next l = .ok s') : s'.taken = s.taken ++ [l.lexeme] := by
  obtain ⟨stack, need⟩ := s
  obtain ⟨lexeme, offset⟩ := l
  cases need with
  | value =>
    rw [taken_startValue stack own h]
    simp [ReaderState.taken, Need.lexemes]
  | itemOrClose =>
    cases lexeme with
    | closeArray =>
      cases h
      simp [ReaderState.taken, Need.lexemes, Value.lexemes, itemLexemes]
    | _ =>
      rw [taken_startValue (.item [] :: stack) own h, flatMap_reverse_cons]
      rfl
  | nameOrClose =>
    cases lexeme with
    | closeObject =>
      cases h
      simp [ReaderState.taken, Need.lexemes, Value.lexemes, memberLexemes]
    | string text =>
      cases h
      simp [ReaderState.taken, Need.lexemes, membersBefore]
    | _ => cases h
  | name before =>
    rw [taken_startMember h]
    simp [ReaderState.taken, Need.lexemes]
  | colon before key =>
    cases lexeme with
    | colon =>
      cases h
      simp [ReaderState.taken, Need.lexemes, Frame.lexemes]
    | _ => cases h
  | delimiter complete =>
    rw [taken_afterValue h]
    simp [ReaderState.taken, Need.lexemes]

theorem taken_foldlM {ls : List PlacedLexeme} {s s' : ReaderState} (own : ∀ l ∈ ls, l.lexeme.IsOwn)
    (h : ls.foldlM ReaderState.next s = .ok s') :
    s'.taken = s.taken ++ ls.map PlacedLexeme.lexeme := by
  induction ls generalizing s with
  | nil =>
    cases h
    exact (List.append_nil _).symm
  | cons l ls ih =>
    obtain ⟨here, others⟩ := List.forall_mem_cons.1 own
    rw [List.foldlM_cons] at h
    cases step : s.next l with
    | error fault =>
      rw [step] at h
      cases h
    | ok middle =>
      rw [step] at h
      rw [ih others h, taken_next here step, List.map_cons, List.append_assoc]
      rfl

/-! ### Where a number may stand -/

/-- The lexemes begin those of a value, and a number may stand next. -/
def TakesNumber (ls : List Lexeme) : Prop :=
  ∃ (v : Value) (rest : List Lexeme), v.lexemes = ls ++ .scalar (.number "0") :: rest

theorem exists_closing (stack : List Frame) (v : Value) : ∃ (w : Value) (rest : List Lexeme),
    w.lexemes = stack.reverse.flatMap Frame.lexemes ++ (v.lexemes ++ rest) := by
  induction stack generalizing v with
  | nil => exact ⟨v, [], (List.append_nil _).symm⟩
  | cons frame stack ih =>
    rw [flatMap_reverse_cons]
    cases frame with
    | item before =>
      obtain ⟨w, rest, e⟩ := ih (.array (before ++ [v]))
      refine ⟨w, .closeArray :: rest, ?_⟩
      rw [e, Value.lexemes, itemLexemes_append]
      simp [Frame.lexemes]
    | member before key =>
      obtain ⟨w, rest, e⟩ := ih (.object (before ++ [(key, v)]))
      refine ⟨w, .closeObject :: rest, ?_⟩
      rw [e, Value.lexemes, memberLexemes_append]
      simp [Frame.lexemes]

def ReaderState.WantsValue (s : ReaderState) : Prop := s.need = .value ∨ s.need = .itemOrClose

theorem ReaderState.WantsValue.takesNumber {s : ReaderState} (h : s.WantsValue) :
    TakesNumber s.taken := by
  obtain ⟨stack, need⟩ := s
  rcases h with rfl | rfl
  · obtain ⟨w, rest, e⟩ := exists_closing stack (.number "0")
    refine ⟨w, rest, ?_⟩
    rw [e]
    simp [taken, Need.lexemes, Value.lexemes]
  · obtain ⟨w, rest, e⟩ := exists_closing stack (.array [.number "0"])
    refine ⟨w, .closeArray :: rest, ?_⟩
    rw [e]
    simp [taken, Need.lexemes, Value.lexemes, itemLexemes, furtherItems]

/-- An integer with too many digits is refused as such where a value is wanted, and nowhere else. -/
theorem next_overlong_iff {s : ReaderState} {l : PlacedLexeme} {digits : Nat} :
    s.next l = .error (.overlongInteger digits) ↔
      l.lexeme = .overlongInteger digits ∧ s.WantsValue := by
  obtain ⟨stack, need⟩ := s
  obtain ⟨lexeme, offset⟩ := l
  constructor
  · intro h
    cases need with
    | value =>
      cases lexeme <;> cases h
      exact ⟨rfl, .inl rfl⟩
    | itemOrClose =>
      cases lexeme <;> cases h
      exact ⟨rfl, .inr rfl⟩
    | delimiter complete =>
      cases stack with
      | nil => cases h
      | cons frame outer => cases frame <;> cases lexeme <;> cases h
    | _ => cases lexeme <;> cases h
  · rintro ⟨rfl, rfl | rfl⟩ <;> rfl

theorem wantsValue_of_accept? {s s' : ReaderState} {v : Value}
    (h : s.accept? (.scalar v) = some s') : s.WantsValue := by
  obtain ⟨stack, need⟩ := s
  cases need with
  | value => exact .inl rfl
  | itemOrClose => exact .inr rfl
  | delimiter complete =>
    cases stack with
    | nil => cases h
    | cons frame outer => cases frame <;> cases h
  | _ => cases h

theorem foldlM_eq_error {α β ε : Type} {f : β → α → Except ε β} {xs : List α} {s : β} {e : ε}
    (h : xs.foldlM f s = .error e) : ∃ before x after s', xs = before ++ x :: after ∧
      before.foldlM f s = .ok s' ∧ f s' x = .error e := by
  induction xs generalizing s with
  | nil => cases h
  | cons x xs ih =>
    rw [List.foldlM_cons] at h
    cases step : f s x with
    | error fault =>
      rw [step] at h
      cases h
      exact ⟨[], x, xs, s, rfl, rfl, step⟩
    | ok middle =>
      rw [step] at h
      obtain ⟨before, y, after, s', rfl, read, fails⟩ := ih h
      refine ⟨x :: before, y, after, s', rfl, ?_, fails⟩
      rw [List.foldlM_cons, step]
      exact read

/-! ### Lexemes of a text -/

def LexStep.lexeme? : LexStep → Option Lexeme
  | .blank => none
  | .lexeme l _ => some l
  | .final l => some l

/-- What the first lexeme of a text may be, by the characters it starts with. -/
inductive Lexeme.StandsAt (c : Char) (cs : List Char) : Lexeme → Prop
  | string (text : CodePoints) : StandsAt c cs (.string text)
  | brokenString (flaw : Flaw) (offset : Nat) : StandsAt c cs (.brokenString flaw offset)
  | mark {l : Lexeme} (found : mark? c = some l) : StandsAt c cs l
  | word {word : String × Value} (found : leadingWord? (c :: cs) = some word) :
      StandsAt c cs (.scalar word.2)
  | number {n : NumberSpelling} (found : leadingNumber? (c :: cs) = some n) : StandsAt c cs n.lexeme
  | unknown : StandsAt c cs .unknown

theorem standsAt_of_lexStep (offset : Nat) {c : Char} {cs : List Char} {l : Lexeme}
    (step : (lexStep offset c cs).lexeme? = some l) : l.StandsAt c cs := by
  unfold lexStep at step
  split at step
  · cases step
  split at step
  · split at step <;> cases step
    · exact .string _
    · exact .brokenString _ _
  · split at step <;> cases step
    · exact .mark ‹_›
    · exact .word ‹_›
    · exact .number ‹_›
    · exact .unknown

theorem standsAt_of_mem {text : List Char} {offset : Nat} {l : PlacedLexeme}
    (h : l ∈ lexemesFrom offset text) : ∃ skipped c cs, l.offset = offset + skipped ∧
      text.drop skipped = c :: cs ∧ l.lexeme.StandsAt c cs := by
  fun_induction lexemesFrom offset text with
  | case1 => cases h
  | case2 offset c rest step ih =>
    obtain ⟨skipped, d, ds, place, behind, stands⟩ := ih h
    exact ⟨skipped + 1, d, ds, by omega, behind, stands⟩
  | case3 offset c rest lexeme extra step ih =>
    rcases List.mem_cons.1 h with rfl | h
    · exact ⟨0, c, rest, rfl, rfl, standsAt_of_lexStep offset (by rw [step]; rfl)⟩
    · obtain ⟨skipped, d, ds, place, behind, stands⟩ := ih h
      refine ⟨extra + skipped + 1, d, ds, by omega, ?_, stands⟩
      rw [List.drop_succ_cons, ← List.drop_drop, behind]
  | case4 offset c rest lexeme step =>
    cases List.mem_singleton.1 h
    exact ⟨0, c, rest, rfl, rfl, standsAt_of_lexStep offset (by rw [step]; rfl)⟩

theorem mark?_ne {c : Char} {l : Lexeme} (h : mark? c = some l) :
    l.IsOwn ∧ ∀ digits, l ≠ .overlongInteger digits := by
  revert h
  unfold mark?
  repeat' split
  all_goals (rintro ⟨⟩ <;> exact ⟨trivial, nofun⟩)

theorem isOwn_of_mem {text : List Char} {l : PlacedLexeme} (h : l ∈ lexemes text) :
    l.lexeme.IsOwn := by
  obtain ⟨skipped, c, cs, -, -, stands⟩ := standsAt_of_mem h
  generalize l.lexeme = lexeme at stands
  cases stands with
  | string | brokenString | unknown => trivial
  | mark found => exact (mark?_ne found).1
  | @word word found =>
    have words : ∀ word ∈ valueWords, Lexeme.IsOwn (.scalar word.2) := by
      intro word mem
      simp only [valueWords, List.mem_cons, List.not_mem_nil, or_false] at mem
      rcases mem with rfl | rfl | rfl | rfl | rfl | rfl <;> rfl
    exact words word (List.mem_of_find?_eq_some found)
  | number found =>
    rw [NumberSpelling.lexeme]
    split
    · trivial
    · rfl

/-! ### Integers with too many digits -/

variable {text : List Char} {digits : Nat}

theorem leadingInteger_spelled (h : leadingInteger text ≠ []) :
    IsInteger (leadingInteger text) ∧ ∃ behind, text = leadingInteger text ++ behind ∧
      (1 < (leadingInteger text).length → ∀ c ∈ behind.head?, c.isDigit = false) := by
  cases text with
  | nil => exact absurd rfl h
  | cons c rest =>
    rw [leadingInteger] at h ⊢
    by_cases zero : c = '0'
    · rw [if_pos zero, zero]
      exact ⟨⟨⟨List.cons_ne_nil _ _, by simp⟩, fun _ => rfl⟩, rest, rfl,
        fun many => absurd many (by simp)⟩
    · rw [if_neg zero] at h ⊢
      by_cases digit : c.isDigit = true
      · rw [if_pos digit]
        refine ⟨⟨⟨List.cons_ne_nil _ _, List.forall_mem_cons.2 ⟨digit, fun _ => List.mem_takeWhile_imp⟩⟩,
          fun first => absurd (Option.some.inj first) zero⟩,
          rest.dropWhile Char.isDigit, ?_, fun _ => head?_dropWhile rest⟩
        rw [List.cons_append, List.takeWhile_append_dropWhile]
      · rw [if_neg digit] at h
        exact absurd rfl h

def StartsOverlong (text : List Char) (digits : Nat) : Prop :=
  ∃ sign integer behind, text = sign ++ (integer ++ behind) ∧ (sign = [] ∨ sign = ['-']) ∧
    IsInteger integer ∧ integer.length = digits ∧ maxIntegerDigits < digits ∧
    ∀ c ∈ behind.head?, c.isDigit = false

theorem startsOverlong_of_leadingNumber? {n : NumberSpelling} (h : leadingNumber? text = some n)
    (overlong : n.lexeme = .overlongInteger digits) : StartsOverlong text digits := by
  unfold leadingNumber? at h
  dsimp only at h
  generalize sign : (if text.head? = some '-' then ['-'] else []) = s at h
  have signed : text = s ++ text.drop s.length ∧ (s = [] ∨ s = ['-']) := by
    subst sign
    split
    case isTrue minus =>
      obtain ⟨rest, rfl⟩ := List.head?_eq_some_iff.1 minus
      exact ⟨rfl, .inr rfl⟩
    case isFalse => exact ⟨rfl, .inl rfl⟩
  split at h
  · cases h
  · cases h
    obtain ⟨isInteger, behind, e, ends⟩ := leadingInteger_spelled ‹_›
    unfold NumberSpelling.lexeme at overlong
    split at overlong
    case isFalse => cases overlong
    case isTrue long =>
      cases overlong
      refine ⟨s, _, behind, ?_, signed.2, isInteger, rfl, long.2, ends (Nat.lt_trans (by decide) long.2)⟩
      rw [← e]
      exact signed.1

theorem startsOverlong_of_mem {l : PlacedLexeme} (h : l ∈ lexemes text)
    (overlong : l.lexeme = .overlongInteger digits) : StartsOverlong (text.drop l.offset) digits := by
  obtain ⟨skipped, c, cs, place, behind, stands⟩ := standsAt_of_mem h
  rw [Nat.zero_add] at place
  rw [place, behind]
  generalize l.lexeme = lexeme at stands overlong
  cases stands with
  | string | brokenString | unknown | word => cases overlong
  | mark found => exact absurd overlong ((mark?_ne found).2 digits)
  | number found => exact startsOverlong_of_leadingNumber? found overlong

/-- An integer with too many digits stands where a number may. -/
def MeetsOverlong (text : List Char) (digits : Nat) : Prop :=
  ∃ before l after, lexemes text = before ++ l :: after ∧
    TakesNumber (before.map PlacedLexeme.lexeme) ∧ l.lexeme = .overlongInteger digits

theorem MeetsOverlong.startsOverlong (h : MeetsOverlong text digits) :
    ∃ offset, StartsOverlong (text.drop offset) digits := by
  obtain ⟨before, l, after, e, -, overlong⟩ := h
  have mem : l ∈ lexemes text := by
    rw [e]
    simp
  exact ⟨l.offset, startsOverlong_of_mem mem overlong⟩

theorem StartsOverlong.lt_length (h : StartsOverlong text digits) : maxIntegerDigits < text.length := by
  obtain ⟨sign, integer, behind, rfl, -, -, rfl, long, -⟩ := h
  rw [List.length_append, List.length_append]
  omega

theorem not_meetsOverlong_of_short (short : text.length ≤ maxIntegerDigits) :
    ¬MeetsOverlong text digits := by
  intro meets
  obtain ⟨offset, starts⟩ := meets.startsOverlong
  have long := starts.lt_length
  rw [List.length_drop] at long
  omega

theorem foldlM_overlong_iff {ls : List PlacedLexeme} (own : ∀ l ∈ ls, l.lexeme.IsOwn) :
    ls.foldlM ReaderState.next ⟨[], .value⟩ = .error (.overlongInteger digits) ↔
      ∃ before l after, ls = before ++ l :: after ∧
        TakesNumber (before.map PlacedLexeme.lexeme) ∧ l.lexeme = .overlongInteger digits := by
  constructor
  · intro fails
    obtain ⟨before, l, after, s, rfl, read, refused⟩ := foldlM_eq_error fails
    obtain ⟨overlong, wants⟩ := next_overlong_iff.1 refused
    have taken := taken_foldlM (fun l mem => own l (List.mem_append_left _ mem)) read
    have takes := wants.takesNumber
    rw [taken] at takes
    exact ⟨before, l, after, rfl, takes, overlong⟩
  · rintro ⟨before, l, after, rfl, ⟨v, rest, e⟩, overlong⟩
    -- The value that goes on with a number is read, so the reader comes to that number.
    have reads := reads_lexemes v []
    rw [e, List.foldlM_append, ← foldlM_next_toOption] at reads
    cases read : before.foldlM ReaderState.next ⟨[], .value⟩ with
    | error fault =>
      rw [read] at reads
      cases reads
    | ok s =>
      rw [read] at reads
      change ((Lexeme.scalar (.number "0") :: rest).foldlM ReaderState.accept? s) = _ at reads
      rw [List.foldlM_cons] at reads
      obtain ⟨next, accepted, -⟩ := Option.bind_eq_some_iff.1 reads
      have refused := next_overlong_iff.2 ⟨overlong, wantsValue_of_accept? accepted⟩
      rw [List.foldlM_append, read]
      change (l :: after).foldlM ReaderState.next s = _
      rw [List.foldlM_cons, refused]
      rfl

theorem finish_ne_overlong {s : ReaderState} {length : Nat} :
    s.finish length ≠ .error (.overlongInteger digits) := by
  obtain ⟨stack, need⟩ := s
  cases stack <;> cases need <;> exact nofun

/-- An integer with too many digits is what a text fails with exactly if it stands where the text up to
there may go on with a number. -/
theorem read_overlong_iff :
    read text = .error (.overlongInteger digits) ↔ MeetsOverlong text digits := by
  rw [MeetsOverlong, ← foldlM_overlong_iff fun l mem => isOwn_of_mem mem, read]
  by_cases mark : text.head? = some '\uFEFF'
  · -- The mark is no lexeme, so nothing behind it is met either.
    obtain ⟨rest, rfl⟩ := List.head?_eq_some_iff.1 mark
    rw [if_pos mark, lexemes, lexemesFrom_byteOrderMark]
    constructor <;>
    · intro fails
      cases fails
  · rw [if_neg mark]
    cases last : (lexemes text).foldlM ReaderState.next ⟨[], .value⟩ with
    | error fault =>
      constructor <;>
      · rintro ⟨⟩
        rfl
    | ok s =>
      constructor
      · exact fun fails => absurd fails finish_ne_overlong
      · intro fails
        cases fails

/-- Such an integer is met wherever it stands behind the written beginning of a value. -/
theorem meetsOverlong_of_written {ls : List Lexeme} {sign integer rest : List Char}
    (written : Written ls text) (takes : TakesNumber ls) (signed : sign = [] ∨ sign = ['-'])
    (isInteger : IsInteger integer) (length : integer.length = digits)
    (long : maxIntegerDigits < digits) (ends : EndsNumber rest) :
    MeetsOverlong (text ++ (sign ++ integer ++ rest)) digits := by
  subst length
  obtain ⟨v, others, e⟩ := takes
  have delimited := v.delimited
  rw [e] at delimited
  have last : ∀ l ∈ ls.getLast?, l.isScalar = true → EndsNumber (sign ++ integer ++ rest) :=
    fun l mem scalar => absurd scalar (Bool.eq_false_iff.1 (delimited.last rfl l mem))
  have read := lexemesFrom_of_written written delimited.left _ last 0
  have isNumber : IsNumber ⟨sign, integer, []⟩ := ⟨signed, isInteger, [], [], .none, .none, rfl⟩
  have number := lexemesFrom_number isNumber ends (0 + text.length)
  rw [NumberSpelling.characters, List.append_nil, NumberSpelling.lexeme, if_pos ⟨rfl, long⟩] at number
  rw [number, List.map_cons] at read
  obtain ⟨before, following, split, rfl, behind⟩ := List.map_eq_append_iff.1 read
  obtain ⟨l, after, rfl, overlong, -⟩ := List.map_eq_cons_iff.1 behind
  exact ⟨before, l, after, split, ⟨v, others, e⟩, overlong⟩

end DeclarationChecker.Json
