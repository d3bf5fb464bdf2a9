import Mathlib.Data.List.Basic
import DeclarationChecker.Proofs.Token.Lines

set_option autoImplicit false

/-!
Where a text stops being tokens. A scan stops at a character that starts nothing, and has found before
it what it finds in the text up to there, whatever comes behind. Such a character stops every scan that
gets to it outside a comment.
-/

namespace DeclarationChecker.Token

open Text

/-- No token, no comment and no white space starts with the character when `next` stands behind it. -/
structure StartsNothing (c : Char) (next : Option Char) : Prop where
  blank : isBlank c = false
  letter : c.isAlpha = false
  digit : c.isDigit = false
  underscore : c ≠ '_'
  mark : c ∉ punctuationMarks
  dots : c = '.' → next ≠ some '.'
  comment : c = '/' → next ≠ some '/'

/-- A character behind it makes a difference to a dot and to a slash only. -/
theorem StartsNothing.next {c : Char} {next next' : Option Char} (h : StartsNothing c next)
    (alike : (∀ x ∈ next', x ∈ next) ∨ c ≠ '.' ∧ c ≠ '/') : StartsNothing c next' := by
  rcases alike with same | ⟨dot, slash⟩
  · exact { h with
      dots := fun dot second => h.dots dot (same '.' second)
      comment := fun slash second => h.comment slash (same '/' second) }
  · exact { h with
      dots := fun e => absurd e dot
      comment := fun e => absurd e slash }

def EndsInComment (text : List Char) : Prop :=
  ∃ before line lexemes, text = before ++ '/' :: '/' :: line ∧ '\n' ∉ line ∧
    IsTokenization before lexemes

/-! A step looks one character behind what it takes, and no further. -/

section

variable {c : Char} {rest front back back' : List Char} {kind : Kind} {text : String}

theorem step_eq_invalid_iff : step c rest = .invalid ↔ StartsNothing c rest.head? := by
  constructor
  · intro h
    unfold step at h
    split at h
    · cases h
    rename_i blank
    split at h
    · cases h
    rename_i comment
    split at h
    · cases h
    rename_i dots
    split at h
    · cases h
    rename_i mark
    split at h
    · cases h
    rename_i digit
    split at h
    · cases h
    rename_i letter
    rw [isLetter, Bool.or_eq_true, not_or, Bool.not_eq_true, decide_eq_true_eq] at letter
    exact ⟨Bool.eq_false_iff.2 blank, letter.1, Bool.eq_false_iff.2 digit, letter.2, mark,
      fun dot next => dots ⟨dot, next⟩, fun slash next => comment ⟨slash, next⟩⟩
  · intro h
    have letter : ¬ isLetter c = true := by
      rw [isLetter, h.letter, Bool.false_or, decide_eq_true_eq]
      exact h.underscore
    rw [step, if_neg (Bool.eq_false_iff.1 h.blank), if_neg fun slashes => h.comment slashes.1 slashes.2,
      if_neg fun dots => h.dots dots.1 dots.2, if_neg h.mark, if_neg (Bool.eq_false_iff.1 h.digit),
      if_neg letter]

theorem Kind.Consists.next {chars : List Char} {next next' : Option Char}
    (h : kind.Consists chars next) (alike : ∀ x ∈ next', x ∈ next ∨ isWordChar x = false) :
    kind.Consists chars next' := by
  have word : IsWord chars next → IsWord chars next' := fun h =>
    ⟨h.every, h.first, fun x mem => (alike x mem).elim (h.ends x) id⟩
  cases kind with
  | number =>
    refine ⟨h.1, fun x mem => (alike x mem).elim (h.2 x) fun other => ?_⟩
    rw [isWordChar_eq, Bool.or_eq_false_iff] at other
    exact other.1
  | keyword => exact ⟨word h.1, h.2⟩
  | identifier => exact ⟨word h.1, h.2⟩
  | punctuation => exact h
  | dots => exact h
  | endOfInput => exact h.elim

theorem step_lexeme_congr (h : step c (front ++ back) = .lexeme kind text front.length)
    (alike : ∀ x ∈ back'.head?, x ∈ back.head? ∨ isWordChar x = false) :
    step c (front ++ back') = .lexeme kind text front.length := by
  obtain ⟨chars, more, parts, length, rfl, consists⟩ := consists_of_step h
  rw [← List.cons_append] at parts
  obtain ⟨rfl, rfl⟩ := List.append_inj parts length.symm
  obtain ⟨c', rest', e, taken⟩ := step_of_consists (List.cons_ne_nil c front) (consists.next alike)
  obtain ⟨rfl, rfl⟩ := List.cons.inj e
  exact taken

theorem step_skip_congr (h : step c (front ++ back) = .skip front.length)
    (alike : ∀ x ∈ back'.head?, x ∈ back.head?) : step c (front ++ back') = .skip front.length := by
  rcases skip_cases h with ⟨blank, none⟩ | ⟨rfl, more, parts, length⟩
  · rw [none, step_blank blank]
  · obtain ⟨_, line, rfl⟩ := List.exists_cons_of_length_eq_add_one length
    rw [List.cons_append] at parts
    obtain ⟨rfl, whole⟩ := List.cons.inj parts
    rw [← List.takeWhile_append_dropWhile (p := (· ≠ '\n')) (l := more)] at whole
    obtain ⟨taken, left⟩ := List.append_inj whole (Nat.succ.inj length)
    have all : ∀ x ∈ line, decide (x ≠ '\n') = true := by
      rw [taken]
      exact fun x => List.mem_takeWhile_imp
    have ends : ∀ x ∈ back'.head?, decide (x ≠ '\n') = false := fun x mem =>
      head?_dropWhile more x (left ▸ alike x mem)
    rw [List.cons_append, step_comment, takeWhile_eq all ends]
    rfl

/-- What is skipped is skipped in a longer text as well, or else it is a comment up to the end. -/
theorem step_skip_append (h : step c (front ++ back) = .skip front.length) (more : List Char) :
    step c (front ++ (back ++ more)) = .skip front.length ∨
      ∃ line, c :: (front ++ back) = '/' :: '/' :: line ∧ '\n' ∉ line := by
  cases back with
  | cons first back => exact .inl (step_skip_congr h fun _ => id)
  | nil =>
    rcases skip_cases h with ⟨blank, none⟩ | ⟨rfl, line, parts, length⟩
    · rw [none, step_blank blank]
      exact .inl rfl
    · refine .inr ⟨line, by rw [parts], fun feed => ?_⟩
      rw [List.append_nil] at parts
      rw [parts, List.length_cons, Nat.succ_inj] at length
      have all : line.takeWhile (· ≠ '\n') = line :=
        (List.takeWhile_prefix _).eq_of_length length.symm
      exact of_decide_eq_true (List.takeWhile_eq_self_iff.1 all _ feed) rfl

theorem scanFrom_steps {motive : Nat → List Char → Prop} (nil : ∀ offset, motive offset [])
    (skip : ∀ offset c front back, step c (front ++ back) = .skip front.length →
      motive (offset + 1 + front.length) back → motive offset (c :: (front ++ back)))
    (lexeme : ∀ offset c front back kind text,
      step c (front ++ back) = .lexeme kind text front.length →
      motive (offset + 1 + front.length) back → motive offset (c :: (front ++ back)))
    (invalid : ∀ offset c rest, step c rest = .invalid → motive offset (c :: rest))
    (offset : Nat) (chars : List Char) : motive offset chars := by
  have parts : ∀ {rest : List Char} {extra : Nat}, extra ≤ rest.length → ∃ front back,
      rest = front ++ back ∧ extra = front.length ∧ rest.drop extra = back := fun {rest extra} le =>
    ⟨rest.take extra, rest.drop extra, (List.take_append_drop extra rest).symm,
      (List.length_take_of_le le).symm, rfl⟩
  induction offset, chars using scanFrom.induct with
  | case1 offset => exact nil offset
  | case2 offset c rest extra h ih =>
    obtain ⟨front, back, rfl, rfl, e⟩ := parts (skip_le h)
    exact skip offset c front back h (e ▸ ih)
  | case3 offset c rest kind text extra h ih =>
    obtain ⟨front, back, rfl, rfl, e⟩ := parts (lexeme_le h)
    exact lexeme offset c front back kind text h (e ▸ ih)
  | case4 offset c rest h => exact invalid offset c rest h

variable {offset : Nat}

theorem scanFrom_skip (h : step c (front ++ back) = .skip front.length) :
    scanFrom offset (c :: (front ++ back)) = scanFrom (offset + 1 + front.length) back := by
  rw [scanFrom, h]
  dsimp only
  rw [List.drop_left]

theorem scanFrom_lexeme (h : step c (front ++ back) = .lexeme kind text front.length) :
    scanFrom offset (c :: (front ++ back)) =
      (scanFrom (offset + 1 + front.length) back).cons ⟨kind, text, offset⟩ := by
  rw [scanFrom, h]
  dsimp only
  rw [List.drop_left]

theorem scanFrom_invalid (h : step c rest = .invalid) :
    scanFrom offset (c :: rest) = ⟨[], some ⟨offset, c⟩⟩ := by
  rw [scanFrom, h]

end

/-! What stands behind a text, and what a scan finds in the text. -/

section

variable {offset : Nat} {text more : List Char} {cause : InvalidCharacter}

theorem head?_append_alike {before rest more : List Char} {c : Char} (alike : ∀ x ∈ more.head?, x = c) :
    ∀ x ∈ (before ++ more).head?, x ∈ (before ++ c :: rest).head? := by
  cases before with
  | nil => exact fun x mem => congrArg some (alike x mem).symm
  | cons first before => exact fun _ => id

theorem add_length_cons (offset : Nat) (c : Char) (front before : List Char) :
    offset + 1 + front.length + before.length = offset + (c :: (front ++ before)).length := by
  rw [List.length_cons, List.length_append]
  omega

/-- A scan that is stopped finds the same wherever the character that stops it comes next, and also
where the text ends there. -/
theorem scanFrom_stopped (stopped : (scanFrom offset text).stopped = some cause) :
    ∃ before rest, text = before ++ cause.character :: rest ∧ offset + before.length = cause.offset ∧
      step cause.character rest = .invalid ∧
      ∀ more, (∀ x ∈ more.head?, x = cause.character) → scanFrom offset (before ++ more) =
        Scan.followedBy ⟨(scanFrom offset text).lexemes, none⟩ (scanFrom cause.offset more) := by
  induction offset, text using scanFrom_steps with
  | nil offset =>
    rw [scanFrom] at stopped
    cases stopped
  | skip offset c front back h ih =>
    rw [scanFrom_skip h] at stopped ⊢
    obtain ⟨before, rest, rfl, place, invalid, same⟩ := ih stopped
    refine ⟨c :: (front ++ before), rest, by simp, ?_, invalid, fun more alike => ?_⟩
    · rw [← place, add_length_cons]
    · have h' := step_skip_congr h (head?_append_alike alike)
      rw [List.cons_append, List.append_assoc, scanFrom_skip h', same more alike]
  | lexeme offset c front back kind text h ih =>
    rw [scanFrom_lexeme h] at stopped ⊢
    obtain ⟨before, rest, rfl, place, invalid, same⟩ := ih stopped
    refine ⟨c :: (front ++ before), rest, by simp, ?_, invalid, fun more alike => ?_⟩
    · rw [← place, add_length_cons]
    · have h' := step_lexeme_congr h fun x mem => .inl (head?_append_alike alike x mem)
      rw [List.cons_append, List.append_assoc, scanFrom_lexeme h', same more alike,
        ← Scan.cons_followedBy]
      rfl
  | invalid offset c rest h =>
    rw [scanFrom_invalid h] at stopped ⊢
    obtain rfl := Option.some.inj stopped
    exact ⟨[], rest, rfl, rfl, h, fun more _ => rfl⟩

/-- A text that is scanned in full is found to hold the same with more text behind it, as long as that
does not go on with a word; or else a comment is open at its end. -/
theorem scanFrom_append (whole : (scanFrom offset text).stopped = none)
    (apart : ∀ x ∈ more.head?, isWordChar x = false) :
    scanFrom offset (text ++ more) =
        (scanFrom offset text).followedBy (scanFrom (offset + text.length) more) ∨
      ∃ before line, text = before ++ '/' :: '/' :: line ∧ '\n' ∉ line ∧
        (scanFrom offset before).stopped = none := by
  induction offset, text using scanFrom_steps with
  | nil offset =>
    left
    rw [scanFrom]
    rfl
  | skip offset c front back h ih =>
    rw [scanFrom_skip h] at whole ⊢
    rcases step_skip_append h more with h' | ⟨line, e, closed⟩
    · rcases ih whole with same | ⟨before, line, rfl, closed, found⟩
      · left
        rw [List.cons_append, List.append_assoc, scanFrom_skip h', same, add_length_cons]
      · right
        have h' : step c (front ++ before) = .skip front.length :=
          step_skip_congr h fun _ => List.mem_head?_append_of_mem_head?
        refine ⟨c :: (front ++ before), line, by simp, closed, ?_⟩
        rw [scanFrom_skip h', found]
    · exact .inr ⟨[], line, e, closed, by rw [scanFrom]⟩
  | lexeme offset c front back kind text h ih =>
    rw [scanFrom_lexeme h] at whole ⊢
    rcases ih whole with same | ⟨before, line, rfl, closed, found⟩
    · left
      have alike : ∀ x ∈ (back ++ more).head?, x ∈ back.head? ∨ isWordChar x = false := by
        cases back with
        | nil => exact fun x mem => .inr (apart x mem)
        | cons first back => exact fun _ => .inl
      have h' := step_lexeme_congr h alike
      rw [List.cons_append, List.append_assoc, scanFrom_lexeme h', same, add_length_cons,
        Scan.cons_followedBy]
    · right
      have h' : step c (front ++ before) = .lexeme kind text front.length :=
        step_lexeme_congr h fun _ mem => .inl (List.mem_head?_append_of_mem_head? mem)
      refine ⟨c :: (front ++ before), line, by simp, closed, ?_⟩
      rw [scanFrom_lexeme h']
      exact found
  | invalid offset c rest h =>
    rw [scanFrom_invalid h] at whole
    cases whole

theorem isTokenization_scan (whole : (scanFrom 0 text).stopped = none) :
    IsTokenization text (scanFrom 0 text).lexemes :=
  isTokenization_iff_scan.2 (by rw [← whole])

theorem scanFrom_comment {line : List Char} (closed : '\n' ∉ line) (offset : Nat) :
    scanFrom offset ('/' :: '/' :: line) = ⟨[], none⟩ := by
  have all : line.takeWhile (· ≠ '\n') = line :=
    List.takeWhile_eq_self_iff.2 fun x mem => decide_eq_true fun feed => closed (feed ▸ mem)
  have whole : step '/' (('/' :: line) ++ []) = .skip ('/' :: line).length := by
    rw [List.append_nil, step_comment, all]
    rfl
  have skipped := @scanFrom_skip '/' ('/' :: line) [] offset whole
  rwa [List.append_nil, scanFrom] at skipped

/-- Whatever stands before it, a comment that is open at the end stops no scan. -/
theorem EndsInComment.stopped (h : EndsInComment text) : (scanFrom 0 text).stopped = none := by
  obtain ⟨before, line, lexemes, rfl, closed, tokens⟩ := h
  induction e : before.length using Nat.strongRecOn generalizing before line lexemes with
  | ind n ih =>
    have found := isTokenization_iff_scan.1 tokens
    have whole : (scanFrom 0 before).stopped = none := by rw [found]
    have apart : ∀ x ∈ ('/' :: '/' :: line).head?, isWordChar x = false := by rintro x ⟨⟩; decide
    rcases scanFrom_append whole apart with same | ⟨before', line', rfl, closed', found'⟩
    · rw [same, found, scanFrom_comment closed]
      rfl
    · -- The comment is open before already, so the one behind it is part of its line.
      have shorter : before'.length < n := by
        rw [← e, List.length_append, List.length_cons]
        omega
      rw [List.append_assoc]
      refine ih _ shorter before' (line' ++ '/' :: '/' :: line) _ ?_ (isTokenization_scan found') rfl
      simp [closed, closed']

theorem EndsInComment.append (h : EndsInComment text) {c : Char} (other : c ≠ '\n') :
    EndsInComment (text ++ [c]) := by
  obtain ⟨before, line, lexemes, rfl, closed, tokens⟩ := h
  refine ⟨before, line ++ [c], lexemes, by simp, ?_, tokens⟩
  simp [closed, other.symm]

end

def upTo (source : String) (offset : Nat) : String := String.ofList (source.toList.take offset)

structure NothingStands (source : List Char) (offset : Nat) : Prop where
  token : ∀ l : Lexeme, l.offset = offset → ¬ l.Stands source
  comment : ¬ (source[offset]? = some '/' ∧ source[offset + 1]? = some '/')
  blank : ∀ c ∈ source[offset]?, isBlank c = false

theorem nothingStands_iff {source : List Char} {offset : Nat} {c : Char}
    (here : source[offset]? = some c) :
    NothingStands source offset ↔ StartsNothing c source[offset + 1]? := by
  have parts := drop_eq_cons here
  rw [← List.head?_drop, ← step_eq_invalid_iff]
  constructor
  · intro h
    cases taken : step c (source.drop (offset + 1)) with
    | invalid => rfl
    | lexeme kind text extra => exact absurd (Lexeme.Stands.of_step parts taken).1 (h.token _ rfl)
    | skip extra =>
      rcases skip_cases taken with ⟨blank, -⟩ | ⟨rfl, more, second, -⟩
      · exact nomatch (h.blank c here).symm.trans blank
      · exact absurd ⟨here, (getElem?_of_drop second).1⟩ h.comment
  · intro invalid
    have starts := step_eq_invalid_iff.1 invalid
    rw [List.head?_drop] at starts
    refine ⟨?_, fun ⟨slash, second⟩ => ?_, fun x mem => ?_⟩
    · rintro l rfl stands
      have taken := stands.scan
      rw [parts, scanFrom_invalid invalid] at taken
      cases congrArg Scan.lexemes taken
    · exact starts.comment (Option.some.inj (here.symm.trans slash)) second
    · rw [← Option.some.inj (here.symm.trans mem)]
      exact starts.blank

/-- All that an error says of its text. The text before the character is all tokens, the same with and
without what follows, and no comment is open there. More text changes nothing, unless it stands right
behind a dot or a slash. -/
structure LexicalError.Explains (e : LexicalError) (source : String) : Prop where
  before : tokenize (upTo source e.cause.offset) =
    .ok ((scan source).lexemes.map (Lexeme.place (.ofText source.toList)))
  closed : ¬ EndsInComment (upTo source e.cause.offset).toList
  here : source.toList[e.cause.offset]? = some e.cause.character
  starts : StartsNothing e.cause.character source.toList[e.cause.offset + 1]?
  stands : NothingStands source.toList e.cause.offset
  position : ∃ start, LineStart source.toList e.cause.offset start ∧ e.position =
    ⟨(1 + (source.toList.take e.cause.offset).count '\n' : Nat), (e.cause.offset - start + 1 : Nat)⟩
  append : ∀ more : String, e.cause.offset + 1 < source.length ∨
    e.cause.character ≠ '.' ∧ e.cause.character ≠ '/' → tokenize (source ++ more) = .error e

/-- A character that stops a scan starts nothing. Without it or with other text behind it, the text before
it is found to hold the same. -/
structure StopsAt (source : String) (lexemes : List Lexeme) (cause : InvalidCharacter)
    (before rest : List Char) : Prop where
  parts : source.toList = before ++ cause.character :: rest
  place : before.length = cause.offset
  nothing : StartsNothing cause.character rest.head?
  same : ∀ more, (∀ x ∈ more.head?, x = cause.character) → scanFrom 0 (before ++ more) =
    Scan.followedBy ⟨lexemes, none⟩ (scanFrom cause.offset more)

theorem exists_stopsAt {source : String} {lexemes : List Lexeme} {cause : InvalidCharacter}
    (found : scan source = ⟨lexemes, some cause⟩) :
    ∃ before rest, StopsAt source lexemes cause before rest := by
  have scanned : scanFrom 0 source.toList = ⟨lexemes, some cause⟩ := found
  obtain ⟨before, rest, parts, place, invalid, same⟩ := scanFrom_stopped (by rw [scanned])
  rw [scanned] at same
  exact ⟨before, rest, parts, by rw [← place, Nat.zero_add], step_eq_invalid_iff.1 invalid, same⟩

namespace StopsAt

variable {source : String} {lexemes : List Lexeme} {cause : InvalidCharacter} {before rest : List Char}

theorem upTo_eq (h : StopsAt source lexemes cause before rest) :
    upTo source cause.offset = String.ofList before := by
  rw [upTo, h.parts, ← h.place, List.take_left]

theorem tokenize_upTo (h : StopsAt source lexemes cause before rest) :
    tokenize (upTo source cause.offset) =
      .ok (lexemes.map (Lexeme.place (.ofText source.toList))) := by
  have whole := h.same [] nofun
  rw [List.append_nil, scanFrom] at whole
  have found : scan (upTo source cause.offset) = ⟨lexemes, none⟩ := by
    rw [h.upTo_eq, scan, String.toList_ofList, whole, Scan.followedBy, List.append_nil]
  have within := scanFrom_within 0 before
  rw [whole, Nat.zero_add] at within
  rw [tokenize_ok found, h.upTo_eq, String.toList_ofList, h.parts]
  refine congrArg Except.ok (List.map_congr_left fun l mem => ?_)
  have inside := within.lexemes l (List.mem_append_left [] mem)
  rw [Lexeme.place, Lexeme.place, LineTable.position_append before _ inside]

theorem closed (h : StopsAt source lexemes cause before rest) : ¬ EndsInComment before := by
  intro opened
  have other : cause.character ≠ '\n' := by
    intro feed
    have blank := h.nothing.blank
    rw [feed, blank_feed] at blank
    cases blank
  -- With the character behind it, the comment would still be open, and the scan would not stop there.
  have whole := (opened.append other).stopped
  rw [h.same [cause.character] (by rintro x ⟨⟩; rfl),
    scanFrom_invalid (step_eq_invalid_iff.2 (h.nothing.next (.inl (by simp))))] at whole
  cases whole

theorem tokenize_append (h : StopsAt source lexemes cause before rest) {more : String}
    (apart : rest ≠ [] ∨ cause.character ≠ '.' ∧ cause.character ≠ '/') : tokenize (source ++ more) =
      .error ⟨cause, (LineTable.ofText source.toList).position cause.offset⟩ := by
  have alike : (∀ x ∈ (rest ++ more.toList).head?, x ∈ rest.head?) ∨
      cause.character ≠ '.' ∧ cause.character ≠ '/' := by
    refine apart.imp_left fun nonempty => ?_
    obtain ⟨next, rest, rfl⟩ := List.exists_cons_of_ne_nil nonempty
    exact fun _ => id
  have stopped := h.same (cause.character :: (rest ++ more.toList)) (by rintro x ⟨⟩; rfl)
  rw [scanFrom_invalid (step_eq_invalid_iff.2 (h.nothing.next alike))] at stopped
  have text_eq : (source ++ more).toList = before ++ cause.character :: (rest ++ more.toList) := by
    rw [String.toList_append, h.parts, List.append_assoc, List.cons_append]
  have found : scan (source ++ more) = ⟨lexemes ++ [], some cause⟩ := by
    rw [scan, text_eq, stopped]
    rfl
  have inside : cause.offset ≤ source.toList.length := by
    rw [h.parts, ← h.place, List.length_append]
    exact Nat.le_add_right _ _
  rw [tokenize_error found, String.toList_append, LineTable.position_append _ _ inside]

end StopsAt

theorem explains_of_error {source : String} {e : LexicalError} (h : tokenize source = .error e) :
    e.Explains source := by
  cases found : scan source with
  | mk lexemes stopped =>
    cases stopped with
    | none => exact nomatch (tokenize_ok found).symm.trans h
    | some cause =>
      cases (tokenize_error found).symm.trans h
      obtain ⟨before, rest, stops⟩ := exists_stopsAt found
      have behind : ∀ i, source.toList[cause.offset + i]? = (cause.character :: rest)[i]? := fun i => by
        rw [stops.parts, ← stops.place, List.getElem?_append_right (Nat.le_add_right _ _),
          Nat.add_sub_cancel_left]
      have starts : StartsNothing cause.character source.toList[cause.offset + 1]? := by
        rw [behind 1, List.getElem?_cons_succ, ← List.head?_eq_getElem?]
        exact stops.nothing
      refine ⟨?_, ?_, behind 0, starts, (nothingStands_iff (behind 0)).2 starts, ?_,
        fun more apart => stops.tokenize_append ?_⟩
      · rw [found]
        exact stops.tokenize_upTo
      · rw [stops.upTo_eq, String.toList_ofList]
        exact stops.closed
      · obtain ⟨start, opens, -⟩ := LineTable.exists_lineStart source.toList cause.offset
        exact ⟨start, opens, by rw [LineTable.position_eq opens, Nat.add_comm 1]⟩
      · refine apart.imp_left ?_
        rintro inside rfl
        rw [← String.length_toList, stops.parts, ← stops.place, List.length_append] at inside
        exact Nat.lt_irrefl _ inside

theorem error_of_nothingStands {source : String} {offset : Nat} {c : Char} {tokens : List Token}
    (here : source.toList[offset]? = some c) (ok : tokenize (upTo source offset) = .ok tokens)
    (closed : ¬ EndsInComment (upTo source offset).toList)
    (nothing : NothingStands source.toList offset) :
    tokenize source = .error ⟨⟨offset, c⟩, (LineTable.ofText source.toList).position offset⟩ := by
  obtain ⟨lexemes, covered, -⟩ := tokenize_ok_iff.1 ok
  rw [upTo, String.toList_ofList] at closed covered
  have starts := (nothingStands_iff here).1 nothing
  have length : (source.toList.take offset).length = offset :=
    List.length_take_of_le (Nat.le_of_lt (List.getElem?_eq_some_iff.1 here).1)
  have before := isTokenization_iff_scan.1 covered
  have other : isWordChar c = false := by
    rw [isWordChar_eq, isLetter, starts.digit, starts.letter, decide_eq_false starts.underscore]
    rfl
  rw [← List.head?_drop, ← step_eq_invalid_iff] at starts
  have apart : ∀ x ∈ (c :: source.toList.drop (offset + 1)).head?, isWordChar x = false := by
    rintro x ⟨⟩
    exact other
  rcases scanFrom_append (by rw [before]) apart with same | ⟨before, line, e, feedless, whole⟩
  · rw [before, scanFrom_invalid starts, length, Nat.zero_add, ← drop_eq_cons here,
      List.take_append_drop] at same
    exact tokenize_error same
  · exact absurd ⟨before, line, _, e, feedless, isTokenization_scan whole⟩ closed

/-- A text has an error just where it stops being tokens: an error is explained by the text, and where
the text before a character is all tokens, with no comment open, and nothing stands at the character,
there the error is. -/
theorem tokenize_fails (source : String) :
    (∀ e, tokenize source = .error e → e.Explains source) ∧
    ∀ offset c tokens, source.toList[offset]? = some c → tokenize (upTo source offset) = .ok tokens →
      ¬ EndsInComment (upTo source offset).toList → NothingStands source.toList offset →
      ∃ e, tokenize source = .error e ∧ e.cause = ⟨offset, c⟩ := by
  refine ⟨fun e => explains_of_error, fun offset c tokens here ok closed nothing => ?_⟩
  exact ⟨_, error_of_nothingStands here ok closed nothing, rfl⟩

/-- The third dot, behind a comment and the two dots that are a token, is the one that starts nothing. -/
theorem tokenize_fails_third_dot :
    let source := "x //.\n 1...;"
    let e : LexicalError := ⟨⟨10, '.'⟩, ⟨2, 5⟩⟩
    tokenize source = .error e ∧ e.Explains source ∧ tokenize (source ++ ".") = .error e ∧
      source.toList[10]? = some '.' ∧ (∃ tokens, tokenize (upTo source 10) = .ok tokens) ∧
      ¬ EndsInComment (upTo source 10).toList ∧ NothingStands source.toList 10 ∧
      ∃ e, tokenize source = .error e ∧ e.cause = ⟨10, '.'⟩ := by
  intro source e
  have failed : tokenize source = .error e := by decide +kernel
  have explained : e.Explains source := (tokenize_fails source).1 e failed
  exact ⟨failed, explained, explained.append "." (.inl (by decide)), explained.here,
    ⟨_, explained.before⟩, explained.closed, explained.stands,
    (tokenize_fails source).2 10 '.' _ explained.here explained.before explained.closed
      explained.stands⟩

end DeclarationChecker.Token
