import DeclarationChecker.Proofs.Text.LineTable
import DeclarationChecker.Proofs.Token.Spelling

set_option autoImplicit false

namespace DeclarationChecker.Token

open Text

/-- Letters, digits and underscores that do not start with a digit and are not continued by the
character after them. -/
structure IsWord (chars : List Char) (next : Option Char) : Prop where
  every : ∀ c ∈ chars, isWordChar c = true
  first : ∀ c ∈ chars.head?, c.isDigit = false
  ends : ∀ c ∈ next, isWordChar c = false

/-- The characters that make up a token of the kind, when `next` follows them. -/
def Kind.Consists (kind : Kind) (chars : List Char) (next : Option Char) : Prop :=
  match kind with
  | .number => (∀ c ∈ chars, c.isDigit = true) ∧ ∀ c ∈ next, c.isDigit = false
  | .keyword => IsWord chars next ∧ String.ofList (chars.map Char.toLower) ∈ keywords
  | .identifier => IsWord chars next ∧ String.ofList (chars.map Char.toLower) ∉ keywords
  | .punctuation => ∃ mark ∈ punctuationMarks, chars = [mark]
  | .dots => chars = ['.', '.']
  | .endOfInput => False

def Kind.written (kind : Kind) (chars : List Char) : String :=
  if kind = .keyword then String.ofList (chars.map Char.toLower) else String.ofList chars

def Lexeme.stretch (source : List Char) (l : Lexeme) : List Char :=
  (source.drop l.offset).take l.text.length

structure Lexeme.Stands (source : List Char) (l : Lexeme) : Prop where
  nonempty : 0 < l.text.length
  inside : l.offset + l.text.length ≤ source.length
  text : l.text = l.kind.written (l.stretch source)
  consists : l.kind.Consists (l.stretch source) source[l.offset + l.text.length]?

structure LineEnd (text : List Char) (offset ending : Nat) : Prop where
  le : offset ≤ ending
  within : ∀ i, offset ≤ i → i < ending → text[i]? ≠ some '\n'
  closes : ending = text.length ∨ text[ending]? = some '\n'

/-- White space and comments, from one offset to another. A comment goes up to the end of its
line. -/
inductive Gap (source : List Char) : Nat → Nat → Prop
  | nil (offset : Nat) : Gap source offset offset
  | blank {offset stop : Nat} {c : Char} (here : source[offset]? = some c) (blank : isBlank c = true)
      (rest : Gap source (offset + 1) stop) : Gap source offset stop
  | comment {offset ending stop : Nat} (opens : source[offset]? = some '/')
      (opens' : source[offset + 1]? = some '/') (ends : LineEnd source (offset + 2) ending)
      (rest : Gap source ending stop) : Gap source offset stop

def spaces (stop : Nat) : Nat → List Lexeme → List (Nat × Nat)
  | offset, [] => [(offset, stop)]
  | offset, l :: rest => (offset, l.offset) :: spaces stop (l.offset + l.text.length) rest

/-- The lexemes follow each other in the text, and all of it that is in none of them is white space
and comments. -/
structure IsTokenization (source : List Char) (lexemes : List Lexeme) : Prop where
  ordered : lexemes.Pairwise fun l m => l.offset < m.offset ∧ l.offset + l.text.length ≤ m.offset
  stands : ∀ l ∈ lexemes, l.Stands source
  gaps : ∀ space ∈ spaces source.length 0 lexemes, Gap source space.1 space.2

/-! What each step of a scan takes. -/

theorem takeWhile_eq {p : Char → Bool} {chars more : List Char} (all : ∀ c ∈ chars, p c = true)
    (ends : ∀ c ∈ more.head?, p c = false) : (chars ++ more).takeWhile p = chars := by
  rw [List.takeWhile_append_of_pos all]
  cases more with
  | nil => exact List.append_nil _
  | cons c more => rw [List.takeWhile_cons_of_neg (by simp [ends c rfl]), List.append_nil]

theorem head?_dropWhile {p : Char → Bool} (chars : List Char) :
    ∀ c ∈ (chars.dropWhile p).head?, p c = false := by
  intro c mem
  have stopped := List.head?_dropWhile_not p chars
  rw [Option.mem_def.1 mem] at stopped
  exact stopped

theorem toNat_of_isWordChar {c : Char} (h : isWordChar c = true) :
    48 ≤ c.toNat ∧ c.toNat ≤ 57 ∨ 65 ≤ c.toNat ∧ c.toNat ≤ 90 ∨ c.toNat = 95 ∨
      97 ≤ c.toNat ∧ c.toNat ≤ 122 := by
  change (((c.isUpper || c.isLower) || c.isDigit) || decide (c = '_')) = true at h
  simp only [Bool.or_eq_true, decide_eq_true_eq] at h
  rcases h with ((upper | lower) | digit) | rfl
  · exact .inr (.inl (of_decide_eq_true upper))
  · obtain ⟨least, most⟩ := Bool.and_eq_true_iff.1 lower
    exact .inr (.inr (.inr ⟨of_decide_eq_true least, of_decide_eq_true most⟩))
  · exact .inl (Char.isDigit_iff_toNat.1 digit)
  · decide

theorem isBlank_eq_false {c : Char} (word : isWordChar c = true) : isBlank c = false := by
  have code := toNat_of_isWordChar word
  simp only [isBlank, blankRanges, inRanges, Bool.and_eq_false_iff, Bool.or_eq_false_iff,
    decide_eq_false_iff_not]
  omega

theorem isWordChar_eq (c : Char) : isWordChar c = (c.isDigit || isLetter c) := by
  rw [isWordChar, isLetter, Char.isAlphanum, Bool.or_comm c.isAlpha, Bool.or_assoc]

section

variable {c : Char} {rest : List Char}

theorem step_blank (blank : isBlank c = true) : step c rest = .skip 0 := by
  rw [step, if_pos blank]

theorem step_comment : step '/' ('/' :: rest) =
    .skip ((rest.takeWhile (· ≠ '\n')).length + 1) := by
  rw [step, if_neg (by decide), if_pos ⟨rfl, rfl⟩, List.takeWhile_cons_of_pos (by decide)]
  rfl

theorem step_dots : step '.' ('.' :: rest) = .lexeme .dots ".." 1 := by
  rw [step, if_neg (by decide), if_neg (by simp)]
  exact if_pos ⟨rfl, rfl⟩

theorem step_mark (mark : c ∈ punctuationMarks) :
    step c rest = .lexeme .punctuation (String.ofList [c]) 0 := by
  have others : punctuationMarks.all (fun c => !isBlank c && c != '/' && c != '.') = true := by decide
  have other := List.all_eq_true.1 others c mark
  simp only [Bool.and_eq_true, Bool.not_eq_true', bne_iff_ne] at other
  obtain ⟨⟨blank, slash⟩, dot⟩ := other
  rw [step, if_neg (Bool.eq_false_iff.1 blank), if_neg fun h => slash h.1, if_neg fun h => dot h.1,
    if_pos mark]

theorem step_of_isWordChar (word : isWordChar c = true) : step c rest =
    if c.isDigit then .lexeme .number (String.ofList (c :: rest.takeWhile Char.isDigit))
      (rest.takeWhile Char.isDigit).length
    else .lexeme (classify (c :: rest.takeWhile isWordChar)).1
      (classify (c :: rest.takeWhile isWordChar)).2 (rest.takeWhile isWordChar).length := by
  have other : ∀ mark ∈ '/' :: '.' :: punctuationMarks, c ≠ mark := by
    rintro mark mem rfl
    have none : ('/' :: '.' :: punctuationMarks).all (fun mark => !isWordChar mark) = true := by decide
    have other := List.all_eq_true.1 none c mem
    rw [word] at other
    cases other
  have mark : c ∉ punctuationMarks := fun mem =>
    other c (List.mem_cons_of_mem _ (List.mem_cons_of_mem _ mem)) rfl
  rw [step, if_neg (by rw [isBlank_eq_false word]; exact Bool.false_ne_true),
    if_neg fun h => other '/' (by decide) h.1, if_neg fun h => other '.' (by decide) h.1, if_neg mark]
  split
  · rfl
  · rename_i digit
    rw [isWordChar_eq, Bool.eq_false_iff.2 digit, Bool.false_or] at word
    rw [if_pos word]

variable {kind : Kind} {text : String} {extra : Nat} {chars more : List Char}

theorem classify_consists {first : Char} {others : List Char} {next : Option Char}
    (word : IsWord (first :: others) next) : (classify (first :: others)).1.Consists (first :: others) next ∧
      (classify (first :: others)).2 = (classify (first :: others)).1.written (first :: others) := by
  unfold classify
  dsimp only
  split
  · rename_i listed
    exact ⟨⟨word, listed⟩, rfl⟩
  · rename_i free
    exact ⟨⟨word, free⟩, rfl⟩

theorem step_word {others : List Char} (word : IsWord (c :: others) more.head?) :
    step c (others ++ more) = .lexeme (classify (c :: others)).1 (classify (c :: others)).2
      others.length := by
  obtain ⟨first, every⟩ := List.forall_mem_cons.1 word.every
  rw [step_of_isWordChar first, if_neg (Bool.eq_false_iff.1 (word.first c rfl)),
    takeWhile_eq every word.ends]

theorem consists_of_step (h : step c rest = .lexeme kind text extra) :
    ∃ chars more, c :: rest = chars ++ more ∧ chars.length = extra + 1 ∧
      text = kind.written chars ∧ kind.Consists chars more.head? := by
  unfold step at h
  split at h
  · cases h
  split at h
  · cases h
  split at h
  · rename_i dots
    obtain ⟨rfl, second⟩ := dots
    obtain ⟨more, rfl⟩ := List.head?_eq_some_iff.1 second
    cases h
    exact ⟨['.', '.'], more, rfl, rfl, rfl, rfl⟩
  split at h
  · rename_i mark
    cases h
    exact ⟨[c], rest, rfl, rfl, rfl, c, mark, rfl⟩
  split at h
  · rename_i digit
    cases h
    refine ⟨c :: rest.takeWhile Char.isDigit, rest.dropWhile Char.isDigit, ?_, rfl, rfl, ?_, ?_⟩
    · rw [List.cons_append, List.takeWhile_append_dropWhile]
    · exact List.forall_mem_cons.2 ⟨digit, fun _ => List.mem_takeWhile_imp⟩
    · exact head?_dropWhile rest
  split at h
  · rename_i digit letter
    cases h
    have first : isWordChar c = true := by rw [isWordChar_eq, letter, Bool.or_true]
    have word : IsWord (c :: rest.takeWhile isWordChar) (rest.dropWhile isWordChar).head? :=
      ⟨List.forall_mem_cons.2 ⟨first, fun _ => List.mem_takeWhile_imp⟩,
        fun _ mem => Option.some.inj mem ▸ Bool.eq_false_iff.2 digit, head?_dropWhile rest⟩
    obtain ⟨consists, written⟩ := classify_consists word
    refine ⟨_, _, ?_, rfl, written, consists⟩
    rw [List.cons_append, List.takeWhile_append_dropWhile]
  · cases h

theorem step_of_consists (nonempty : chars ≠ []) (consists : kind.Consists chars more.head?) :
    ∃ c rest, chars ++ more = c :: rest ∧
      step c rest = .lexeme kind (kind.written chars) (chars.length - 1) := by
  obtain ⟨c, others, rfl⟩ := List.exists_cons_of_ne_nil nonempty
  refine ⟨c, others ++ more, rfl, ?_⟩
  cases kind with
  | number =>
    obtain ⟨digits, ends⟩ := consists
    obtain ⟨first, digits⟩ := List.forall_mem_cons.1 digits
    rw [step_of_isWordChar (by rw [isWordChar_eq, first, Bool.true_or]), if_pos first,
      takeWhile_eq digits ends]
    rfl
  | keyword =>
    obtain ⟨word, listed⟩ := consists
    rw [step_word word, classify, if_pos listed]
    rfl
  | identifier =>
    obtain ⟨word, free⟩ := consists
    rw [step_word word, classify, if_neg free]
    rfl
  | punctuation =>
    obtain ⟨mark, mem, e⟩ := consists
    obtain ⟨rfl, rfl⟩ := List.cons.inj e
    exact step_mark mem
  | dots =>
    obtain ⟨rfl, rfl⟩ := List.cons.inj consists
    exact step_dots
  | endOfInput => exact consists.elim

theorem skip_cases (h : step c rest = .skip extra) : isBlank c = true ∧ extra = 0 ∨
    c = '/' ∧ ∃ more, rest = '/' :: more ∧ extra = (more.takeWhile (· ≠ '\n')).length + 1 := by
  unfold step at h
  split at h
  · rename_i blank
    cases h
    exact .inl ⟨blank, rfl⟩
  split at h
  · rename_i comment
    obtain ⟨rfl, second⟩ := comment
    obtain ⟨more, rfl⟩ := List.head?_eq_some_iff.1 second
    rw [List.takeWhile_cons_of_pos (by decide)] at h
    cases h
    exact .inr ⟨rfl, more, rfl, rfl⟩
  repeat' split at h
  all_goals cases h

theorem skip_le (h : step c rest = .skip extra) : extra ≤ rest.length := by
  rcases skip_cases h with ⟨-, rfl⟩ | ⟨-, more, rfl, rfl⟩
  · exact Nat.zero_le _
  · exact Nat.succ_le_succ (List.takeWhile_prefix _).length_le

theorem lexeme_le (h : step c rest = .lexeme kind text extra) : extra ≤ rest.length := by
  obtain ⟨chars, more, parts, length, -⟩ := consists_of_step h
  have whole := congrArg List.length parts
  rw [List.length_cons, List.length_append] at whole
  omega

end

theorem length_written (kind : Kind) (chars : List Char) : (kind.written chars).length = chars.length := by
  unfold Kind.written
  split
  · rw [String.length_ofList, List.length_map]
  · exact String.length_ofList

/-! What a scan finds covers the text, and whatever covers a text is what a scan finds. -/

def Covers (source : List Char) : Nat → List Lexeme → Prop
  | offset, [] => Gap source offset source.length
  | offset, l :: rest =>
    Gap source offset l.offset ∧ l.Stands source ∧ Covers source (l.offset + l.text.length) rest

section

variable {source : List Char} {offset stop extra : Nat} {c : Char} {rest : List Char}
  {kind : Kind} {text : String} {lexemes : List Lexeme} {l : Lexeme}

theorem drop_eq_cons (here : source[offset]? = some c) :
    source.drop offset = c :: source.drop (offset + 1) := by
  obtain ⟨inside, rfl⟩ := List.getElem?_eq_some_iff.1 here
  exact List.drop_eq_getElem_cons inside

theorem getElem?_of_drop (here : source.drop offset = c :: rest) :
    source[offset]? = some c ∧ source.drop (offset + 1) = rest := by
  rw [← List.head?_drop, ← List.tail_drop, here]
  exact ⟨rfl, rfl⟩

theorem Gap.le (gap : Gap source offset stop) : offset ≤ stop := by
  induction gap with
  | nil => exact Nat.le_refl _
  | blank _ _ _ ih => omega
  | comment _ _ ends _ ih =>
    have le := ends.le
    omega

theorem drop_eq_append (ordered : offset ≤ stop) :
    source.drop offset = (source.drop offset).take (stop - offset) ++ source.drop stop := by
  have parts := List.take_append_drop (stop - offset) (source.drop offset)
  rw [List.drop_drop, Nat.add_sub_cancel' ordered] at parts
  exact parts.symm

theorem lineEnd_takeWhile (inside : offset ≤ source.length) :
    LineEnd source offset (offset + ((source.drop offset).takeWhile (· ≠ '\n')).length) := by
  have parts := List.takeWhile_append_dropWhile (p := (· ≠ '\n')) (l := source.drop offset)
  have body := fun c => List.mem_takeWhile_imp (p := (· ≠ '\n')) (l := source.drop offset) (x := c)
  have stopped := head?_dropWhile (p := (· ≠ '\n')) (source.drop offset)
  -- From here on only the two parts of what is left count, and what is known of their characters.
  generalize (source.drop offset).takeWhile (· ≠ '\n') = front at parts body
  generalize (source.drop offset).dropWhile (· ≠ '\n') = back at parts stopped
  have at_ : ∀ i, source[offset + i]? = (front ++ back)[i]? := fun i => by
    rw [parts, List.getElem?_drop]
  refine ⟨Nat.le_add_right _ _, fun i behind before feed => ?_, ?_⟩
  · obtain ⟨j, rfl⟩ := Nat.exists_eq_add_of_le behind
    rw [at_, List.getElem?_append_left (by omega)] at feed
    exact of_decide_eq_true (body _ (List.mem_of_getElem? feed)) rfl
  · rw [at_, List.getElem?_append_right (Nat.le_refl _), Nat.sub_self, ← List.head?_eq_getElem?]
    cases back with
    | nil =>
      have length := congrArg List.length parts
      rw [List.append_nil, List.length_drop] at length
      exact .inl (by omega)
    | cons c back =>
      have feed := stopped c rfl
      rw [decide_eq_false_iff_not, Decidable.not_not] at feed
      exact .inr (congrArg some feed)

theorem LineEnd.not_lt {ending ending' : Nat} (h : LineEnd source offset ending)
    (h' : LineEnd source offset ending') : ¬ ending < ending' := by
  intro lt
  rcases h.closes with rfl | feed
  · rcases h'.closes with rfl | feed'
    · exact Nat.lt_irrefl _ lt
    · exact Nat.lt_asymm lt (List.getElem?_eq_some_iff.1 feed').1
  · exact h'.within ending h.le lt feed

/-- A comment ends where a scan goes on. -/
theorem LineEnd.eq {ending : Nat} (h : LineEnd source offset ending) (inside : offset ≤ source.length) :
    offset + ((source.drop offset).takeWhile (· ≠ '\n')).length = ending :=
  Nat.le_antisymm (Nat.not_lt.1 (h.not_lt (lineEnd_takeWhile inside)))
    (Nat.not_lt.1 ((lineEnd_takeWhile inside).not_lt h))

theorem Gap.scan (gap : Gap source offset stop) :
    scanFrom offset (source.drop offset) = scanFrom stop (source.drop stop) := by
  induction gap with
  | nil => rfl
  | blank here blank _ ih =>
    rw [drop_eq_cons here, scanFrom, step_blank blank, ← ih]
    rfl
  | @comment offset ending stop opens opens' ends _ ih =>
    have inside : offset + 2 ≤ source.length := (List.getElem?_eq_some_iff.1 opens').1
    have ahead : offset + 1 + (((source.drop (offset + 2)).takeWhile (· ≠ '\n')).length + 1) = ending := by
      have ends := ends.eq inside
      omega
    rw [drop_eq_cons opens, scanFrom, drop_eq_cons opens', step_comment, ← drop_eq_cons opens']
    dsimp only
    rw [List.drop_drop, ahead, ih]

theorem Lexeme.Stands.scan (h : l.Stands source) : scanFrom l.offset (source.drop l.offset) =
    (scanFrom (l.offset + l.text.length) (source.drop (l.offset + l.text.length))).cons l := by
  obtain ⟨kind, text, offset⟩ := l
  have length : (Lexeme.stretch source ⟨kind, text, offset⟩).length = text.length := by
    rw [Lexeme.stretch, List.length_take, List.length_drop]
    have inside := h.inside
    dsimp only at inside ⊢
    omega
  have parts : source.drop offset = Lexeme.stretch source ⟨kind, text, offset⟩ ++
      source.drop (offset + text.length) := by
    have parts := @drop_eq_append source _ _ (Nat.le_add_right offset text.length)
    rwa [Nat.add_sub_cancel_left] at parts
  have consists := h.consists
  rw [← List.head?_drop] at consists
  have positive := h.nonempty
  obtain ⟨c, rest, e, taken⟩ := step_of_consists
    (List.ne_nil_of_length_pos (length.symm ▸ positive)) consists
  rw [← parts] at e
  rw [← h.text, length] at taken
  dsimp only at positive taken ⊢
  have ahead : offset + 1 + (text.length - 1) = offset + text.length := by omega
  rw [e, scanFrom, taken, ← (getElem?_of_drop e).2]
  dsimp only
  rw [List.drop_drop, ahead]

theorem scan_of_covers (h : Covers source offset lexemes) :
    scanFrom offset (source.drop offset) = ⟨lexemes, none⟩ := by
  induction lexemes generalizing offset with
  | nil =>
    rw [Gap.scan h, List.drop_length, scanFrom]
  | cons l lexemes ih =>
    obtain ⟨gap, stands, others⟩ := h
    rw [gap.scan, stands.scan, ih others]
    rfl

theorem Gap.of_skip (here : source.drop offset = c :: rest) (h : step c rest = .skip extra)
    (later : Gap source (offset + 1 + extra) stop) : Gap source offset stop := by
  obtain ⟨first, others⟩ := getElem?_of_drop here
  rcases skip_cases h with ⟨blank, rfl⟩ | ⟨rfl, more, rfl, rfl⟩
  · exact .blank first blank later
  · obtain ⟨second, left⟩ := getElem?_of_drop others
    have ends := lineEnd_takeWhile (List.getElem?_eq_some_iff.1 second).1
    rw [left] at ends
    have ahead : offset + 1 + ((more.takeWhile (· ≠ '\n')).length + 1) =
        offset + 1 + 1 + (more.takeWhile (· ≠ '\n')).length := by omega
    exact .comment first second ends (ahead ▸ later)

theorem Lexeme.Stands.of_step (here : source.drop offset = c :: rest)
    (h : step c rest = .lexeme kind text extra) :
    Lexeme.Stands source ⟨kind, text, offset⟩ ∧ text.length = extra + 1 := by
  obtain ⟨chars, more, parts, length, rfl, consists⟩ := consists_of_step h
  rw [← here] at parts
  have length' : (kind.written chars).length = chars.length := length_written kind chars
  have stretch : Lexeme.stretch source ⟨kind, kind.written chars, offset⟩ = chars := by
    rw [Lexeme.stretch, length', parts, List.take_left]
  have next : source[offset + (kind.written chars).length]? = more.head? := by
    rw [← List.getElem?_drop, parts, length', List.getElem?_append_right (Nat.le_refl _), Nat.sub_self,
      List.head?_eq_getElem?]
  refine ⟨⟨?_, ?_, ?_, ?_⟩, length'.trans length⟩
  · dsimp only
    omega
  · have whole := congrArg List.length parts
    rw [List.length_drop, List.length_append] at whole
    dsimp only
    omega
  · rw [stretch]
  · rw [stretch]
    exact next.symm ▸ consists

theorem Covers.of_skip (here : source.drop offset = c :: rest) (h : step c rest = .skip extra)
    (later : Covers source (offset + 1 + extra) lexemes) : Covers source offset lexemes := by
  cases lexemes with
  | nil => exact Gap.of_skip here h later
  | cons l lexemes => exact ⟨.of_skip here h later.1, later.2⟩

theorem drop_of_step (here : source.drop offset = c :: rest) (inside : extra ≤ rest.length) :
    source.drop (offset + 1 + extra) = rest.drop extra ∧ offset + 1 + extra ≤ source.length := by
  constructor
  · rw [← (getElem?_of_drop here).2, List.drop_drop]
  · have length := congrArg List.length here
    rw [List.length_drop, List.length_cons] at length
    omega

theorem covers_of_scan (here : source.drop offset = rest) (inside : offset ≤ source.length)
    (whole : (scanFrom offset rest).stopped = none) :
    Covers source offset (scanFrom offset rest).lexemes := by
  induction offset, rest using scanFrom.induct with
  | case1 offset =>
    rw [scanFrom]
    have ends : offset = source.length := by
      have length := congrArg List.length here
      rw [List.length_drop, List.length_nil] at length
      omega
    exact ends ▸ .nil offset
  | case2 offset c rest extra h ih =>
    rw [scanFrom, h] at whole ⊢
    obtain ⟨ahead, inside⟩ := drop_of_step here (skip_le h)
    exact .of_skip here h (ih ahead inside whole)
  | case3 offset c rest kind text extra h ih =>
    rw [scanFrom, h] at whole ⊢
    obtain ⟨ahead, inside⟩ := drop_of_step here (lexeme_le h)
    obtain ⟨stands, length⟩ := Lexeme.Stands.of_step here h
    refine ⟨.nil offset, stands, ?_⟩
    dsimp only
    rw [length, Nat.add_comm extra, ← Nat.add_assoc]
    exact ih ahead inside whole
  | case4 offset c rest h =>
    rw [scanFrom, h] at whole
    cases whole

theorem Covers.le (h : Covers source offset lexemes) : ∀ l ∈ lexemes, offset ≤ l.offset := by
  induction lexemes generalizing offset with
  | nil => exact fun _ mem => nomatch mem
  | cons l lexemes ih =>
    obtain ⟨gap, -, others⟩ := h
    refine List.forall_mem_cons.2 ⟨gap.le, fun m mem => ?_⟩
    have le := ih others m mem
    have le' := gap.le
    omega

theorem Covers.ordered (h : Covers source offset lexemes) :
    lexemes.Pairwise fun l m => l.offset < m.offset ∧ l.offset + l.text.length ≤ m.offset := by
  induction lexemes generalizing offset with
  | nil => exact .nil
  | cons l lexemes ih =>
    obtain ⟨-, stands, others⟩ := h
    refine List.pairwise_cons.2 ⟨fun m mem => ?_, ih others⟩
    have le := others.le m mem
    have positive := stands.nonempty
    omega

theorem covers_iff : Covers source offset lexemes ↔ (∀ l ∈ lexemes, l.Stands source) ∧
    ∀ space ∈ spaces source.length offset lexemes, Gap source space.1 space.2 := by
  induction lexemes generalizing offset with
  | nil => simp [Covers, spaces]
  | cons l lexemes ih =>
    rw [Covers, ih, spaces, List.forall_mem_cons, List.forall_mem_cons]
    exact ⟨fun ⟨gap, stands, others, gaps⟩ => ⟨⟨stands, others⟩, gap, gaps⟩,
      fun ⟨⟨stands, others⟩, gap, gaps⟩ => ⟨gap, stands, others, gaps⟩⟩

theorem isTokenization_iff : IsTokenization source lexemes ↔ Covers source 0 lexemes := by
  constructor
  · intro h
    exact covers_iff.2 ⟨h.stands, h.gaps⟩
  · intro h
    obtain ⟨stands, gaps⟩ := covers_iff.1 h
    exact ⟨h.ordered, stands, gaps⟩

/-- A text is covered by some lexemes just if these are what a scan finds before its end. -/
theorem isTokenization_iff_scan : IsTokenization source lexemes ↔ scanFrom 0 source = ⟨lexemes, none⟩ := by
  rw [isTokenization_iff]
  constructor
  · exact scan_of_covers
  · intro found
    have covers := @covers_of_scan source 0 source rfl (Nat.zero_le _)
    rw [found] at covers
    exact covers rfl

end

theorem tokenize_ok {source : String} {lexemes : List Lexeme} (found : scan source = ⟨lexemes, none⟩) :
    tokenize source = .ok (lexemes.map (Lexeme.place (.ofText source.toList))) := by
  unfold tokenize
  dsimp only
  rw [found]

theorem tokenize_error {source : String} {lexemes : List Lexeme} {cause : InvalidCharacter}
    (found : scan source = ⟨lexemes, some cause⟩) :
    tokenize source = .error ⟨cause, (LineTable.ofText source.toList).position cause.offset⟩ := by
  unfold tokenize
  dsimp only
  rw [found]

theorem IsTokenization.unique {source : List Char} {lexemes lexemes' : List Lexeme}
    (h : IsTokenization source lexemes) (h' : IsTokenization source lexemes') : lexemes = lexemes' := by
  have same := (isTokenization_iff_scan.1 h).symm.trans (isTokenization_iff_scan.1 h')
  exact congrArg Scan.lexemes same

section

variable {source : String} {tokens : List Token}

theorem tokenize_ok_iff : tokenize source = .ok tokens ↔
    ∃ lexemes, IsTokenization source.toList lexemes ∧
      tokens = lexemes.map (Lexeme.place (.ofText source.toList)) := by
  cases found : scan source with
  | mk lexemes stopped =>
    cases stopped with
    | none =>
      have covered := isTokenization_iff_scan.2 found
      rw [tokenize_ok found]
      constructor
      · rintro ⟨⟩
        exact ⟨lexemes, covered, rfl⟩
      · rintro ⟨others, h, rfl⟩
        rw [h.unique covered]
    | some cause =>
      rw [tokenize_error found]
      constructor
      · exact fun h => nomatch h
      · rintro ⟨others, h, -⟩
        exact nomatch (isTokenization_iff_scan.1 h).symm.trans found

/-- The end of the input stands behind the last token, since that has some text. -/
theorem before_endAfter {last : Token} (initial : List Token) (nonempty : 0 < last.text.length) :
    last.position.Before (endAfter (initial ++ [last])).position := by
  rw [endAfter, List.getLast?_concat]
  exact .inr ⟨rfl, by dsimp only; omega⟩

theorem tokenize_ordered (ok : tokenize source = .ok tokens) :
    (tokens ++ [endAfter tokens]).Pairwise fun t u => t.position.Before u.position := by
  obtain ⟨lexemes, h, rfl⟩ := tokenize_ok_iff.1 ok
  have ordered : (lexemes.map (Lexeme.place (.ofText source.toList))).Pairwise
      fun t u => t.position.Before u.position :=
    List.pairwise_map.2 (h.ordered.imp fun before => LineTable.position_before _ before.1)
  rcases List.eq_nil_or_concat lexemes with rfl | ⟨initial, last, rfl⟩
  · exact List.pairwise_singleton _ _
  · rw [List.concat_eq_append] at h ordered ⊢
    have ending := @before_endAfter (last.place (.ofText source.toList))
      (initial.map (Lexeme.place (.ofText source.toList)))
      (h.stands last (List.mem_append_right _ List.mem_cons_self)).nonempty
    rw [List.map_append] at ordered ⊢
    refine List.pairwise_append.2 ⟨ordered, List.pairwise_singleton _ _, fun t mem u stop => ?_⟩
    rw [List.mem_singleton.1 stop]
    rcases List.mem_append.1 mem with earlier | here
    · exact ((List.pairwise_append.1 ordered).2.2 t earlier _ List.mem_cons_self).trans ending
    · rw [List.mem_singleton.1 here]
      exact ending

end

/-- The tokens of a text are the only ones that cover it, each with its line and column. A text that
is covered by none has no tokens. -/
theorem tokenize_exact (source : String) (tokens : List Token) :
    tokenize source = .ok tokens ↔ ∃ lexemes, IsTokenization source.toList lexemes ∧
      (∀ others, IsTokenization source.toList others → others = lexemes) ∧
      tokens = lexemes.map (Lexeme.place (.ofText source.toList)) := by
  rw [tokenize_ok_iff]
  constructor
  · rintro ⟨lexemes, h, e⟩
    exact ⟨lexemes, h, fun others h' => h'.unique h, e⟩
  · rintro ⟨lexemes, h, -, e⟩
    exact ⟨lexemes, h, e⟩

end DeclarationChecker.Token
