import DeclarationChecker.Proofs.Json.Numbers
import DeclarationChecker.Proofs.Json.Strings

set_option autoImplicit false

namespace DeclarationChecker.Json

open Text

inductive Spells : Lexeme → List Char → Prop
  | openArray : Spells .openArray ['[']
  | closeArray : Spells .closeArray [']']
  | openObject : Spells .openObject ['\x7b']
  | closeObject : Spells .closeObject ['\x7d']
  | comma : Spells .comma [',']
  | colon : Spells .colon [':']
  | string {text : CodePoints} {spelling : List Char} (spelled : SpellsString text spelling) :
      Spells (.string text) spelling
  | null : Spells (.scalar .null) "null".toList
  | falsehood : Spells (.scalar (.boolean false)) "false".toList
  | truth : Spells (.scalar (.boolean true)) "true".toList
  | number {n : NumberSpelling} (spelled : IsNumber n)
      (short : n.tail = [] → n.integer.length ≤ maxIntegerDigits) :
      Spells (.scalar (.number (String.ofList n.characters))) n.characters

/-- Lexemes in a text, with white space in any place before, between and behind them. -/
inductive Written : List Lexeme → List Char → Prop
  | nil {white : List Char} (blank : ∀ c ∈ white, isJsonBlank c = true) : Written [] white
  | cons {l : Lexeme} {ls : List Lexeme} {white spelling text : List Char}
      (blank : ∀ c ∈ white, isJsonBlank c = true) (spelled : Spells l spelling)
      (rest : Written ls text) : Written (l :: ls) (white ++ (spelling ++ text))

namespace Lexeme

def isScalar : Lexeme → Bool
  | scalar _ => true
  | _ => false

def delimits : Lexeme → Bool
  | comma | closeArray | closeObject => true
  | _ => false

end Lexeme

def Delimited : List Lexeme → Prop
  | [] => True
  | l :: ls => (l.isScalar = true → ∀ next ∈ ls.head?, next.delimits = true) ∧ Delimited ls

theorem Written.next {l : Lexeme} {ls : List Lexeme} {spelling text : List Char}
    (spelled : Spells l spelling) (rest : Written ls text) : Written (l :: ls) (spelling ++ text) :=
  .cons (List.forall_mem_nil _) spelled rest

theorem exists_written {ls : List Lexeme} (h : ∀ l ∈ ls, ∃ spelling, Spells l spelling) :
    ∃ text, Written ls text := by
  induction ls with
  | nil => exact ⟨[], .nil nofun⟩
  | cons l ls ih =>
    obtain ⟨⟨spelling, spelled⟩, others⟩ := List.forall_mem_cons.1 h
    obtain ⟨text, written⟩ := ih others
    exact ⟨spelling ++ text, .next spelled written⟩

theorem Delimited.left {ls rest : List Lexeme} (h : Delimited (ls ++ rest)) : Delimited ls := by
  induction ls with
  | nil => trivial
  | cons l ls ih =>
    refine ⟨fun scalar next mem => h.1 scalar next ?_, ih h.2⟩
    change next ∈ (ls ++ rest).head?
    rw [List.head?_append, Option.mem_def.1 mem]
    rfl

theorem Delimited.last {l : Lexeme} {ls rest : List Lexeme} (h : Delimited (ls ++ l :: rest))
    (other : l.delimits = false) : ∀ last ∈ ls.getLast?, last.isScalar = false := by
  intro last mem
  obtain ⟨before, rfl⟩ := List.getLast?_eq_some_iff.1 mem
  induction before with
  | nil =>
    refine Bool.eq_false_iff.2 fun scalar => ?_
    rw [h.1 scalar l rfl] at other
    cases other
  | cons first before ih => exact ih h.2 List.getLast?_concat

variable {l : Lexeme} {ls : List Lexeme} {spelling text rest : List Char} {offset : Nat}

theorem endsNumber_of_isJsonBlank {c : Char} (blank : isJsonBlank c = true) (rest : List Char) :
    EndsNumber (c :: rest) := by
  rintro d ⟨⟩
  simp only [isJsonBlank, Bool.or_eq_true, decide_eq_true_eq] at blank
  rcases blank with ((rfl | rfl) | rfl) | rfl <;> decide

theorem Written.endsNumber (h : Written ls text) (next : ∀ l ∈ ls.head?, l.delimits = true)
    (last : ls = [] → EndsNumber rest) : EndsNumber (text ++ rest) := by
  cases h with
  | nil blank =>
    cases text with
    | nil => exact last rfl
    | cons c white => exact endsNumber_of_isJsonBlank (blank c List.mem_cons_self) _
  | @cons l ls white spelling text blank spelled rest =>
    cases white with
    | cons c white => exact endsNumber_of_isJsonBlank (blank c List.mem_cons_self) _
    | nil =>
      have delimits := next l rfl
      cases spelled with
      | closeArray | closeObject | comma =>
        rintro c ⟨⟩
        decide
      | _ => cases delimits

/-! ### What is read -/

theorem lexemesFrom_of_lexStep {c : Char} {cs : List Char} {extra : Nat}
    (text : spelling ++ rest = c :: cs) (step : lexStep offset c cs = .lexeme l extra)
    (length : spelling.length = extra + 1) :
    lexemesFrom offset (spelling ++ rest) = ⟨l, offset⟩ :: lexemesFrom (offset + spelling.length) rest := by
  have behind : cs.drop extra = rest := by
    have split : (spelling ++ rest).drop (extra + 1) = rest := List.drop_left' length
    rwa [text, List.drop_succ_cons] at split
  rw [text, lexemesFrom, step]
  dsimp only
  rw [behind, length, Nat.add_right_comm, Nat.add_assoc]

theorem lexStep_string {characters : List Char} {pieces : List (List Char)}
    (h : List.Forall₂ SpellsChar characters pieces) (offset : Nat) (rest : List Char) :
    lexStep offset '"' (pieces.flatten ++ '"' :: rest) =
      .lexeme (.string (.ofChars characters)) (pieces.flatten.length + 1) := by
  rw [lexStep, if_neg (by decide), if_pos rfl, readString_eq h]
  rfl

theorem leadingWord?_of_digit {d : Char} (digit : d.isDigit = true) (rest : List Char) :
    leadingWord? (d :: rest) = none ∧ leadingWord? ('-' :: d :: rest) = none := by
  have words : ∀ word ∈ valueWords, ∃ a b letters, word.1.toList = a :: b :: letters ∧
      a.isDigit = false ∧ b.isDigit = false := by
    intro word mem
    simp only [valueWords, List.mem_cons, List.not_mem_nil, or_false] at mem
    rcases mem with rfl | rfl | rfl | rfl | rfl | rfl <;>
      exact ⟨_, _, _, rfl, by decide, by decide⟩
  constructor <;> refine List.find?_eq_none.2 fun word mem isPrefix => ?_
  · obtain ⟨a, b, letters, e, first, -⟩ := words word mem
    rw [e, List.isPrefixOf_cons_cons, Bool.and_eq_true, beq_iff_eq] at isPrefix
    rw [isPrefix.1, digit] at first
    cases first
  · obtain ⟨a, b, letters, e, -, second⟩ := words word mem
    rw [e, List.isPrefixOf_cons_cons, List.isPrefixOf_cons_cons, Bool.and_eq_true, Bool.and_eq_true,
      beq_iff_eq, beq_iff_eq] at isPrefix
    rw [isPrefix.2.1, digit] at second
    cases second

theorem digit_starts {c : Char} (digit : c.isDigit = true) :
    isJsonBlank c = false ∧ c ≠ '"' ∧ mark? c = none := by
  have apart : ∀ x : Char, x.isDigit = false → c ≠ x := fun x other e => by
    rw [e, other] at digit
    cases digit
  refine ⟨?_, apart _ rfl, ?_⟩
  · rw [isJsonBlank, decide_eq_false (apart ' ' rfl), decide_eq_false (apart '\t' rfl),
      decide_eq_false (apart '\n' rfl), decide_eq_false (apart '\r' rfl)]
    rfl
  · rw [mark?, if_neg (apart '[' rfl), if_neg (apart ']' rfl), if_neg (apart '\x7b' rfl),
      if_neg (apart '\x7d' rfl), if_neg (apart ',' rfl), if_neg (apart ':' rfl)]

theorem lexStep_number {n : NumberSpelling} (h : IsNumber n) (ends : EndsNumber rest) {c : Char}
    {cs : List Char} (text : n.characters ++ rest = c :: cs) :
    lexStep offset c cs = .lexeme n.lexeme (n.characters.length - 1) := by
  have starts : isJsonBlank c = false ∧ c ≠ '"' ∧ mark? c = none ∧ leadingWord? (c :: cs) = none := by
    obtain ⟨first, others, e, here⟩ := h.head
    rw [e, List.cons_append] at text
    obtain ⟨rfl, rfl⟩ := List.cons.inj text
    rcases here with digit | ⟨rfl, d, ds, rfl, digit⟩
    · obtain ⟨blank, quote, mark⟩ := digit_starts digit
      exact ⟨blank, quote, mark, (leadingWord?_of_digit digit _).1⟩
    · exact ⟨by decide, by decide, by decide, (leadingWord?_of_digit digit _).2⟩
  obtain ⟨blank, quote, mark, word⟩ := starts
  have number := h.leadingNumber?_eq ends
  rw [text] at number
  rw [lexStep, blank, if_neg Bool.false_ne_true, if_neg quote, mark, word, number]

theorem lexemesFrom_number {n : NumberSpelling} (h : IsNumber n) (ends : EndsNumber rest)
    (offset : Nat) : lexemesFrom offset (n.characters ++ rest) =
      ⟨n.lexeme, offset⟩ :: lexemesFrom (offset + n.characters.length) rest := by
  obtain ⟨c, cs, e, -⟩ := h.head
  have text : n.characters ++ rest = c :: (cs ++ rest) := by
    rw [e]
    rfl
  refine lexemesFrom_of_lexStep text (lexStep_number h ends text) ?_
  rw [e]
  rfl

/-- A lexeme is read from each of its spellings. Behind a word or a number the text must not go
on as one. -/
theorem lexemesFrom_of_spells (h : Spells l spelling) (ends : l.isScalar = true → EndsNumber rest)
    (offset : Nat) : lexemesFrom offset (spelling ++ rest) =
      ⟨l, offset⟩ :: lexemesFrom (offset + spelling.length) rest := by
  cases h with
  | openArray | closeArray | openObject | closeObject | comma | colon | null | falsehood | truth =>
    exact lexemesFrom_of_lexStep rfl rfl rfl
  | @string text spelling spelled =>
    obtain ⟨characters, pieces, rfl, pairs, rfl⟩ := spelled
    refine lexemesFrom_of_lexStep (c := '"') ?_ (lexStep_string pairs offset rest) ?_
    · rw [List.cons_append, List.append_assoc]
      rfl
    · rw [List.length_cons, List.length_append]
      rfl
  | @number n spelled short =>
    have lexeme : n.lexeme = .scalar (.number (String.ofList n.characters)) := by
      rw [NumberSpelling.lexeme, if_neg]
      exact fun long => Nat.not_lt.2 (short long.1) long.2
    rw [← lexeme]
    exact lexemesFrom_number spelled (ends rfl) offset

theorem lexemesFrom_white {white : List Char} (blank : ∀ c ∈ white, isJsonBlank c = true)
    (offset : Nat) (text : List Char) :
    lexemesFrom offset (white ++ text) = lexemesFrom (offset + white.length) text := by
  induction white generalizing offset with
  | nil => rfl
  | cons c white ih =>
    obtain ⟨here, others⟩ := List.forall_mem_cons.1 blank
    rw [List.cons_append, lexemesFrom, lexStep, if_pos here]
    dsimp only
    rw [ih others, List.length_cons, Nat.add_assoc, Nat.add_comm 1]

/-- What was written is read, wherever the white space is. Behind a word or a number that stands last
the text must not go on as one. -/
theorem lexemesFrom_of_written (h : Written ls text) (delimited : Delimited ls) (rest : List Char)
    (last : ∀ l ∈ ls.getLast?, l.isScalar = true → EndsNumber rest) (offset : Nat) :
    (lexemesFrom offset (text ++ rest)).map PlacedLexeme.lexeme =
      ls ++ (lexemesFrom (offset + text.length) rest).map PlacedLexeme.lexeme := by
  induction h generalizing offset with
  | @nil white blank => rw [lexemesFrom_white blank, List.nil_append]
  | @cons l ls white spelling text blank spelled written ih =>
    have ends : l.isScalar = true → EndsNumber (text ++ rest) := fun scalar =>
      written.endsNumber (delimited.1 scalar) fun none => last l (none ▸ rfl) scalar
    have behind : ∀ l ∈ ls.getLast?, l.isScalar = true → EndsNumber rest := fun final mem =>
      last final (List.mem_getLast?_cons mem)
    have length : offset + white.length + spelling.length + text.length =
        offset + (white ++ (spelling ++ text)).length := by
      rw [List.length_append, List.length_append, Nat.add_assoc, Nat.add_assoc]
    rw [List.append_assoc, List.append_assoc, lexemesFrom_white blank, lexemesFrom_of_spells spelled ends,
      List.map_cons, ih delimited.2 behind, length]
    rfl

end DeclarationChecker.Json
