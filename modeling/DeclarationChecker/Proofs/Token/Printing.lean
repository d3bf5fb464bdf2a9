import Mathlib.Data.List.Chain
import DeclarationChecker.Proofs.Token.Tokenization

set_option autoImplicit false

namespace DeclarationChecker.Token

open Text

/-- Whether a word of the kind is as long as its characters allow. Marks and dots are of one length. -/
def Kind.runsOn : Kind → Bool
  | .identifier | .number | .keyword => true
  | .punctuation | .dots | .endOfInput => false

structure Printed where
  kind : Kind
  text : String
  gap : String
  deriving DecidableEq, Repr

namespace Printed

def word (p : Printed) : Kind × String := (p.kind, p.text)

def join : List Printed → String
  | [] => ""
  | p :: rest => p.text ++ (p.gap ++ join rest)

/-- White space, if anything, stands behind every word, and some does between two words that would run
on into each other. -/
structure Readable (words : List Printed) : Prop where
  spelled : ∀ p ∈ words, p.kind.Spells p.text
  white : ∀ p ∈ words, ∀ c ∈ p.gap.toList, isBlank c = true
  apart : words.IsChain fun p q => p.kind.runsOn = true → q.kind.runsOn = true → p.gap ≠ ""

structure Apart (words : List Printed) : Prop where
  spelled : ∀ p ∈ words, p.kind.Spells p.text
  white : ∀ p ∈ words, ∀ c ∈ p.gap.toList, isBlank c = true
  apart : ∀ p ∈ words.dropLast, p.gap ≠ ""

end Printed

theorem isWordChar_eq_false {c : Char} (blank : isBlank c = true) : isWordChar c = false := by
  by_contra word
  rw [isBlank_eq_false (by simpa using word)] at blank
  cases blank

theorem isDigit_eq_false {c : Char} (letter : isLetter c = true) : c.isDigit = false := by
  by_contra h
  have digit : 48 ≤ c.toNat ∧ c.toNat ≤ 57 := Char.isDigit_iff_toNat.1 (by simpa using h)
  change ((c.isUpper || c.isLower) || decide (c = '_')) = true at letter
  simp only [Bool.or_eq_true, decide_eq_true_eq] at letter
  rcases letter with (upper | lower) | rfl
  · have range : 65 ≤ c.toNat ∧ c.toNat ≤ 90 := of_decide_eq_true upper
    omega
  · obtain ⟨least, -⟩ := Bool.and_eq_true_iff.1 lower
    have least : 97 ≤ c.toNat := of_decide_eq_true least
    omega
  · simp at digit

theorem isWordChar_of_isLetter {c : Char} (letter : isLetter c = true) : isWordChar c = true := by
  rw [isWordChar_eq, letter, Bool.or_true]

theorem keyword_chars : keywords.all (fun text => text.toList.all isWordChar &&
    !(text.toList.head?.any Char.isDigit) && text.toList ≠ [] &&
    text.toList.map Char.toLower = text.toList) = true := by
  decide +kernel

section

variable {kind : Kind} {text : String} {next : Option Char}

theorem consists_of_spells (spells : kind.Spells text)
    (ends : kind.runsOn = true → ∀ c ∈ next, isWordChar c = false) :
    kind.Consists text.toList next ∧ kind.written text.toList = text ∧ text.toList ≠ [] := by
  cases kind with
  | identifier =>
    obtain ⟨first, rest, rfl, letter, others, free⟩ := spells
    rw [String.toList_ofList]
    refine ⟨⟨⟨?_, ?_, ends rfl⟩, free⟩, rfl, List.cons_ne_nil _ _⟩
    · exact List.forall_mem_cons.2 ⟨isWordChar_of_isLetter letter, others⟩
    · rintro c ⟨⟩
      exact isDigit_eq_false letter
  | number =>
    obtain ⟨first, rest, rfl, digits⟩ := spells
    rw [String.toList_ofList]
    refine ⟨⟨digits, fun c mem => ?_⟩, rfl, List.cons_ne_nil _ _⟩
    have other := ends rfl c mem
    rw [isWordChar_eq, Bool.or_eq_false_iff] at other
    exact other.1
  | keyword =>
    have chars := List.all_eq_true.1 keyword_chars text spells
    simp only [Bool.and_eq_true, decide_eq_true_eq, List.all_eq_true, Bool.not_eq_true'] at chars
    obtain ⟨⟨⟨every, first⟩, nonempty⟩, lower⟩ := chars
    have same : String.ofList (text.toList.map Char.toLower) = text := by
      rw [lower, String.ofList_toList]
    -- A keyword is found by its letters in lower case, which are its own.
    refine ⟨⟨⟨every, ?_, ends rfl⟩, same.symm ▸ spells⟩, same, nonempty⟩
    intro c mem
    rw [Option.mem_def.1 mem] at first
    simpa using first
  | punctuation =>
    obtain ⟨mark, mem, rfl⟩ := spells
    rw [String.toList_ofList]
    exact ⟨⟨mark, mem, rfl⟩, rfl, List.cons_ne_nil _ _⟩
  | dots =>
    cases spells
    exact ⟨rfl, rfl, List.cons_ne_nil _ _⟩
  | endOfInput => exact spells.elim

theorem scanFrom_word {offset : Nat} {more : List Char} (spells : kind.Spells text)
    (ends : kind.runsOn = true → ∀ c ∈ more.head?, isWordChar c = false) :
    scanFrom offset (text.toList ++ more) =
      (scanFrom (offset + text.length) more).cons ⟨kind, text, offset⟩ := by
  obtain ⟨consists, written, nonempty⟩ := consists_of_spells spells ends
  obtain ⟨c, rest, e, taken⟩ := step_of_consists nonempty consists
  obtain ⟨n, length⟩ := Nat.exists_eq_succ_of_ne_zero (mt List.length_eq_zero_iff.1 nonempty)
  have behind : more = rest.drop n := by
    have dropped := congrArg (List.drop text.toList.length) e
    rwa [List.drop_left, length, List.drop_succ_cons] at dropped
  rw [e, scanFrom, taken, written, ← String.length_toList, length, behind]
  dsimp only
  rw [Nat.succ_sub_one, Nat.add_assoc, Nat.add_comm 1 n]

theorem head_mark_not_word (spells : kind.Spells text) (mark : kind.runsOn = false)
    (more : List Char) : ∀ c ∈ (text.toList ++ more).head?, isWordChar c = false := by
  cases kind with
  | punctuation =>
    obtain ⟨c, mem, rfl⟩ := spells
    have free : punctuationMarks.all (fun c => !isWordChar c) = true := by decide
    rw [String.toList_ofList]
    rintro _ ⟨⟩
    simpa using List.all_eq_true.1 free c mem
  | dots =>
    obtain rfl : text = ".." := spells
    intro c here
    cases (here : some '.' = some c)
    decide
  | endOfInput => exact spells.elim
  | identifier => cases mark
  | number => cases mark
  | keyword => cases mark

theorem scanFrom_white {gap : List Char} (offset : Nat) (white : ∀ c ∈ gap, isBlank c = true)
    (more : List Char) : scanFrom offset (gap ++ more) = scanFrom (offset + gap.length) more := by
  induction gap generalizing offset with
  | nil => rfl
  | cons c gap ih =>
    obtain ⟨blank, white⟩ := List.forall_mem_cons.1 white
    rw [List.cons_append, scanFrom, step_blank blank]
    dsimp only
    rw [List.drop_zero, ih _ white, List.length_cons, Nat.add_zero, Nat.add_assoc, Nat.add_comm 1]

end

namespace Printed

variable {p : Printed} {rest words more : List Printed}

theorem Apart.readable (apart : Apart words) : Readable words := by
  refine ⟨apart.spelled, apart.white, ?_⟩
  have gaps := apart.apart
  clear apart
  induction words with
  | nil => exact .nil
  | cons p rest ih =>
    cases rest with
    | nil => exact .singleton p
    | cons q rest =>
      obtain ⟨first, others⟩ := List.forall_mem_cons.1 gaps
      exact .cons_cons (fun _ _ => first) (ih others)

theorem Readable.append (h : Readable words) (h' : Readable more)
    (seam : ∀ p ∈ words.getLast?, p.gap ≠ "") : Readable (words ++ more) where
  spelled := List.forall_mem_append.2 ⟨h.spelled, h'.spelled⟩
  white := List.forall_mem_append.2 ⟨h.white, h'.white⟩
  apart := List.isChain_append.2 ⟨h.apart, h'.apart, fun p last _ _ _ _ => seam p last⟩

theorem Readable.tail (h : Readable (p :: rest)) : Readable rest :=
  ⟨(List.forall_mem_cons.1 h.spelled).2, (List.forall_mem_cons.1 h.white).2, h.apart.tail⟩

theorem Readable.ends (h : Readable (p :: rest)) (word : p.kind.runsOn = true) :
    ∀ c ∈ (p.gap.toList ++ (join rest).toList).head?, isWordChar c = false := by
  have white := h.white p List.mem_cons_self
  cases gap : p.gap.toList with
  | cons first more =>
    rintro c ⟨⟩
    exact isWordChar_eq_false (white first (gap ▸ List.mem_cons_self))
  | nil =>
    cases rest with
    | nil => exact fun c here => nomatch here
    | cons q rest =>
      -- Where there is no gap, what comes next is a mark.
      have mark : q.kind.runsOn = false := Bool.eq_false_iff.2 fun other =>
        (List.isChain_cons_cons.1 h.apart).1 word other (String.toList_eq_nil_iff.1 gap)
      rw [join, String.toList_append]
      exact head_mark_not_word (h.tail.spelled q List.mem_cons_self) mark _

theorem Readable.scanFrom (h : Readable words) (offset : Nat) :
    ∃ lexemes, Token.scanFrom offset (join words).toList = ⟨lexemes, none⟩ ∧
      lexemes.map (fun l => (l.kind, l.text)) = words.map word := by
  induction words generalizing offset with
  | nil => exact ⟨[], by simp [join, Token.scanFrom], rfl⟩
  | cons p rest ih =>
    obtain ⟨lexemes, found, same⟩ := ih h.tail (offset + p.text.length + p.gap.toList.length)
    refine ⟨⟨p.kind, p.text, offset⟩ :: lexemes, ?_, congrArg (p.word :: ·) same⟩
    rw [join, String.toList_append, String.toList_append,
      scanFrom_word (h.spelled p List.mem_cons_self) h.ends,
      scanFrom_white _ (h.white p List.mem_cons_self), found, Scan.cons]

theorem scanFrom_join {words : List Printed} (apart : Apart words) (offset : Nat) :
    ∃ lexemes, scanFrom offset (join words).toList = ⟨lexemes, none⟩ ∧
      lexemes.map (fun l => (l.kind, l.text)) = words.map word :=
  apart.readable.scanFrom offset

theorem Readable.tokenize (h : Readable words) :
    ∃ tokens, Token.tokenize (join words) = .ok tokens ∧
      tokens.map (fun t => (t.kind, t.text)) = words.map word := by
  obtain ⟨lexemes, found, same⟩ := h.scanFrom 0
  refine ⟨_, tokenize_ok found, ?_⟩
  rw [List.map_map, ← same]
  rfl

end Printed

/-- Words printed apart are the tokens of the text they make, whatever white space stands before
and between them, and every token of a text is a word that can be printed so. -/
theorem tokenize_join :
    (∀ (lead : String) (words : List Printed), (∀ c ∈ lead.toList, isBlank c = true) →
      Printed.Apart words →
      ∃ tokens, tokenize (lead ++ Printed.join words) = .ok tokens ∧
        tokens.map (fun t => (t.kind, t.text)) = words.map Printed.word) ∧
    (∀ (source : String) (tokens : List Token), tokenize source = .ok tokens →
      ∀ t ∈ tokens, t.kind.Spells t.text) := by
  refine ⟨fun lead words white apart => ?_, fun source tokens => tokenize_spells⟩
  obtain ⟨lexemes, found, same⟩ := Printed.scanFrom_join apart (0 + lead.toList.length)
  have scanned : scan (lead ++ Printed.join words) = ⟨lexemes, none⟩ := by
    rw [scan, String.toList_append, scanFrom_white 0 white, found]
  refine ⟨_, tokenize_ok scanned, ?_⟩
  rw [List.map_map, ← same]
  rfl

def bounds : List Printed :=
  [⟨.keyword, "array", "\u00a0"⟩, ⟨.punctuation, "[", "\t"⟩, ⟨.number, "007", "\u3000 "⟩,
    ⟨.dots, "..", "\r\n"⟩, ⟨.identifier, "End_1", ""⟩]

theorem bounds_apart : Printed.Apart bounds := by
  have blank : bounds.all (fun p => p.gap.toList.all isBlank) = true := by decide +kernel
  refine ⟨List.forall_mem_cons.2 ⟨?_, List.forall_mem_cons.2 ⟨?_, List.forall_mem_cons.2 ⟨?_,
    List.forall_mem_cons.2 ⟨?_, List.forall_mem_singleton.2 ?_⟩⟩⟩⟩,
    fun p mem => List.all_eq_true.1 (List.all_eq_true.1 blank p mem), by decide +kernel⟩
  · show "array" ∈ keywords
    decide
  · exact ⟨'[', by decide, rfl⟩
  · exact ⟨'0', ['0', '7'], rfl, List.all_eq_true.1 (by decide)⟩
  · exact rfl
  · exact ⟨'E', ['n', 'd', '_', '1'], rfl, by decide, List.all_eq_true.1 (by decide),
      by decide +kernel⟩

theorem tokenize_join_bounds : ∃ tokens,
    tokenize "\n array\u00a0[\t007\u3000 ..\r\nEnd_1" = .ok tokens ∧
    tokens.map (fun t => (t.kind, t.text)) = [(.keyword, "array"), (.punctuation, "["),
      (.number, "007"), (.dots, ".."), (.identifier, "End_1")] ∧
    ∀ t ∈ tokens, t.kind.Spells t.text := by
  obtain ⟨tokens, ok, same⟩ := tokenize_join.1 "\n " bounds
    (List.all_eq_true.1 (by decide +kernel)) bounds_apart
  have text : "\n " ++ Printed.join bounds = "\n array\u00a0[\t007\u3000 ..\r\nEnd_1" := by
    decide +kernel
  rw [text] at ok
  exact ⟨tokens, ok, same, tokenize_join.2 _ tokens ok⟩

end DeclarationChecker.Token
