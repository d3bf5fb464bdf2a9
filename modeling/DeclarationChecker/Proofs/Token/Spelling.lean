import Mathlib.Data.List.TakeWhile
import DeclarationChecker.Grammar.Basic
import DeclarationChecker.Token.Basic

set_option autoImplicit false

namespace DeclarationChecker.Token

def Kind.Spells (kind : Kind) (text : String) : Prop :=
  match kind with
  | .identifier =>
    ∃ first rest, text = String.ofList (first :: rest) ∧ isLetter first = true ∧
      (∀ c ∈ rest, isWordChar c = true) ∧
      String.ofList ((first :: rest).map Char.toLower) ∉ keywords
  | .number =>
    ∃ first rest, text = String.ofList (first :: rest) ∧ ∀ c ∈ first :: rest, c.isDigit = true
  | .keyword => text ∈ keywords
  | .punctuation => ∃ mark ∈ punctuationMarks, text = String.ofList [mark]
  | .dots => text = ".."
  | .endOfInput => False

theorem classify_spells (first : Char) (rest : List Char) (letter : isLetter first = true)
    (word : ∀ c ∈ rest, isWordChar c = true) :
    (classify (first :: rest)).1.Spells (classify (first :: rest)).2 := by
  unfold classify
  dsimp only
  split
  · assumption
  · exact ⟨first, rest, rfl, letter, word, by assumption⟩

theorem step_spells {c : Char} {rest : List Char} {kind : Kind} {text : String} {extra : Nat}
    (h : step c rest = .lexeme kind text extra) : kind.Spells text := by
  unfold step at h
  split at h
  · cases h
  split at h
  · cases h
  split at h
  · cases h
    rfl
  split at h
  · rename_i mark
    cases h
    exact ⟨c, mark, rfl⟩
  split at h
  · rename_i digit
    cases h
    exact ⟨c, _, rfl, List.forall_mem_cons.2 ⟨digit, fun _ => List.mem_takeWhile_imp⟩⟩
  split at h
  · rename_i letter
    cases h
    exact classify_spells c _ letter (fun _ => List.mem_takeWhile_imp)
  · cases h

theorem scanFrom_spells (offset : Nat) (text : List Char) :
    ∀ lexeme ∈ (scanFrom offset text).lexemes, lexeme.kind.Spells lexeme.text := by
  induction offset, text using scanFrom.induct with
  | case1 offset => simp [scanFrom]
  | case2 offset c rest extra h ih => simpa only [scanFrom, h] using ih
  | case3 offset c rest kind text extra h ih =>
    rw [scanFrom, h]
    exact List.forall_mem_cons.2 ⟨step_spells h, ih⟩
  | case4 offset c rest h => simp [scanFrom, h]

theorem tokenize_spells {source : String} {tokens : List Token}
    (h : tokenize source = .ok tokens) : ∀ t ∈ tokens, t.kind.Spells t.text := by
  unfold tokenize at h
  dsimp only at h
  split at h
  · cases h
  · cases h
    intro t ht
    obtain ⟨lexeme, mem, rfl⟩ := List.mem_map.1 ht
    exact scanFrom_spells 0 source.toList lexeme mem

theorem isEnd_eq_false {t : Token} (h : t.kind.Spells t.text) : t.isEnd = false := by
  unfold Kind.Spells at h
  simp only [isEnd, decide_eq_false_iff_not]
  intro e
  rw [e] at h
  exact h

/-- The terminal symbol a token stands for: keywords and marks stand for themselves. -/
def terminal (t : Token) : Name :=
  match t.kind with
  | .identifier => "ident"
  | .number => "number"
  | .keyword => t.text
  | .punctuation => t.text
  | .dots => ".."
  | .endOfInput => Grammar.endSymbol

end DeclarationChecker.Token

/-! ### Tests of readers -/

namespace DeclarationChecker

open Text

namespace Token

theorem not_isPunctuation {t : Token} {mark : String} (h : t.isPunctuation mark = true)
    {other : String} (apart : mark ≠ other) : t.isPunctuation other = false := by
  simp only [isPunctuation, Bool.and_eq_true, decide_eq_true_eq] at h
  simp [isPunctuation, h.2, apart]

theorem not_isKeyword {t : Token} {word : String} (h : t.isKeyword word = true)
    {other : String} (apart : word ≠ other) : t.isKeyword other = false := by
  simp only [isKeyword, Bool.and_eq_true, decide_eq_true_eq] at h
  simp [isKeyword, h.2, apart]

theorem isPunctuation_eq_false_of_isKeyword {t : Token} {word : String}
    (h : t.isKeyword word = true) (mark : String) : t.isPunctuation mark = false := by
  simp only [isKeyword, Bool.and_eq_true, decide_eq_true_eq] at h
  simp [isPunctuation, h.1]

theorem isPunctuation_eq_false_of_identifier {t : Token}
    (h : decide (t.kind = .identifier) = true) (mark : String) : t.isPunctuation mark = false := by
  rw [decide_eq_true_eq] at h
  simp [isPunctuation, h]

theorem isKeyword_eq_false_of_isEnd {t : Token} (h : t.isEnd = true) (word : String) :
    t.isKeyword word = false := by
  simp only [isEnd, decide_eq_true_eq] at h
  simp [isKeyword, h]

theorem isPunctuation_eq_false_of_isEnd {t : Token} (h : t.isEnd = true) (mark : String) :
    t.isPunctuation mark = false := by
  simp only [isEnd, decide_eq_true_eq] at h
  simp [isPunctuation, h]

theorem decide_kind_eq_false_of_isEnd {kind : Kind} (apart : kind ≠ .endOfInput) {t : Token}
    (h : t.isEnd = true) : decide (t.kind = kind) = false := by
  rw [isEnd, decide_eq_true_eq] at h
  rw [decide_eq_false_iff_not, h]
  exact apart.symm

theorem terminal_of_isKeyword {t : Token} {word : String} (h : t.isKeyword word = true) :
    t.terminal = word := by
  simp only [isKeyword, Bool.and_eq_true, decide_eq_true_eq] at h
  simp only [terminal, h.1, h.2]

theorem terminal_of_isPunctuation {t : Token} {mark : String} (h : t.isPunctuation mark = true) :
    t.terminal = mark := by
  simp only [isPunctuation, Bool.and_eq_true, decide_eq_true_eq] at h
  simp only [terminal, h.1, h.2]

theorem terminal_of_identifier {t : Token} (h : decide (t.kind = .identifier) = true) :
    t.terminal = "ident" := by
  rw [decide_eq_true_eq] at h
  simp only [terminal, h]

theorem terminal_of_number {t : Token} (h : decide (t.kind = .number) = true) :
    t.terminal = "number" := by
  rw [decide_eq_true_eq] at h
  simp only [terminal, h]

theorem terminal_of_dots {t : Token} (h : decide (t.kind = .dots) = true) :
    t.terminal = ".." := by
  rw [decide_eq_true_eq] at h
  simp only [terminal, h]

def kindOf (symbol : String) : Kind :=
  if symbol ∈ keywords then .keyword
  else if symbol = "ident" then .identifier
  else if symbol = "number" then .number
  else if symbol = ".." then .dots
  else .punctuation

section

variable {t : Token} (spelled : t.kind.Spells t.text)

include spelled

theorem kind_eq_kindOf {symbol : String} (h : t.terminal = symbol) : t.kind = kindOf symbol := by
  unfold terminal at h
  cases kind : t.kind <;> simp only [kind, CodePoints.ofString_inj] at h <;> rw [kind] at spelled
  case identifier => exact h ▸ show .identifier = kindOf "ident" by decide
  case number => exact h ▸ show .number = kindOf "number" by decide
  case dots => exact h ▸ show .dots = kindOf ".." by decide
  case keyword =>
    change t.text ∈ keywords at spelled
    rw [kindOf, if_pos (h ▸ spelled)]
  case punctuation =>
    obtain ⟨mark, hmark, e⟩ := spelled
    have marks : punctuationMarks.all fun mark => .punctuation = kindOf (String.ofList [mark]) := by
      decide
    rw [← h, e]
    exact of_decide_eq_true (List.all_eq_true.1 marks mark hmark)
  case endOfInput => exact spelled.elim

theorem isKeyword_of_terminal {word : String} (h : t.terminal = word)
    (sort : kindOf word = .keyword) : t.isKeyword word = true := by
  have kind := kind_eq_kindOf spelled h
  rw [sort] at kind
  simp only [terminal, kind, CodePoints.ofString_inj] at h
  simp [isKeyword, kind, h]

theorem isPunctuation_of_terminal {mark : String} (h : t.terminal = mark)
    (sort : kindOf mark = .punctuation) : t.isPunctuation mark = true := by
  have kind := kind_eq_kindOf spelled h
  rw [sort] at kind
  simp only [terminal, kind, CodePoints.ofString_inj] at h
  simp [isPunctuation, kind, h]

theorem kind_of_terminal {symbol : String} {kind : Kind} (h : t.terminal = symbol)
    (sort : kindOf symbol = kind) : decide (t.kind = kind) = true := by
  rw [decide_eq_true_eq, kind_eq_kindOf spelled h, sort]

end

end Token

end DeclarationChecker
