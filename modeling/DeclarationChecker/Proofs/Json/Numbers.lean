import DeclarationChecker.Json.Lexeme
import DeclarationChecker.Proofs.Token.Tokenization

set_option autoImplicit false

namespace DeclarationChecker.Json

open Token (takeWhile_eq)

def IsDigits (digits : List Char) : Prop := digits ≠ [] ∧ ∀ c ∈ digits, c.isDigit = true

def IsInteger (digits : List Char) : Prop :=
  IsDigits digits ∧ (digits.head? = some '0' → digits = ['0'])

inductive IsFraction : List Char → Prop
  | none : IsFraction []
  | digits {digits : List Char} (some : IsDigits digits) : IsFraction ('.' :: digits)

inductive IsExponent : List Char → Prop
  | none : IsExponent []
  | digits {mark : Char} {sign digits : List Char} (marked : mark = 'e' ∨ mark = 'E')
      (signed : sign = [] ∨ sign = ['+'] ∨ sign = ['-']) (some : IsDigits digits) :
      IsExponent (mark :: (sign ++ digits))

structure IsNumber (n : NumberSpelling) : Prop where
  sign : n.sign = [] ∨ n.sign = ['-']
  integer : IsInteger n.integer
  tail : ∃ fraction exponent, IsFraction fraction ∧ IsExponent exponent ∧
    n.tail = fraction ++ exponent

/-- What does not go on with a number that ended before it. -/
def EndsNumber (rest : List Char) : Prop :=
  ∀ c ∈ rest.head?, c.isDigit = false ∧ c ≠ '.' ∧ c ≠ 'e' ∧ c ≠ 'E'

variable {digits more rest fraction exponent : List Char}

theorem IsDigits.exists_cons (h : IsDigits digits) :
    ∃ c ds, digits = c :: ds ∧ c.isDigit = true ∧ ∀ d ∈ ds, d.isDigit = true := by
  obtain ⟨nonempty, all⟩ := h
  cases digits with
  | nil => exact absurd rfl nonempty
  | cons c ds => exact ⟨c, ds, rfl, List.forall_mem_cons.1 all⟩

theorem leadingInteger_eq (h : IsInteger digits) (ends : ∀ c ∈ more.head?, c.isDigit = false) :
    leadingInteger (digits ++ more) = digits := by
  obtain ⟨isDigits, zero⟩ := h
  obtain ⟨c, ds, rfl, digit, others⟩ := isDigits.exists_cons
  by_cases e : c = '0'
  · rw [zero (e ▸ rfl)]
    rfl
  · rw [List.cons_append, leadingInteger, if_neg e, if_pos digit, takeWhile_eq others ends]

theorem leadingFraction_eq (h : IsFraction fraction)
    (ends : ∀ c ∈ more.head?, c.isDigit = false ∧ c ≠ '.') :
    leadingFraction (fraction ++ more) = fraction := by
  cases h with
  | none =>
    cases more with
    | nil => rfl
    | cons c more =>
      rw [List.nil_append, leadingFraction]
      exact if_neg fun point => (ends c rfl).2 point.1
  | digits some =>
    rw [List.cons_append, leadingFraction, takeWhile_eq some.2 fun c mem => (ends c mem).1]
    exact if_pos ⟨rfl, some.1⟩

theorem leadingSign_eq {sign : List Char} (signed : sign = [] ∨ sign = ['+'] ∨ sign = ['-'])
    (h : IsDigits digits) (more : List Char) : leadingSign (sign ++ (digits ++ more)) = sign := by
  rcases signed with rfl | rfl | rfl
  · obtain ⟨c, ds, rfl, digit, -⟩ := h.exists_cons
    rw [List.nil_append, List.cons_append, leadingSign]
    refine if_neg ?_
    rintro (rfl | rfl) <;> exact absurd digit (by decide)
  · rfl
  · rfl

theorem leadingExponent_eq (h : IsExponent exponent) (ends : EndsNumber rest) :
    leadingExponent (exponent ++ rest) = exponent := by
  cases h with
  | none =>
    cases rest with
    | nil => rfl
    | cons c rest =>
      obtain ⟨-, -, small, large⟩ := ends c rfl
      rw [List.nil_append, leadingExponent]
      exact if_neg fun mark => mark.1.elim small large
  | @digits mark sign digits marked signed some =>
    rw [List.cons_append, List.append_assoc, leadingExponent, leadingSign_eq signed some,
      List.drop_left, takeWhile_eq some.2 fun c mem => (ends c mem).1]
    exact if_pos ⟨marked, some.1⟩

theorem IsExponent.ends (h : IsExponent exponent) (ends : EndsNumber rest) :
    ∀ c ∈ (exponent ++ rest).head?, c.isDigit = false ∧ c ≠ '.' := by
  cases h with
  | none => exact fun c mem => ⟨(ends c mem).1, (ends c mem).2.1⟩
  | digits marked signed some =>
    rintro c ⟨⟩
    rcases marked with rfl | rfl <;> decide

theorem IsFraction.ends (h : IsFraction fraction)
    (ends : ∀ c ∈ more.head?, c.isDigit = false ∧ c ≠ '.') :
    ∀ c ∈ (fraction ++ more).head?, c.isDigit = false := by
  cases h with
  | none => exact fun c mem => (ends c mem).1
  | digits some =>
    rintro c ⟨⟩
    decide

variable {n : NumberSpelling}

theorem IsNumber.leadingNumber?_eq (h : IsNumber n) (ends : EndsNumber rest) :
    leadingNumber? (n.characters ++ rest) = some n := by
  obtain ⟨sign, integer, tail⟩ := n
  obtain ⟨signed, isInteger, fraction, exponent, isFraction, isExponent, e⟩ := h
  dsimp only at signed isInteger e
  subst e
  obtain ⟨c, ds, first, digit, -⟩ := isInteger.1.exists_cons
  have text : NumberSpelling.characters ⟨sign, integer, fraction ++ exponent⟩ ++ rest =
      sign ++ (integer ++ (fraction ++ (exponent ++ rest))) := by
    simp only [NumberSpelling.characters, List.append_assoc]
  have signs : (if (sign ++ (integer ++ (fraction ++ (exponent ++ rest)))).head? = some '-' then ['-']
      else []) = sign := by
    rcases signed with rfl | rfl
    · refine if_neg fun minus => ?_
      rw [first] at minus
      cases minus
      exact absurd digit (by decide)
    · rfl
  have ahead := isExponent.ends ends
  rw [text, leadingNumber?, signs, List.drop_left,
    leadingInteger_eq isInteger (isFraction.ends ahead), List.drop_left,
    leadingFraction_eq isFraction ahead, List.drop_left, leadingExponent_eq isExponent ends]
  exact if_neg isInteger.1.1

theorem IsNumber.head (h : IsNumber n) : ∃ c cs, n.characters = c :: cs ∧
    (c.isDigit = true ∨ c = '-' ∧ ∃ d ds, cs = d :: ds ∧ d.isDigit = true) := by
  obtain ⟨c, ds, first, digit, -⟩ := h.integer.1.exists_cons
  rcases h.sign with none | minus
  · exact ⟨c, ds ++ n.tail, by rw [NumberSpelling.characters, none, first]; rfl, .inl digit⟩
  · exact ⟨'-', c :: (ds ++ n.tail), by rw [NumberSpelling.characters, minus, first]; rfl,
      .inr ⟨rfl, c, _, rfl, digit⟩⟩

end DeclarationChecker.Json
