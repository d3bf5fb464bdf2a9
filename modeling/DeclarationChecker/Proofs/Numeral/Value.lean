import Mathlib.Tactic.Ring
import DeclarationChecker.DeclaredType

set_option autoImplicit false

namespace DeclarationChecker.Numeral

def digit (c : Char) : Nat := c.toNat - '0'.toNat

def valueFrom (n : Nat) (digits : List Char) : Nat :=
  digits.foldl (fun n c => 10 * n + digit c) n

def value (digits : List Char) : Nat := valueFrom 0 digits

theorem valueFrom_eq (n : Nat) (digits : List Char) :
    valueFrom n digits = n * 10 ^ digits.length + value digits := by
  induction digits generalizing n with
  | nil => simp [valueFrom, value]
  | cons c cs ih =>
    have first : valueFrom n (c :: cs) = valueFrom (10 * n + digit c) cs := rfl
    have alone : value (c :: cs) = valueFrom (10 * 0 + digit c) cs := rfl
    rw [first, alone, ih, ih (10 * 0 + digit c), List.length_cons, Nat.pow_succ]
    ring

theorem value_cons (c : Char) (cs : List Char) :
    value (c :: cs) = digit c * 10 ^ cs.length + value cs := by
  have alone : value (c :: cs) = valueFrom (10 * 0 + digit c) cs := rfl
  rw [alone, valueFrom_eq, Nat.mul_zero, Nat.zero_add]

theorem toNat_range {c : Char} (h : c.isDigit = true) : 48 ≤ c.toNat ∧ c.toNat ≤ 57 :=
  Char.isDigit_iff_toNat.1 h

theorem digit_le {c : Char} (h : c.isDigit = true) : digit c ≤ 9 := by
  have range := toNat_range h
  change c.toNat - 48 ≤ 9
  omega

theorem digit_eq_zero_iff {c : Char} (h : c.isDigit = true) : digit c = 0 ↔ c = '0' := by
  have range := toNat_range h
  have zero : ('0' : Char).toNat = 48 := rfl
  rw [← Char.toNat_inj]
  change c.toNat - 48 = 0 ↔ c.toNat = 48
  omega

theorem digit_lt_iff {c c' : Char} (h : c.isDigit = true) (h' : c'.isDigit = true) :
    digit c < digit c' ↔ c < c' := by
  have range := toNat_range h
  have range' := toNat_range h'
  have order : c < c' ↔ c.toNat < c'.toNat := Iff.rfl
  rw [order]
  change c.toNat - 48 < c'.toNat - 48 ↔ _
  omega

theorem digit_inj {c c' : Char} (h : c.isDigit = true) (h' : c'.isDigit = true) :
    digit c = digit c' ↔ c = c' := by
  have range := toNat_range h
  have range' := toNat_range h'
  rw [← Char.toNat_inj]
  change c.toNat - 48 = c'.toNat - 48 ↔ _
  omega

theorem value_lt_pow {digits : List Char} (h : ∀ c ∈ digits, c.isDigit = true) :
    value digits < 10 ^ digits.length := by
  induction digits with
  | nil => decide
  | cons c cs ih =>
    obtain ⟨first, others⟩ := List.forall_mem_cons.1 h
    have le := digit_le first
    have lt := ih others
    have scaled : digit c * 10 ^ cs.length ≤ 9 * 10 ^ cs.length := Nat.mul_le_mul_right _ le
    rw [value_cons, List.length_cons, Nat.pow_succ]
    omega

theorem mul_add_lt_iff {high high' low low' base : Nat} (h : low < base) (h' : low' < base) :
    high * base + low < high' * base + low' ↔ high < high' ∨ high = high' ∧ low < low' := by
  rcases Nat.lt_trichotomy high high' with lt | rfl | gt
  · have scaled : (high + 1) * base ≤ high' * base := Nat.mul_le_mul_right _ lt
    rw [Nat.succ_mul] at scaled
    exact iff_of_true (by omega) (.inl lt)
  · simp
  · have scaled : (high' + 1) * base ≤ high * base := Nat.mul_le_mul_right _ gt
    rw [Nat.succ_mul] at scaled
    exact iff_of_false (by omega) (by omega)

theorem lt_iff_value_lt {xs ys : List Char} (same : xs.length = ys.length)
    (hx : ∀ c ∈ xs, c.isDigit = true) (hy : ∀ c ∈ ys, c.isDigit = true) :
    xs < ys ↔ value xs < value ys := by
  induction xs generalizing ys with
  | nil =>
    rw [List.length_eq_zero_iff.1 same.symm]
    simp
  | cons x xs ih =>
    cases ys with
    | nil => cases same
    | cons y ys =>
      obtain ⟨firstX, othersX⟩ := List.forall_mem_cons.1 hx
      obtain ⟨firstY, othersY⟩ := List.forall_mem_cons.1 hy
      have lengths : xs.length = ys.length := Nat.succ.inj same
      have below := value_lt_pow othersX
      have below' := value_lt_pow othersY
      rw [lengths] at below
      -- The first digits decide, unless they are equal: the others stay below their place.
      rw [List.cons_lt_cons_iff, ih lengths othersX othersY, ← digit_lt_iff firstX firstY,
        ← digit_inj firstX firstY, value_cons, value_cons, lengths]
      exact (mul_add_lt_iff below below').symm

/-- Digits without a leading zero, except for zero itself. -/
structure Canonical (digits : List Char) : Prop where
  all : ∀ c ∈ digits, c.isDigit = true
  head : digits = ['0'] ∨ ∃ c cs, digits = c :: cs ∧ c ≠ '0'

namespace Canonical

variable {xs ys : List Char}

theorem length_pos (h : Canonical xs) : 0 < xs.length := by
  rcases h.head with rfl | ⟨c, cs, rfl, -⟩
  · decide
  · exact Nat.succ_pos _

/-- A numeral of several digits is at least the power of ten of its length. -/
theorem pow_le_value (h : Canonical xs) (long : 1 < xs.length) :
    10 ^ (xs.length - 1) ≤ value xs := by
  rcases h.head with rfl | ⟨c, cs, rfl, apart⟩
  · exact absurd long (by decide)
  · have first : c.isDigit = true := h.all c List.mem_cons_self
    have positive : 0 < digit c := Nat.pos_of_ne_zero fun e => apart ((digit_eq_zero_iff first).1 e)
    have scaled : 1 * 10 ^ cs.length ≤ digit c * 10 ^ cs.length := Nat.mul_le_mul_right _ positive
    rw [value_cons, List.length_cons, Nat.add_sub_cancel]
    omega

theorem value_lt_of_length_lt (hx : Canonical xs) (hy : Canonical ys)
    (shorter : xs.length < ys.length) : value xs < value ys := by
  have positive := hx.length_pos
  calc value xs < 10 ^ xs.length := value_lt_pow hx.all
    _ ≤ 10 ^ (ys.length - 1) := Nat.pow_le_pow_right (by decide) (by omega)
    _ ≤ value ys := hy.pow_le_value (by omega)

theorem lt_iff (hx : Canonical xs) (hy : Canonical ys) :
    (⟨xs⟩ : Numeral).lt ⟨ys⟩ = true ↔ value xs < value ys := by
  rw [lt, Bool.or_eq_true, Bool.and_eq_true, decide_eq_true_eq, decide_eq_true_eq,
    decide_eq_true_eq]
  dsimp only
  rcases Nat.lt_trichotomy xs.length ys.length with shorter | same | longer
  · exact iff_of_true (.inl shorter) (hx.value_lt_of_length_lt hy shorter)
  · rw [lt_iff_value_lt same hx.all hy.all]
    omega
  · have more := hy.value_lt_of_length_lt hx longer
    exact iff_of_false (by omega) (by omega)

/-- A number has one numeral only. -/
theorem value_inj (hx : Canonical xs) (hy : Canonical ys) : value xs = value ys ↔ xs = ys := by
  refine ⟨fun same => ?_, congrArg value⟩
  rcases Nat.lt_trichotomy xs.length ys.length with shorter | length | longer
  · exact absurd same (Nat.ne_of_lt (hx.value_lt_of_length_lt hy shorter))
  · have notSmaller : ¬ xs < ys := fun lt =>
      Nat.ne_of_lt ((lt_iff_value_lt length hx.all hy.all).1 lt) same
    have notLarger : ¬ ys < xs := fun lt =>
      Nat.ne_of_lt ((lt_iff_value_lt length.symm hy.all hx.all).1 lt) same.symm
    exact List.le_antisymm notLarger notSmaller
  · exact absurd same.symm (Nat.ne_of_lt (hy.value_lt_of_length_lt hx longer))

theorem zero : Canonical ['0'] := ⟨List.forall_mem_singleton.2 rfl, .inl rfl⟩

end Canonical

def valueOf (text : String) : Nat := value text.toList

theorem value_dropWhile (digits : List Char) :
    value (digits.dropWhile fun c => c = '0') = value digits := by
  induction digits with
  | nil => rfl
  | cons c cs ih =>
    by_cases zero : c = '0'
    · subst zero
      rw [List.dropWhile_cons_of_pos (by decide), ih, value_cons]
      change value cs = 0 * 10 ^ cs.length + value cs
      rw [Nat.zero_mul, Nat.zero_add]
    · rw [List.dropWhile_cons_of_neg (by simpa using zero)]

theorem ofText_canonical {text : String} (h : ∀ c ∈ text.toList, c.isDigit = true) :
    Canonical (ofText text).digits := by
  unfold ofText
  cases stripped : text.toList.dropWhile (· = '0') with
  | nil => exact .zero
  | cons c cs =>
    refine ⟨fun c' mem => h c' ?_, .inr ⟨c, cs, rfl, ?_⟩⟩
    · have kept : c' ∈ text.toList.dropWhile (· = '0') := by
        rw [stripped]
        exact mem
      exact (List.dropWhile_sublist _).subset kept
    · have head := List.head?_dropWhile_not (· = '0') text.toList
      rw [stripped] at head
      simpa using head

theorem value_ofText (text : String) : value (ofText text).digits = valueOf text := by
  rw [valueOf, ← value_dropWhile text.toList]
  unfold ofText
  cases text.toList.dropWhile (· = '0') with
  | nil => rfl
  | cons c cs => rfl

theorem ofText_lt_iff {text text' : String} (h : ∀ c ∈ text.toList, c.isDigit = true)
    (h' : ∀ c ∈ text'.toList, c.isDigit = true) :
    (ofText text).lt (ofText text') = true ↔ valueOf text < valueOf text' := by
  rw [← value_ofText, ← value_ofText]
  exact (ofText_canonical h).lt_iff (ofText_canonical h')

/-- However they are written, numerals are the same just if the numbers are. -/
theorem ofText_inj_iff {text text' : String} (h : ∀ c ∈ text.toList, c.isDigit = true)
    (h' : ∀ c ∈ text'.toList, c.isDigit = true) :
    ofText text = ofText text' ↔ valueOf text = valueOf text' := by
  rw [← value_ofText, ← value_ofText, (ofText_canonical h).value_inj (ofText_canonical h')]
  exact ⟨congrArg digits, congrArg mk⟩

theorem ofText_toText {n : Numeral} (h : Canonical n.digits) : ofText n.toText = n := by
  have text : n.toText.toList = n.digits := String.toList_ofList
  have canonical : Canonical (ofText n.toText).digits := ofText_canonical (text.symm ▸ h.all)
  have same : value (ofText n.toText).digits = value n.digits := by rw [value_ofText, valueOf, text]
  exact congrArg mk ((canonical.value_inj h).1 same)

theorem isStringSize_iff {text : String} (h : ∀ c ∈ text.toList, c.isDigit = true) :
    DeclaredType.isStringSize (ofText text) = true ↔ 1 ≤ valueOf text ∧ valueOf text ≤ 255 := by
  have canonical := ofText_canonical h
  have largest : Canonical ['2', '5', '5'] :=
    ⟨List.all_eq_true.1 rfl, .inr ⟨'2', ['5', '5'], rfl, by decide⟩⟩
  have above : DeclaredType.maxStringSize.lt (ofText text) = true ↔ 255 < valueOf text := by
    rw [← value_ofText]
    exact largest.lt_iff canonical
  have zero : ofText text = ⟨['0']⟩ ↔ valueOf text = 0 := by
    rw [← value_ofText, show (0 : Nat) = value ['0'] from rfl, canonical.value_inj .zero]
    exact ⟨congrArg digits, congrArg mk⟩
  rw [DeclaredType.isStringSize, Bool.and_eq_true, decide_eq_true_eq, Bool.not_eq_true',
    Bool.eq_false_iff, Ne, Ne, above, zero]
  omega

end DeclarationChecker.Numeral
