import Mathlib.Data.List.Forall2
import DeclarationChecker.Json.Lexeme

set_option autoImplicit false

namespace DeclarationChecker.Json

open Text

/-! ### Characters -/

def IsHexDigit (c : Char) (value : Nat) : Prop :=
  value < 16 ∧ (c = Nat.digitChar value ∨ c = (Nat.digitChar value).toUpper)

inductive SpellsUnit : Nat → List Char → Prop
  | digits {a b c d : Char} {w x y z : Nat} (first : IsHexDigit a w) (second : IsHexDigit b x)
      (third : IsHexDigit c y) (fourth : IsHexDigit d z) :
      SpellsUnit (w * 0x1000 + x * 0x100 + y * 0x10 + z) [a, b, c, d]

def shortEscapes : List (Char × Char) :=
  [('"', '"'), ('\\', '\\'), ('/', '/'), ('b', '\x08'), ('f', '\x0C'), ('n', '\n'), ('r', '\r'),
    ('t', '\t')]

inductive SpellsChar : Char → List Char → Prop
  | raw {c : Char} (printable : 0x20 ≤ c.toNat) (quote : c ≠ '"') (backslash : c ≠ '\\') :
      SpellsChar c [c]
  | short {c e : Char} (listed : (e, c) ∈ shortEscapes) : SpellsChar c ['\\', e]
  | unit {c : Char} {digits : List Char} (spelled : SpellsUnit c.toNat digits) :
      SpellsChar c ('\\' :: 'u' :: digits)
  /-- Two units for a character that is too large for one. -/
  | pair {c : Char} {high low : List Char} (large : 0xFFFF < c.toNat)
      (first : SpellsUnit (0xD800 + (c.toNat - 0x10000) / 0x400) high)
      (second : SpellsUnit (0xDC00 + (c.toNat - 0x10000) % 0x400) low) :
      SpellsChar c ('\\' :: 'u' :: high ++ '\\' :: 'u' :: low)

/-- A string between quotes, each character spelled in a way of its own. -/
def SpellsString (text : CodePoints) (spelling : List Char) : Prop :=
  ∃ characters pieces, text = .ofChars characters ∧ List.Forall₂ SpellsChar characters pieces ∧
    spelling = '"' :: (pieces.flatten ++ ['"'])

/-! ### Every string has a spelling -/

theorem exists_spellsChar (c : Char) : ∃ spelling, SpellsChar c spelling := by
  by_cases marked : c = '"' ∨ c = '\\'
  · rcases marked with rfl | rfl
    · exact ⟨_, .short (e := '"') (by decide)⟩
    · exact ⟨_, .short (e := '\\') (by decide)⟩
  · by_cases printable : 0x20 ≤ c.toNat
    · exact ⟨[c], .raw printable (fun e => marked (.inl e)) fun e => marked (.inr e)⟩
    · have digit : ∀ value < 16, IsHexDigit (Nat.digitChar value) value :=
        fun _ small => ⟨small, .inl rfl⟩
      have spelled := SpellsUnit.digits (digit 0 (by decide)) (digit 0 (by decide))
        (digit (c.toNat / 16) (by omega)) (digit (c.toNat % 16) (by omega))
      have unit : 0 * 0x1000 + 0 * 0x100 + c.toNat / 16 * 0x10 + c.toNat % 16 = c.toNat := by omega
      rw [unit] at spelled
      exact ⟨_, .unit spelled⟩

theorem exists_spellsString {text : CodePoints} (h : text.isWellFormed = true) :
    ∃ spelling, SpellsString text spelling := by
  have pieces : ∃ pieces, List.Forall₂ SpellsChar (text.toList.map CodePoint.toChar) pieces := by
    induction text.toList.map CodePoint.toChar with
    | nil => exact ⟨[], .nil⟩
    | cons c cs ih =>
      obtain ⟨piece, here⟩ := exists_spellsChar c
      obtain ⟨pieces, others⟩ := ih
      exact ⟨piece :: pieces, .cons here others⟩
  obtain ⟨pieces, pairs⟩ := pieces
  exact ⟨_, _, pieces, (CodePoints.ofChars_toChar h).symm, pairs, rfl⟩

def isPlain (c : Char) : Bool := 0x20 ≤ c.toNat && c ≠ '"' && c ≠ '\\'

theorem spellsString_of_plain {text : String} (plain : text.toList.all isPlain = true) :
    SpellsString text ('"' :: (text.toList ++ ['"'])) := by
  refine ⟨text.toList, text.toList.map fun c => [c], rfl, ?_, ?_⟩
  · refine List.forall₂_map_right_iff.2 (List.forall₂_same.2 fun c mem => ?_)
    have here := List.all_eq_true.1 plain c mem
    simp only [isPlain, Bool.and_eq_true, decide_eq_true_eq] at here
    exact .raw here.1.1 here.1.2 here.2
  · rw [← List.flatMap_def, List.flatMap_singleton']

/-! ### Reading them -/

variable {c next : Char} {rest digits : List Char} {unit value start offset : Nat}

theorem hexValue?_eq (h : IsHexDigit c value) : hexValue? c = some value := by
  have both : ∀ v < 16, hexValue? (Nat.digitChar v) = some v ∧
      hexValue? (Nat.digitChar v).toUpper = some v := by decide
  obtain ⟨small, rfl | rfl⟩ := h
  · exact (both value small).1
  · exact (both value small).2

theorem unit?_eq (h : SpellsUnit unit digits) (next : Char) (rest : List Char) :
    unit? (digits ++ next :: rest) = some unit := by
  cases h with
  | @digits a b c d w x y z first second third fourth =>
    have value : (w * 16 + x) * 256 + (y * 16 + z) = w * 0x1000 + x * 0x100 + y * 0x10 + z := by
      omega
    simp only [List.cons_append, List.nil_append, unit?, hexValue?_eq first, hexValue?_eq second,
      hexValue?_eq third, hexValue?_eq fourth, Option.bind_eq_bind, Option.bind_some, Option.pure_def,
      value]

theorem SpellsUnit.length (h : SpellsUnit unit digits) : digits.length = 4 := by
  cases h
  rfl

theorem joinUnits_of_char (c : Char) (rest : List Char) : joinUnits c.toNat rest = ⟨.ofChar c, 4⟩ := by
  have scalar := CodePoint.valid c
  have high : isHighSurrogate c.toNat = false := by
    simp only [isHighSurrogate, Bool.and_eq_false_iff, decide_eq_false_iff_not]
    omega
  rw [joinUnits, high]
  rfl

theorem joinUnits_of_pair {low : List Char} (large : 0xFFFF < c.toNat)
    (second : SpellsUnit (0xDC00 + (c.toNat - 0x10000) % 0x400) low) (next : Char)
    (rest : List Char) :
    joinUnits (0xD800 + (c.toNat - 0x10000) / 0x400) ('\\' :: 'u' :: (low ++ next :: rest)) =
      ⟨.ofChar c, 10⟩ := by
  have scalar := CodePoint.valid c
  have isHigh : isHighSurrogate (0xD800 + (c.toNat - 0x10000) / 0x400) = true := by
    simp only [isHighSurrogate, Bool.and_eq_true, decide_eq_true_eq]
    omega
  have isLow : isLowSurrogate (0xDC00 + (c.toNat - 0x10000) % 0x400) = true := by
    simp only [isLowSurrogate, Bool.and_eq_true, decide_eq_true_eq]
    omega
  have joined : 0x10000 + (0xD800 + (c.toNat - 0x10000) / 0x400 - 0xD800) * 0x400 +
      (0xDC00 + (c.toNat - 0x10000) % 0x400 - 0xDC00) = c.toNat := by
    omega
  rw [joinUnits, if_pos isHigh, escapedUnit?, unit?_eq second]
  dsimp only
  rw [if_pos isLow, joined]
  rfl

theorem readString_of_spells {spelling : List Char} (h : SpellsChar c spelling) (next : Char)
    (rest : List Char) : readString start offset (spelling ++ next :: rest) =
      (readString start (offset + spelling.length) (next :: rest)).map
        (·.cons (.ofChar c) spelling.length) := by
  cases h with
  | raw printable quote backslash =>
    rw [List.singleton_append, readString, if_neg quote, if_neg backslash,
      if_neg (Nat.not_lt.2 printable)]
    rfl
  | @short e listed =>
    have escapes : ∀ p ∈ shortEscapes, p.1 ≠ 'u' ∧ shortEscape? p.1 = some p.2 := by decide
    obtain ⟨letter, stands⟩ := escapes _ listed
    rw [List.cons_append, List.singleton_append, readString, if_neg (by decide), if_pos rfl]
    dsimp only
    rw [if_neg letter, stands]
    rfl
  | @unit digits spelled =>
    rw [List.cons_append, List.cons_append, readString, if_neg (by decide), if_pos rfl]
    dsimp only
    rw [if_pos rfl, unit?_eq spelled]
    dsimp only
    rw [joinUnits_of_char, List.drop_left' spelled.length, List.length_cons, List.length_cons,
      spelled.length]
    rfl
  | @pair high low large first second =>
    have length : (high ++ '\\' :: 'u' :: low).length = 10 := by
      rw [List.length_append, List.length_cons, List.length_cons, first.length, second.length]
    have behind : (high ++ '\\' :: 'u' :: (low ++ next :: rest)).drop 10 = next :: rest := by
      have split : ((high ++ '\\' :: 'u' :: low) ++ next :: rest).drop 10 = next :: rest :=
        List.drop_left' length
      rwa [List.append_assoc] at split
    rw [List.append_assoc, List.cons_append, List.cons_append, readString, if_neg (by decide),
      if_pos rfl]
    dsimp only
    rw [if_pos rfl, List.cons_append, List.cons_append, unit?_eq first]
    dsimp only
    rw [List.drop_left' first.length, joinUnits_of_pair large second]
    dsimp only
    rw [behind, List.cons_append, List.cons_append, List.length_cons, List.length_cons, length]

/-- A string is read from any spelling of its characters, and what is behind its end is not looked
at. -/
theorem readString_eq {characters : List Char} {pieces : List (List Char)}
    (h : List.Forall₂ SpellsChar characters pieces) (start offset : Nat) (rest : List Char) :
    readString start offset (pieces.flatten ++ '"' :: rest) =
      .ok ⟨characters.map CodePoint.ofChar, pieces.flatten.length + 1⟩ := by
  induction h generalizing offset with
  | nil =>
    rw [List.flatten_nil, List.nil_append, readString.eq_def]
    rfl
  | @cons c piece characters pieces first others ih =>
    obtain ⟨next, behind, e⟩ : ∃ next behind, pieces.flatten ++ '"' :: rest = next :: behind :=
      List.exists_cons_of_ne_nil (by simp)
    rw [List.flatten_cons, List.append_assoc, e, readString_of_spells first, ← e, ih,
      List.length_append]
    rw [List.map_cons, Nat.add_assoc]
    rfl

end DeclarationChecker.Json
