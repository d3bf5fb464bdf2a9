import DeclarationChecker.Text.CharacterClass

set_option autoImplicit false

namespace DeclarationChecker.Text

def spaces (count : Nat) : String := String.ofList (List.replicate count ' ')

def padRight (width : Nat) (text : String) : String := text ++ spaces (width - text.length)

def padLeft (width : Nat) (text : String) : String := spaces (width - text.length) ++ text

theorem length_padRight (width : Nat) (text : String) :
    (padRight width text).length = max width text.length := by
  simp only [padRight, spaces, String.length_append, String.length_ofList, List.length_replicate]
  omega

theorem length_padLeft (width : Nat) (text : String) :
    (padLeft width text).length = max width text.length := by
  simp only [padLeft, spaces, String.length_append, String.length_ofList, List.length_replicate]
  omega

/-! ### Quoted text -/

def apostrophe : Char := '\x27'

def quotationMark : Char := '\x22'

def markFor (text : List Char) : Char :=
  if apostrophe ∈ text ∧ quotationMark ∉ text then quotationMark else apostrophe

def hexDigits : Nat → Nat → List Char
  | 0, _ => []
  | count + 1, n => hexDigits count (n / 16) ++ [Nat.digitChar (n % 16)]

def escapeCode (code : Nat) : List Char :=
  if code < 0x100 then '\\' :: 'x' :: hexDigits 2 code
  else if code < 0x10000 then '\\' :: 'u' :: hexDigits 4 code
  else '\\' :: 'U' :: hexDigits 8 code

def escape (mark c : Char) : List Char :=
  if c = mark ∨ c = '\\' then ['\\', c]
  else if c = '\n' then ['\\', 'n']
  else if c = '\r' then ['\\', 'r']
  else if c = '\t' then ['\\', 't']
  else if isPrinted c then [c]
  else escapeCode c.toNat

def quoted (text : String) : String :=
  let mark := markFor text.toList
  String.ofList (mark :: text.toList.flatMap (escape mark) ++ [mark])

/-!
### Code points

Text that need not consist of characters. A surrogate is a code point but no character, and yet a
name can be given one by an escape: such a name can be compared and be put into a message, but it has
no encoding.
-/

abbrev CodePoint := Fin 0x110000

namespace CodePoint

/-- Numbers beyond the last code point wrap around. -/
def ofNat (n : Nat) : CodePoint := Fin.ofNat 0x110000 n

def ofChar (c : Char) : CodePoint := ofNat c.toNat

def toChar (p : CodePoint) : Char := Char.ofNat p.val

def isSurrogate (p : CodePoint) : Bool := 0xD800 ≤ p.val && p.val < 0xE000

theorem valid (c : Char) : c.toNat < 0xD800 ∨ 0xDFFF < c.toNat ∧ c.toNat < 0x110000 := c.valid

theorem val_ofChar (c : Char) : (ofChar c).val = c.toNat := by
  have := valid c
  exact Nat.mod_eq_of_lt (by omega)

theorem ofChar_inj {c d : Char} : ofChar c = ofChar d ↔ c = d := by
  rw [Fin.ext_iff, val_ofChar, val_ofChar, Char.toNat_inj]

@[simp] theorem toChar_ofChar (c : Char) : (ofChar c).toChar = c := by
  rw [toChar, val_ofChar, Char.ofNat_toNat]

@[simp] theorem isSurrogate_ofChar (c : Char) : (ofChar c).isSurrogate = false := by
  have := valid c
  rw [isSurrogate, val_ofChar]
  simp only [Bool.and_eq_false_iff, decide_eq_false_iff_not]
  omega

theorem ofChar_toChar {p : CodePoint} (h : p.isSurrogate = false) : ofChar p.toChar = p := by
  have scalar : p.val.isValidChar := by
    simp only [isSurrogate, Bool.and_eq_false_iff, decide_eq_false_iff_not] at h
    unfold Nat.isValidChar
    omega
  have same : (Char.ofNat p.val).toNat = p.val := by
    rw [Char.ofNat, dif_pos scalar]
    rfl
  rw [Fin.ext_iff, val_ofChar, toChar, same]

end CodePoint

structure CodePoints where
  toList : List CodePoint
  deriving DecidableEq, Repr

namespace CodePoints

def ofChars (characters : List Char) : CodePoints := ⟨characters.map CodePoint.ofChar⟩

def ofString (text : String) : CodePoints := ofChars text.toList

def ofStrings (texts : List String) : List CodePoints := texts.map ofString

instance : Coe String CodePoints := ⟨ofString⟩

instance : Append CodePoints := ⟨fun s t => ⟨s.toList ++ t.toList⟩⟩

instance : Ord CodePoints := ⟨fun s t => compare s.toList t.toList⟩

instance : LT CodePoints := ⟨fun s t => s.toList < t.toList⟩

def length (text : CodePoints) : Nat := text.toList.length

def intercalate (separator : CodePoints) : List CodePoints → CodePoints
  | [] => ""
  | [text] => text
  | text :: next :: texts => text ++ separator ++ intercalate separator (next :: texts)

def padRight (width : Nat) (text : CodePoints) : CodePoints :=
  text ++ spaces (width - text.length)

def escaped (text : CodePoints) : String :=
  String.ofList (text.toList.flatMap fun p =>
    if p.isSurrogate then escapeCode p.val else [p.toChar])

/-! ### Comparing -/

theorem toList_inj {s t : CodePoints} : s.toList = t.toList ↔ s = t := by
  cases s
  cases t
  simp

theorem ofChars_inj {cs ds : List Char} : ofChars cs = ofChars ds ↔ cs = ds := by
  rw [← toList_inj]
  exact List.map_inj_right fun c d => CodePoint.ofChar_inj.1

@[simp] theorem ofString_inj {s t : String} : ofString s = ofString t ↔ s = t := by
  rw [ofString, ofString, ofChars_inj, String.toList_inj]

theorem compare_eq (s t : CodePoints) : compare s t = compare s.toList t.toList := rfl

instance : Std.TransOrd CodePoints where
  eq_swap := by
    intro s t
    rw [compare_eq, compare_eq]
    exact Std.OrientedCmp.eq_swap
  isLE_trans := by
    intro s t u
    rw [compare_eq, compare_eq, compare_eq]
    exact Std.TransCmp.isLE_trans

instance : Std.LawfulEqOrd CodePoints where
  eq_of_compare h := toList_inj.1 (Std.LawfulEqCmp.eq_of_compare h)

theorem compare_eq_lt_iff {s t : CodePoints} : compare s t = .lt ↔ s < t := by
  obtain ⟨s⟩ := s
  obtain ⟨t⟩ := t
  change List.compareLex compare s t = .lt ↔ s < t
  induction s generalizing t with
  | nil => cases t <;> simp [List.compareLex_nil_nil, List.compareLex_nil_cons]
  | cons p s ih =>
    cases t with
    | nil => simp [List.compareLex_cons_nil]
    | cons q t =>
      have here : compare p q = .lt ↔ p < q := Nat.compare_eq_lt
      rw [List.compareLex_cons_cons, Ordering.then_eq_lt, here, Std.LawfulEqCmp.compare_eq_iff_eq,
        ih, List.cons_lt_cons_iff]

instance : Trans (fun s t : CodePoints => s < t) (fun s t : CodePoints => s < t)
    (fun s t : CodePoints => s < t) where
  trans h h' := compare_eq_lt_iff.1
    (Std.TransCmp.lt_trans (compare_eq_lt_iff.2 h) (compare_eq_lt_iff.2 h'))

theorem ne_of_lt {s t : CodePoints} (h : s < t) : s ≠ t := by
  rintro rfl
  exact List.lt_irrefl s.toList h

instance : Std.Asymm (fun s t : CodePoints => s < t) where
  asymm _ _ h h' := ne_of_lt (Trans.trans h h') rfl

/-! ### Appending -/

@[simp] theorem length_append (s t : CodePoints) : (s ++ t).length = s.length + t.length :=
  List.length_append

/-! ### Text without surrogates -/

def isWellFormed (text : CodePoints) : Bool := text.toList.all fun p => !p.isSurrogate

@[simp] theorem isWellFormed_append (s t : CodePoints) :
    (s ++ t).isWellFormed = (s.isWellFormed && t.isWellFormed) := List.all_append

@[simp] theorem isWellFormed_ofChars (characters : List Char) :
    (ofChars characters).isWellFormed = true := by
  simp [isWellFormed, ofChars]

@[simp] theorem isWellFormed_ofString (text : String) : (ofString text).isWellFormed = true :=
  isWellFormed_ofChars text.toList

theorem isWellFormed_intercalate {separator : CodePoints} {texts : List CodePoints}
    (apart : separator.isWellFormed = true) (h : ∀ text ∈ texts, text.isWellFormed = true) :
    (separator.intercalate texts).isWellFormed = true := by
  fun_induction intercalate separator texts with
  | case1 => exact isWellFormed_ofString ""
  | case2 text => exact h text List.mem_cons_self
  | case3 text next texts ih =>
    obtain ⟨here, others⟩ := List.forall_mem_cons.1 h
    rw [isWellFormed_append, isWellFormed_append, here, apart, ih others]
    rfl

theorem ofChars_toChar {text : CodePoints} (h : text.isWellFormed = true) :
    ofChars (text.toList.map CodePoint.toChar) = text := by
  rw [← toList_inj, ofChars, List.map_map]
  refine (List.map_congr_left fun p mem => ?_).trans text.toList.map_id
  have here := List.all_eq_true.1 h p mem
  exact CodePoint.ofChar_toChar (by simpa using here)

end CodePoints

end DeclarationChecker.Text
