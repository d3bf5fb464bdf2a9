import DeclarationChecker.Proofs.Text.LineTable
import DeclarationChecker.Proofs.Token.Tokenization

set_option autoImplicit false

namespace DeclarationChecker

def Text.Position.down (lines : Nat) (p : Position) : Position := ⟨p.line + lines, p.column⟩

namespace Token

open Text

def linesOf (before : String) : Nat := before.toList.count '\n' + 1

def behind (before : String) (t : Token) : Token :=
  { t with position := t.position.down (linesOf before), offset := (before.length + 1 : Nat) + t.offset }

def LexicalError.behind (before : String) (e : LexicalError) : LexicalError :=
  ⟨⟨before.length + 1 + e.cause.offset, e.cause.character⟩, e.position.down (linesOf before)⟩

/-- What a first text is found to hold and then, unless it stops the scan, a second one. -/
def Scan.followedBy (first second : Scan) : Scan :=
  match first.stopped with
  | some cause => ⟨first.lexemes, some cause⟩
  | none => ⟨first.lexemes ++ second.lexemes, second.stopped⟩

def Lexeme.shift (distance : Nat) (l : Lexeme) : Lexeme := { l with offset := distance + l.offset }

def InvalidCharacter.shift (distance : Nat) (e : InvalidCharacter) : InvalidCharacter :=
  { e with offset := distance + e.offset }

def Scan.shift (distance : Nat) (scan : Scan) : Scan :=
  ⟨scan.lexemes.map (Lexeme.shift distance), scan.stopped.map (InvalidCharacter.shift distance)⟩

structure Scan.Within (bound : Nat) (scan : Scan) : Prop where
  lexemes : ∀ l ∈ scan.lexemes, l.offset ≤ bound
  stopped : ∀ cause ∈ scan.stopped, cause.offset ≤ bound

theorem Scan.cons_followedBy (l : Lexeme) (first second : Scan) :
    (first.cons l).followedBy second = (first.followedBy second).cons l := by
  unfold followedBy
  cases h : first.stopped <;> simp only [cons, h, List.cons_append]

theorem takeWhile_line {p : Char → Bool} (feed : p '\n' = false) (rest more : List Char) :
    (rest ++ '\n' :: more).takeWhile p = rest.takeWhile p := by
  induction rest with
  | nil => exact List.takeWhile_cons_of_neg (Bool.eq_false_iff.1 feed)
  | cons c rest ih => rw [List.cons_append, List.takeWhile_cons, List.takeWhile_cons, ih]

theorem head?_line {c : Char} (other : c ≠ '\n') (rest more : List Char) :
    (rest ++ '\n' :: more).head? = some c ↔ rest.head? = some c := by
  cases rest with
  | nil => simpa using other.symm
  | cons first rest => rfl

/-- What comes behind the line makes no difference to a step. -/
theorem step_line (c : Char) (rest more : List Char) : step c (rest ++ '\n' :: more) = step c rest := by
  simp only [step, head?_line (c := '/') (by decide), head?_line (c := '.') (by decide),
    takeWhile_line (p := (· ≠ '\n')) (by decide), takeWhile_line (p := Char.isDigit) (by decide),
    takeWhile_line (p := isWordChar) (by decide)]

theorem drop_line {extra : Nat} {rest : List Char} (inside : extra ≤ rest.length) (offset : Nat)
    (more : List Char) : (rest ++ '\n' :: more).drop extra = rest.drop extra ++ '\n' :: more ∧
      offset + 1 + extra + (rest.drop extra).length + 1 = offset + (rest.length + 1) + 1 := by
  rw [List.drop_append_of_le_length inside, List.length_drop]
  exact ⟨rfl, by omega⟩

theorem blank_feed : isBlank '\n' = true := by decide

theorem scanFrom_line (offset : Nat) (text more : List Char) : scanFrom offset (text ++ '\n' :: more) =
    (scanFrom offset text).followedBy (scanFrom (offset + text.length + 1) more) := by
  induction offset, text using scanFrom.induct with
  | case1 offset =>
    rw [List.nil_append, scanFrom, scanFrom, step_blank blank_feed]
    rfl
  | case2 offset c rest extra h ih =>
    obtain ⟨ahead, length⟩ := drop_line (skip_le h) offset more
    rw [List.cons_append, scanFrom, step_line, scanFrom, h]
    dsimp only
    rw [ahead, ih, length, List.length_cons]
  | case3 offset c rest kind text extra h ih =>
    obtain ⟨ahead, length⟩ := drop_line (lexeme_le h) offset more
    rw [List.cons_append, scanFrom, step_line, scanFrom, h]
    dsimp only
    rw [ahead, ih, length, List.length_cons, Scan.cons_followedBy]
  | case4 offset c rest h =>
    rw [List.cons_append, scanFrom, step_line, scanFrom, h]
    rfl

theorem scanFrom_shift (distance offset : Nat) (text : List Char) :
    scanFrom (distance + offset) text = (scanFrom offset text).shift distance := by
  induction offset, text using scanFrom.induct with
  | case1 offset =>
    rw [scanFrom, scanFrom]
    rfl
  | case2 offset c rest extra h ih =>
    rw [scanFrom, scanFrom, h]
    dsimp only
    rw [← ih, Nat.add_assoc distance, Nat.add_assoc distance]
  | case3 offset c rest kind text extra h ih =>
    rw [scanFrom, scanFrom, h]
    dsimp only
    rw [Nat.add_assoc distance, Nat.add_assoc distance, ih]
    rfl
  | case4 offset c rest h =>
    rw [scanFrom, scanFrom, h]
    rfl

theorem scanFrom_within (offset : Nat) (text : List Char) :
    (scanFrom offset text).Within (offset + text.length) := by
  induction offset, text using scanFrom.induct with
  | case1 offset =>
    rw [scanFrom]
    exact ⟨fun _ mem => absurd mem List.not_mem_nil, fun _ mem => absurd mem (Option.not_mem_none _)⟩
  | case2 offset c rest extra h ih =>
    rw [scanFrom, h]
    have length := (drop_line (skip_le h) offset []).2
    rwa [Nat.succ.inj length] at ih
  | case3 offset c rest kind text extra h ih =>
    rw [scanFrom, h]
    have length := (drop_line (lexeme_le h) offset []).2
    rw [Nat.succ.inj length] at ih
    exact ⟨List.forall_mem_cons.2 ⟨Nat.le_add_right _ _, ih.lexemes⟩, ih.stopped⟩
  | case4 offset c rest h =>
    rw [scanFrom, h]
    refine ⟨fun _ mem => absurd mem List.not_mem_nil, fun cause mem => ?_⟩
    obtain rfl := Option.some.inj mem
    exact Nat.le_add_right _ _

theorem scan_line (a b : String) :
    scan (a ++ "\n" ++ b) = (scan a).followedBy ((scan b).shift (a.length + 1)) := by
  rw [scan, String.toList_append, String.toList_append, List.append_assoc]
  refine (scanFrom_line 0 a.toList b.toList).trans ?_
  rw [Nat.zero_add, String.length_toList, ← Nat.add_zero (a.length + 1), scanFrom_shift]
  rfl

theorem toList_line (a b : String) : (a ++ "\n" ++ b).toList = a.toList ++ '\n' :: b.toList := by
  rw [String.toList_append, String.toList_append, List.append_assoc]
  rfl

theorem position_line {a : String} (b : String) {offset : Nat} (inside : offset ≤ a.toList.length) :
    (LineTable.ofText (a ++ "\n" ++ b).toList).position offset =
      (LineTable.ofText a.toList).position offset := by
  rw [toList_line, LineTable.position_append _ _ inside]

theorem position_behind (a b : String) (offset : Nat) :
    (LineTable.ofText (a ++ "\n" ++ b).toList).position (a.length + 1 + offset) =
      ((LineTable.ofText b.toList).position offset).down (linesOf a) := by
  rw [toList_line, ← String.length_toList, LineTable.position_after]
  rfl

theorem place_line {a : String} (b : String) {l : Lexeme} (inside : l.offset ≤ a.toList.length) :
    l.place (.ofText (a ++ "\n" ++ b).toList) = l.place (.ofText a.toList) := by
  rw [Lexeme.place, position_line b inside, Lexeme.place]

theorem place_behind (a b : String) (l : Lexeme) :
    (Lexeme.place (.ofText (a ++ "\n" ++ b).toList) ∘ Lexeme.shift (a.length + 1)) l =
      (behind a ∘ Lexeme.place (.ofText b.toList)) l := by
  dsimp only [Function.comp, Lexeme.place, Lexeme.shift, behind]
  rw [position_behind, Int.natCast_add]

/-- A text is tokenized line by line: a line feed and the text behind it change nothing before it,
and the tokens or the error behind it are those that the second text has by itself, further down. -/
theorem tokenize_lines (a b : String) : tokenize (a ++ "\n" ++ b) =
    match tokenize a with
    | .error e => .error e
    | .ok tokens =>
      match tokenize b with
      | .error e => .error (e.behind a)
      | .ok later => .ok (tokens ++ later.map (behind a)) := by
  have within : (scan a).Within a.toList.length := by
    have within := scanFrom_within 0 a.toList
    rwa [Nat.zero_add] at within
  have seam := scan_line a b
  cases found : scan a with
  | mk lexemes stopped =>
    rw [found] at within seam
    cases stopped with
    | some cause =>
      rw [tokenize_error seam, tokenize_error found, position_line b (within.stopped cause rfl)]
    | none =>
      rw [tokenize_ok found]
      cases found' : scan b with
      | mk lexemes' stopped' =>
        rw [found'] at seam
        cases stopped' with
        | some cause =>
          rw [tokenize_error found', tokenize_error seam]
          dsimp only [InvalidCharacter.shift]
          rw [position_behind]
          rfl
        | none =>
          rw [tokenize_ok found', tokenize_ok seam]
          dsimp only [Scan.shift]
          rw [List.map_append, List.map_map, List.map_map,
            List.map_congr_left fun l mem => place_line b (within.lexemes l mem),
            List.map_congr_left fun l _ => place_behind a b l]

end Token

end DeclarationChecker
