set_option autoImplicit false

namespace DeclarationChecker.Text

def normalizeLineEndings : List Char → List Char
  | [] => []
  | '\r' :: '\n' :: rest => '\n' :: normalizeLineEndings rest
  | c :: rest => (if c = '\r' then '\n' else c) :: normalizeLineEndings rest

theorem not_mem_normalizeLineEndings (text : List Char) :
    '\r' ∉ normalizeLineEndings text := by
  fun_induction normalizeLineEndings text with
  | case1 => simp
  | case2 rest ih => simpa using ih
  | case3 c rest _ ih =>
    by_cases h : c = '\r'
    · simpa [h] using ih
    · have h' : '\r' ≠ c := fun e => h e.symm
      simp [h, h', ih]

/-! ### Places -/

structure Position where
  line : Int
  column : Int
  deriving DecidableEq, Repr

namespace Position

def le (p q : Position) : Bool :=
  p.line < q.line || (p.line = q.line && p.column ≤ q.column)

theorem le_iff (p q : Position) :
    p.le q = true ↔ p.line < q.line ∨ (p.line = q.line ∧ p.column ≤ q.column) := by
  simp [le]

theorem le_trans (p q r : Position) (hpq : p.le q = true) (hqr : q.le r = true) :
    p.le r = true := by
  simp only [le_iff] at *
  omega

theorem le_total (p q : Position) : (p.le q || q.le p) = true := by
  simp only [Bool.or_eq_true, le_iff]
  omega

theorem eq_of_le_of_le (p q : Position) (hpq : p.le q = true) (hqp : q.le p = true) : p = q := by
  simp only [le_iff] at *
  obtain ⟨pl, pc⟩ := p
  obtain ⟨ql, qc⟩ := q
  simp only [Position.mk.injEq] at *
  omega

def describe (p : Position) : String := s!"{p.line}:{p.column}"

end Position

/-! ### Line and column of an offset -/

def lineStartsFrom (offset : Nat) : List Char → List Nat
  | [] => []
  | c :: rest =>
    if c = '\n' then (offset + 1) :: lineStartsFrom (offset + 1) rest
    else lineStartsFrom (offset + 1) rest

structure LineTable where
  starts : Array Nat
  deriving DecidableEq, Repr

namespace LineTable

def ofText (text : List Char) : LineTable := ⟨(0 :: lineStartsFrom 0 text).toArray⟩

/-- How many of the starts are at or before the offset, when those below `low` are and those
from `high` on are not. -/
def countUpTo (starts : Array Nat) (offset low high : Nat) : Nat :=
  if low < high then
    let middle := (low + high) / 2
    if starts.getD middle 0 ≤ offset then countUpTo starts offset (middle + 1) high
    else countUpTo starts offset low middle
  else low
termination_by high - low

def line (table : LineTable) (offset : Nat) : Nat :=
  countUpTo table.starts offset 0 table.starts.size

def column (table : LineTable) (offset : Nat) : Nat :=
  offset - table.starts.getD (table.line offset - 1) 0 + 1

def position (table : LineTable) (offset : Nat) : Position :=
  ⟨table.line offset, table.column offset⟩

end LineTable

end DeclarationChecker.Text
