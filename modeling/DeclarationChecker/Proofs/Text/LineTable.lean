import DeclarationChecker.Text.Lines

set_option autoImplicit false

namespace DeclarationChecker.Text

def Position.Before (p q : Position) : Prop :=
  p.line < q.line ∨ (p.line = q.line ∧ p.column < q.column)

namespace Position.Before

variable {p q r : Position}

theorem trans (hpq : p.Before q) (hqr : q.Before r) : p.Before r := by
  unfold Before at *
  omega

theorem ne (h : p.Before q) : p ≠ q := by
  rintro rfl
  unfold Before at h
  omega

end Position.Before

theorem Position.le_iff_before_or_eq {p q : Position} : p.le q = true ↔ p.Before q ∨ p = q := by
  obtain ⟨line, column⟩ := p
  obtain ⟨line', column'⟩ := q
  rw [le_iff, mk.injEq]
  unfold Before
  dsimp only
  omega

structure LineStart (text : List Char) (offset start : Nat) : Prop where
  le : start ≤ offset
  opens : start = 0 ∨ 0 < start ∧ text[start - 1]? = some '\n'
  within : ∀ i, start ≤ i → i < offset → text[i]? ≠ some '\n'

namespace LineStart

variable {text text' : List Char} {offset offset' start start' : Nat}

theorem not_lt (h : LineStart text offset start) (h' : LineStart text offset start') :
    ¬ start < start' := by
  intro lt
  have le := h'.le
  rcases h'.opens with rfl | ⟨-, feed⟩
  · exact Nat.not_lt_zero _ lt
  · exact h.within (start' - 1) (by omega) (by omega) feed

theorem unique (h : LineStart text offset start) (h' : LineStart text offset start') :
    start = start' :=
  Nat.le_antisymm (Nat.not_lt.1 (h'.not_lt h)) (Nat.not_lt.1 (h.not_lt h'))

theorem congr (h : LineStart text offset start) (same : text.take offset = text'.take offset) :
    LineStart text' offset start := by
  have alike : ∀ i < offset, text[i]? = text'[i]? := fun i before => by
    rw [← List.getElem?_take_of_lt before, same, List.getElem?_take_of_lt before]
  have le := h.le
  refine ⟨le, ?_, fun i behind before => ?_⟩
  · rcases h.opens with first | ⟨positive, feed⟩
    · exact .inl first
    · exact .inr ⟨positive, by rw [← alike _ (by omega), feed]⟩
  · rw [← alike i before]
    exact h.within i behind before

theorem of_le (h : LineStart text offset' start) (le : start ≤ offset) (earlier : offset ≤ offset') :
    LineStart text offset start :=
  ⟨le, h.opens, fun i behind before => h.within i behind (Nat.lt_of_lt_of_le before earlier)⟩

end LineStart

/-! The starts of the lines, and how many of them there are up to an offset. -/

def lineStarts (text : List Char) : List Nat := 0 :: lineStartsFrom 0 text

theorem mem_lineStartsFrom {text : List Char} {offset start : Nat} :
    start ∈ lineStartsFrom offset text ↔ ∃ i, text[i]? = some '\n' ∧ start = offset + i + 1 := by
  induction text generalizing offset with
  | nil => simp [lineStartsFrom]
  | cons c rest ih =>
    have split : (∃ i, (c :: rest)[i]? = some '\n' ∧ start = offset + i + 1) ↔
        (c = '\n' ∧ start = offset + 1) ∨
          ∃ i, rest[i]? = some '\n' ∧ start = offset + 1 + i + 1 := by
      constructor
      · rintro ⟨i, feed, rfl⟩
        cases i with
        | zero => exact .inl ⟨Option.some.inj feed, rfl⟩
        | succ i => exact .inr ⟨i, feed, by omega⟩
      · rintro (⟨rfl, rfl⟩ | ⟨i, feed, rfl⟩)
        · exact ⟨0, rfl, rfl⟩
        · exact ⟨i + 1, feed, by omega⟩
    rw [split, lineStartsFrom, ← ih]
    by_cases feed : c = '\n'
    · rw [if_pos feed, List.mem_cons]
      simp only [feed, true_and]
    · rw [if_neg feed]
      simp only [feed, false_and, false_or]

theorem mem_lineStarts {text : List Char} {start : Nat} :
    start ∈ lineStarts text ↔ start = 0 ∨ 0 < start ∧ text[start - 1]? = some '\n' := by
  rw [lineStarts, List.mem_cons, mem_lineStartsFrom]
  refine or_congr_right ⟨?_, ?_⟩
  · rintro ⟨i, feed, rfl⟩
    rw [Nat.zero_add]
    exact ⟨Nat.succ_pos i, feed⟩
  · rintro ⟨positive, feed⟩
    exact ⟨start - 1, feed, by omega⟩

theorem lineStartsFrom_ascending (text : List Char) (offset : Nat) :
    (lineStartsFrom offset text).Pairwise (· < ·) := by
  induction text generalizing offset with
  | nil => exact .nil
  | cons c rest ih =>
    rw [lineStartsFrom]
    split
    · refine List.pairwise_cons.2 ⟨fun start mem => ?_, ih _⟩
      obtain ⟨i, -, rfl⟩ := mem_lineStartsFrom.1 mem
      omega
    · exact ih _

theorem lineStarts_ascending (text : List Char) : (lineStarts text).Pairwise (· < ·) := by
  refine List.pairwise_cons.2 ⟨fun start mem => ?_, lineStartsFrom_ascending text 0⟩
  obtain ⟨i, -, rfl⟩ := mem_lineStartsFrom.1 mem
  omega

/-- Each line feed before an offset starts a line at or before it. -/
theorem countP_lineStartsFrom (text : List Char) (offset width : Nat) :
    (lineStartsFrom offset text).countP (· ≤ offset + width) = (text.take width).count '\n' := by
  induction text generalizing offset width with
  | nil => simp [lineStartsFrom]
  | cons c rest ih =>
    cases width with
    | zero =>
      rw [List.take_zero, List.count_nil, List.countP_eq_zero]
      intro start mem
      obtain ⟨i, -, rfl⟩ := mem_lineStartsFrom.1 mem
      rw [decide_eq_true_eq]
      omega
    | succ width =>
      have others := ih (offset + 1) width
      rw [Nat.add_assoc, Nat.add_comm 1] at others
      rw [List.take_succ_cons, List.count_cons, lineStartsFrom, ← others]
      by_cases feed : c = '\n'
      · rw [if_pos feed, List.countP_cons, if_pos (by simp), if_pos (by simp [feed])]
      · rw [if_neg feed, if_neg (by simp [feed])]
        rfl

theorem countP_lineStarts (text : List Char) (offset : Nat) :
    (lineStarts text).countP (· ≤ offset) = (text.take offset).count '\n' + 1 := by
  have feeds := countP_lineStartsFrom text 0 offset
  rw [Nat.zero_add] at feeds
  rw [lineStarts, List.countP_cons, if_pos (by simp), feeds]

namespace LineTable

/-- `bound` parts a list: what is below it is at or before the offset, what is not is behind. -/
structure Parts (starts : List Nat) (offset bound : Nat) : Prop where
  inside : bound ≤ starts.length
  below : ∀ i (h : i < starts.length), i < bound → starts[i] ≤ offset
  above : ∀ i (h : i < starts.length), bound ≤ i → offset < starts[i]

section

variable {starts : List Nat} {offset bound low high : Nat}

/-- Halving keeps what is known of the places below `low` and from `high` on. -/
theorem countUpTo_parts (ascending : starts.Pairwise (· < ·)) (ordered : low ≤ high)
    (inside : high ≤ starts.length)
    (below : ∀ i (h : i < starts.length), i < low → starts[i] ≤ offset)
    (above : ∀ i (h : i < starts.length), high ≤ i → offset < starts[i]) :
    Parts starts offset (countUpTo starts.toArray offset low high) := by
  have lt_of_lt := List.pairwise_iff_getElem.1 ascending
  induction low, high using countUpTo.induct starts.toArray offset with
  | case1 low high range middle le ih =>
    have middle_lt : middle < starts.length := by omega
    rw [countUpTo, if_pos range]
    dsimp only
    rw [if_pos le]
    have le : starts[middle] ≤ offset := by simpa [middle_lt] using le
    refine ih (by omega) inside (fun i h lower => ?_) above
    rcases Nat.lt_or_eq_of_le (Nat.le_of_lt_succ lower) with before | rfl
    · exact Nat.le_of_lt (Nat.lt_of_lt_of_le (lt_of_lt i middle h middle_lt before) le)
    · exact le
  | case2 low high range middle le ih =>
    have middle_lt : middle < starts.length := by omega
    rw [countUpTo, if_pos range]
    dsimp only
    rw [if_neg le]
    have lt : offset < starts[middle] := by simpa [middle_lt] using le
    refine ih (by omega) (by omega) below fun i h higher => ?_
    rcases Nat.lt_or_eq_of_le higher with behind | rfl
    · exact Nat.lt_trans lt (lt_of_lt middle i middle_lt h behind)
    · exact lt
  | case3 low high range =>
    rw [countUpTo, if_neg range]
    obtain rfl : low = high := by omega
    exact ⟨inside, below, above⟩

theorem Parts.countP (h : Parts starts offset bound) : starts.countP (· ≤ offset) = bound := by
  have taken : (starts.take bound).countP (· ≤ offset) = bound := by
    rw [List.countP_eq_length.2, List.length_take, Nat.min_eq_left h.inside]
    intro s mem
    obtain ⟨i, within, rfl⟩ := List.mem_take_iff_getElem.1 mem
    exact decide_eq_true (h.below i _ (by omega))
  have left : (starts.drop bound).countP (· ≤ offset) = 0 := by
    rw [List.countP_eq_zero]
    intro s mem
    obtain ⟨i, within, rfl⟩ := List.mem_drop_iff_getElem.1 mem
    have lt := h.above (bound + i) (by omega) (Nat.le_add_right _ _)
    rw [decide_eq_true_eq]
    omega
  rw [← List.take_append_drop bound starts, List.countP_append, taken, left, Nat.add_zero]

end

variable {text text' : List Char} {offset offset' start : Nat}

theorem line_parts (text : List Char) (offset : Nat) :
    Parts (lineStarts text) offset ((ofText text).line offset) :=
  countUpTo_parts (lineStarts_ascending text) (Nat.zero_le _) (Nat.le_refl _)
    (fun i _ lower => absurd lower (Nat.not_lt_zero i)) fun _ h above => absurd h (Nat.not_lt.2 above)

theorem line_eq (text : List Char) (offset : Nat) :
    (ofText text).line offset = (text.take offset).count '\n' + 1 := by
  rw [← countP_lineStarts, (line_parts text offset).countP]

theorem exists_lineStart (text : List Char) (offset : Nat) : ∃ start,
    LineStart text offset start ∧ (ofText text).starts.getD ((ofText text).line offset - 1) 0 = start := by
  have parts := line_parts text offset
  have positive : 0 < (ofText text).line offset := by
    rw [line_eq]
    exact Nat.succ_pos _
  have inside : (ofText text).line offset - 1 < (lineStarts text).length :=
    Nat.lt_of_lt_of_le (Nat.sub_lt positive Nat.one_pos) parts.inside
  have found : (ofText text).starts.getD ((ofText text).line offset - 1) 0 =
      (lineStarts text)[(ofText text).line offset - 1] := by
    change (lineStarts text).toArray.getD _ 0 = _
    simp [inside]
  refine ⟨_, ⟨parts.below _ inside (by omega), mem_lineStarts.1 (List.getElem_mem inside), ?_⟩, found⟩
  intro i behind before feed
  -- A line feed in between would start a line as well, and that one would be counted.
  obtain ⟨k, listed, e⟩ := List.mem_iff_getElem.1
    (mem_lineStarts.2 (.inr ⟨Nat.succ_pos i, (feed : text[i + 1 - 1]? = _)⟩))
  have counted : k < (ofText text).line offset := Nat.lt_of_not_le fun higher => by
    have lt := parts.above k listed higher
    omega
  rcases Nat.lt_or_eq_of_le (Nat.le_sub_one_of_lt counted) with earlier | rfl
  · have lt := List.pairwise_iff_getElem.1 (lineStarts_ascending text) k _ listed inside earlier
    omega
  · omega

/-- The line is one more than the line feeds before the offset; the column counts from the start of
the line. -/
theorem position_eq (h : LineStart text offset start) : (ofText text).position offset =
    ⟨((text.take offset).count '\n' + 1 : Nat), (offset - start + 1 : Nat)⟩ := by
  obtain ⟨start', h', found⟩ := exists_lineStart text offset
  rw [position, column, found, line_eq, h.unique h']

theorem position_congr (same : text.take offset = text'.take offset) :
    (ofText text).position offset = (ofText text').position offset := by
  obtain ⟨start, h, -⟩ := exists_lineStart text offset
  rw [position_eq h, position_eq (h.congr same), same]

theorem position_append (text later : List Char) (inside : offset ≤ text.length) :
    (ofText (text ++ later)).position offset = (ofText text).position offset :=
  position_congr (List.take_append_of_le_length inside)

/-- Behind a text that ends its last line, lines are counted on and columns are as they were. -/
theorem position_after (text later : List Char) (offset : Nat) :
    (ofText (text ++ '\n' :: later)).position (text.length + 1 + offset) =
      ⟨((ofText later).position offset).line + (text.count '\n' + 1 : Nat),
        ((ofText later).position offset).column⟩ := by
  obtain ⟨start, h, -⟩ := exists_lineStart later offset
  have shifted : ∀ i, (text ++ '\n' :: later)[text.length + 1 + i]? = later[i]? := fun i => by
    rw [List.getElem?_append_right (by omega), show text.length + 1 + i - text.length = i + 1 by omega,
      List.getElem?_cons_succ]
  have le := h.le
  have h' : LineStart (text ++ '\n' :: later) (text.length + 1 + offset) (text.length + 1 + start) := by
    refine ⟨by omega, .inr ⟨by omega, ?_⟩, fun i behind before => ?_⟩
    · rcases h.opens with rfl | ⟨positive, feed⟩
      · rw [Nat.add_zero, Nat.add_sub_cancel, List.getElem?_append_right (Nat.le_refl _), Nat.sub_self]
        rfl
      · rw [Nat.add_sub_assoc positive, shifted]
        exact feed
    · obtain ⟨j, rfl⟩ := Nat.exists_eq_add_of_le (Nat.le_trans (Nat.le_add_right _ _) behind)
      rw [shifted]
      exact h.within j (by omega) (by omega)
  have feeds : ((text ++ '\n' :: later).take (text.length + 1 + offset)).count '\n' =
      (later.take offset).count '\n' + (text.count '\n' + 1) := by
    rw [Nat.add_assoc, List.take_length_add_append, Nat.add_comm 1, List.take_succ_cons,
      List.count_append, List.count_cons_self]
    omega
  rw [position_eq h, position_eq h', feeds, Nat.add_sub_add_left, Position.mk.injEq]
  exact ⟨by dsimp only; omega, rfl⟩

theorem count_lt (feed : text[start - 1]? = some '\n') (behind : offset < start)
    (inside : start ≤ offset') :
    (text.take offset).count '\n' < (text.take offset').count '\n' := by
  obtain ⟨before, rfl⟩ : ∃ before, start = before + 1 := ⟨start - 1, by omega⟩
  have fewer := (List.take_sublist_take_left (l := text) (Nat.le_of_lt_succ behind)).count_le '\n'
  have more := (List.take_sublist_take_left (l := text) inside).count_le '\n'
  rw [Nat.add_sub_cancel] at feed
  rw [List.take_add_one, feed, List.count_append] at more
  exact Nat.lt_of_lt_of_le (Nat.lt_succ_of_le fewer) more

theorem position_before (text : List Char) (before : offset < offset') :
    ((ofText text).position offset).Before ((ofText text).position offset') := by
  obtain ⟨start, h, -⟩ := exists_lineStart text offset
  obtain ⟨start', h', -⟩ := exists_lineStart text offset'
  have inside := h'.le
  rw [position_eq h, position_eq h']
  rcases Nat.lt_or_ge offset start' with behind | le
  · -- The later line starts after the first offset, by a line feed in between.
    rcases h'.opens with rfl | ⟨-, feed⟩
    · exact absurd behind (Nat.not_lt_zero _)
    · have fewer := count_lt feed behind inside
      exact .inl (by dsimp only; omega)
  · obtain rfl := h.unique (h'.of_le le (Nat.le_of_lt before))
    have sublist := (List.take_sublist_take_left (l := text) (Nat.le_of_lt before)).count_le '\n'
    unfold Position.Before
    dsimp only
    omega

theorem position_before_iff (text : List Char) :
    ((ofText text).position offset).Before ((ofText text).position offset') ↔ offset < offset' := by
  constructor
  · intro h
    rcases Nat.lt_trichotomy offset offset' with before | rfl | behind
    · exact before
    · exact absurd rfl h.ne
    · exact absurd rfl (h.trans (position_before text behind)).ne
  · exact position_before text

theorem position_inj (text : List Char) :
    (ofText text).position offset = (ofText text).position offset' ↔ offset = offset' := by
  constructor
  · intro same
    rcases Nat.lt_trichotomy offset offset' with before | eq | behind
    · exact absurd same (position_before text before).ne
    · exact eq
    · exact absurd same.symm (position_before text behind).ne
  · exact congrArg _

theorem position_le_iff (text : List Char) :
    ((ofText text).position offset).le ((ofText text).position offset') = true ↔ offset ≤ offset' := by
  rw [Position.le_iff_before_or_eq, position_before_iff, position_inj, Nat.le_iff_lt_or_eq]

/-- Wherever an offset is, its line is told by the line feeds before it and its column by the last of
them. Positions are in reading order just as their offsets are, so no two offsets share one, and
whatever has an offset is put in the same order by either. -/
theorem position_counts (text : List Char) :
    (∀ offset, ∃ start, LineStart text offset start ∧ (ofText text).position offset =
      ⟨(1 + (text.take offset).count '\n' : Nat), (offset - start + 1 : Nat)⟩) ∧
    (∀ offset offset', ((ofText text).position offset).Before ((ofText text).position offset') ↔
      offset < offset') ∧
    (∀ offset offset', (ofText text).position offset = (ofText text).position offset' ↔
      offset = offset') ∧
    ∀ {α : Type} (offset : α → Nat) (items : List α),
      (items.mergeSort fun x y =>
          ((ofText text).position (offset x)).le ((ofText text).position (offset y))) =
        items.mergeSort fun x y => offset x ≤ offset y := by
  refine ⟨fun offset => ?_, fun _ _ => position_before_iff text, fun _ _ => position_inj text, ?_⟩
  · obtain ⟨start, h, -⟩ := exists_lineStart text offset
    exact ⟨start, h, by rw [position_eq h, Nat.add_comm 1]⟩
  · intro α offset items
    have same : (fun x y : α =>
        ((ofText text).position (offset x)).le ((ofText text).position (offset y))) =
          fun x y => decide (offset x ≤ offset y) := by
      funext x y
      rw [Bool.eq_iff_iff, position_le_iff, decide_eq_true_eq]
    rw [same]

end LineTable

end DeclarationChecker.Text
