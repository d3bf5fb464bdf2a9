import DeclarationChecker.Proofs.Declaration.Semantics
import DeclarationChecker.Proofs.Token.Printing

set_option autoImplicit false

namespace DeclarationChecker

open Token

namespace DeclaredType

def Canonical : DeclaredType → Prop
  | primitive _ => True
  | string none => True
  | string (some size) => Numeral.Canonical size.digits
  | array low high element =>
    Numeral.Canonical low.digits ∧ Numeral.Canonical high.digits ∧ element.Canonical

/-- What is wrong with the type: ranges that do not ascend, and a size that no string can have. -/
def faults : DeclaredType → List Diagnostic.Cause
  | primitive _ => []
  | string none => []
  | string (some size) =>
    if 1 ≤ Numeral.value size.digits ∧ Numeral.value size.digits ≤ 255 then [] else [.stringSize size]
  | array low high element =>
    (if Numeral.value low.digits ≥ Numeral.value high.digits then [.range ⟨low, high⟩] else []) ++
      element.faults

def rangeWords (low high : Numeral) : List Printed :=
  [⟨.keyword, "array", ""⟩, ⟨.punctuation, "[", ""⟩, ⟨.number, low.toText, ""⟩, ⟨.dots, "..", ""⟩,
    ⟨.number, high.toText, ""⟩, ⟨.punctuation, "]", " "⟩, ⟨.keyword, "of", " "⟩]

def words : DeclaredType → List Printed
  | primitive type => [⟨.keyword, type.name, ""⟩]
  | string none => [⟨.keyword, "string", ""⟩]
  | string (some size) =>
    [⟨.keyword, "string", ""⟩, ⟨.punctuation, "[", ""⟩, ⟨.number, size.toText, ""⟩,
      ⟨.punctuation, "]", ""⟩]
  | array low high element => rangeWords low high ++ element.words

theorem join_words (T : DeclaredType) : Printed.join T.words = T.describe := by
  induction T with
  | primitive type => simp [words, Printed.join, describe]
  | string size =>
    cases size with
    | none => simp [words, Printed.join, describe]
    | some size =>
      have opening : "string[" = "string" ++ "[" := rfl
      simp only [words, Printed.join, describe, toString, opening, String.append_assoc,
        String.empty_append, String.append_empty]
  | array low high element ih =>
    have opening : "array[" = "array" ++ "[" := rfl
    have closing : "] of " = "]" ++ (" " ++ ("of" ++ " ")) := rfl
    simp only [words, rangeWords, List.cons_append, List.nil_append, Printed.join, ih, describe,
      toString, opening, closing, String.append_assoc, String.empty_append]

theorem spells_numeral {n : Numeral} (h : Numeral.Canonical n.digits) :
    Kind.number.Spells n.toText := by
  obtain ⟨first, rest, e⟩ := List.exists_cons_of_length_pos h.length_pos
  exact ⟨first, rest, congrArg String.ofList e, e ▸ h.all⟩

theorem spells_opening : Kind.punctuation.Spells "[" := ⟨'[', by decide, rfl⟩

theorem spells_closing : Kind.punctuation.Spells "]" := ⟨']', by decide, rfl⟩

theorem spells_keyword {word : String} (h : word ∈ keywords) : Kind.keyword.Spells word := h

theorem white_of_all {words : List Printed}
    (h : words.all (fun p => p.gap.toList.all Text.isBlank) = true) :
    ∀ p ∈ words, ∀ c ∈ p.gap.toList, Text.isBlank c = true :=
  fun p mem => List.all_eq_true.1 (List.all_eq_true.1 h p mem)

theorem readable_range {low high : Numeral} (hlow : Numeral.Canonical low.digits)
    (hhigh : Numeral.Canonical high.digits) : Printed.Readable (rangeWords low high) where
  spelled := by
    simp only [rangeWords, List.forall_mem_cons]
    exact ⟨spells_keyword (by decide), spells_opening, spells_numeral hlow, rfl, spells_numeral hhigh,
      spells_closing, spells_keyword (by decide), nofun⟩
  white := white_of_all rfl
  apart := by simp [rangeWords, Kind.runsOn]

theorem readable_size {size : Numeral} (h : Numeral.Canonical size.digits) :
    Printed.Readable (string (some size)).words where
  spelled := by
    simp only [words, List.forall_mem_cons]
    exact ⟨spells_keyword (by decide), spells_opening, spells_numeral h, spells_closing, nofun⟩
  white := white_of_all rfl
  apart := by simp [words, Kind.runsOn]

theorem readable_word {word : String} (h : word ∈ keywords) :
    Printed.Readable [⟨.keyword, word, ""⟩] where
  spelled := List.forall_mem_singleton.2 h
  white := List.forall_mem_singleton.2 nofun
  apart := .singleton _

theorem readable_words {T : DeclaredType} (h : T.Canonical) : Printed.Readable T.words := by
  induction T with
  | primitive type => exact readable_word (by cases type <;> decide)
  | string size =>
    cases size with
    | none => exact readable_word (by decide)
    | some size => exact readable_size h
  | array low high element ih =>
    obtain ⟨hlow, hhigh, canonical⟩ := h
    refine (readable_range hlow hhigh).append (ih canonical) ?_
    rintro p ⟨⟩
    exact (by decide : " " ≠ "")

end DeclaredType

namespace Declaration

open DeclaredType SyntaxTree

def wordOf (t : Token) : Kind × String := (t.kind, t.text)

section

variable {t : Token}

theorem isKeyword_of_word {word : String} (h : wordOf t = (.keyword, word)) :
    t.isKeyword word = true := by
  obtain ⟨kind, text⟩ := Prod.mk.inj h
  simp [isKeyword, kind, text]

theorem isPunctuation_of_word {mark : String} (h : wordOf t = (.punctuation, mark)) :
    t.isPunctuation mark = true := by
  obtain ⟨kind, text⟩ := Prod.mk.inj h
  simp [isPunctuation, kind, text]

theorem kind_of_word {kind : Kind} {text : String} (h : wordOf t = (kind, text)) :
    decide (t.kind = kind) = true :=
  decide_eq_true (Prod.mk.inj h).1

theorem numeral_of_word {kind : Kind} {n : Numeral} (canonical : Numeral.Canonical n.digits)
    (h : wordOf t = (kind, n.toText)) : Numeral.ofText t.text = n := by
  rw [(Prod.mk.inj h).2, Numeral.ofText_toText canonical]

theorem exists_range {low high : Numeral} (hlow : Numeral.Canonical low.digits)
    (hhigh : Numeral.Canonical high.digits) {tokens : List Token}
    (h : tokens.map wordOf = (rangeWords low high).map Printed.word) :
    ∃ r : SyntaxTree.Range, r.tokens = tokens ∧ r.bounds = ⟨low, high⟩ := by
  obtain ⟨array, _, rfl, harray, h⟩ := List.map_eq_cons_iff.1 h
  obtain ⟨opening, _, rfl, hopening, h⟩ := List.map_eq_cons_iff.1 h
  obtain ⟨first, _, rfl, hfirst, h⟩ := List.map_eq_cons_iff.1 h
  obtain ⟨dots, _, rfl, hdots, h⟩ := List.map_eq_cons_iff.1 h
  obtain ⟨second, _, rfl, hsecond, h⟩ := List.map_eq_cons_iff.1 h
  obtain ⟨closing, _, rfl, hclosing, h⟩ := List.map_eq_cons_iff.1 h
  obtain ⟨of, _, rfl, hof, h⟩ := List.map_eq_cons_iff.1 h
  obtain rfl := List.map_eq_nil_iff.1 h
  refine ⟨⟨⟨array, isKeyword_of_word harray⟩, ⟨opening, isPunctuation_of_word hopening⟩,
    ⟨first, kind_of_word hfirst⟩, ⟨dots, kind_of_word hdots⟩, ⟨second, kind_of_word hsecond⟩,
    ⟨closing, isPunctuation_of_word hclosing⟩, ⟨of, isKeyword_of_word hof⟩⟩, rfl, ?_⟩
  exact congrArg₂ DeclaredType.Range.mk (numeral_of_word hlow hfirst) (numeral_of_word hhigh hsecond)

theorem exists_size {size : Numeral} (canonical : Numeral.Canonical size.digits)
    {tokens : List Token} (h : tokens.map wordOf = (string (some size)).words.map Printed.word) :
    ∃ (word : Keyword "string") (s : Size), word.val :: s.tokens = tokens ∧ s.numeral = size := by
  obtain ⟨word, _, rfl, hword, h⟩ := List.map_eq_cons_iff.1 h
  obtain ⟨opening, _, rfl, hopening, h⟩ := List.map_eq_cons_iff.1 h
  obtain ⟨number, _, rfl, hnumber, h⟩ := List.map_eq_cons_iff.1 h
  obtain ⟨closing, _, rfl, hclosing, h⟩ := List.map_eq_cons_iff.1 h
  obtain rfl := List.map_eq_nil_iff.1 h
  exact ⟨⟨word, isKeyword_of_word hword⟩, ⟨⟨opening, isPunctuation_of_word hopening⟩,
    ⟨number, kind_of_word hnumber⟩, ⟨closing, isPunctuation_of_word hclosing⟩⟩, rfl,
    numeral_of_word canonical hnumber⟩

end

theorem exists_tree {T : DeclaredType} (canonical : T.Canonical) {tokens : List Token}
    (h : tokens.map wordOf = T.words.map Printed.word) :
    ∃ t : TypeExpr, t.tokens = tokens ∧ t.declared = T := by
  induction T generalizing tokens with
  | primitive type =>
    obtain ⟨word, _, rfl, hword, h⟩ := List.map_eq_cons_iff.1 h
    obtain rfl := List.map_eq_nil_iff.1 h
    obtain ⟨kind, text⟩ := Prod.mk.inj hword
    have named : primitive? word = some type := by
      rw [primitive?, if_pos kind, text, PrimitiveType.ofName?_name]
    exact ⟨⟨[], .primitive word type named⟩, rfl, rfl⟩
  | string size =>
    cases size with
    | none =>
      obtain ⟨word, _, rfl, hword, h⟩ := List.map_eq_cons_iff.1 h
      obtain rfl := List.map_eq_nil_iff.1 h
      exact ⟨⟨[], .string ⟨word, isKeyword_of_word hword⟩ none⟩, rfl, rfl⟩
    | some size =>
      obtain ⟨word, s, rfl, numeral⟩ := exists_size canonical h
      exact ⟨⟨[], .string word (some s)⟩, rfl, congrArg (string ∘ some) numeral⟩
  | array low high element ih =>
    obtain ⟨hlow, hhigh, canonical⟩ := canonical
    rw [words, List.map_append] at h
    obtain ⟨front, back, rfl, hfront, hback⟩ := List.map_eq_append_iff.1 h
    obtain ⟨r, rfl, bounds⟩ := exists_range hlow hhigh hfront
    obtain ⟨t, rfl, rfl⟩ := ih canonical hback
    refine ⟨⟨r :: t.ranges, t.element⟩, ?_, ?_⟩
    · rw [TypeExpr.tokens, List.flatMap_cons, List.append_assoc]
      rfl
    · change array r.bounds.low r.bounds.high t.declared = _
      rw [bounds]

theorem canonical_of_number {t : Token} {tokens : List Token} (h : Numbered tokens) (mem : t ∈ tokens)
    (number : decide (t.kind = .number) = true) : Numeral.Canonical (Numeral.ofText t.text).digits :=
  Numeral.ofText_canonical (h t mem (of_decide_eq_true number))

/-- Whatever zeros its numbers begin with, a tree stands for a type without them. -/
theorem canonical_declared (t : TypeExpr) (h : Numbered t.tokens) : t.declared.Canonical := by
  obtain ⟨ranges, element⟩ := t
  induction ranges with
  | nil =>
    cases element with
    | primitive word type named => exact trivial
    | string word size =>
      cases size with
      | none => exact trivial
      | some s =>
        exact canonical_of_number h (by simp [TypeExpr.tokens, Element.tokens, Element.tail, Size.tokens])
          s.number.property
  | cons r ranges ih =>
    rw [TypeExpr.tokens, List.flatMap_cons, List.append_assoc] at h
    refine ⟨canonical_of_number h ?_ r.low.property, canonical_of_number h ?_ r.high.property,
      ih (h.sub (List.subset_append_right _ _))⟩
    · simp [SyntaxTree.Range.tokens, SyntaxTree.Range.tail]
    · simp [SyntaxTree.Range.tokens, SyntaxTree.Range.tail]

theorem range_faults (r : SyntaxTree.Range) (element : DeclaredType) :
    (array r.bounds.low r.bounds.high element).faults =
      r.error?.toList.map Diagnostic.cause ++ element.faults := by
  simp only [faults, SyntaxTree.Range.bounds, SyntaxTree.Range.error?, Numeral.value_ofText]
  split <;> rfl

theorem size_faults (s : Size) :
    (string (some s.numeral)).faults = s.error?.toList.map Diagnostic.cause := by
  simp only [faults, Size.numeral, Size.error?, Numeral.value_ofText]
  split <;> rfl

theorem errors_faults (t : TypeExpr) : t.errors.map Diagnostic.cause = t.declared.faults := by
  obtain ⟨ranges, element⟩ := t
  induction ranges with
  | nil =>
    cases element with
    | primitive word type named => rfl
    | string word size =>
      cases size with
      | none => rfl
      | some s =>
        change (s.error?.toList ++ []).map Diagnostic.cause = (string (some s.numeral)).faults
        rw [List.append_nil, size_faults]
  | cons r ranges ih =>
    change _ = (array r.bounds.low r.bounds.high (TypeExpr.declared ⟨ranges, element⟩)).faults
    rw [range_faults, ← ih, ← List.map_append, TypeExpr.errors, List.flatMap_cons, List.append_assoc]
    rfl

theorem faults_semantic (T : DeclaredType) : ∀ cause ∈ T.faults, cause.kind = .semantic := by
  induction T with
  | primitive type => exact fun _ mem => absurd mem List.not_mem_nil
  | string size =>
    cases size with
    | none => exact fun _ mem => absurd mem List.not_mem_nil
    | some size =>
      unfold faults
      split <;> simp [Diagnostic.Cause.kind]
  | array low high element ih =>
    refine List.forall_mem_append.2 ⟨?_, ih⟩
    split <;> simp [Diagnostic.Cause.kind]

section

variable (t : TypeExpr) (spelled : ∀ t' ∈ t.tokens, t'.kind.Spells t'.text)

include spelled

theorem type_ofTokens : type (Session.ofTokens t.tokens).stop (Session.ofTokens t.tokens).ahead =
    ⟨.value t.declared, t.events, t.tokens.length⟩ := by
  have noEnd : ∀ t' ∈ t.tokens, t'.isEnd = false := fun t' mem => isEnd_eq_false (spelled t' mem)
  have last : ([].headD (endAfter t.tokens)).isPunctuation "[" = false :=
    isPunctuation_eq_false_of_isEnd (isEnd_endAfter t.tokens) "["
  have taken : type (endAfter t.tokens) (t.tokens ++ []) = _ := type_takes t last
  rw [stop_ofTokens noEnd, ahead_ofTokens noEnd]
  rwa [List.append_nil] at taken

theorem diagnostics_ofTokens :
    ((Session.ofTokens t.tokens).perform type).session.findings.diagnostics = t.errors := by
  unfold Session.perform
  rw [type_ofTokens t spelled]
  dsimp only [Findings.followedBy]
  rw [observeAll_type t (numbered_of_spells spelled)]
  rfl

theorem current_ofTokens :
    ((Session.ofTokens t.tokens).perform type).session.current = endAfter t.tokens := by
  have noEnd : ∀ t' ∈ t.tokens, t'.isEnd = false := fun t' mem => isEnd_eq_false (spelled t' mem)
  have used : ((Session.ofTokens t.tokens).perform type).session.index = t.tokens.length :=
    (Nat.zero_add _).trans (congrArg Reading.used (type_ofTokens t spelled))
  have nothing : ((Session.ofTokens t.tokens).perform type).session.ahead = [] := by
    rw [Session.ahead, used]
    change ((prepare t.tokens).drop t.tokens.length).takeWhile _ = []
    rw [prepare_eq noEnd, List.drop_left, List.takeWhile_cons_of_neg (by simp [isEnd_endAfter])]
  rw [Session.current, nothing]
  exact stop_ofTokens noEnd

end

/-- The tokens of the printed type are read as the type itself, up to the end of the input, and all that
is said of it is what is wrong with it. -/
structure ReadsBack (T : DeclaredType) (tokens : List Token) : Prop where
  printed : tokenize T.describe = .ok tokens
  value : ((Session.ofTokens tokens).perform type).outcome = .value T
  atEnd : ((Session.ofTokens tokens).perform type).session.current = endAfter tokens
  faults : ((Session.ofTokens tokens).perform type).session.findings.diagnostics.map
    Diagnostic.cause = T.faults
  semantic : ∀ d ∈ ((Session.ofTokens tokens).perform type).session.findings.diagnostics,
    d.kind = .semantic

theorem readsBack {T : DeclaredType} (canonical : T.Canonical) : ∃ tokens, ReadsBack T tokens := by
  obtain ⟨tokens, printed, same⟩ := (readable_words canonical).tokenize
  rw [join_words] at printed
  obtain ⟨t, rfl, rfl⟩ := exists_tree canonical same
  have spelled := tokenize_spells printed
  have faults := errors_faults t
  rw [← diagnostics_ofTokens t spelled] at faults
  have semantic : ∀ d ∈ ((Session.ofTokens t.tokens).perform type).session.findings.diagnostics,
      d.kind = .semantic := fun d mem =>
    faults_semantic t.declared d.cause (faults ▸ List.mem_map_of_mem mem)
  exact ⟨t.tokens, printed, congrArg Reading.outcome (type_ofTokens t spelled),
    current_ofTokens t spelled, faults, semantic⟩

theorem canonical_of_value {source : String} {tokens : List Token} (ok : tokenize source = .ok tokens)
    {s : Session} (same : s.tokens = prepare tokens) {T : DeclaredType}
    (value : (s.perform type).outcome = .value T) : T.Canonical := by
  have spelled := tokenize_spells ok
  have noEnd : ∀ t ∈ tokens, t.isEnd = false := fun t mem => isEnd_eq_false (spelled t mem)
  have numbered : Numbered s.tokens := by
    rw [same, prepare_eq noEnd]
    refine List.forall_mem_append.2 ⟨numbered_of_spells spelled, List.forall_mem_singleton.2 ?_⟩
    intro kind
    exact absurd (isEnd_endAfter tokens) (by simp [isEnd, kind])
  obtain ⟨xs, rest, ahead, t, rfl, rfl⟩ :=
    ((type_reads 0).accounts s.stop s.ahead s.isEnd_stop).of_value value
  have part : t.tokens ⊆ s.tokens := fun t' mem =>
    s.ahead_inside.subset (ahead ▸ List.mem_append_left rest mem)
  exact canonical_declared t (numbered.sub part)

/-- A type without superfluous zeros is read back from what it is printed as, and every type that is
read from a text is such a type, wherever in the text it stands. -/
theorem type_reads_back :
    (∀ T : DeclaredType, T.Canonical → ∃ tokens, ReadsBack T tokens) ∧
    ∀ (source : String) (tokens : List Token), tokenize source = .ok tokens →
      ∀ (s : Session) (T : DeclaredType), s.tokens = prepare tokens →
        (s.perform type).outcome = .value T → T.Canonical ∧ ∃ tokens', ReadsBack T tokens' := by
  refine ⟨fun T => readsBack, fun source tokens ok s T same value => ?_⟩
  have canonical := canonical_of_value ok same value
  exact ⟨canonical, readsBack canonical⟩

/-- Zeros before a number are all that printing loses, and what is wrong with a type is said of the
printed one as well. -/
theorem type_reads_back_descending :
    let T : DeclaredType := .array ⟨['1', '0']⟩ ⟨['2']⟩ (.string (some ⟨['0']⟩))
    T.Canonical ∧ T.describe = "array[10..2] of string[0]" ∧
      T.faults = [.range ⟨⟨['1', '0']⟩, ⟨['2']⟩⟩, .stringSize ⟨['0']⟩] ∧
      (∃ tokens, ReadsBack T tokens) ∧
      ∃ tokens, tokenize "array[010..2]of string[00]" = .ok tokens ∧
        ((Session.ofTokens tokens).perform type).outcome = .value T ∧
        T.Canonical ∧ ∃ tokens', ReadsBack T tokens' := by
  intro T
  have ten : Numeral.Canonical ['1', '0'] :=
    ⟨List.all_eq_true.1 rfl, .inr ⟨'1', ['0'], rfl, by decide⟩⟩
  have two : Numeral.Canonical ['2'] := ⟨List.all_eq_true.1 rfl, .inr ⟨'2', [], rfl, by decide⟩⟩
  have canonical : T.Canonical := ⟨ten, two, Numeral.Canonical.zero⟩
  have ok : tokenize "array[010..2]of string[00]" = .ok [⟨.keyword, "array", ⟨1, 1⟩, 0⟩,
      ⟨.punctuation, "[", ⟨1, 6⟩, 5⟩, ⟨.number, "010", ⟨1, 7⟩, 6⟩, ⟨.dots, "..", ⟨1, 10⟩, 9⟩,
      ⟨.number, "2", ⟨1, 12⟩, 11⟩, ⟨.punctuation, "]", ⟨1, 13⟩, 12⟩, ⟨.keyword, "of", ⟨1, 14⟩, 13⟩,
      ⟨.keyword, "string", ⟨1, 17⟩, 16⟩, ⟨.punctuation, "[", ⟨1, 23⟩, 22⟩,
      ⟨.number, "00", ⟨1, 24⟩, 23⟩, ⟨.punctuation, "]", ⟨1, 26⟩, 25⟩] := by decide +kernel
  have reads : ∀ tokens, tokenize "array[010..2]of string[00]" = .ok tokens →
      ((Session.ofTokens tokens).perform type).outcome = .value T →
      T.Canonical ∧ ∃ tokens', ReadsBack T tokens' := fun tokens ok value =>
    type_reads_back.2 _ tokens ok (.ofTokens tokens) T rfl value
  refine ⟨canonical, by decide +kernel, by decide +kernel, type_reads_back.1 T canonical, _, ok, ?value,
    reads _ ok ?value⟩
  decide +kernel

end Declaration

end DeclarationChecker
