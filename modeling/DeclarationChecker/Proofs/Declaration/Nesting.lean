import Mathlib.Data.Int.Order.Basic
import DeclarationChecker.Grammar.Basic
import DeclarationChecker.Proofs.Declaration.SyntaxTree
import DeclarationChecker.Proofs.Grammar.Derivation
import DeclarationChecker.Proofs.Token.Spelling

set_option autoImplicit false

namespace DeclarationChecker

abbrev Token.terminals (tokens : List Token) : List Name := tokens.map Token.terminal

theorem Token.terminals_append (xs ys : List Token) :
    terminals (xs ++ ys) = terminals xs ++ terminals ys := List.map_append

namespace Declaration

def openBodies (word : List Name) : Int := word.count ("begin" : Name) - word.count ("end" : Name)

/-- No more bodies than `depth` are open after any beginning of a program that `word` starts
with. Where no program goes on, there are no bodies any more. -/
def NestsAtMost (depth : Nat) (word : List Name) : Prop :=
  ∀ front, front <+: word → Grammar.declarations.IsViable front → openBodies front ≤ depth

theorem openBodies_append (word word' : List Name) :
    openBodies (word ++ word') = openBodies word + openBodies word' := by
  simp only [openBodies, List.count_append]
  omega

theorem openBodies_le_length (word : List Name) : openBodies word ≤ word.length := by
  have opened := List.count_le_length (a := ("begin" : Name)) (l := word)
  unfold openBodies
  omega

theorem nestsAtMost_of_length_le {depth : Nat} {word : List Name} (h : word.length ≤ depth) :
    NestsAtMost depth word := by
  intro front initial _
  have bound := openBodies_le_length front
  have shorter := initial.length_le
  omega

end Declaration

namespace Token

theorem terminal_of_primitive {t : Token} {type : PrimitiveType}
    (h : Declaration.primitive? t = some type) : t.terminal = type.name := by
  unfold Declaration.primitive? at h
  split at h
  · rename_i keyword
    have named := List.find?_some h
    rw [decide_eq_true_eq] at named
    simp only [terminal, keyword, named]
  · cases h

end Token

namespace Declaration

open Token SyntaxTree

def opens (tokens : List Token) : Int := openBodies (terminals tokens)

@[simp] theorem opens_nil : opens [] = 0 := rfl

@[simp] theorem opens_append (xs ys : List Token) : opens (xs ++ ys) = opens xs + opens ys := by
  simp only [opens, terminals_append, openBodies_append]

theorem opens_cons (t : Token) (ts : List Token) :
    opens (t :: ts) = openBodies [t.terminal] + opens ts :=
  opens_append [t] ts

theorem opens_cons_of_ne {t : Token} {symbol : String} (h : t.terminal = symbol)
    (notBegin : symbol ≠ "begin") (notEnd : symbol ≠ "end") (ts : List Token) :
    opens (t :: ts) = opens ts := by
  have apart : openBodies [symbol] = 0 := by simp [openBodies, notBegin, notEnd]
  rw [opens_cons, h, apart, Int.zero_add]

@[simp] theorem opens_cons_identifier (t : Identifier) (ts : List Token) :
    opens (t.val :: ts) = opens ts :=
  opens_cons_of_ne (terminal_of_identifier t.property) (by decide) (by decide) ts

@[simp] theorem opens_cons_number (t : Number) (ts : List Token) :
    opens (t.val :: ts) = opens ts :=
  opens_cons_of_ne (terminal_of_number t.property) (by decide) (by decide) ts

@[simp] theorem opens_cons_dots (t : Dots) (ts : List Token) : opens (t.val :: ts) = opens ts :=
  opens_cons_of_ne (terminal_of_dots t.property) (by decide) (by decide) ts

@[simp] theorem opens_cons_mark {mark : String} (t : Mark mark) (ts : List Token)
    (notBegin : mark ≠ "begin") (notEnd : mark ≠ "end") : opens (t.val :: ts) = opens ts :=
  opens_cons_of_ne (terminal_of_isPunctuation t.property) notBegin notEnd ts

@[simp] theorem opens_cons_keyword {word : String} (t : Keyword word) (ts : List Token)
    (notBegin : word ≠ "begin") (notEnd : word ≠ "end") : opens (t.val :: ts) = opens ts :=
  opens_cons_of_ne (terminal_of_isKeyword t.property) notBegin notEnd ts

@[simp] theorem opens_cons_begin (t : Keyword "begin") (ts : List Token) :
    opens (t.val :: ts) = 1 + opens ts := by
  rw [opens_cons, terminal_of_isKeyword t.property]
  rfl

@[simp] theorem opens_cons_end (t : Keyword "end") (ts : List Token) :
    opens (t.val :: ts) = -1 + opens ts := by
  rw [opens_cons, terminal_of_isKeyword t.property]
  rfl

theorem opens_flatMap {ι : Type} {tokens : ι → List Token} {items : List ι}
    (h : ∀ i ∈ items, opens (tokens i) = 0) : opens (items.flatMap tokens) = 0 := by
  induction items with
  | nil => rfl
  | cons i items ih =>
    obtain ⟨first, others⟩ := List.forall_mem_cons.1 h
    rw [List.flatMap_cons, opens_append, first, ih others]
    rfl

@[simp] theorem opens_names (n : Names) : opens n.tokens = 0 := by
  have others : opens (Names.otherTokens n.others) = 0 := opens_flatMap fun other _ => by simp
  simp [Names.tokens, others]

@[simp] theorem opens_range (r : Range) : opens r.tokens = 0 := by
  simp [Range.tokens, Range.tail]

@[simp] theorem opens_size (s : Size) : opens s.tokens = 0 := by
  simp [Size.tokens]

@[simp] theorem opens_element (e : Element) : opens e.tokens = 0 := by
  cases e with
  | primitive word type named =>
    have word := terminal_of_primitive named
    cases type <;> exact opens_cons_of_ne word (by decide) (by decide) []
  | string word size => cases size <;> simp [Element.tokens, Element.first, Element.tail]

@[simp] theorem opens_type (t : TypeExpr) : opens t.tokens = 0 := by
  have ranges : opens (t.ranges.flatMap Range.tokens) = 0 := opens_flatMap fun r _ => opens_range r
  simp [TypeExpr.tokens, ranges]

@[simp] theorem opens_section (s : SyntaxTree.Section) : opens s.tokens = 0 := by
  simp [Section.tokens]

@[simp] theorem opens_parameters (p : Parameters) : opens p.tokens = 0 := by
  cases p with
  | absent => rfl
  | empty opening closing => simp [Parameters.tokens]
  | listed opening first others closing =>
    have rest : opens (Parameters.otherTokens others) = 0 := opens_flatMap fun other _ => by simp
    simp [Parameters.tokens, rest]

@[simp] theorem opens_variables (v : Variables) : opens v.tokens = 0 := by
  simp [Variables.tokens, Variables.tail]

@[simp] theorem opens_heading (h : Heading) : opens h.tokens = 0 := by
  have returned : opens (Heading.returnedTokens h.returned) = 0 := by
    cases h.returned <;> simp [Heading.returnedTokens]
  have tail : opens h.tail = 0 := by simp [Heading.tail, returned]
  have keyword : opens h.tokens = opens h.tail := by
    rcases Bool.or_eq_true_iff.1 h.keyword.property with e | e
    all_goals exact opens_cons_of_ne (terminal_of_isKeyword e) (by decide) (by decide) _
  rw [keyword, tail]

@[simp] theorem opens_block (b : Block) : opens b.tokens = 0 := by
  induction b with
  | empty => rfl
  | var list rest ih => simp [Block.tokens, ih]
  | forward heading word semicolon rest ih => simp [Block.tokens, ih]
  | defined heading opening inner closing semicolon rest ihInner ih =>
    cases semicolon <;> simp [Block.tokens, ihInner, ih]

/-- Somewhere in a block as many bodies are open as it is deep. -/
theorem exists_prefix_opens_eq_depth (b : Block) :
    ∃ xs ys, b.tokens = xs ++ ys ∧ opens xs = b.depth := by
  induction b with
  | empty => exact ⟨[], [], rfl, rfl⟩
  | var list rest ih =>
    obtain ⟨xs, ys, e, deep⟩ := ih
    exact ⟨list.tokens ++ xs, ys, by simp [Block.tokens, e], by simp [Block.depth, deep]⟩
  | forward heading word semicolon rest ih =>
    obtain ⟨xs, ys, e, deep⟩ := ih
    exact ⟨heading.tokens ++ word.val :: semicolon.val :: xs, ys, by simp [Block.tokens, e],
      by simp [Block.depth, deep]⟩
  | defined heading opening inner closing semicolon rest ihInner ih =>
    obtain ⟨xs, ys, e, deep⟩ := ih
    obtain ⟨xs', ys', e', deep'⟩ := ihInner
    rcases Nat.le_total rest.depth (inner.depth + 1) with le | le
    · refine ⟨heading.tokens ++ opening.val :: xs', ys' ++ closing.val ::
        (semicolon.map Subtype.val).toList ++ rest.tokens, by simp [Block.tokens, e'], ?_⟩
      simp only [Block.depth, Nat.max_eq_left le, opens_append, opens_heading, opens_cons_begin,
        deep']
      omega
    · have whole : opens (heading.tokens ++ opening.val :: (inner.tokens ++ closing.val ::
          (semicolon.map Subtype.val).toList)) = 0 := by
        cases semicolon <;> simp
      refine ⟨heading.tokens ++ opening.val :: (inner.tokens ++ closing.val ::
        (semicolon.map Subtype.val).toList) ++ xs, ys, by simp [Block.tokens, e], ?_⟩
      rw [opens_append, whole, deep, Int.zero_add, Block.depth, Nat.max_eq_right le]

end Declaration

end DeclarationChecker
