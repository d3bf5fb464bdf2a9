import DeclarationChecker.Declaration.Constructs
import DeclarationChecker.Proofs.Declaration.Accounting
import DeclarationChecker.Proofs.Declaration.Lookahead
import DeclarationChecker.Proofs.Declaration.Sentences
import DeclarationChecker.Proofs.Declaration.Taking

set_option autoImplicit false

namespace DeclarationChecker.Declaration

open Reader Token SyntaxTree

def atEnd : Reader Unit := do
  if !(← current).isEnd then unexpected .declaration

def toEnd (depth : Nat) : Reader Unit := do
  declarations (body depth)
  atEnd

theorem program_eq : program = stopTooDeep (toEnd nestingLimit) := rfl

def ProgramForm : Form Unit := fun xs _ => ∃ b : Block, b.tokens = xs

theorem toEnd_reads (depth : Nat) : Reads ProgramForm depth (toEnd depth) := by
  refine (declarations_reads (body_reads depth)).bind ?_
  rintro _ _ ⟨b, rfl⟩
  have possible : ∃ ys a, ProgramForm (b.tokens ++ ys) a := ⟨[], (), b, by rw [List.append_nil]⟩
  refine .peek possible fun stop ahead hstop => ?_
  cases found : (ahead.headD stop).isEnd with
  | true =>
    rw [Bool.not_true, if_neg Bool.false_ne_true]
    exact (Reads.pure ⟨b, by rw [List.append_nil]⟩).accounts stop ahead hstop
  | false =>
    rw [Bool.not_false, if_pos rfl]
    exact .giveUp possible

theorem toEnd_foretells {depth depth' : Nat} (le : depth ≤ depth') :
    Foretells (toEnd depth) (toEnd depth') :=
  .bind (declarations_foretells (body_foretells le)) fun _ => .bind .current fun _ =>
    .ite _ (.unexpected _) (.pure _)

section

variable {stop : Token} {ahead : List Token}

theorem closes_of_isEnd (h : stop.isEnd = true) : Closes stop := by
  refine ⟨?_, Token.isPunctuation_eq_false_of_isEnd h ";"⟩
  simp only [startsDeclaration, Token.isKeyword_eq_false_of_isEnd h, Bool.or_self]

theorem declarations_takes (b : Block) {depth : Nat} (hd : b.depth ≤ depth)
    (hstop : stop.isEnd = true) : Takes (declarations (body depth)) stop b.tokens [] () b.events := by
  have closes : Closes (([] : List Token).headD stop) := closes_of_isEnd hstop
  obtain ⟨us, all⟩ := block_takes b hd closes
  exact all.map fun _ => ()

theorem atEnd_eq (stop : Token) (ahead : List Token) : atEnd stop ahead =
    if (ahead.headD stop).isEnd = true then ⟨.value (), [], 0⟩
    else ⟨.unexpected, [.unexpected .declaration (ahead.headD stop)], 0⟩ := by
  unfold atEnd
  change Reader.bind current _ stop ahead = _
  unfold Reader.bind current
  dsimp only
  cases (ahead.headD stop).isEnd <;> rfl

theorem atEnd_takes (hstop : stop.isEnd = true) : Takes atEnd stop [] [] () [] := by
  rw [Takes, atEnd_eq]
  exact if_pos hstop

theorem toEnd_takes (b : Block) {depth : Nat} (hd : b.depth ≤ depth) (hstop : stop.isEnd = true) :
    toEnd depth stop b.tokens = ⟨.value (), b.events, b.tokens.length⟩ := by
  have whole := (declarations_takes b hd hstop).bind_nil_right (f := fun _ => atEnd)
    (atEnd_takes hstop)
  rw [Takes, List.append_nil, List.append_nil] at whole
  exact whole

theorem toEnd_value {depth : Nat} (noEnd : ∀ t ∈ ahead, t.isEnd = false)
    (h : (toEnd depth stop ahead).outcome = .value ()) :
    ahead.drop (toEnd depth stop ahead).used = [] := by
  obtain ⟨a, -, last, used⟩ := Reader.bind_value h
  change (toEnd depth stop ahead).used = _ at used
  rw [used]
  rw [atEnd_eq] at last ⊢
  cases rest : ahead.drop (declarations (body depth) stop ahead).used with
  | nil =>
    rw [← List.drop_drop, rest, List.drop_nil]
  | cons t more =>
    have mem : t ∈ ahead := List.mem_of_mem_drop (rest ▸ List.mem_cons_self)
    rw [rest, List.headD_cons, noEnd t mem, if_neg Bool.false_ne_true] at last
    cases last

theorem exists_block_of_value (depth : Nat) (noEnd : ∀ t ∈ ahead, t.isEnd = false)
    (hstop : stop.isEnd = true) (h : (toEnd depth stop ahead).outcome = .value ()) :
    ∃ b : Block, b.tokens = ahead := by
  have all := toEnd_value noEnd h
  have account := (toEnd_reads depth).accounts stop ahead hstop
  generalize toEnd depth stop ahead = reading at h all account
  cases account with
  | unexpected viable blame => cases h
  | tooDeep viable quiet deep => cases h
  | value complete quiet =>
    rw [List.drop_left] at all
    rw [all, List.append_nil]
    exact complete

theorem toEnd_not_tooDeep {depth limit : Nat} (nests : NestsAtMost depth (terminals ahead))
    (within : depth < limit) (hstop : stop.isEnd = true) :
    (toEnd limit stop ahead).outcome ≠ .tooDeep := by
  have account := (toEnd_reads limit).accounts stop ahead hstop
  generalize toEnd limit stop ahead = reading at account
  intro h
  cases account with
  | value complete quiet => cases h
  | unexpected viable blame => cases h
  | @tooDeep xs rest more _ events viable quiet deep =>
    obtain ⟨b, e⟩ := viable
    have initial : terminals xs <+: terminals (xs ++ rest) := by
      rw [terminals_append]
      exact List.prefix_append _ _
    have few := nests _ initial (isViable_of_block e)
    change openBodies (terminals xs) ≥ limit at deep
    omega

theorem depth_le_of_nestsAtMost {depth : Nat} {b : Block}
    (nests : NestsAtMost depth (terminals b.tokens)) : b.depth ≤ depth := by
  obtain ⟨xs, ys, e, deep⟩ := exists_prefix_opens_eq_depth b
  have initial : terminals xs <+: terminals b.tokens := by
    rw [e, terminals_append]
    exact List.prefix_append _ _
  have few := nests _ initial (isViable_of_block e)
  change openBodies (terminals xs) = _ at deep
  omega

end

end DeclarationChecker.Declaration
