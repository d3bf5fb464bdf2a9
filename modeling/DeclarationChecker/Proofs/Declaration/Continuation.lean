import DeclarationChecker.Proofs.Declaration.Endings
import DeclarationChecker.Proofs.Declaration.Operations

set_option autoImplicit false

namespace DeclarationChecker.Declaration

open Reader Token SyntaxTree

variable {α β : Type}

/-- If tokens are left over, it makes no difference which end of the input comes behind them. -/
def Blind (r : Reader α) : Prop :=
  ∀ stop stop' ahead, (r stop ahead).used < ahead.length → r stop' ahead = r stop ahead

namespace Blind

variable {r : Reader α} {f : α → Reader β} {stop stop' : Token} {ahead : List Token}

theorem bind_at (first : (r stop ahead).used < ahead.length → r stop' ahead = r stop ahead)
    (next : ∀ a, (f a stop (ahead.drop (r stop ahead).used)).used < (ahead.drop (r stop ahead).used).length →
      f a stop' (ahead.drop (r stop ahead).used) = f a stop (ahead.drop (r stop ahead).used))
    (left : ((r >>= f) stop ahead).used < ahead.length) :
    (r >>= f) stop' ahead = (r >>= f) stop ahead := by
  change (Reader.bind r f stop ahead).used < _ at left
  change Reader.bind r f stop' ahead = Reader.bind r f stop ahead
  unfold Reader.bind at left ⊢
  generalize r stop ahead = reading at first next left
  obtain ⟨outcome, events, used⟩ := reading
  cases outcome with
  | value a =>
    dsimp only at first next left ⊢
    have rest := next a
    rw [List.length_drop] at rest
    rw [first (by omega)]
    dsimp only
    rw [rest (by omega)]
  | unexpected => rw [first left]
  | tooDeep => rw [first left]

theorem many {starts : Token → Bool} {piece : Token → Reader α} (each : ∀ t, Blind (piece t)) :
    Blind (Reader.many starts piece) := by
  intro stop stop' ahead
  induction ahead using Reader.rounds starts with
  | nil =>
    rw [Reader.many, Reader.many]
    exact fun _ => rfl
  | other t rest other =>
    rw [Reader.many, Reader.many, other, if_neg Bool.false_ne_true, if_neg Bool.false_ne_true]
    exact fun _ => rfl
  | round t rest starting later =>
    rw [Reader.many_cons starting, Reader.many_cons starting]
    refine bind_at (fun _ => rfl) fun t' => ?_
    exact bind_at (each t' stop stop' rest) fun a => bind_at (later _) fun _ _ => rfl

end Blind

theorem headD_eq_of_pos {stop stop' : Token} {ahead : List Token} (h : 0 < ahead.length) :
    ahead.headD stop' = ahead.headD stop := by
  cases ahead with
  | nil => exact absurd h (Nat.lt_irrefl _)
  | cons t rest => rfl

theorem MadeOf.blind {allowed : Event → Bool} {inner : Reader Unit} {r : Reader α}
    (h : MadeOf allowed inner r) (hinner : Blind inner) : Blind r := by
  induction h with
  | inner => exact hinner
  | pure a => exact fun _ _ _ _ => rfl
  | bind _ _ first next =>
    intro stop stop' ahead
    exact Blind.bind_at (first stop stop' ahead) fun a => next a stop stop' _
  | current =>
    intro stop stop' ahead left
    unfold Reader.current
    rw [headD_eq_of_pos left]
  | advance =>
    intro stop stop' ahead left
    cases ahead with
    | nil => exact absurd left (Nat.lt_irrefl _)
    | cons t rest => rfl
  | reportAll each => exact fun _ _ _ _ => rfl
  | unexpected expected =>
    intro stop stop' ahead left
    unfold Reader.unexpected
    rw [headD_eq_of_pos left]
  | many _ each => exact .many each
  | scope label _ inside =>
    intro stop stop' ahead left
    rw [Reader.scope_eq] at left
    rw [Reader.scope_eq, Reader.scope_eq, inside stop stop' ahead left]

theorem body_blind (depth : Nat) : Blind (body depth) := by
  induction depth with
  | zero => exact fun _ _ _ _ => rfl
  | succ depth ih => exact (body_madeOf depth).blind ih

/-- Giving up at a token, one has not looked at what is behind it. -/
theorem toEnd_append {stop : Token} {xs : List Token} (stop' : Token) (ys : List Token) (depth : Nat)
    (left : (toEnd depth stop xs).used < xs.length)
    (notDeep : (toEnd depth stop xs).outcome ≠ .tooDeep) :
    toEnd depth stop' (xs ++ ys) = toEnd depth stop xs := by
  have same := (toEnd_madeOf depth).blind (body_blind depth) stop stop' xs left
  rw [← same] at left notDeep ⊢
  refine toEnd_foretells (Nat.le_refl depth) stop' xs (xs ++ ys) notDeep ?_
  exact List.take_append_of_le_length left

section

variable {starts : Token → Bool} {piece : Token → Reader α} {stop t : Token} {xs rest : List Token} {a : α}
  {es fs : List Event}

theorem Reader.prefix_bind (r : Reader α) (f : α → Reader β) (stop : Token) (ahead : List Token) :
    (r stop ahead).events <+: ((r >>= f) stop ahead).events :=
  Reader.bind_cases (motive := fun reading => (r stop ahead).events <+: reading.events)
    (fun _ _ => List.prefix_append _ _) (fun _ => List.prefix_rfl) fun _ => List.prefix_rfl

theorem Reader.prefix_stopTooDeep (r : Reader Unit) (stop : Token) (ahead : List Token) :
    (r stop ahead).events <+: (stopTooDeep r stop ahead).events := by
  unfold stopTooDeep
  dsimp only
  split
  · exact List.prefix_append _ _
  · exact List.prefix_rfl
  · exact List.prefix_rfl

theorem Takes.prefix_many (starting : starts t = true) (first : Takes (piece t) stop xs rest a es)
    (others : fs <+: (many starts piece stop rest).events) :
    es ++ fs <+: (many starts piece stop (t :: (xs ++ rest))).events := by
  rw [many, if_pos starting]
  unfold Takes at first
  simp only [first, List.drop_left]
  exact (List.prefix_append_right_inj es).2 others

theorem defined_declaration_takes (heading : Heading) (opening : Keyword "begin") {inner : Block}
    (closing : Keyword "end") (semicolon : Option (Mark ";")) {depth : Nat} (hd : inner.depth ≤ depth)
    (h : semicolon = none → (rest.headD stop).isPunctuation ";" = false) :
    Takes (declarationTail (body (depth + 1)) heading.keyword.val) stop
      (heading.tail ++ (opening.val :: (inner.tokens ++
        (closing.val :: (semicolon.map Subtype.val).toList)))) rest ()
      (heading.events ++ (heading.opening false ++ (inner.events ++ [.leave]))) := by
  have ends : Closes ((closing.val :: (semicolon.map Subtype.val).toList ++ rest).headD stop) :=
    closes_of_isKeyword_end closing.property
  obtain ⟨us, inside⟩ := block_takes inner hd ends
  exact .ite_neg heading.not_var
    (defined_takes heading (body_takes opening closing semicolon h inside) opening.property)

/-- A block is read as what it is, also when its last word `end` finds a semicolon behind it. -/
theorem prefix_block (b : Block) {depth : Nat} (hd : b.depth ≤ depth) (hstop : stop.isEnd = true)
    (rest : List Token) : b.events <+:
      (many startsDeclaration (declarationTail (body depth)) stop (b.tokens ++ rest)).events := by
  induction b generalizing rest with
  | empty => exact List.nil_prefix
  | var list more ih =>
    have first : Takes (declarationTail (body depth) list.var.val) stop list.tail (more.tokens ++ rest) ()
        list.events := .ite_pos list.var.property (variableList_takes list)
    simpa only [Block.tokens, Block.events, Variables.tokens, List.cons_append, List.append_assoc] using
      first.prefix_many list.starts (ih hd rest)
  | forward heading word semicolon more ih =>
    have first : Takes (declarationTail (body depth) heading.keyword.val) stop
        (heading.tail ++ [word.val, semicolon.val]) (more.tokens ++ rest) ()
        (heading.events ++ (heading.opening true ++ [.leave])) :=
      .ite_neg heading.not_var (forward_takes (body depth) heading word semicolon)
    simpa only [Block.tokens, Block.events, Heading.tokens, List.cons_append, List.append_assoc,
      List.nil_append] using first.prefix_many heading.starts (ih hd rest)
  | defined heading opening inner closing semicolon more _ ih =>
    simp only [Block.depth] at hd
    obtain ⟨depth, rfl⟩ : ∃ d, depth = d + 1 := ⟨depth - 1, by omega⟩
    have within : inner.depth ≤ depth := by omega
    by_cases takes : semicolon = none ∧ more = .empty ∧ (rest.headD stop).isPunctuation ";" = true
    · -- The semicolon behind the block goes with its last word.
      obtain ⟨rfl, rfl, mark⟩ := takes
      cases rest with
      | nil => exact absurd mark (Bool.eq_false_iff.1 (isPunctuation_eq_false_of_isEnd hstop ";"))
      | cons t rest =>
        have whole := (@defined_declaration_takes stop rest heading opening inner closing (some ⟨t, mark⟩)
          depth within fun none => absurd none (Option.some_ne_none _)).prefix_many heading.starts List.nil_prefix
        simpa only [Block.tokens, Block.events, Heading.tokens, List.cons_append, List.append_assoc,
          List.nil_append, Option.map_some, Option.map_none, Option.toList, List.append_nil] using whole
    · have apart : semicolon = none → ((more.tokens ++ rest).headD stop).isPunctuation ";" = false :=
        fun none => more.not_semicolon fun empty =>
          Bool.eq_false_iff.2 fun mark => takes ⟨none, empty, mark⟩
      have whole := (defined_declaration_takes heading opening closing semicolon within apart).prefix_many
        heading.starts (ih (by omega) rest)
      simpa only [Block.tokens, Block.events, Heading.tokens, List.cons_append, List.append_assoc,
        List.nil_append] using whole

end

section

variable {xs ys : List Token}

theorem read_append_eq {expected : Expected} {found : Token} {position : Text.Position}
    (noEnd : ∀ t ∈ xs ++ ys, t.isEnd = false) (nests : NestsAtMost 200 (terminals xs))
    (said : ⟨.unexpected expected found, position⟩ ∈ (read xs).diagnostics) (mem : found ∈ xs) :
    (read (xs ++ ys)).diagnostics = (read xs).diagnostics := by
  have noEnd' := (List.forall_mem_append.1 noEnd).1
  have hstop := isEnd_endAfter xs
  have ends := toEnd_holds ends_compositional ends_tooDeep nestingLimit (endAfter xs) xs
  rw [read_eq noEnd', program_eq_toEnd nests (by decide) hstop] at said
  rw [read_eq noEnd, read_eq noEnd', program_eq_toEnd nests (by decide) hstop]
  obtain ⟨event, there, error⟩ :=
    exists_syntaxError_iff.1 ((observeAll_syntactic _ _ _).1 ⟨said, rfl⟩)
  by_cases gaveUp : (toEnd nestingLimit (endAfter xs) xs).outcome = .unexpected
  · obtain ⟨expected', blame⟩ := ends.blame gaveUp
    rw [blame, List.mem_singleton] at there
    subst there
    have left : (toEnd nestingLimit (endAfter xs) xs).used < xs.length := by
      -- Behind all tokens there is only the end, which is none of them.
      by_contra none
      rw [List.drop_eq_nil_of_le (Nat.le_of_not_lt none), List.headD_nil] at error
      cases error
      exact nomatch hstop.symm.trans (noEnd' _ mem)
    have notDeep : (toEnd nestingLimit (endAfter xs) xs).outcome ≠ .tooDeep := fun e =>
      nomatch gaveUp.symm.trans e
    have same := toEnd_append (endAfter (xs ++ ys)) ys nestingLimit left notDeep
    rw [program_eq, stopTooDeep_eq (same ▸ notDeep), same]
  · rw [ends.quiet gaveUp] at there
    cases there

theorem prefix_program {b : Block} {stop : Token} (hd : b.depth ≤ nestingLimit)
    (hstop : stop.isEnd = true) (rest : List Token) :
    b.events <+: (program stop (b.tokens ++ rest)).events :=
  (prefix_block b hd hstop rest).trans <| (Reader.prefix_bind _ _ _ _).trans <|
    (Reader.prefix_bind _ _ _ _).trans (Reader.prefix_stopTooDeep (toEnd nestingLimit) _ _)

theorem read_isPrefix (noEnd : ∀ t ∈ xs ++ ys, t.isEnd = false) (nests : NestsAtMost 200 (terminals xs))
    (quiet : ∀ d ∈ (read xs).diagnostics, d.kind ≠ .syntactic) :
    (read xs).diagnostics <+: (read (xs ++ ys)).diagnostics := by
  have noEnd' := (List.forall_mem_append.1 noEnd).1
  have hstop := isEnd_endAfter xs
  have ends := toEnd_holds ends_compositional ends_tooDeep nestingLimit (endAfter xs) xs
  rw [read_eq noEnd', observeAll_quiet_iff, program_eq_toEnd nests (by decide) hstop] at quiet
  have value : (toEnd nestingLimit (endAfter xs) xs).outcome = .value () := by
    rcases Outcome.answered (toEnd_not_tooDeep nests (by decide : 200 < nestingLimit) hstop) with
      ⟨_, value⟩ | gaveUp
    · exact value
    · obtain ⟨expected, blame⟩ := ends.blame gaveUp
      exact nomatch quiet.symm.trans blame
  obtain ⟨b, rfl⟩ := exists_block_of_value nestingLimit noEnd' hstop value
  have hd : b.depth ≤ nestingLimit := Nat.le_trans (depth_le_of_nestsAtMost nests) (by decide)
  obtain ⟨later, e⟩ := prefix_program hd (isEnd_endAfter (b.tokens ++ ys)) ys
  rw [read_eq noEnd', read_eq noEnd, program_eq_toEnd nests (by decide) hstop, toEnd_takes b hd hstop, ← e,
    observeAll_append]
  exact List.prefix_append _ _

/-- More input does not take back what has been found: it adds nothing behind a syntax error at one of
the tokens, and otherwise only adds. -/
theorem read_append (noEnd : ∀ t ∈ xs ++ ys, t.isEnd = false) (nests : NestsAtMost 200 (terminals xs)) :
    (∀ expected found position, ⟨.unexpected expected found, position⟩ ∈ (read xs).diagnostics →
      found ∈ xs → (read (xs ++ ys)).diagnostics = (read xs).diagnostics) ∧
    ((∀ d ∈ (read xs).diagnostics, d.kind ≠ .syntactic) →
      (read xs).diagnostics <+: (read (xs ++ ys)).diagnostics) :=
  ⟨fun _ _ _ said mem => read_append_eq noEnd nests said mem, read_isPrefix noEnd nests⟩

/-- A semicolon behind the last word `end` is taken, the name behind it is not, and then nothing more. -/
theorem read_append_semicolon :
    let token (kind : Token.Kind) (text : String) (column : Int) : Token :=
      ⟨kind, text, ⟨1, column⟩, column - 1⟩
    let xs := [token .keyword "procedure" 1, token .identifier "p" 11, token .punctuation ";" 12,
      token .keyword "begin" 14, token .keyword "var" 20, token .identifier "a" 24,
      token .punctuation "," 25, token .identifier "a" 26, token .punctuation ":" 27,
      token .keyword "real" 28, token .punctuation ";" 32, token .keyword "end" 34]
    let ys := [token .punctuation ";" 37, token .identifier "x" 39]
    let zs := [token .keyword "var" 41]
    (read xs).diagnostics = [⟨.refused (.nameConflict "a" 1), ⟨1, 26⟩⟩] ∧
    (read xs).diagnostics <+: (read (xs ++ ys)).diagnostics ∧
    (read (xs ++ ys)).diagnostics.length = 2 ∧
    (read (xs ++ ys ++ zs)).diagnostics = (read (xs ++ ys)).diagnostics := by
  intro token xs ys zs
  have alone : (read xs).diagnostics = [⟨.refused (.nameConflict "a" 1), ⟨1, 26⟩⟩] := by decide +kernel
  have semantic : ∀ d ∈ (read xs).diagnostics, d.kind ≠ .syntactic := by
    rw [alone]
    decide
  have said : ⟨.unexpected .declaration (token .identifier "x" 39), ⟨1, 39⟩⟩ ∈
      (read (xs ++ ys)).diagnostics := by decide +kernel
  have nests : NestsAtMost 200 (terminals xs) := nestsAtMost_of_length_le (by decide)
  have nests' : NestsAtMost 200 (terminals (xs ++ ys)) := nestsAtMost_of_length_le (by decide)
  have first := @read_append xs ys (by decide) nests
  have second := @read_append (xs ++ ys) zs (by decide) nests'
  exact ⟨alone, first.2 semantic, by decide +kernel, second.1 _ _ _ said (by decide)⟩

end

end DeclarationChecker.Declaration
