import DeclarationChecker.Proofs.Declaration.ReaderLaws

set_option autoImplicit false

namespace DeclarationChecker.Declaration

open Reader

variable {α β : Type}

theorem take_of_le {xs ys : List Token} {m n : Nat} (h : xs.take n = ys.take n) (le : m ≤ n) :
    xs.take m = ys.take m := by
  have both := congrArg (List.take m) h
  rwa [List.take_take, List.take_take, Nat.min_eq_left le] at both

theorem take_drop_of_add {xs ys : List Token} {m n : Nat} (h : xs.take (m + n) = ys.take (m + n)) :
    (xs.drop m).take n = (ys.drop m).take n := by
  have both := congrArg (List.drop m) h
  rwa [List.drop_take, List.drop_take, Nat.add_sub_cancel_left] at both

theorem head?_of_take {xs ys : List Token} {n : Nat} (h : xs.take (n + 1) = ys.take (n + 1)) :
    xs.head? = ys.head? := by
  have both := congrArg List.head? h
  simpa [List.head?_take] using both

/-- Wherever `r` is not stopped by the depth of bodies, `r'` does the same, also when tokens
differ behind the one after the last that `r` used. -/
def Foretells (r r' : Reader α) : Prop :=
  ∀ stop ahead ahead', (r stop ahead).outcome ≠ .tooDeep →
    ahead'.take ((r stop ahead).used + 1) = ahead.take ((r stop ahead).used + 1) →
    r' stop ahead' = r stop ahead

namespace Foretells

variable {r r' : Reader α} {f f' : α → Reader β}

theorem headD {xs ys : List Token} {n : Nat} (h : xs.take (n + 1) = ys.take (n + 1))
    (stop : Token) : xs.headD stop = ys.headD stop := by
  rw [List.headD_eq_head?_getD, List.headD_eq_head?_getD, head?_of_take h]

theorem pure (a : α) : Foretells (Pure.pure a) (Pure.pure a) := fun _ _ _ _ _ => rfl

theorem reportAll (events : List Event) :
    Foretells (Reader.reportAll events) (Reader.reportAll events) := fun _ _ _ _ _ => rfl

theorem report (event : Event) : Foretells (Reader.report event) (Reader.report event) :=
  reportAll [event]

theorem current : Foretells Reader.current Reader.current := by
  intro stop ahead ahead' _ same
  simp only [Reader.current, headD same]

theorem unexpected (expected : Expected) :
    Foretells (Reader.unexpected expected : Reader α) (Reader.unexpected expected) := by
  intro stop ahead ahead' _ same
  simp only [Reader.unexpected, headD same]

theorem tooDeep : Foretells (Reader.tooDeep : Reader α) r' := fun _ _ _ deep _ => absurd rfl deep

theorem advance : Foretells Reader.advance Reader.advance := by
  intro stop ahead ahead' _ same
  have heads := head?_of_take same
  cases ahead with
  | nil => rw [List.head?_eq_none_iff.1 heads]
  | cons t rest =>
    obtain ⟨rest', rfl⟩ := List.head?_eq_some_iff.1 heads
    rfl

theorem reportAfter (h : Foretells r r') (event : Event) :
    Foretells (r.reportAfter event) (r'.reportAfter event) := by
  intro stop ahead ahead' deep same
  simp only [Reader.reportAfter]
  rw [h stop ahead ahead' deep same]

/-- One pair of lists is enough for a sequence, as long as the second reader foretells what is left. -/
theorem bind_at {stop : Token} {ahead ahead' : List Token}
    (first : (r stop ahead).outcome ≠ .tooDeep →
      ahead'.take ((r stop ahead).used + 1) = ahead.take ((r stop ahead).used + 1) →
      r' stop ahead' = r stop ahead)
    (next : ∀ a ahead', let rest := ahead.drop (r stop ahead).used
      (f a stop rest).outcome ≠ .tooDeep →
      ahead'.take ((f a stop rest).used + 1) = rest.take ((f a stop rest).used + 1) →
      f' a stop ahead' = f a stop rest)
    (deep : ((r >>= f) stop ahead).outcome ≠ .tooDeep)
    (same : ahead'.take (((r >>= f) stop ahead).used + 1) =
      ahead.take (((r >>= f) stop ahead).used + 1)) :
    (r' >>= f') stop ahead' = (r >>= f) stop ahead := by
  change Reader.bind r' f' stop ahead' = Reader.bind r f stop ahead
  change (Reader.bind r f stop ahead).outcome ≠ _ at deep
  change List.take ((Reader.bind r f stop ahead).used + 1) _ =
    List.take ((Reader.bind r f stop ahead).used + 1) _ at same
  unfold Reader.bind at deep same ⊢
  generalize r stop ahead = reading at *
  obtain ⟨outcome, events, used⟩ := reading
  cases outcome with
  | value a =>
    simp only at deep same first ⊢
    have agree := first (by simp) (take_of_le same (by omega))
    rw [Nat.add_assoc] at same
    simp only [agree, next a _ deep (take_drop_of_add same)]
  | unexpected =>
    simp only at same first ⊢
    rw [first (by simp) same]
  | tooDeep => exact absurd rfl deep

theorem bind (hr : Foretells r r') (hf : ∀ a, Foretells (f a) (f' a)) :
    Foretells (r >>= f) (r' >>= f') :=
  fun stop ahead ahead' => bind_at (hr stop ahead ahead') fun a => hf a stop _

theorem ite {r₂ r₂' : Reader α} (c : Bool) (h : Foretells r r') (h₂ : Foretells r₂ r₂') :
    Foretells (if c = true then r else r₂) (if c = true then r' else r₂') := by
  cases c
  · exact h₂
  · exact h

theorem accept (test : Token → Bool) : Foretells (Reader.accept test) (Reader.accept test) :=
  bind current fun _ => ite _ (bind advance fun _ => pure true) (pure false)

theorem expect (test : Token → Bool) (expected : Expected) :
    Foretells (Reader.expect test expected) (Reader.expect test expected) :=
  bind current fun _ => ite _ advance (unexpected expected)

theorem many {starts : Token → Bool} {piece piece' : Token → Reader α}
    (h : ∀ t, Foretells (piece t) (piece' t)) :
    Foretells (Reader.many starts piece) (Reader.many starts piece') := by
  intro stop ahead
  induction ahead using Reader.rounds starts with
  | nil =>
    intro ahead' _ same
    rw [List.head?_eq_none_iff.1 (head?_of_take same), Reader.many, Reader.many]
  | other t rest other =>
    intro ahead' _ same
    obtain ⟨rest', rfl⟩ := List.head?_eq_some_iff.1 (head?_of_take same)
    rw [Reader.many, Reader.many, other, if_neg Bool.false_ne_true, if_neg Bool.false_ne_true]
  | round t rest starting later =>
    intro ahead' deep same
    obtain ⟨rest', rfl⟩ := List.head?_eq_some_iff.1 (head?_of_take same)
    rw [Reader.many_cons starting] at deep same ⊢
    rw [Reader.many_cons starting]
    refine bind_at (advance stop (t :: rest) (t :: rest')) (fun t' ahead' => ?_) deep same
    exact bind_at (h t' stop rest ahead') fun a ahead' =>
      bind_at (later _ ahead') fun others ahead' => pure _ stop _ ahead'

end Foretells

theorem names_foretells : Foretells names names :=
  .bind (.expect _ _) fun _ => .bind (.many fun _ => .expect _ _) fun _ => .pure _

theorem range_foretells : Foretells range range :=
  .bind (.expect _ _) fun _ => .bind (.expect _ _) fun _ => .bind (.expect _ _) fun _ =>
    .bind (.expect _ _) fun _ => .bind (.expect _ _) fun _ => .bind (.expect _ _) fun _ =>
      .bind (.report _) fun _ => .pure _

theorem stringSize_foretells : Foretells stringSize stringSize :=
  .bind (.accept _) fun _ => .ite _
    (.bind (.expect _ _) fun _ => .bind (.expect _ _) fun _ => .bind (.report _) fun _ => .pure _) (.pure _)

theorem elementType_foretells : Foretells elementType elementType := by
  refine .bind .current fun t => ?_
  cases primitive? t with
  | some type => exact .bind .advance fun _ => .pure _
  | none => exact .ite _ (.bind .advance fun _ => stringSize_foretells) (.unexpected _)

theorem type_foretells : Foretells type type :=
  .bind (.many fun _ => range_foretells) fun _ => .bind elementType_foretells fun _ => .pure _

theorem variableList_foretells : Foretells variableList variableList :=
  .bind names_foretells fun _ => .bind (.reportAll _) fun _ => .bind (.expect _ _) fun _ =>
    .bind type_foretells fun _ => .bind (.expect _ _) fun _ => .report _

theorem parameterSection_foretells : Foretells parameterSection parameterSection :=
  .bind names_foretells fun _ => .bind (.expect _ _) fun _ => .bind type_foretells fun _ => .pure _

theorem parameters_foretells : Foretells parameters parameters := by
  refine .bind (.accept _) fun _ => .ite _ (.bind (.accept _) fun _ => .ite _ (.pure _) ?_) (.pure _)
  exact .bind parameterSection_foretells fun _ =>
    .bind (.many fun _ => parameterSection_foretells) fun _ => .bind (.expect _ _) fun _ => .pure _

theorem returnType_foretells (function : Token) :
    Foretells (returnType function) (returnType function) :=
  .bind (.expect _ _) fun _ => .bind .current fun _ => .bind type_foretells fun _ =>
    .bind (.report _) fun _ => .pure _

theorem header_foretells (keyword : Token) : Foretells (header keyword) (header keyword) := by
  refine .bind (.expect _ _) fun name => .bind parameters_foretells fun listed => ?_
  have last : ∀ returned : Option DeclaredType, Foretells (do
      let _ ← expectPunctuation ";"
      let next ← Reader.current
      return (⟨keyword, name, listed.map Parameter.name, returned, next.isKeyword "forward"⟩ :
        Header)) _ := fun _ => .bind (.expect _ _) fun _ => .bind .current fun _ => .pure _
  exact .ite _ (.bind (.bind (returnType_foretells name) fun _ => .pure _) last) (.bind (.pure _) last)

section

variable {body body' : Reader Unit}

theorem headerTail_foretells (h : Foretells body body') (heading : Header) :
    Foretells (headerTail body heading) (headerTail body' heading) :=
  .bind (.report _) fun _ => .ite _
    (.bind .advance fun _ => .bind (.expect _ _) fun _ => .pure _)
    (.bind .current fun _ => .ite _ h (.unexpected _))

theorem subprogram_foretells (h : Foretells body body') (keyword : Token) :
    Foretells (subprogram body keyword) (subprogram body' keyword) :=
  .bind (header_foretells keyword) fun heading => .bind (.report _) fun _ => .bind (.report _) fun _ =>
    .reportAfter (headerTail_foretells h heading) _

theorem declarations_foretells (h : Foretells body body') :
    Foretells (declarations body) (declarations body') :=
  .bind (.many fun keyword => .ite _ variableList_foretells (subprogram_foretells h keyword))
    fun _ => .pure _

end

theorem body_foretells {depth depth' : Nat} (le : depth ≤ depth') :
    Foretells (body depth) (body depth') := by
  induction depth generalizing depth' with
  | zero => exact .tooDeep
  | succ depth ih =>
    obtain ⟨depth', rfl⟩ : ∃ d, depth' = d + 1 := ⟨depth' - 1, by omega⟩
    refine .bind (.expect _ _) fun _ => .bind (declarations_foretells (ih (by omega))) fun _ => ?_
    refine .bind .current fun _ => .ite _ ?_ (.unexpected _)
    exact .bind .advance fun _ => .bind (.accept _) fun _ => .pure _

end DeclarationChecker.Declaration
