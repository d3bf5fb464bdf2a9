import DeclarationChecker.Proofs.Declaration.Accounting
import DeclarationChecker.Proofs.Declaration.Composition
import DeclarationChecker.Proofs.Declaration.Program

set_option autoImplicit false

namespace DeclarationChecker.Declaration

open Reader SyntaxTree

variable {α β : Type}

def declaredNames (events : List Event) : List Token := events.filterMap Event.declared?

theorem declaredNames_append (events later : List Event) :
    declaredNames (events ++ later) = declaredNames events ++ declaredNames later :=
  List.filterMap_append

theorem declaredNames_variables (names : List Token) : declaredNames (names.map .variable) = names := by
  rw [declaredNames, List.filterMap_map]
  exact List.filterMap_some

theorem declaredNames_scope (label : String) (events : List Event) :
    declaredNames (.enter label :: (events ++ [.leave])) = declaredNames events := by
  change declaredNames (events ++ [.leave]) = _
  rw [declaredNames_append]
  exact List.append_nil _

theorem declaredNames_checks {events : List Event} (h : ∀ event ∈ events, event.isCheck = true) :
    declaredNames events = [] := by
  refine List.filterMap_eq_nil_iff.2 fun event mem => ?_
  have check := h event mem
  cases event with
  | «variable» name => cases check
  | subprogram heading => cases check
  | _ => rfl

theorem undeclaring_compositional :
    Compositional Event.isCheck fun _ _ reading => declaredNames reading.events = [] where
  value _ _ _ := rfl
  token _ _ _ := rfl
  reports _ _ _ each := declaredNames_checks each
  unexpected _ _ _ := rfl
  bind first next :=
    Reader.bind_cases (motive := fun reading => declaredNames reading.events = [])
      (fun a _ => (declaredNames_append _ _).trans (by rw [first, next a]; rfl)) (fun _ => first)
      fun _ => first
  scope label inside := (declaredNames_scope label _).trans inside

theorem MadeOf.declaredNames_eq {r : Reader α} (h : MadeOf Event.isCheck (Pure.pure ()) r) (stop : Token)
    (ahead : List Token) : declaredNames (r stop ahead).events = [] :=
  h.holds undeclaring_compositional (fun _ _ => rfl) stop ahead

/-- What is declared has been read, in the order in which it is declared. -/
def DeclaresInOrder : Property := fun stop ahead reading =>
  stop.isEnd = true → (declaredNames reading.events).Sublist (ahead.take reading.used)

theorem sublist_take_add {names names' ahead : List Token} {m n : Nat}
    (h : names.Sublist (ahead.take m)) (h' : names'.Sublist ((ahead.drop m).take n)) :
    (names ++ names').Sublist (ahead.take (m + n)) := by
  rw [List.take_add]
  exact h.append h'

theorem declaresInOrder_compositional : Compositional Event.isCheck DeclaresInOrder where
  value _ _ _ _ := List.nil_sublist _
  token _ _ _ _ := List.nil_sublist _
  reports _ _ _ each _ := by
    rw [declaredNames_checks each]
    exact List.nil_sublist _
  unexpected _ _ _ _ := List.nil_sublist _
  bind {α β r f stop ahead} first next := by
    refine Reader.bind_cases (motive := DeclaresInOrder stop ahead) (fun a _ hstop => ?_) (fun _ => first)
      fun _ => first
    dsimp only
    rw [declaredNames_append]
    exact sublist_take_add (first hstop) (next a hstop)
  scope label inside hstop := by
    rw [declaredNames_scope]
    exact inside hstop

def Answers (P : α → Prop) (r : Reader α) : Prop :=
  ∀ stop ahead a, (r stop ahead).outcome = .value a → P a

namespace Answers

variable {P : α → Prop} {r r' : Reader α}

theorem pure {a : α} (h : P a) : Answers P (Pure.pure a) := by
  rintro _ _ _ ⟨⟩
  exact h

theorem bind {r : Reader β} {f : β → Reader α} (h : ∀ b, Answers P (f b)) : Answers P (r >>= f) := by
  intro stop ahead a value
  obtain ⟨b, -, later, -⟩ := Reader.bind_value value
  exact h b stop _ a later

theorem ite (c : Bool) (h : Answers P r) (h' : Answers P r') : Answers P (if c = true then r else r') := by
  cases c with
  | false => exact h'
  | true => exact h

end Answers

section

variable {inner : Reader Unit} {stop : Token} {ahead : List Token}

theorem SyntaxTree.Names.list_sublist (n : Names) : n.list.Sublist n.tokens := by
  obtain ⟨first, others⟩ := n
  refine List.Sublist.cons_cons first.val ?_
  induction others with
  | nil => exact List.nil_sublist _
  | cons other others ih => exact (ih.cons_cons other.2.val).cons other.1.val

theorem names_sublist {declared : List Token} (hstop : stop.isEnd = true)
    (h : (names stop ahead).outcome = .value declared) :
    declared.Sublist (ahead.take (names stop ahead).used) := by
  have account := (names_reads 0).accounts stop ahead hstop
  generalize names stop ahead = reading at h account
  cases account with
  | @value xs rest a events complete quiet =>
    obtain ⟨n, rfl, rfl⟩ := complete
    cases h
    rw [List.take_left]
    exact n.list_sublist
  | unexpected viable blame => cases h
  | tooDeep viable quiet deep => cases h

theorem header_sublist {keyword : Token} {h : Header} (hstop : stop.isEnd = true)
    (value : (header keyword stop ahead).outcome = .value h) :
    [h.name].Sublist (ahead.take (header keyword stop ahead).used) := by
  obtain ⟨name, found, later, used⟩ := Reader.bind_value value
  obtain ⟨rest, rfl, one⟩ :=
    Reader.expect_value (Token.decide_kind_eq_false_of_isEnd (by decide) hstop) found
  have named : h.name = name := by
    refine Answers.bind (P := fun h : Header => h.name = name) (fun listed => ?_) stop _ h later
    have last : ∀ returned : Option DeclaredType, Answers (fun h : Header => h.name = name) (do
        let _ ← expectPunctuation ";"
        let next ← Reader.current
        return (⟨keyword, name, listed.map Parameter.name, returned, next.isKeyword "forward"⟩ :
          Header)) := fun _ => .bind fun _ => .bind fun _ => .pure rfl
    exact .ite _ (.bind last) (.bind last)
  change (header keyword stop _).used = _ at used
  change (expectIdentifier stop _).used = 1 at one
  rw [used, one, named, Nat.add_comm, List.take_succ_cons]
  exact List.singleton_sublist.2 List.mem_cons_self

theorem variableList_inOrder (stop : Token) (ahead : List Token) :
    DeclaresInOrder stop ahead (variableList stop ahead) := by
  have silent := (@names_madeOf Event.isCheck (Pure.pure ())).declaredNames_eq stop ahead
  refine Reader.bind_cases (motive := DeclaresInOrder stop ahead) (fun declared value hstop => ?_)
    (fun _ _ => silent ▸ List.nil_sublist _) fun _ _ => silent ▸ List.nil_sublist _
  dsimp only
  have tail := variableTail_madeOf.declaredNames_eq stop (ahead.drop (names stop ahead).used)
  rw [Reader.reportAll_bind, declaredNames_append, silent, List.nil_append, declaredNames_append,
    declaredNames_variables]
  refine sublist_take_add (names_sublist hstop value) ?_
  rw [tail]
  exact List.nil_sublist _

theorem subprogram_inOrder (hinner : ∀ stop ahead, DeclaresInOrder stop ahead (inner stop ahead))
    (keyword stop : Token) (ahead : List Token) :
    DeclaresInOrder stop ahead (subprogram inner keyword stop ahead) := by
  have silent := (header_madeOf keyword).declaredNames_eq stop ahead
  refine Reader.bind_cases (motive := DeclaresInOrder stop ahead) (fun h value hstop => ?_)
    (fun _ _ => silent ▸ List.nil_sublist _) fun _ _ => silent ▸ List.nil_sublist _
  dsimp only
  have tail := (headerTail_madeOf h).holds declaresInOrder_compositional hinner stop
    (ahead.drop (header keyword stop ahead).used) hstop
  rw [Reader.report, Reader.reportAll_bind, Reader.scope_eq, declaredNames_append, silent, List.nil_append,
    declaredNames_append, declaredNames_scope]
  exact sublist_take_add (header_sublist hstop value) tail

theorem declarations_inOrder (hinner : ∀ stop ahead, DeclaresInOrder stop ahead (inner stop ahead))
    (stop : Token) (ahead : List Token) :
    DeclaresInOrder stop ahead (declarations inner stop ahead) := by
  refine declaresInOrder_compositional.bind (declaresInOrder_compositional.many (fun keyword => ?_) _ _)
    fun _ => declaresInOrder_compositional.value _ _ _
  intro stop ahead
  cases keyword.isKeyword "var" with
  | true => exact variableList_inOrder stop ahead
  | false => exact subprogram_inOrder hinner keyword stop ahead

theorem body_inOrder (depth : Nat) (stop : Token) (ahead : List Token) :
    DeclaresInOrder stop ahead (body depth stop ahead) := by
  induction depth generalizing stop ahead with
  | zero => exact fun _ => List.nil_sublist _
  | succ depth ih =>
    -- The declarations inside take the part of the bodies inside.
    have made : MadeOf Event.isCheck (declarations (body depth)) (body (depth + 1)) :=
      .bind (.expect _ _) fun _ => .bind .inner fun _ => .bind .current fun _ =>
        .ite _ (.bind .advance fun _ => .bind (.accept _) fun _ => .pure _) (.unexpected _)
    exact made.holds declaresInOrder_compositional (declarations_inOrder ih) stop ahead

end

theorem toEnd_inOrder (depth : Nat) (stop : Token) (ahead : List Token) :
    DeclaresInOrder stop ahead (toEnd depth stop ahead) := by
  have made : MadeOf Event.isCheck (declarations (body depth)) (toEnd depth) :=
    .bind .inner fun _ => .bind .current fun _ => .ite _ (.unexpected _) (.pure _)
  exact made.holds declaresInOrder_compositional (declarations_inOrder (body_inOrder depth)) stop ahead

/-- The names that a program declares are among its tokens, and in the same order. -/
theorem program_inOrder {stop : Token} (hstop : stop.isEnd = true) (ahead : List Token) :
    (declaredNames (program stop ahead).events).Sublist ahead := by
  have within := (toEnd_inOrder nestingLimit stop ahead hstop).trans (List.take_sublist _ _)
  rw [program_eq]
  unfold stopTooDeep
  generalize toEnd nestingLimit stop ahead = reading at within
  obtain ⟨outcome, events, used⟩ := reading
  cases outcome with
  | value u => exact within
  | unexpected => exact within
  | tooDeep =>
    dsimp only
    rw [declaredNames_append]
    exact (List.append_nil _).symm ▸ within

end DeclarationChecker.Declaration
