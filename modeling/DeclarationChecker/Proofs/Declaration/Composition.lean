import DeclarationChecker.Proofs.Declaration.ReaderLaws

set_option autoImplicit false

/-!
Readers are put together from a few pieces (`MadeOf`). What holds of the pieces, and passes from the
parts of a sequence to the whole, holds of every construct (`MadeOf.holds`, `body_holds`).
-/

namespace DeclarationChecker.Declaration

open Reader

variable {α β : Type}

def Event.isCheck : Event → Bool
  | .variableList _ => true
  | .range _ _ => true
  | .stringSize _ _ => true
  | .returnType _ _ _ => true
  | .parameters _ => true
  | _ => false

def Event.declared? : Event → Option Token
  | .variable name => some name
  | .subprogram h => some h.name
  | _ => none

def Event.isPlain (event : Event) : Bool := event.isCheck || event.declared?.isSome

theorem Event.isPlain_of_isCheck {event : Event} (h : event.isCheck = true) : event.isPlain = true := by
  rw [isPlain, h, Bool.true_or]

/-- The reader takes and reports what its pieces do: readers of one token, reports of the allowed
kind, scopes that close again, and `inner`, the reader of the bodies inside. -/
inductive MadeOf (allowed : Event → Bool) (inner : Reader Unit) : {α : Type} → Reader α → Prop
  | inner : MadeOf allowed inner inner
  | pure {α : Type} (a : α) : MadeOf allowed inner (Pure.pure a)
  | bind {α β : Type} {r : Reader α} {f : α → Reader β} (first : MadeOf allowed inner r)
      (next : ∀ a, MadeOf allowed inner (f a)) : MadeOf allowed inner (r >>= f)
  | current : MadeOf allowed inner Reader.current
  | advance : MadeOf allowed inner Reader.advance
  | reportAll {events : List Event} (each : ∀ event ∈ events, allowed event = true) :
      MadeOf allowed inner (Reader.reportAll events)
  | unexpected {α : Type} (expected : Expected) :
      MadeOf allowed inner (Reader.unexpected expected : Reader α)
  | many {α : Type} {starts : Token → Bool} {piece : Token → Reader α}
      (each : ∀ t, MadeOf allowed inner (piece t)) : MadeOf allowed inner (Reader.many starts piece)
  | scope {α : Type} {r : Reader α} (label : String) (inside : MadeOf allowed inner r) :
      MadeOf allowed inner (Reader.report (.enter label) >>= fun _ => r.reportAfter .leave)

namespace MadeOf

variable {allowed more : Event → Bool} {inner : Reader Unit} {r r' : Reader α}

theorem mono (h : MadeOf allowed inner r) (sub : ∀ event, allowed event = true → more event = true) :
    MadeOf more inner r := by
  induction h with
  | inner => exact .inner
  | pure a => exact .pure a
  | bind _ _ first next => exact .bind first next
  | current => exact .current
  | advance => exact .advance
  | reportAll each => exact .reportAll fun event mem => sub event (each event mem)
  | unexpected expected => exact .unexpected expected
  | many _ each => exact .many each
  | scope label _ inside => exact .scope label inside

theorem report {event : Event} (h : allowed event = true) :
    MadeOf allowed inner (Reader.report event) :=
  .reportAll (List.forall_mem_singleton.2 h)

theorem ite (c : Bool) (h : MadeOf allowed inner r) (h' : MadeOf allowed inner r') :
    MadeOf allowed inner (if c = true then r else r') := by
  cases c with
  | false => exact h'
  | true => exact h

theorem accept (test : Token → Bool) : MadeOf allowed inner (Reader.accept test) :=
  .bind .current fun _ => .ite _ (.bind .advance fun _ => .pure true) (.pure false)

theorem expect (test : Token → Bool) (expected : Expected) :
    MadeOf allowed inner (Reader.expect test expected) :=
  .bind .current fun _ => .ite _ .advance (.unexpected expected)

end MadeOf

abbrev Property := {α : Type} → Token → List Token → Reading α → Prop

/-- The property holds of the pieces of readers and passes on to sequences and scopes. -/
structure Compositional (allowed : Event → Bool) (P : Property) : Prop where
  value {α : Type} (stop : Token) (ahead : List Token) (a : α) : P stop ahead ⟨.value a, [], 0⟩
  token (stop t : Token) (rest : List Token) : P stop (t :: rest) ⟨.value t, [], 1⟩
  reports (stop : Token) (ahead : List Token) {events : List Event}
    (each : ∀ event ∈ events, allowed event = true) : P stop ahead ⟨.value (), events, 0⟩
  unexpected {α : Type} (stop : Token) (ahead : List Token) (expected : Expected) :
    P stop ahead (Reader.unexpected expected stop ahead : Reading α)
  bind {α β : Type} {r : Reader α} {f : α → Reader β} {stop : Token} {ahead : List Token}
    (first : P stop ahead (r stop ahead))
    (next : ∀ a, P stop (ahead.drop (r stop ahead).used) (f a stop (ahead.drop (r stop ahead).used))) :
    P stop ahead ((r >>= f) stop ahead)
  scope {α : Type} {stop : Token} {ahead : List Token} {reading : Reading α} (label : String)
    (inside : P stop ahead reading) :
    P stop ahead (⟨reading.outcome, .enter label :: (reading.events ++ [.leave]), reading.used⟩ :
      Reading α)

namespace Compositional

variable {allowed : Event → Bool} {P : Property} (c : Compositional allowed P)

include c

theorem many {starts : Token → Bool} {piece : Token → Reader α}
    (each : ∀ t stop ahead, P stop ahead (piece t stop ahead)) (stop : Token) (ahead : List Token) :
    P stop ahead (Reader.many starts piece stop ahead) := by
  induction ahead using Reader.rounds starts with
  | nil =>
    rw [Reader.many]
    exact c.value stop [] []
  | other t rest other =>
    rw [Reader.many, other, if_neg Bool.false_ne_true]
    exact c.value stop (t :: rest) []
  | round t rest starting later =>
    rw [Reader.many_cons starting]
    refine c.bind (c.token stop t rest) fun t' => ?_
    refine c.bind (each t' stop rest) fun a => c.bind (later _) fun others => ?_
    exact c.value stop _ _

end Compositional

theorem MadeOf.holds {allowed : Event → Bool} {inner : Reader Unit} {P : Property} {r : Reader α}
    (h : MadeOf allowed inner r) (c : Compositional allowed P)
    (hinner : ∀ stop ahead, P stop ahead (inner stop ahead)) (stop : Token) (ahead : List Token) :
    P stop ahead (r stop ahead) := by
  induction h generalizing stop ahead with
  | inner => exact hinner stop ahead
  | pure a => exact c.value stop ahead a
  | bind _ _ first next => exact c.bind (first stop ahead) fun a => next a stop _
  | current => exact c.value stop ahead _
  | advance =>
    cases ahead with
    | nil => exact c.value stop [] stop
    | cons t rest => exact c.token stop t rest
  | reportAll each => exact c.reports stop ahead each
  | unexpected expected => exact c.unexpected stop ahead expected
  | many _ each => exact c.many each stop ahead
  | scope label _ inside =>
    rw [Reader.scope_eq]
    exact c.scope label (inside stop ahead)

section

variable {allowed : Event → Bool} {inner : Reader Unit}

theorem names_madeOf : MadeOf allowed inner names :=
  .bind (.expect _ _) fun _ => .bind (.many fun _ => .expect _ _) fun _ => .pure _

theorem range_madeOf : MadeOf Event.isCheck inner range :=
  .bind (.expect _ _) fun _ => .bind (.expect _ _) fun _ => .bind (.expect _ _) fun _ =>
    .bind (.expect _ _) fun _ => .bind (.expect _ _) fun _ => .bind (.expect _ _) fun _ =>
      .bind (.report rfl) fun _ => .pure _

theorem stringSize_madeOf : MadeOf Event.isCheck inner stringSize :=
  .bind (.accept _) fun _ => .ite _
    (.bind (.expect _ _) fun _ => .bind (.expect _ _) fun _ => .bind (.report rfl) fun _ => .pure _)
    (.pure _)

theorem elementType_madeOf : MadeOf Event.isCheck inner elementType := by
  refine .bind .current fun t => ?_
  cases primitive? t with
  | some type => exact .bind .advance fun _ => .pure _
  | none => exact .ite _ (.bind .advance fun _ => stringSize_madeOf) (.unexpected _)

theorem type_madeOf : MadeOf Event.isCheck inner type :=
  .bind (.many fun _ => range_madeOf) fun _ => .bind elementType_madeOf fun _ => .pure _

theorem parameterSection_madeOf : MadeOf Event.isCheck inner parameterSection :=
  .bind names_madeOf fun _ => .bind (.expect _ _) fun _ => .bind type_madeOf fun _ => .pure _

theorem parameters_madeOf : MadeOf Event.isCheck inner parameters := by
  refine .bind (.accept _) fun _ => .ite _ (.bind (.accept _) fun _ => .ite _ (.pure _) ?_) (.pure _)
  exact .bind parameterSection_madeOf fun _ =>
    .bind (.many fun _ => parameterSection_madeOf) fun _ => .bind (.expect _ _) fun _ => .pure _

theorem returnType_madeOf (function : Token) : MadeOf Event.isCheck inner (returnType function) :=
  .bind (.expect _ _) fun _ => .bind .current fun _ => .bind type_madeOf fun _ =>
    .bind (.report rfl) fun _ => .pure _

theorem header_madeOf (keyword : Token) : MadeOf Event.isCheck inner (header keyword) := by
  refine .bind (.expect _ _) fun name => .bind parameters_madeOf fun listed => ?_
  have last : ∀ returned : Option DeclaredType, MadeOf Event.isCheck inner (do
      let _ ← expectPunctuation ";"
      let next ← Reader.current
      return (⟨keyword, name, listed.map Parameter.name, returned, next.isKeyword "forward"⟩ :
        Header)) := fun _ => .bind (.expect _ _) fun _ => .bind .current fun _ => .pure _
  exact .ite _ (.bind (.bind (returnType_madeOf name) fun _ => .pure _) last) (.bind (.pure _) last)

theorem variableTail_madeOf : MadeOf Event.isCheck inner (do
    let _ ← expectPunctuation ":"
    let declared ← type
    let _ ← expectPunctuation ";"
    report (.variableList declared)) :=
  .bind (.expect _ _) fun _ => .bind type_madeOf fun _ => .bind (.expect _ _) fun _ => .report rfl

theorem variableList_madeOf : MadeOf Event.isPlain inner variableList := by
  refine .bind names_madeOf fun declared => .bind (.reportAll fun event mem => ?_) fun _ =>
    variableTail_madeOf.mono fun _ => Event.isPlain_of_isCheck
  obtain ⟨name, -, rfl⟩ := List.mem_map.1 mem
  rfl

theorem headerTail_madeOf (h : Header) : MadeOf Event.isCheck inner (headerTail inner h) :=
  .bind (.report rfl) fun _ => .ite _
    (.bind .advance fun _ => .bind (.expect _ _) fun _ => .pure _)
    (.bind .current fun _ => .ite _ .inner (.unexpected _))

theorem subprogram_madeOf (keyword : Token) : MadeOf Event.isPlain inner (subprogram inner keyword) :=
  .bind ((header_madeOf keyword).mono fun _ => Event.isPlain_of_isCheck) fun h =>
    .bind (.report rfl) fun _ =>
      .scope _ ((headerTail_madeOf h).mono fun _ => Event.isPlain_of_isCheck)

theorem declarationTail_madeOf (keyword : Token) :
    MadeOf Event.isPlain inner (declarationTail inner keyword) :=
  .ite _ variableList_madeOf (subprogram_madeOf keyword)

theorem declarations_madeOf : MadeOf Event.isPlain inner (declarations inner) :=
  .bind (.many declarationTail_madeOf) fun _ => .pure _

end

theorem body_madeOf (depth : Nat) : MadeOf Event.isPlain (body depth) (body (depth + 1)) :=
  .bind (.expect _ _) fun _ => .bind declarations_madeOf fun _ => .bind .current fun _ =>
    .ite _ (.bind .advance fun _ => .bind (.accept _) fun _ => .pure _) (.unexpected _)

/-- What also holds of giving up for depth holds of all bodies. -/
theorem body_holds {P : Property} (c : Compositional Event.isPlain P)
    (deep : ∀ stop ahead, P stop ahead (⟨.tooDeep, [], 0⟩ : Reading Unit)) (depth : Nat)
    (stop : Token) (ahead : List Token) : P stop ahead (body depth stop ahead) := by
  induction depth generalizing stop ahead with
  | zero => exact deep stop ahead
  | succ depth ih => exact (body_madeOf depth).holds c ih stop ahead

end DeclarationChecker.Declaration
