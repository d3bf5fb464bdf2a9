import DeclarationChecker.Declaration.Event

set_option autoImplicit false

/-!
Readers of declarations. A reader is given the tokens ahead and the end of the input behind
them, and answers what it made of them, what it has to report, and how many tokens it used.
Since it only counts, no reader can lose, repeat or invent a token, nor pass the end.
-/

namespace DeclarationChecker.Declaration

/-- What reading came to. After an unexpected token, or bodies nested too deep, nothing more is
read. -/
inductive Outcome (α : Type) where
  | value (a : α)
  | unexpected
  | tooDeep
  deriving DecidableEq, Repr

def Outcome.map {α β : Type} (f : α → β) : Outcome α → Outcome β
  | value a => value (f a)
  | unexpected => unexpected
  | tooDeep => tooDeep

structure Reading (α : Type) where
  outcome : Outcome α
  events : List Event
  used : Nat
  deriving Repr

/-- From the end of the input and the tokens ahead of it, none of which is an end. -/
def Reader (α : Type) := Token → List Token → Reading α

namespace Reader

variable {α β : Type}

protected def pure (a : α) : Reader α := fun _ _ => ⟨.value a, [], 0⟩

protected def bind (r : Reader α) (f : α → Reader β) : Reader β := fun stop ahead =>
  let first := r stop ahead
  match first.outcome with
  | .value a =>
    let second := f a stop (ahead.drop first.used)
    ⟨second.outcome, first.events ++ second.events, first.used + second.used⟩
  | .unexpected => ⟨.unexpected, first.events, first.used⟩
  | .tooDeep => ⟨.tooDeep, first.events, first.used⟩

instance : Monad Reader where
  pure := Reader.pure
  bind := Reader.bind

def current : Reader Token := fun stop ahead => ⟨.value (ahead.headD stop), [], 0⟩

def advance : Reader Token := fun stop ahead =>
  match ahead with
  | [] => ⟨.value stop, [], 0⟩
  | t :: _ => ⟨.value t, [], 1⟩

def reportAll (events : List Event) : Reader Unit := fun _ _ => ⟨.value (), events, 0⟩

def report (event : Event) : Reader Unit := reportAll [event]

def unexpected (expected : Expected) : Reader α := fun stop ahead =>
  ⟨.unexpected, [.unexpected expected (ahead.headD stop)], 0⟩

def tooDeep : Reader α := fun _ _ => ⟨.tooDeep, [], 0⟩

/-- Reports the event once reading is over, however it ended. -/
def reportAfter (r : Reader α) (event : Event) : Reader α := fun stop ahead =>
  let reading := r stop ahead
  { reading with events := reading.events ++ [event] }

def accept (test : Token → Bool) : Reader Bool := do
  if test (← current) then
    let _ ← advance
    return true
  else return false

def expect (test : Token → Bool) (expected : Expected) : Reader Token := do
  if test (← current) then advance else unexpected expected

def acceptPunctuation (mark : String) : Reader Bool := accept fun t => t.isPunctuation mark

def expectPunctuation (mark : String) : Reader Token :=
  expect (fun t => t.isPunctuation mark) (.spelling mark)

def expectKeyword (word : String) : Reader Token :=
  expect (fun t => t.isKeyword word) (.spelling word)

def expectIdentifier : Reader Token := expect (fun t => t.kind = .identifier) .identifier

def expectNumber : Reader Token := expect (fun t => t.kind = .number) .number

def expectDots : Reader Token := expect (fun t => t.kind = .dots) (.spelling "..")

/-- Reads a piece after every token that starts one, for as long as there is such a token. -/
def many (starts : Token → Bool) (piece : Token → Reader α) : Reader (List α)
  | _, [] => ⟨.value [], [], 0⟩
  | stop, t :: rest =>
    if starts t then
      let first := piece t stop rest
      match first.outcome with
      | .value a =>
        let others := many starts piece stop (rest.drop first.used)
        ⟨others.outcome.map (a :: ·), first.events ++ others.events, 1 + first.used + others.used⟩
      | .unexpected => ⟨.unexpected, first.events, 1 + first.used⟩
      | .tooDeep => ⟨.tooDeep, first.events, 1 + first.used⟩
    else ⟨.value [], [], 0⟩
termination_by _ ahead => ahead.length
decreasing_by simp only [List.length_drop, List.length_cons]; omega

def stopTooDeep (r : Reader Unit) : Reader Unit := fun stop ahead =>
  let reading := r stop ahead
  match reading.outcome with
  | .tooDeep =>
    let here := (ahead.drop reading.used).headD stop
    ⟨.value (), reading.events ++ [.tooDeep here.position], reading.used⟩
  | .value () => reading
  | .unexpected => reading

end Reader

end DeclarationChecker.Declaration
