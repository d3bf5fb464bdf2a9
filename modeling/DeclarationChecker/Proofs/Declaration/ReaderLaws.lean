import DeclarationChecker.Declaration.Constructs

set_option autoImplicit false

namespace DeclarationChecker.Declaration

open Reader

variable {α β γ : Type}

theorem Reading.eta (reading : Reading α) :
    (⟨reading.outcome, [] ++ reading.events, 0 + reading.used⟩ : Reading α) = reading := by
  rw [List.nil_append, Nat.zero_add]

theorem Reader.pure_bind (a : α) (f : α → Reader β) : (Pure.pure a >>= f) = f a := by
  funext stop ahead
  exact Reading.eta (f a stop ahead)

theorem Reader.bind_pure_id (r : Reader α) : (r >>= Pure.pure) = r := by
  funext stop ahead
  change Reader.bind r Pure.pure stop ahead = r stop ahead
  unfold Reader.bind
  rcases r stop ahead with ⟨outcome, events, used⟩
  cases outcome with
  | value a => exact congrArg (Reading.mk (.value a) · used) (List.append_nil events)
  | unexpected => rfl
  | tooDeep => rfl

theorem Reader.bind_assoc (r : Reader α) (f : α → Reader β) (g : β → Reader γ) :
    (r >>= f >>= g) = (r >>= fun a => f a >>= g) := by
  funext stop ahead
  change Reader.bind (Reader.bind r f) g stop ahead =
    Reader.bind r (fun a => Reader.bind (f a) g) stop ahead
  unfold Reader.bind
  rcases r stop ahead with ⟨outcome, events, used⟩
  cases outcome with
  | unexpected => rfl
  | tooDeep => rfl
  | value a =>
    dsimp only
    rcases f a stop (ahead.drop used) with ⟨outcome', events', used'⟩
    cases outcome' with
    | unexpected => rfl
    | tooDeep => rfl
    | value b => simp only [List.drop_drop, List.append_assoc, Nat.add_assoc]

theorem Reader.bind_value {r : Reader α} {f : α → Reader β} {stop : Token} {ahead : List Token}
    {b : β} (h : ((r >>= f) stop ahead).outcome = .value b) :
    ∃ a, (r stop ahead).outcome = .value a ∧
      (f a stop (ahead.drop (r stop ahead).used)).outcome = .value b ∧
      ((r >>= f) stop ahead).used =
        (r stop ahead).used + (f a stop (ahead.drop (r stop ahead).used)).used := by
  change (Reader.bind r f stop ahead).outcome = _ at h
  change ∃ a, _ ∧ _ ∧ (Reader.bind r f stop ahead).used = _
  unfold Reader.bind at h ⊢
  generalize r stop ahead = reading at h ⊢
  obtain ⟨outcome, events, used⟩ := reading
  cases outcome with
  | value a => exact ⟨a, rfl, h, rfl⟩
  | unexpected => exact nomatch h
  | tooDeep => exact nomatch h

instance : LawfulMonad Reader :=
  LawfulMonad.mk' Reader Reader.bind_pure_id Reader.pure_bind Reader.bind_assoc

theorem Reader.current_bind (f : Token → Reader α) (stop : Token) (ahead : List Token) :
    (Reader.current >>= f) stop ahead = f (ahead.headD stop) stop ahead :=
  Reading.eta (f (ahead.headD stop) stop ahead)

theorem Reader.reportAll_bind (events : List Event) (f : Unit → Reader α) (stop : Token)
    (ahead : List Token) : (Reader.reportAll events >>= f) stop ahead =
      ⟨(f () stop ahead).outcome, events ++ (f () stop ahead).events, (f () stop ahead).used⟩ := by
  change (⟨_, _, 0 + (f () stop ahead).used⟩ : Reading α) = _
  rw [Nat.zero_add]
  rfl

/-- A round of a loop, and the rounds behind it. -/
theorem Reader.many_cons {starts : Token → Bool} {piece : Token → Reader α} {stop t : Token}
    {rest : List Token} (starting : starts t = true) :
    many starts piece stop (t :: rest) = (do
      let t ← advance
      let a ← piece t
      let others ← many starts piece
      return a :: others) stop (t :: rest) := by
  rw [many, if_pos starting]
  change _ = Reader.bind advance (fun t => Reader.bind (piece t) fun a =>
    Reader.bind (many starts piece) fun others => Reader.pure (a :: others)) stop (t :: rest)
  simp only [Reader.bind, advance, List.drop_one, List.tail_cons, Reader.pure]
  cases (piece t stop rest).outcome with
  | value a =>
    dsimp only
    cases (many starts piece stop (rest.drop (piece t stop rest).used)).outcome with
    | value others => simp [Outcome.map, Nat.add_assoc]
    | unexpected => simp [Outcome.map, Nat.add_assoc]
    | tooDeep => simp [Outcome.map, Nat.add_assoc]
  | unexpected => rfl
  | tooDeep => rfl

/-- Of a loop, what holds behind a round for whatever is left holds before the round. -/
theorem Reader.rounds {motive : List Token → Prop} (starts : Token → Bool) (nil : motive [])
    (other : ∀ t rest, starts t = false → motive (t :: rest))
    (round : ∀ t rest, starts t = true → (∀ used, motive (rest.drop used)) → motive (t :: rest))
    (ahead : List Token) : motive ahead := by
  induction e : ahead.length using Nat.strongRecOn generalizing ahead with
  | ind n ih =>
    cases ahead with
    | nil => exact nil
    | cons t rest =>
      cases starting : starts t with
      | false => exact other t rest starting
      | true =>
        refine round t rest starting fun used => ih (rest.drop used).length ?_ _ rfl
        rw [List.length_cons] at e
        rw [List.length_drop]
        omega

theorem Reader.bind_cases {r : Reader α} {f : α → Reader β} {stop : Token} {ahead : List Token}
    {motive : Reading β → Prop}
    (value : ∀ a, (r stop ahead).outcome = .value a →
      let later := f a stop (ahead.drop (r stop ahead).used)
      motive ⟨later.outcome, (r stop ahead).events ++ later.events, (r stop ahead).used + later.used⟩)
    (unexpected : (r stop ahead).outcome = .unexpected →
      motive ⟨.unexpected, (r stop ahead).events, (r stop ahead).used⟩)
    (tooDeep : (r stop ahead).outcome = .tooDeep →
      motive ⟨.tooDeep, (r stop ahead).events, (r stop ahead).used⟩) :
    motive ((r >>= f) stop ahead) := by
  change motive (Reader.bind r f stop ahead)
  unfold Reader.bind
  dsimp only
  cases outcome : (r stop ahead).outcome with
  | value a => exact value a outcome
  | unexpected => exact unexpected outcome
  | tooDeep => exact tooDeep outcome

theorem Reader.map_events (r : Reader α) (g : α → β) (stop : Token) (ahead : List Token) :
    ((r >>= fun a => Pure.pure (g a)) stop ahead).events = (r stop ahead).events :=
  Reader.bind_cases (motive := fun reading => reading.events = (r stop ahead).events)
    (fun _ _ => List.append_nil _) (fun _ => rfl) fun _ => rfl

theorem Reader.expect_value {test : Token → Bool} {expected : Expected} {stop t : Token}
    {ahead : List Token} (refused : test stop = false)
    (h : (expect test expected stop ahead).outcome = .value t) :
    ∃ rest, ahead = t :: rest ∧ (expect test expected stop ahead).used = 1 := by
  unfold Reader.expect at h ⊢
  rw [Reader.current_bind] at h ⊢
  cases ahead with
  | nil =>
    rw [List.headD_nil, refused] at h
    cases h
  | cons first rest =>
    rw [List.headD_cons] at h ⊢
    cases passes : test first with
    | false =>
      rw [passes] at h
      cases h
    | true =>
      rw [passes] at h
      cases h
      exact ⟨rest, rfl, rfl⟩

theorem Reader.scope_eq (r : Reader α) (label : String) (stop : Token) (ahead : List Token) :
    (report (.enter label) >>= fun _ => r.reportAfter .leave) stop ahead =
      ⟨(r stop ahead).outcome, .enter label :: ((r stop ahead).events ++ [.leave]),
        (r stop ahead).used⟩ := by
  change (⟨(r stop ahead).outcome, _, 0 + (r stop ahead).used⟩ : Reading α) = _
  rw [Nat.zero_add]
  rfl

/-- A heading up to its semicolon, before it is known whether it is a forward one. -/
def heading (keyword : Token) : Reader (Bool → Header) := do
  let name ← expectIdentifier
  let listed ← parameters
  let returned ← if keyword.isKeyword "function" then some <$> returnType name else pure none
  let _ ← expectPunctuation ";"
  return fun forward => ⟨keyword, name, listed.map Parameter.name, returned, forward⟩

def afterHeading (body : Reader Unit) (h : Header) : Reader Unit := do
  report (.subprogram h)
  report (.enter h.name.text)
  (headerTail body h).reportAfter .leave

theorem header_eq (keyword : Token) : header keyword = (do
    let h ← heading keyword
    let next ← current
    return h (next.isKeyword "forward")) := by
  unfold header heading
  cases keyword.isKeyword "function" <;> simp

theorem subprogram_eq (body : Reader Unit) (keyword : Token) : subprogram body keyword = (do
    let h ← heading keyword
    let next ← current
    afterHeading body (h (next.isKeyword "forward"))) := by
  have split : subprogram body keyword = header keyword >>= afterHeading body := rfl
  rw [split, header_eq]
  simp

def declarationTail (body : Reader Unit) (keyword : Token) : Reader Unit :=
  if keyword.isKeyword "var" then variableList else subprogram body keyword

theorem declarations_eq (body : Reader Unit) :
    declarations body = (do let _ ← many startsDeclaration (declarationTail body)) := rfl

end DeclarationChecker.Declaration
