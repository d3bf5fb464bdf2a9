import DeclarationChecker.Proofs.Declaration.Blame
import DeclarationChecker.Proofs.Declaration.Composition

set_option autoImplicit false

namespace DeclarationChecker.Declaration

open Reader

variable {α β : Type}

def Within : Property := fun _ ahead reading => reading.used ≤ ahead.length

theorem within_compositional : Compositional Event.isPlain Within where
  value _ _ _ := Nat.zero_le _
  token _ _ _ := Nat.le_add_left _ _
  reports _ _ _ _ := Nat.zero_le _
  unexpected _ _ _ := Nat.zero_le _
  bind {α β r f stop ahead} first next := by
    refine Reader.bind_cases (motive := Within stop ahead) (fun a _ => ?_) (fun _ => first) fun _ => first
    have later := next a
    unfold Within at first later ⊢
    rw [List.length_drop] at later
    dsimp only
    omega
  scope _ inside := inside

theorem syntaxEvents_eq_nil {events : List Event} (h : ∀ event ∈ events, event.isSyntactic = false) :
    syntaxEvents events = [] :=
  List.filter_eq_nil_iff.2 fun event mem => Bool.eq_false_iff.1 (h event mem)

theorem not_isSyntactic_of_isPlain {event : Event} (h : event.isPlain = true) :
    event.isSyntactic = false := by
  cases event with
  | unexpected expected found => cases h
  | tooDeep position => cases h
  | _ => rfl

/-- A reading without syntax errors, or one that gave up at the token it has come to. -/
structure Ends {α : Type} (stop : Token) (ahead : List Token) (reading : Reading α) : Prop where
  quiet : reading.outcome ≠ .unexpected → syntaxEvents reading.events = []
  last : reading.outcome = .unexpected → GivesUpLast reading.events
  blame : reading.outcome = .unexpected → ∃ expected,
    syntaxEvents reading.events = [.unexpected expected ((ahead.drop reading.used).headD stop)]

namespace Ends

variable {stop : Token} {ahead : List Token} {events earlier : List Event} {used : Nat}

theorem of_quiet {outcome : Outcome α} (going : outcome ≠ .unexpected)
    (quiet : syntaxEvents events = []) : Ends stop ahead ⟨outcome, events, used⟩ :=
  ⟨fun _ => quiet, fun h => absurd h going, fun h => absurd h going⟩

/-- What has been read before makes no difference, unless it gave up. -/
theorem after {reading : Reading β} (quiet : syntaxEvents earlier = [])
    (h : Ends stop (ahead.drop used) reading) :
    Ends stop ahead ⟨reading.outcome, earlier ++ reading.events, used + reading.used⟩ where
  quiet going := by rw [syntaxEvents_append, quiet, h.quiet going, List.nil_append]
  last unexpected := (h.last unexpected).after earlier
  blame unexpected := by
    obtain ⟨expected, blame⟩ := h.blame unexpected
    rw [List.drop_drop] at blame
    exact ⟨expected, by rw [syntaxEvents_append, quiet, blame, List.nil_append]⟩

theorem map {reading : Reading α} (h : Ends stop ahead reading) {outcome : Outcome β}
    (same : outcome = .unexpected ↔ reading.outcome = .unexpected) :
    Ends stop ahead ⟨outcome, reading.events, reading.used⟩ :=
  ⟨fun going => h.quiet fun e => going (same.2 e), fun e => h.last (same.1 e), fun e => h.blame (same.1 e)⟩

theorem scope {reading : Reading α} (label : String) (h : Ends stop ahead reading) :
    Ends stop ahead ⟨reading.outcome, .enter label :: (reading.events ++ [.leave]), reading.used⟩ := by
  have around : syntaxEvents (.enter label :: (reading.events ++ [.leave])) =
      syntaxEvents reading.events := by
    change syntaxEvents (reading.events ++ [.leave]) = _
    rw [syntaxEvents_append]
    exact List.append_nil _
  exact ⟨fun going => around.trans (h.quiet going), fun e => ((h.last e).leave.after [.enter label]),
    fun e => by rw [around]; exact h.blame e⟩

end Ends

theorem ends_compositional : Compositional Event.isPlain Ends where
  value _ _ _ := .of_quiet nofun rfl
  token _ _ _ := .of_quiet nofun rfl
  reports _ _ _ each :=
    .of_quiet nofun (syntaxEvents_eq_nil fun event mem => not_isSyntactic_of_isPlain (each event mem))
  unexpected stop ahead expected :=
    ⟨fun going => absurd rfl going,
      fun _ => ⟨[], expected, ahead.headD stop, [], rfl, fun _ mem => nomatch mem⟩,
      fun _ => ⟨expected, rfl⟩⟩
  bind {α β r f stop ahead} first next := by
    refine Reader.bind_cases (motive := Ends stop ahead) (fun a value => ?_) (fun e => ?_) fun e => ?_
    · refine (next a).after (first.quiet ?_)
      rw [value]
      exact nofun
    · exact first.map (iff_of_true rfl e)
    · refine first.map (iff_of_false nofun ?_)
      rw [e]
      exact nofun
  scope label inside := inside.scope label

theorem ends_tooDeep (stop : Token) (ahead : List Token) :
    Ends stop ahead (⟨.tooDeep, [], 0⟩ : Reading Unit) := .of_quiet nofun rfl

inductive Balanced : List Event → Prop
  | nil : Balanced []
  | plain {event : Event} {events : List Event} (h : event.isPlain = true)
      (rest : Balanced events) : Balanced (event :: events)
  | unexpected {expected : Expected} {found : Token} {events : List Event}
      (rest : Balanced events) : Balanced (.unexpected expected found :: events)
  | scope {label : String} {inner events : List Event} (inside : Balanced inner)
      (rest : Balanced events) : Balanced (.enter label :: (inner ++ .leave :: events))

namespace Balanced

variable {events later : List Event}

theorem append (h : Balanced events) (h' : Balanced later) : Balanced (events ++ later) := by
  induction h with
  | nil => exact h'
  | plain h _ ih => exact .plain h ih
  | unexpected _ ih => exact .unexpected ih
  | @scope label inner events inside _ _ ih =>
    rw [List.cons_append, List.append_assoc, List.cons_append]
    exact .scope inside ih

theorem of_plain (h : ∀ event ∈ events, event.isPlain = true) : Balanced events := by
  induction events with
  | nil => exact .nil
  | cons event events ih =>
    obtain ⟨first, others⟩ := List.forall_mem_cons.1 h
    exact .plain first (ih others)

end Balanced

theorem balanced_compositional :
    Compositional Event.isPlain fun _ _ reading => Balanced reading.events where
  value _ _ _ := .nil
  token _ _ _ := .nil
  reports _ _ _ each := .of_plain each
  unexpected _ _ _ := .unexpected .nil
  bind first next :=
    Reader.bind_cases (motive := fun reading => Balanced reading.events)
      (fun a _ => first.append (next a)) (fun _ => first) fun _ => first
  scope _ inside := .scope inside .nil

/-- If the depth of bodies stops a reader, it has stopped the reader of the bodies inside. -/
def DeepInside (inner : Reader Unit) : Property := fun stop ahead reading =>
  reading.outcome = .tooDeep → ∃ n, (inner stop (ahead.drop n)).outcome = .tooDeep

theorem deepInside_compositional (allowed : Event → Bool) (inner : Reader Unit) :
    Compositional allowed (DeepInside inner) where
  value _ _ _ := nofun
  token _ _ _ := nofun
  reports _ _ _ _ := nofun
  unexpected _ _ _ := nofun
  bind {α β r f stop ahead} first next := by
    refine Reader.bind_cases (motive := DeepInside inner stop ahead) (fun a _ deep => ?_) (fun _ => nofun)
      fun e _ => first e
    obtain ⟨n, deeper⟩ := next a deep
    exact ⟨_, by rwa [List.drop_drop] at deeper⟩
  scope _ inside := inside

/-- No stretch of the tokens that begins a body has more than `depth` bodies open. -/
def BodiesNest (depth : Nat) (tokens : List Token) : Prop :=
  ∀ front, front <:+: tokens → (∃ more, BodyForm (front ++ more) ()) → opens front ≤ depth

theorem BodiesNest.inside {depth : Nat} {tokens part : List Token} (h : BodiesNest depth tokens)
    (sub : part <:+: tokens) : BodiesNest depth part :=
  fun front inside viable => h front (inside.trans sub) viable

theorem bodiesNest_of_length_le {depth : Nat} {tokens : List Token} (h : tokens.length ≤ depth) :
    BodiesNest depth tokens := by
  intro front inside _
  have opened : opens front ≤ (Token.terminals front).length := openBodies_le_length _
  have shorter := inside.length_le
  rw [List.length_map] at opened
  omega

section

variable {allowed : Event → Bool} {limit depth : Nat} {r : Reader α} {stop : Token} {ahead : List Token}

theorem MadeOf.not_tooDeep (h : MadeOf allowed (body limit) r) (nests : BodiesNest depth ahead)
    (within : depth < limit) (hstop : stop.isEnd = true) : (r stop ahead).outcome ≠ .tooDeep := by
  intro deep
  obtain ⟨n, deeper⟩ :=
    h.holds (deepInside_compositional allowed (body limit)) (fun _ _ deep => ⟨0, deep⟩) stop ahead deep
  have account := (body_reads limit).accounts stop (ahead.drop n) hstop
  generalize rest_eq : ahead.drop n = behind at account deeper
  generalize body limit stop behind = reading at account deeper
  cases account with
  | value complete quiet => cases deeper
  | unexpected viable blame => cases deeper
  | @tooDeep xs rest more _ events viable quiet opened =>
    have inside : xs <:+: ahead :=
      (List.infix_append' [] xs rest).trans (rest_eq ▸ (List.drop_suffix n ahead).isInfix)
    have few := nests xs inside ⟨more, viable⟩
    omega

end

end DeclarationChecker.Declaration
