import DeclarationChecker.Proofs.Declaration.Composition
import DeclarationChecker.Proofs.Declaration.Program

set_option autoImplicit false

namespace DeclarationChecker.Declaration

open Text Reader

variable {α β γ δ : Type}

structure Relocation where
  token : Token → Token
  place : Position → Position
  kind : ∀ t, (token t).kind = t.kind
  text : ∀ t, (token t).text = t.text
  position : ∀ t, (token t).position = place t.position

namespace Relocation

variable (m : Relocation)

attribute [simp] Relocation.kind Relocation.text Relocation.position

@[simp] theorem isKeyword (t : Token) (word : String) : (m.token t).isKeyword word = t.isKeyword word := by
  simp [Token.isKeyword]

@[simp] theorem isPunctuation (t : Token) (mark : String) :
    (m.token t).isPunctuation mark = t.isPunctuation mark := by
  simp [Token.isPunctuation]

@[simp] theorem isEnd (t : Token) : (m.token t).isEnd = t.isEnd := by
  simp [Token.isEnd]

@[simp] theorem describe (t : Token) : (m.token t).describe = t.describe := by
  simp [Token.describe]

@[simp] theorem startsDeclaration (t : Token) :
    startsDeclaration (m.token t) = Declaration.startsDeclaration t := by
  simp [Declaration.startsDeclaration]

@[simp] theorem primitive? (t : Token) : primitive? (m.token t) = Declaration.primitive? t := by
  simp [Declaration.primitive?]

def header (h : Header) : Header :=
  ⟨m.token h.keyword, m.token h.name, h.parameters.map m.token, h.returnType, h.forward⟩

def parameter (p : Parameter) : Parameter := ⟨m.token p.name, p.type⟩

def event : Event → Event
  | .variable name => .variable (m.token name)
  | .variableList type => .variableList type
  | .range bounds position => .range bounds (m.place position)
  | .stringSize size position => .stringSize size (m.place position)
  | .returnType function type position => .returnType (m.token function) type (m.place position)
  | .subprogram h => .subprogram (m.header h)
  | .enter label => .enter label
  | .parameters names => .parameters (names.map m.token)
  | .leave => .leave
  | .unexpected expected found => .unexpected expected (m.token found)
  | .tooDeep position => .tooDeep (m.place position)

def reading (g : α → β) (r : Reading α) : Reading β :=
  ⟨r.outcome.map g, r.events.map m.event, r.used⟩

theorem headD_map (ahead : List Token) (stop : Token) :
    (ahead.map m.token).headD (m.token stop) = m.token (ahead.headD stop) := by
  cases ahead with
  | nil => rfl
  | cons t rest => rfl

end Relocation

/-- Of tokens that have been moved, `r'` makes what `r` made of them where they stood; `g` says how
values change with the places. -/
def Follows (m : Relocation) (g : α → β) (r : Reader α) (r' : Reader β) : Prop :=
  ∀ stop ahead, r' (m.token stop) (ahead.map m.token) = m.reading g (r stop ahead)

namespace Follows

variable {m : Relocation} {g : α → β} {g' : γ → δ} {r : Reader α} {r' : Reader β} {f : α → Reader γ}
  {f' : β → Reader δ} {stop : Token} {ahead : List Token} {test : Token → Bool}

theorem bind_at (first : r' (m.token stop) (ahead.map m.token) = m.reading g (r stop ahead))
    (next : ∀ a, f' (g a) (m.token stop) ((ahead.drop (r stop ahead).used).map m.token) =
      m.reading g' (f a stop (ahead.drop (r stop ahead).used))) :
    (r' >>= f') (m.token stop) (ahead.map m.token) = m.reading g' ((r >>= f) stop ahead) := by
  change Reader.bind r' f' _ _ = m.reading g' (Reader.bind r f stop ahead)
  unfold Reader.bind
  rw [first]
  generalize r stop ahead = reading at next
  obtain ⟨outcome, events, used⟩ := reading
  cases outcome with
  | value a =>
    dsimp only [Relocation.reading, Outcome.map] at next ⊢
    rw [← List.map_drop, next, List.map_append]
  | unexpected => rfl
  | tooDeep => rfl

theorem bind (first : Follows m g r r') (next : ∀ a, Follows m g' (f a) (f' (g a))) :
    Follows m g' (r >>= f) (r' >>= f') :=
  fun stop ahead => bind_at (first stop ahead) fun a => next a stop _

theorem pure {a : α} {b : β} (h : b = g a) : Follows m g (Pure.pure a) (Pure.pure b) := by
  subst h
  exact fun _ _ => rfl

theorem current : Follows m m.token Reader.current Reader.current := by
  intro stop ahead
  unfold Reader.current
  rw [m.headD_map]
  rfl

theorem advance : Follows m m.token Reader.advance Reader.advance := by
  intro stop ahead
  cases ahead with
  | nil => rfl
  | cons t rest => rfl

theorem reportAll {events events' : List Event} (h : events' = events.map m.event) :
    Follows m id (Reader.reportAll events) (Reader.reportAll events') := by
  subst h
  exact fun _ _ => rfl

theorem report {event event' : Event} (h : event' = m.event event) :
    Follows m id (Reader.report event) (Reader.report event') := by
  subst h
  exact reportAll rfl

theorem unexpected (expected : Expected) :
    Follows m g (Reader.unexpected expected) (Reader.unexpected expected) := by
  intro stop ahead
  unfold Reader.unexpected
  rw [m.headD_map]
  rfl

theorem tooDeep : Follows m g Reader.tooDeep Reader.tooDeep := fun _ _ => rfl

theorem reportAfter (h : Follows m g r r') {event event' : Event} (same : event' = m.event event) :
    Follows m g (r.reportAfter event) (r'.reportAfter event') := by
  intro stop ahead
  unfold Reader.reportAfter
  rw [h stop ahead, same]
  dsimp only [Relocation.reading]
  rw [List.map_append]
  rfl

theorem ite {c c' : Bool} {r₂ : Reader α} {r₂' : Reader β} (same : c' = c) (h : Follows m g r r')
    (h₂ : Follows m g r₂ r₂') :
    Follows m g (if c = true then r else r₂) (if c' = true then r' else r₂') := by
  subst same
  cases c' with
  | false => exact h₂
  | true => exact h

theorem accept (same : ∀ t, test (m.token t) = test t) :
    Follows m id (Reader.accept test) (Reader.accept test) :=
  .bind .current fun t => .ite (same t) (.bind .advance fun _ => .pure rfl) (.pure rfl)

theorem expect (same : ∀ t, test (m.token t) = test t) (expected : Expected) :
    Follows m m.token (Reader.expect test expected) (Reader.expect test expected) :=
  .bind .current fun t => .ite (same t) .advance (.unexpected expected)

theorem many {starts : Token → Bool} {piece : Token → Reader α} {piece' : Token → Reader β}
    (same : ∀ t, starts (m.token t) = starts t) (each : ∀ t, Follows m g (piece t) (piece' (m.token t))) :
    Follows m (List.map g) (Reader.many starts piece) (Reader.many starts piece') := by
  intro stop ahead
  induction ahead using Reader.rounds starts with
  | nil =>
    rw [List.map_nil, Reader.many, Reader.many]
    rfl
  | other t rest other =>
    rw [List.map_cons, Reader.many, same, Reader.many, other, if_neg Bool.false_ne_true]
    rfl
  | round t rest starting later =>
    rw [List.map_cons, Reader.many_cons starting, Reader.many_cons ((same t).trans starting),
      ← List.map_cons]
    refine bind_at (advance stop (t :: rest)) fun t' => ?_
    refine bind_at (each t' stop rest) fun a => bind_at (later _) fun others => ?_
    exact pure (g := List.map g) List.map_cons.symm stop _

end Follows

section

variable {m : Relocation} {inner : Reader Unit}

theorem expectPunctuation_follows (mark : String) :
    Follows m m.token (expectPunctuation mark) (expectPunctuation mark) :=
  .expect (fun t => m.isPunctuation t mark) _

theorem expectKeyword_follows (word : String) :
    Follows m m.token (expectKeyword word) (expectKeyword word) :=
  .expect (fun t => m.isKeyword t word) _

theorem expectKind_follows (kind : Token.Kind) (expected : Expected) :
    Follows m m.token (expect (fun t => t.kind = kind) expected)
      (expect (fun t => t.kind = kind) expected) :=
  .expect (fun t => by rw [m.kind]) _

theorem acceptPunctuation_follows (mark : String) :
    Follows m id (acceptPunctuation mark) (acceptPunctuation mark) :=
  .accept fun t => m.isPunctuation t mark

theorem names_follows : Follows m (List.map m.token) names names :=
  .bind (expectKind_follows _ _) fun _ =>
    .bind (.many (fun t => m.isPunctuation t ",") fun _ => expectKind_follows _ _) fun _ =>
      .pure List.map_cons.symm

theorem range_follows : Follows m id range range := by
  refine .bind (expectPunctuation_follows _) fun _ => .bind (expectKind_follows _ _) fun low =>
    .bind (expectKind_follows _ _) fun _ => .bind (expectKind_follows _ _) fun high =>
      .bind (expectPunctuation_follows _) fun _ => .bind (expectKeyword_follows _) fun _ => ?_
  rw [m.text, m.text, m.position]
  exact .bind (.report rfl) fun _ => .pure rfl

theorem stringSize_follows : Follows m id stringSize stringSize := by
  refine .bind (acceptPunctuation_follows _) fun _ => .ite rfl ?_ (.pure rfl)
  refine .bind (expectKind_follows _ _) fun number => .bind (expectPunctuation_follows _) fun _ => ?_
  rw [m.text, m.position]
  exact .bind (.report rfl) fun _ => .pure rfl

theorem elementType_follows : Follows m id elementType elementType := by
  refine .bind .current fun t => ?_
  rw [m.primitive?]
  cases primitive? t with
  | some type => exact .bind .advance fun _ => .pure rfl
  | none => exact .ite (m.isKeyword t _) (.bind .advance fun _ => stringSize_follows) (.unexpected _)

theorem type_follows : Follows m id type type := by
  refine .bind (.many (fun t => m.isKeyword t "array") fun _ => range_follows) fun ranges => ?_
  rw [List.map_id]
  exact .bind elementType_follows fun _ => .pure rfl

theorem variableList_follows : Follows m id variableList variableList :=
  .bind names_follows fun declared =>
    .bind (.reportAll (by rw [List.map_map, List.map_map]; rfl)) fun _ =>
      .bind (expectPunctuation_follows _) fun _ => .bind type_follows fun _ =>
        .bind (expectPunctuation_follows _) fun _ => .report rfl

theorem parameterSection_follows :
    Follows m (List.map m.parameter) parameterSection parameterSection :=
  .bind names_follows fun _ => .bind (expectPunctuation_follows _) fun _ =>
    .bind type_follows fun _ => .pure (by rw [List.map_map, List.map_map]; rfl)

theorem parameters_follows : Follows m (List.map m.parameter) parameters parameters := by
  refine .bind (acceptPunctuation_follows _) fun _ => .ite rfl
    (.bind (acceptPunctuation_follows _) fun _ => .ite rfl (.pure rfl) ?_) (.pure rfl)
  refine .bind parameterSection_follows fun _ =>
    .bind (.many (fun t => m.isPunctuation t ";") fun _ => parameterSection_follows) fun _ =>
      .bind (expectPunctuation_follows _) fun _ => .pure ?_
  rw [List.map_append, List.map_flatten]

theorem returnType_follows (function : Token) :
    Follows m id (returnType function) (returnType (m.token function)) := by
  refine .bind (expectPunctuation_follows _) fun _ => .bind .current fun _ => .bind type_follows fun _ => ?_
  rw [m.position]
  exact .bind (.report rfl) fun _ => .pure rfl

theorem header_follows (keyword : Token) :
    Follows m m.header (header keyword) (header (m.token keyword)) := by
  refine .bind (expectKind_follows _ _) fun name => .bind parameters_follows fun listed => ?_
  have last : ∀ returned : Option DeclaredType, Follows m m.header (do
      let _ ← expectPunctuation ";"
      let next ← Reader.current
      return (⟨keyword, name, listed.map Parameter.name, returned, next.isKeyword "forward"⟩ : Header))
      (do
      let _ ← expectPunctuation ";"
      let next ← Reader.current
      return (⟨m.token keyword, m.token name, (listed.map m.parameter).map Parameter.name, returned,
        next.isKeyword "forward"⟩ : Header)) := fun returned =>
    .bind (expectPunctuation_follows _) fun _ => .bind .current fun _ => .pure (by
      rw [m.isKeyword, Relocation.header, List.map_map, List.map_map]
      rfl)
  exact .ite (m.isKeyword keyword _)
    (.bind (g := id) (.bind (returnType_follows name) fun _ => .pure rfl) last)
    (.bind (g := id) (.pure rfl) last)

theorem headerTail_follows (hinner : Follows m id inner inner) (h : Header) :
    Follows m id (headerTail inner h) (headerTail inner (m.header h)) :=
  .bind (.report rfl) fun _ => .ite rfl
    (.bind .advance fun _ => .bind (expectPunctuation_follows _) fun _ => .pure rfl)
    (.bind .current fun t => .ite (m.isKeyword t _) hinner (.unexpected _))

theorem subprogram_follows (hinner : Follows m id inner inner) (keyword : Token) :
    Follows m id (subprogram inner keyword) (subprogram inner (m.token keyword)) := by
  refine .bind (header_follows keyword) fun h => .bind (.report rfl) fun _ => .bind (.report ?_) fun _ =>
    .reportAfter (headerTail_follows hinner h) rfl
  exact congrArg Event.enter (m.text h.name)

theorem declarations_follows (hinner : Follows m id inner inner) :
    Follows m id (declarations inner) (declarations inner) :=
  .bind (.many m.startsDeclaration fun keyword => .ite (m.isKeyword keyword _) variableList_follows
    (subprogram_follows hinner keyword)) fun _ => .pure rfl

end

theorem body_follows (m : Relocation) (depth : Nat) : Follows m id (body depth) (body depth) := by
  induction depth with
  | zero => exact .tooDeep
  | succ depth ih =>
    refine .bind (expectKeyword_follows _) fun _ => .bind (declarations_follows ih) fun _ =>
      .bind .current fun t => .ite (m.isKeyword t _) ?_ (.unexpected _)
    exact .bind .advance fun _ => .bind (acceptPunctuation_follows _) fun _ => .pure rfl

theorem toEnd_follows (m : Relocation) (depth : Nat) : Follows m id (toEnd depth) (toEnd depth) :=
  .bind (declarations_follows (body_follows m depth)) fun _ => .bind .current fun t =>
    .ite (congrArg (!·) (m.isEnd t)) (.unexpected _) (.pure rfl)

theorem program_follows (m : Relocation) : Follows m id program program := by
  intro stop ahead
  rw [program_eq]
  unfold stopTooDeep
  rw [toEnd_follows m nestingLimit stop ahead]
  generalize toEnd nestingLimit stop ahead = reading
  obtain ⟨outcome, events, used⟩ := reading
  cases outcome with
  | value u => rfl
  | unexpected => rfl
  | tooDeep =>
    dsimp only [Relocation.reading, Outcome.map]
    rw [← List.map_drop, m.headD_map, m.position, List.map_append]
    rfl

end DeclarationChecker.Declaration
