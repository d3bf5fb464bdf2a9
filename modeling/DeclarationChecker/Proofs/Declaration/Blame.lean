import DeclarationChecker.Proofs.Declaration.Accounting

set_option autoImplicit false

/-!
Who is to blame. What a reader reports may later be found to be wrong at certain places. Each of
these is the place of a token it has used, and every such token is put forward only once: readers
hand on the tokens they return, and whoever reports about them has to account for them.
-/

namespace DeclarationChecker.Declaration

open Text Reader

variable {α β : Type}

def Event.blames : Event → List Position
  | .variable name => [name.position]
  | .variableList _ => []
  | .range _ position => [position]
  | .stringSize _ position => [position]
  | .returnType _ _ position => [position]
  | .subprogram h => [h.name.position]
  | .enter _ => []
  | .parameters names => names.map Token.position
  | .leave => []
  | .unexpected _ _ => []
  | .tooDeep _ => []

/-- An unexpected token is reported at the end: behind it only scopes are left. -/
def GivesUpLast (events : List Event) : Prop :=
  ∃ before expected found closing, events = before ++ .unexpected expected found :: closing ∧
    ∀ event ∈ closing, event = .leave

namespace GivesUpLast

variable {events : List Event}

theorem after (h : GivesUpLast events) (earlier : List Event) : GivesUpLast (earlier ++ events) := by
  obtain ⟨before, expected, found, closing, rfl, leaves⟩ := h
  exact ⟨earlier ++ before, expected, found, closing, (List.append_assoc ..).symm, leaves⟩

theorem leave (h : GivesUpLast events) : GivesUpLast (events ++ [.leave]) := by
  obtain ⟨before, expected, found, closing, rfl, leaves⟩ := h
  exact ⟨before, expected, found, closing ++ [.leave], List.append_assoc ..,
    List.forall_mem_append.2 ⟨leaves, List.forall_mem_singleton.2 rfl⟩⟩

end GivesUpLast

variable (p : Position)

def placed (tokens : List Token) : Nat := (tokens.map Token.position).count p

def blamed (events : List Event) : Nat := (events.flatMap Event.blames).count p

def Outcome.owes (owed : α → Nat) : Outcome α → Nat
  | .value a => owed a
  | .unexpected => 0
  | .tooDeep => 0

def total (owed : α → Nat) : List α → Nat
  | [] => 0
  | a :: as => owed a + total owed as

section

variable (t : Token) (tokens tokens' : List Token) (event : Event) (events events' : List Event)

theorem placed_cons : placed p (t :: tokens) = placed p [t] + placed p tokens := by
  rw [placed, List.map_cons, ← List.singleton_append, List.count_append]
  rfl

theorem placed_append : placed p (tokens ++ tokens') = placed p tokens + placed p tokens' := by
  rw [placed, List.map_append, List.count_append, placed, placed]

theorem placed_take_cons (n : Nat) :
    placed p ((t :: tokens).take (1 + n)) = placed p [t] + placed p (tokens.take n) := by
  rw [Nat.add_comm, List.take_succ_cons, placed_cons]

theorem placed_take_add (m n : Nat) :
    placed p (tokens.take (m + n)) = placed p (tokens.take m) + placed p ((tokens.drop m).take n) := by
  rw [List.take_add, placed_append]

theorem blamed_append : blamed p (events ++ events') = blamed p events + blamed p events' := by
  rw [blamed, List.flatMap_append, List.count_append, blamed, blamed]

theorem blamed_singleton : blamed p [event] = event.blames.count p := by
  rw [blamed, List.flatMap_singleton]

theorem blamed_variables : blamed p (tokens.map .variable) = placed p tokens := by
  rw [blamed, List.flatMap_map, placed, List.map_eq_flatMap]
  rfl

end

theorem owes_cons (owed : α → Nat) (a : α) (more : Nat) (outcome : Outcome (List α)) :
    (outcome.map (a :: ·)).owes (fun as => total owed as + more) ≤
      owed a + outcome.owes (total owed) + more := by
  cases outcome with
  | value as =>
    simp only [Outcome.map, Outcome.owes, total]
    omega
  | unexpected => exact Nat.zero_le _
  | tooDeep => exact Nat.zero_le _

theorem unexpected_of_map {g : α → β} {outcome : Outcome α} (h : outcome.map g = .unexpected) :
    outcome = .unexpected := by
  cases outcome with
  | value a => cases h
  | unexpected => rfl
  | tooDeep => cases h

/-- Out of a budget and the tokens it uses a reading pays for all that it puts forward, and for what
its value still owes. -/
structure Affords (budget : Nat) (owed : α → Nat) (ahead : List Token) (reading : Reading α) : Prop where
  within : blamed p reading.events + reading.outcome.owes owed ≤
    budget + placed p (ahead.take reading.used)
  last : reading.outcome = .unexpected → GivesUpLast reading.events

def Solvent (budget : Nat) (owed : α → Nat) (r : Reader α) : Prop :=
  ∀ stop ahead, stop.isEnd = true → Affords p budget owed ahead (r stop ahead)

variable {p : Position} {budget : Nat} {owed : α → Nat} {owed' : β → Nat} {stop t : Token}
  {ahead rest : List Token} {r : Reader α} {f : α → Reader β} {event : Event} {events : List Event}

namespace Affords

theorem mono {more : α → Nat} {reading : Reading α} (h : Affords p budget more ahead reading)
    (less : ∀ a, owed a ≤ more a) : Affords p budget owed ahead reading := by
  refine ⟨Nat.le_trans (Nat.add_le_add_left ?_ _) h.within, h.last⟩
  cases reading.outcome with
  | value a => exact less a
  | unexpected => exact Nat.le_refl _
  | tooDeep => exact Nat.le_refl _

theorem value {a : α} {used : Nat}
    (within : blamed p events + owed a ≤ budget + placed p (ahead.take used)) :
    Affords p budget owed ahead ⟨.value a, events, used⟩ := ⟨within, nofun⟩

theorem tooDeep {used : Nat} (within : blamed p events ≤ budget + placed p (ahead.take used)) :
    Affords p budget owed ahead ⟨.tooDeep, events, used⟩ := ⟨within, nofun⟩

theorem pure {a : α} (enough : owed a ≤ budget) :
    Affords p budget owed ahead ((Pure.pure a : Reader α) stop ahead) := by
  refine .value ?_
  change 0 + owed a ≤ budget + 0
  omega

theorem bind (hr : Affords p 0 owed ahead (r stop ahead))
    (hf : ∀ a, Solvent p (budget + owed a) owed' (f a)) (hstop : stop.isEnd = true) :
    Affords p budget owed' ahead ((r >>= f) stop ahead) := by
  change Affords p budget owed' ahead (Reader.bind r f stop ahead)
  unfold Reader.bind
  generalize r stop ahead = reading at hr
  obtain ⟨outcome, events, used⟩ := reading
  have within := hr.within
  cases outcome with
  | value a =>
    have second := hf a stop (ahead.drop used) hstop
    have within' := second.within
    refine ⟨?_, fun unexpected => (second.last unexpected).after events⟩
    dsimp only [Outcome.owes] at within
    dsimp only
    rw [blamed_append, placed_take_add]
    omega
  | unexpected =>
    refine ⟨?_, fun _ => hr.last rfl⟩
    dsimp only [Outcome.owes] at within ⊢
    omega
  | tooDeep =>
    refine .tooDeep ?_
    dsimp only [Outcome.owes] at within ⊢
    omega

theorem peek {f : Token → Reader β} (h : Affords p budget owed' ahead (f (ahead.headD stop) stop ahead)) :
    Affords p budget owed' ahead ((current >>= f) stop ahead) := by
  change Affords p budget owed' ahead ⟨(f (ahead.headD stop) stop ahead).outcome,
    [] ++ (f (ahead.headD stop) stop ahead).events, 0 + (f (ahead.headD stop) stop ahead).used⟩
  rwa [List.nil_append, Nat.zero_add]

theorem step (h : Affords p (budget + placed p [t]) owed rest (r stop rest)) :
    Affords p budget owed (t :: rest) ((advance >>= fun _ => r) stop (t :: rest)) := by
  change Affords p budget owed (t :: rest)
    ⟨(r stop rest).outcome, [] ++ (r stop rest).events, 1 + (r stop rest).used⟩
  refine ⟨?_, h.last⟩
  have within := h.within
  dsimp only
  rw [List.nil_append, placed_take_cons]
  omega

theorem frame {reading : Reading α} (h : Affords p 0 owed ahead reading) :
    Affords p budget (fun a => owed a + budget) ahead reading := by
  refine ⟨?_, h.last⟩
  have within := h.within
  cases outcome : reading.outcome with
  | value a =>
    rw [outcome] at within
    dsimp only [Outcome.owes] at within ⊢
    omega
  | unexpected =>
    dsimp only [Outcome.owes]
    omega
  | tooDeep =>
    dsimp only [Outcome.owes]
    omega

theorem skipMany {starts : Token → Bool} {piece : Token → Reader α} {f : List α → Reader β}
    (other : starts (ahead.headD stop) = false) (h : Affords p budget owed' ahead (f [] stop ahead)) :
    Affords p budget owed' ahead ((Reader.many starts piece >>= f) stop ahead) := by
  have none : Reader.many starts piece stop ahead = ⟨.value [], [], 0⟩ := by
    cases ahead with
    | nil => rw [Reader.many]
    | cons t rest =>
      rw [List.headD_cons] at other
      rw [Reader.many, other, if_neg Bool.false_ne_true]
  change Affords p budget owed' ahead (Reader.bind (Reader.many starts piece) f stop ahead)
  unfold Reader.bind
  rw [none]
  dsimp only
  rwa [List.nil_append, Nat.zero_add]

/-- The token that starts a piece is left over by all that goes before and behind it. -/
theorem many {starts : Token → Bool} {piece : Token → Reader α} (starting : starts t = true)
    (first : Affords p 0 owed rest (piece t stop rest))
    (others : Affords p 0 (total owed) (rest.drop (piece t stop rest).used)
      (many starts piece stop (rest.drop (piece t stop rest).used))) :
    Affords p 0 (fun as => total owed as + placed p [t]) (t :: rest)
      (Reader.many starts piece stop (t :: rest)) := by
  rw [Reader.many, if_pos starting]
  generalize piece t stop rest = reading at first others
  obtain ⟨outcome, events, used⟩ := reading
  have within := first.within
  cases outcome with
  | value a =>
    dsimp only at others ⊢
    generalize Reader.many starts piece stop (rest.drop used) = reading at others
    obtain ⟨outcome', events', used'⟩ := reading
    have within' := others.within
    refine ⟨?_, fun unexpected => (others.last (unexpected_of_map unexpected)).after events⟩
    have whole := owes_cons owed a (placed p [t]) outcome'
    dsimp only [Outcome.owes] at within
    dsimp only at within' ⊢
    rw [blamed_append, Nat.add_assoc 1, placed_take_cons, placed_take_add]
    omega
  | unexpected =>
    refine ⟨?_, fun _ => first.last rfl⟩
    dsimp only [Outcome.owes] at within ⊢
    rw [placed_take_cons]
    omega
  | tooDeep =>
    refine .tooDeep ?_
    dsimp only [Outcome.owes] at within ⊢
    rw [placed_take_cons]
    omega

end Affords

namespace Solvent

theorem pure {a : α} (enough : owed a ≤ budget) : Solvent p budget owed (Pure.pure a) :=
  fun _ _ _ => .pure enough

theorem bind (hr : Solvent p 0 owed r) (hf : ∀ a, Solvent p (budget + owed a) owed' (f a)) :
    Solvent p budget owed' (r >>= f) :=
  fun stop ahead hstop => (hr stop ahead hstop).bind hf hstop

theorem bind_reportAll {g : Unit → Reader β} (left : Nat) (enough : blamed p events + left ≤ budget)
    (h : Solvent p left owed' (g ())) : Solvent p budget owed' (Reader.reportAll events >>= g) := by
  intro stop ahead hstop
  have later := h stop ahead hstop
  change Affords p budget owed' ahead
    ⟨(g () stop ahead).outcome, events ++ (g () stop ahead).events, 0 + (g () stop ahead).used⟩
  refine ⟨?_, fun unexpected => (later.last unexpected).after events⟩
  have within := later.within
  dsimp only
  rw [Nat.zero_add, blamed_append]
  omega

theorem bind_report {g : Unit → Reader β} (left : Nat) (enough : event.blames.count p + left ≤ budget)
    (h : Solvent p left owed' (g ())) : Solvent p budget owed' (Reader.report event >>= g) :=
  bind_reportAll left (by rwa [blamed_singleton]) h

theorem report (enough : event.blames.count p ≤ budget) :
    Solvent p budget (fun _ => 0) (Reader.report event) := by
  refine fun stop ahead _ => .value ?_
  change blamed p [event] + 0 ≤ budget + 0
  rwa [blamed_singleton]

theorem reportAfter (h : Solvent p budget owed r) : Solvent p budget owed (r.reportAfter .leave) := by
  intro stop ahead hstop
  have before := h stop ahead hstop
  refine ⟨?_, fun unexpected => (before.last unexpected).leave⟩
  change blamed p ((r stop ahead).events ++ [.leave]) + (r stop ahead).outcome.owes owed ≤ _
  rw [blamed_append, blamed_singleton]
  exact before.within

theorem current : Solvent p 0 (fun _ => 0) Reader.current := fun _ _ _ => .value (Nat.zero_le _)

theorem advance : Solvent p 0 (fun _ => 0) Reader.advance := by
  intro stop ahead _
  cases ahead with
  | nil => exact .value (Nat.zero_le _)
  | cons t rest => exact .value (Nat.zero_le _)

theorem unexpected (expected : Expected) : Solvent p budget owed (Reader.unexpected expected) := by
  intro stop ahead _
  change Affords p budget owed ahead ⟨.unexpected, [.unexpected expected (ahead.headD stop)], 0⟩
  exact ⟨Nat.zero_le _, fun _ => ⟨[], expected, ahead.headD stop, [], rfl, fun _ mem => nomatch mem⟩⟩

theorem tooDeep : Solvent p budget owed Reader.tooDeep := fun _ _ _ => .tooDeep (Nat.zero_le _)

theorem ite {r' : Reader α} (c : Bool) (h : Solvent p budget owed r) (h' : Solvent p budget owed r') :
    Solvent p budget owed (if c = true then r else r') := by
  cases c with
  | false => exact h'
  | true => exact h

theorem accept (test : Token → Bool) : Solvent p 0 (fun _ => 0) (Reader.accept test) :=
  bind current fun _ => ite _ (bind advance fun _ => pure (Nat.le_refl _)) (pure (Nat.le_refl _))

theorem expect {test : Token → Bool} (expected : Expected)
    (notEnd : ∀ t, t.isEnd = true → test t = false) :
    Solvent p 0 (fun t => placed p [t]) (Reader.expect test expected) := by
  intro stop ahead hstop
  refine .peek ?_
  cases ahead with
  | nil =>
    rw [List.headD_nil, notEnd stop hstop]
    exact unexpected expected stop [] hstop
  | cons t rest =>
    rw [List.headD_cons]
    cases test t with
    | false => exact unexpected expected stop (t :: rest) hstop
    | true => exact .value (Nat.le_refl _)

theorem many {starts : Token → Bool} {piece : Token → Reader α} (h : ∀ t, Solvent p 0 owed (piece t)) :
    Solvent p 0 (total owed) (Reader.many starts piece) := by
  intro stop ahead hstop
  induction ahead using Reader.rounds starts with
  | nil =>
    rw [Reader.many]
    exact .value (Nat.zero_le _)
  | other t rest other =>
    rw [Reader.many, other, if_neg Bool.false_ne_true]
    exact .value (Nat.zero_le _)
  | round t rest starting later =>
    exact (Affords.many starting (h t stop rest hstop) (later _)).mono fun as => Nat.le_add_right _ _

end Solvent

variable (p)

theorem expectKeyword_solvent (word : String) :
    Solvent p 0 (fun t => placed p [t]) (expectKeyword word) :=
  .expect _ fun _ h => Token.isKeyword_eq_false_of_isEnd h word

theorem expectPunctuation_solvent (mark : String) :
    Solvent p 0 (fun t => placed p [t]) (expectPunctuation mark) :=
  .expect _ fun _ h => Token.isPunctuation_eq_false_of_isEnd h mark

theorem expectIdentifier_solvent : Solvent p 0 (fun t => placed p [t]) expectIdentifier :=
  .expect _ fun _ => Token.decide_kind_eq_false_of_isEnd (by decide)

theorem expectNumber_solvent : Solvent p 0 (fun t => placed p [t]) expectNumber :=
  .expect _ fun _ => Token.decide_kind_eq_false_of_isEnd (by decide)

theorem expectDots_solvent : Solvent p 0 (fun t => placed p [t]) expectDots :=
  .expect _ fun _ => Token.decide_kind_eq_false_of_isEnd (by decide)

theorem total_placed (tokens : List Token) : total (fun t => placed p [t]) tokens = placed p tokens := by
  induction tokens with
  | nil => rfl
  | cons t tokens ih => rw [total, ih, ← placed_cons]

theorem names_solvent : Solvent p 0 (placed p) names := by
  refine (expectIdentifier_solvent p).bind fun first => ?_
  refine (Solvent.many fun _ => expectIdentifier_solvent p).bind fun others => .pure ?_
  rw [total_placed, placed_cons]
  omega

/-- The lower bound of a range is to blame, once all of the range has been read. -/
theorem range_solvent : Solvent p 0 (fun _ => 0) range := by
  refine (expectPunctuation_solvent p "[").bind fun opening => ?_
  refine (expectNumber_solvent p).bind fun low => ?_
  refine (expectDots_solvent p).bind fun dots => ?_
  refine (expectNumber_solvent p).bind fun high => ?_
  refine (expectPunctuation_solvent p "]").bind fun closing => ?_
  refine (expectKeyword_solvent p "of").bind fun of => ?_
  refine .bind_report 0 ?_ (.pure (Nat.zero_le _))
  change placed p [low] + 0 ≤ _
  omega

theorem stringSize_solvent : Solvent p 0 (fun _ => 0) stringSize := by
  refine (Solvent.accept _).bind fun bracketed => .ite _ ?_ (.pure (Nat.zero_le _))
  refine (expectNumber_solvent p).bind fun number => ?_
  refine (expectPunctuation_solvent p "]").bind fun closing => ?_
  refine .bind_report 0 ?_ (.pure (Nat.zero_le _))
  change placed p [number] + 0 ≤ _
  omega

/-- The first token of a type is never to blame for it. -/
theorem elementType_affords (hstop : stop.isEnd = true) :
    Affords p 0 (fun _ => placed p [ahead.headD stop]) ahead (elementType stop ahead) := by
  refine .peek ?_
  cases ahead with
  | nil =>
    rw [List.headD_nil, primitive?_eq_none_of_isEnd hstop]
    dsimp only
    rw [Token.isKeyword_eq_false_of_isEnd hstop]
    exact Solvent.unexpected .type stop [] hstop
  | cons t rest =>
    rw [List.headD_cons]
    cases primitive? t with
    | some type => exact .step (.pure (Nat.le_add_left _ _))
    | none =>
      dsimp only
      cases t.isKeyword "string" with
      | false => exact Solvent.unexpected .type stop (t :: rest) hstop
      | true =>
        refine .step (.mono (stringSize_solvent p stop rest hstop).frame fun _ => ?_)
        omega

theorem elementType_solvent : Solvent p 0 (fun _ => 0) elementType :=
  fun _ _ hstop => (elementType_affords p hstop).mono fun _ => Nat.zero_le _

theorem type_affords (hstop : stop.isEnd = true) :
    Affords p 0 (fun _ => placed p [ahead.headD stop]) ahead (type stop ahead) := by
  cases array : (ahead.headD stop).isKeyword "array" with
  | false =>
    exact .skipMany array ((elementType_affords p hstop).bind (fun _ => .pure (Nat.le_add_left _ _)) hstop)
  | true =>
    cases ahead with
    | nil => exact nomatch (Token.isKeyword_eq_false_of_isEnd hstop "array").symm.trans array
    | cons t rest =>
      refine .bind (.many array (range_solvent p stop rest hstop)
        (Solvent.many (fun _ => range_solvent p) stop _ hstop)) (fun _ => ?_) hstop
      exact (elementType_solvent p).bind fun _ => .pure (by dsimp only [List.headD]; omega)

theorem type_solvent : Solvent p 0 (fun _ => 0) type :=
  fun _ _ hstop => (type_affords p hstop).mono fun _ => Nat.zero_le _

theorem variableList_solvent : Solvent p 0 (fun _ => 0) variableList := by
  refine (names_solvent p).bind fun declared => ?_
  refine .bind_reportAll 0 (by rw [blamed_variables]; omega) ?_
  refine (expectPunctuation_solvent p ":").bind fun colon => ?_
  refine (type_solvent p).bind fun type => ?_
  exact (expectPunctuation_solvent p ";").bind fun semicolon => .report (Nat.zero_le _)

theorem parameterSection_solvent :
    Solvent p 0 (fun listed => placed p (listed.map Parameter.name)) parameterSection := by
  refine (names_solvent p).bind fun shared => ?_
  refine (expectPunctuation_solvent p ":").bind fun colon => ?_
  refine (type_solvent p).bind fun declared => .pure ?_
  rw [List.map_map, Function.comp_def, List.map_id']
  omega

theorem total_names (sections : List (List Parameter)) :
    total (fun listed => placed p (listed.map Parameter.name)) sections =
      placed p (sections.flatten.map Parameter.name) := by
  induction sections with
  | nil => rfl
  | cons listed sections ih => rw [total, ih, List.flatten_cons, List.map_append, placed_append]

theorem parameters_solvent :
    Solvent p 0 (fun listed => placed p (listed.map Parameter.name)) parameters := by
  refine (Solvent.accept _).bind fun opened => .ite _ ?_ (.pure (Nat.zero_le _))
  refine (Solvent.accept _).bind fun closed => .ite _ (.pure (Nat.zero_le _)) ?_
  refine (parameterSection_solvent p).bind fun first => ?_
  refine (Solvent.many fun _ => parameterSection_solvent p).bind fun others => ?_
  refine (expectPunctuation_solvent p ")").bind fun closing => .pure ?_
  rw [total_names, List.map_append, placed_append]
  omega

/-- The type is to blame as a whole, by its first token. -/
theorem returnType_solvent (function : Token) : Solvent p 0 (fun _ => 0) (returnType function) := by
  refine (expectPunctuation_solvent p ":").bind fun colon stop ahead hstop => .peek ?_
  refine (type_affords p hstop).bind (fun declared => ?_) hstop
  exact .bind_report 0 (Nat.le_add_left _ _) (.pure (Nat.zero_le _))

theorem header_solvent (keyword : Token) :
    Solvent p 0 (fun h => placed p [h.name] + placed p h.parameters) (header keyword) := by
  refine (expectIdentifier_solvent p).bind fun name => ?_
  refine (parameters_solvent p).bind fun listed => ?_
  have last : ∀ returned : Option DeclaredType,
      Solvent p (0 + placed p [name] + placed p (listed.map Parameter.name) + 0)
        (fun h => placed p [h.name] + placed p h.parameters) (do
          let _ ← expectPunctuation ";"
          let next ← Reader.current
          return (⟨keyword, name, listed.map Parameter.name, returned, next.isKeyword "forward"⟩ :
            Header)) := fun returned => by
    refine (expectPunctuation_solvent p ";").bind fun semicolon => ?_
    refine Solvent.current.bind fun next => .pure ?_
    dsimp only
    omega
  have returned : Solvent p 0 (fun _ => 0) (some <$> returnType name) :=
    (returnType_solvent p name).bind fun type => .pure (Nat.le_refl _)
  exact .ite _ (returned.bind last) (Solvent.bind (.pure (Nat.le_refl _)) last)

section

variable {p} {body : Reader Unit}

theorem headerTail_solvent (h : Solvent p 0 (fun _ => 0) body) (heading : Header) :
    Solvent p (placed p heading.parameters) (fun _ => 0) (headerTail body heading) := by
  refine .bind_report 0 (Nat.le_refl _) (.ite _ ?_ ?_)
  · refine Solvent.advance.bind fun word => ?_
    exact (expectPunctuation_solvent p ";").bind fun semicolon => .pure (Nat.zero_le _)
  · exact Solvent.current.bind fun next => .ite _ h (.unexpected _)

theorem subprogram_solvent (h : Solvent p 0 (fun _ => 0) body) (keyword : Token) :
    Solvent p 0 (fun _ => 0) (subprogram body keyword) := by
  refine (header_solvent p keyword).bind fun heading => ?_
  refine .bind_report (placed p heading.parameters) ?_ ?_
  · change placed p [heading.name] + _ ≤ _
    omega
  · exact .bind_report _ (Nat.le_of_eq (Nat.zero_add _)) (headerTail_solvent h heading).reportAfter

theorem declarationTail_solvent (h : Solvent p 0 (fun _ => 0) body) (keyword : Token) :
    Solvent p 0 (fun _ => 0) (declarationTail body keyword) :=
  .ite _ (variableList_solvent p) (subprogram_solvent h keyword)

theorem declarations_solvent (h : Solvent p 0 (fun _ => 0) body) :
    Solvent p 0 (fun _ => 0) (declarations body) :=
  (Solvent.many (declarationTail_solvent h)).bind fun _ => .pure (Nat.zero_le _)

end

theorem body_solvent (depth : Nat) : Solvent p 0 (fun _ => 0) (body depth) := by
  induction depth with
  | zero => exact .tooDeep
  | succ depth ih =>
    refine (expectKeyword_solvent p "begin").bind fun opening => ?_
    refine .bind (declarations_solvent ih) fun _ => ?_
    refine Solvent.current.bind fun next => .ite _ ?_ (.unexpected _)
    exact Solvent.advance.bind fun _ => (Solvent.accept _).bind fun _ => .pure (Nat.zero_le _)

end DeclarationChecker.Declaration
