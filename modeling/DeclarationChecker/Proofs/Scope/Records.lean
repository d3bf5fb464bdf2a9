import DeclarationChecker.Proofs.Scope.Runs

set_option autoImplicit false

namespace DeclarationChecker.ScopeTable

open Text

/-- The attempt completes the first one of its name, which was a forward one, as no attempt between
them did. -/
def Completes (first : Symbol) (between : List Symbol) (symbol : Symbol) : Prop :=
  first.forward = true ∧ symbol.kind = first.kind ∧ symbol.forward = false ∧
    ∀ other ∈ between, other.kind = first.kind → other.forward = true

instance (first : Symbol) (between : List Symbol) (symbol : Symbol) :
    Decidable (Completes first between symbol) :=
  inferInstanceAs (Decidable (_ ∧ _ ∧ _ ∧ _))

/-- What is answered to an attempt, by those made before it in the same scope under the same name. -/
def due (name : String) (symbol : Symbol) : List Symbol → Except Scope.Refusal Symbol
  | [] => .ok symbol
  | first :: more =>
    if Completes first more symbol then
      .ok { kind := first.kind
            declaredAt := first.declaredAt
            forward := false
            returnType := if first.kind = .function then symbol.returnType else first.returnType }
    else .error ⟨.nameConflict name first.declaredAt.line, symbol.declaredAt⟩

def record : List Symbol → Option Symbol
  | [] => none
  | first :: more => some ((more.find? (Scope.completes first)).elim first (Scope.completion first))

def Recalls (ops : List Operation) : List Scope → Prop
  | [] => True
  | s :: below =>
    (∀ name, s.symbols.get? name = record (attempts ops below.length name)) ∧ Recalls ops below

/-! One more attempt in a scope. -/

section

variable {first symbol : Symbol} {more : List Symbol}

theorem record_eq_none_iff {past : List Symbol} : record past = none ↔ past = [] := by
  cases past <;> simp [record]

theorem completes_iff {earlier later : Symbol} : Scope.completes earlier later = true ↔
    earlier.forward = true ∧ later.kind = earlier.kind ∧ later.forward = false := by
  simp [Scope.completes, and_assoc, eq_comm (a := earlier.kind)]

/-- Nothing else can be completed, and nothing twice. -/
theorem completes_iff_find : Completes first more symbol ↔
    Scope.completes first symbol = true ∧ more.find? (Scope.completes first) = none := by
  simp only [Completes, completes_iff, List.find?_eq_none]
  constructor
  · rintro ⟨forward, kind, full, between⟩
    exact ⟨⟨forward, kind, full⟩, fun other mem h => by simp [between other mem h.2.1] at h⟩
  · rintro ⟨⟨forward, kind, full⟩, none⟩
    refine ⟨forward, kind, full, fun other mem same => ?_⟩
    by_contra h
    exact none other mem ⟨forward, same, by simpa using h⟩

theorem completes_record {earlier : Symbol} (h : record (first :: more) = some earlier) :
    Scope.completes earlier symbol = true ↔ Completes first more symbol := by
  rw [completes_iff_find]
  cases found : more.find? (Scope.completes first) with
  | none =>
    simp only [record, found, Option.elim_none, Option.some.injEq] at h
    simp [h]
  | some other =>
    simp only [record, found, Option.elim_some, Option.some.injEq] at h
    simp [← h, Scope.completes, Scope.completion]

theorem declaredAt_record {earlier : Symbol} (h : record (first :: more) = some earlier) :
    earlier.declaredAt = first.declaredAt := by
  simp only [record, Option.some.injEq] at h
  rw [← h]
  cases more.find? (Scope.completes first) <;> rfl

theorem record_completed (h : Completes first more symbol) :
    record (first :: more) = some first ∧
      record (first :: more ++ [symbol]) = some (Scope.completion first symbol) := by
  obtain ⟨completes, none⟩ := completes_iff_find.1 h
  simp [record, List.find?_append, none, completes]

theorem record_refused (h : ¬ Completes first more symbol) :
    record (first :: more ++ [symbol]) = record (first :: more) := by
  rw [completes_iff_find] at h
  cases found : more.find? (Scope.completes first) with
  | none => simp_all [record, List.find?_append]
  | some other => simp [record, List.find?_append, found]

theorem due_completed (name : String) (h : Completes first more symbol) :
    due name symbol (first :: more) = .ok (Scope.completion first symbol) := by
  simp [due, h, Scope.completion, h.2.1]

end

theorem declare_due {s : Scope} {name : String} {past : List Symbol} (symbol : Symbol)
    (h : s.symbols.get? name = record past) :
    (∃ d, s.declare name symbol = .ok d ∧ due name symbol past = .ok d.symbol ∧
      record (past ++ [symbol]) = some d.symbol ∧ d.scope = s.put name d.symbol) ∨
    ∃ refusal, s.declare name symbol = .error refusal ∧ due name symbol past = .error refusal ∧
      record (past ++ [symbol]) = record past := by
  cases past with
  | nil =>
    have absent : s.symbols.get? name = none := h
    exact .inl ⟨⟨s.put name symbol, symbol, false⟩, by simp [Scope.declare, absent], rfl, rfl, rfl⟩
  | cons first more =>
    by_cases completing : Completes first more symbol
    · obtain ⟨before, behind⟩ := record_completed completing
      have waits := (completes_record before).2 completing
      rw [before] at h
      exact .inl ⟨⟨s.put name (Scope.completion first symbol), Scope.completion first symbol, true⟩,
        by simp [Scope.declare, h, waits], due_completed name completing, behind, rfl⟩
    · obtain ⟨earlier, known⟩ : ∃ earlier, record (first :: more) = some earlier := ⟨_, rfl⟩
      have stays : ¬ Scope.completes earlier symbol = true := mt (completes_record known).1 completing
      rw [known] at h
      refine .inr ⟨⟨.nameConflict name first.declaredAt.line, symbol.declaredAt⟩, ?_, ?_,
        record_refused completing⟩
      · simp [Scope.declare, h, stays, declaredAt_record known]
      · simp [due, completing]

/-! From one operation to the next, for all open scopes. -/

section

variable {ops : List Operation} {op : Operation} {depth : Nat} {name : String}

theorem attempts_of_depth_lt (h : (after ops).depth < depth) : attempts ops depth name = [] := by
  induction ops using List.reverseRecOn with
  | nil => rfl
  | append_singleton ops op ih => rw [attempts_concat, if_neg (by omega)]

/-- Nothing is attempted in a scope that the last operation did not find innermost. -/
theorem attempts_concat_other (stays : depth ≤ (after (ops ++ [op])).depth)
    (h : (after ops).depth = depth → op.declaredAs? name = none) :
    attempts (ops ++ [op]) depth name = attempts ops depth name := by
  rw [attempts_concat, if_pos stays]
  split_ifs with here
  · simp [h here]
  · simp

theorem attempts_declared {symbol : Symbol} (declared : op.declared? = some (name, symbol))
    (other : String) : attempts (ops ++ [op]) (after ops).depth other =
      attempts ops (after ops).depth other ++ if name = other then [symbol] else [] := by
  rw [attempts_concat, after_concat, depth_of_declared declared, if_pos (Nat.le_refl _), if_pos rfl,
    declaredAs?_of_declared declared]
  split_ifs <;> rfl

/-- Scopes that stay open hold what they are to hold, if nothing is attempted in them. -/
theorem Recalls.concat {scopes : List Scope} (h : Recalls ops scopes) (op : Operation)
    (stay : scopes.length ≤ (after (ops ++ [op])).depth + 1)
    (idle : (after ops).depth < scopes.length → op.declared? = none) :
    Recalls (ops ++ [op]) scopes := by
  induction scopes with
  | nil => trivial
  | cons s below ih =>
    simp only [List.length_cons] at stay idle
    -- The scopes below are not the innermost one: what is ruled out for all is ruled out for them.
    refine ⟨fun name => ?_, ih h.2 (by omega) fun inside => idle (by omega)⟩
    rw [h.1, attempts_concat_other (by omega)]
    exact fun here => declaredAs?_eq_none (idle (by omega)) name

end

theorem get?_put (s : Scope) (name other : String) (symbol : Symbol) :
    (s.put name symbol).symbols.get? other =
      if other = name then some symbol else s.symbols.get? other :=
  Dictionary.get?_insert s.symbols name other symbol

namespace Recalls

variable {ops : List Operation}

theorem declared {op : Operation} {name : String} {symbol : Symbol}
    (h : Recalls ops (after ops).scopes) (declared : op.declared? = some (name, symbol)) :
    Recalls (ops ++ [op]) (after (ops ++ [op])).scopes := by
  have step := after_concat ops op
  have same_depth : (after (ops ++ [op])).depth = (after ops).depth := by
    rw [step, depth_of_declared declared]
  have enclosing : Recalls (ops ++ [op]) (after ops).enclosing :=
    h.2.concat op (by rw [same_depth]; exact Nat.le_succ _) fun inside => absurd inside (Nat.lt_irrefl _)
  rw [perform_declared declared] at step
  rcases declare_due symbol (h.1 name) with
    ⟨d, accepted, -, known, e⟩ | ⟨refusal, refused, -, known⟩
  · rw [step, declare, accepted]
    refine ⟨fun other => ?_, enclosing⟩
    change d.scope.symbols.get? other = record (attempts _ (after ops).depth other)
    rw [e, get?_put, attempts_declared declared]
    -- The record is replaced under this name only, and only under it has there been an attempt.
    by_cases same : other = name
    · rw [if_pos same, if_pos same.symm, same]
      exact known.symm
    · rw [if_neg same, if_neg (Ne.symm same), List.append_nil]
      exact h.1 other
  · rw [step, declare, refused]
    refine ⟨fun other => ?_, enclosing⟩
    change (after ops).current.symbols.get? other = record (attempts _ (after ops).depth other)
    rw [h.1 other, attempts_declared declared]
    by_cases same : other = name
    · rw [if_pos same.symm, same]
      exact known.symm
    · rw [if_neg (Ne.symm same), List.append_nil]
      rfl

theorem unchanged {op : Operation} (h : Recalls ops (after ops).scopes)
    (same : after (ops ++ [op]) = after ops) (undeclared : op.declared? = none) :
    Recalls (ops ++ [op]) (after (ops ++ [op])).scopes := by
  have kept := h.concat op (by rw [same]; exact Nat.le_refl _) fun _ => undeclared
  rwa [same]

theorem enter (h : Recalls ops (after ops).scopes) (label : String) :
    Recalls (ops ++ [.enter label]) (after (ops ++ [.enter label])).scopes := by
  have step := after_concat ops (.enter label)
  have deeper : (after (ops ++ [.enter label])).depth = (after ops).depth + 1 := by
    rw [step]
    rfl
  have kept := h.concat (.enter label) (by rw [deeper]; exact Nat.le_succ _) fun _ => rfl
  rw [step]
  refine ⟨fun name => ?_, kept⟩
  change none = record (attempts _ ((after ops).depth + 1) name)
  rw [attempts_concat_other (by omega) (by omega), attempts_of_depth_lt (by omega)]
  rfl

theorem exit (h : Recalls ops (after ops).scopes) :
    Recalls (ops ++ [.exit]) (after (ops ++ [.exit])).scopes := by
  have step : after (ops ++ [.exit]) = (after ops).exit := after_concat ops .exit
  cases inner : (after ops).enclosing with
  | nil => exact h.unchanged (step.trans (exit_of_depth (congrArg List.length inner))) rfl
  | cons outer rest =>
    have left : (after (ops ++ [.exit])).scopes = (after ops).enclosing := by
      rw [step, ScopeTable.exit, inner]
      rfl
    rw [left]
    refine h.2.concat .exit ?_ fun _ => rfl
    rw [← left]
    exact Nat.le_refl _

end Recalls

theorem after_recalls (ops : List Operation) : Recalls ops (after ops).scopes := by
  induction ops using List.reverseRecOn with
  | nil => exact ⟨fun _ => rfl, trivial⟩
  | append_singleton ops op ih =>
    rcases perform_cases (after ops) op with
      ⟨name, symbol, declared⟩ | ⟨undeclared, ⟨label, rfl⟩ | rfl | same⟩
    · exact ih.declared declared
    · exact ih.enter label
    · exact ih.exit
    · exact ih.unchanged ((after_concat ops op).trans same) undeclared

/-- What is answered to the next attempt, and what the scope holds after an answer. -/
theorem perform_due (ops : List Operation) {op : Operation} {name : String} {symbol : Symbol}
    (declared : op.declared? = some (name, symbol)) :
    ((after ops).perform op).answer =
      (due name symbol (attempts ops (after ops).depth name)).map some ∧
    ∀ answered, ((after ops).perform op).answer = .ok (some answered) →
      ((after ops).perform op).table.current.symbols.get? name = some answered := by
  rw [perform_declared declared, declare]
  rcases declare_due symbol ((after_recalls ops).1 name) with
    ⟨d, accepted, answer, -, e⟩ | ⟨refusal, refused, answer, -⟩
  · change due name symbol (attempts ops (after ops).depth name) = _ at answer
    rw [accepted, answer]
    refine ⟨rfl, fun answered h => ?_⟩
    cases h
    change d.scope.symbols.get? name = some d.symbol
    rw [e, get?_put, if_pos rfl]
  · change due name symbol (attempts ops (after ops).depth name) = _ at answer
    rw [refused, answer]
    exact ⟨rfl, fun answered h => nomatch h⟩

/-- A list of parameters is refused just if a name repeats, for the first parameter that is named like
one before it. -/
theorem checkParameters_eq_error_iff {parameters : List (String × Position)}
    {refusal : Scope.Refusal} : Scope.checkParameters parameters = .error refusal ↔
      ∃ before name position behind, parameters = before ++ (name, position) :: behind ∧
        (before.map Prod.fst).Nodup ∧ name ∈ before.map Prod.fst ∧
        refusal = ⟨.duplicateParameter name, position⟩ := by
  unfold Scope.checkParameters
  cases found : Repetition.first? Prod.fst parameters with
  | none =>
    rw [Repetition.first?_eq_none_iff] at found
    simp only [reduceCtorEq, false_iff]
    rintro ⟨before, name, position, behind, rfl, -, repeated, -⟩
    simp only [List.map_append, List.map_cons, List.nodup_append] at found
    exact found.2.2 name repeated name List.mem_cons_self rfl
  | some p =>
    obtain ⟨name, position⟩ := p
    obtain ⟨before, behind, rfl, distinct, repeated⟩ := Repetition.first?_eq_some_iff.1 found
    simp only [Except.error.injEq]
    constructor
    · rintro rfl
      exact ⟨before, name, position, behind, rfl, distinct, repeated, rfl⟩
    · rintro ⟨before', name', position', behind', e, distinct', repeated', rfl⟩
      have found' := Repetition.first?_eq_some_iff.2 ⟨before', behind', e, distinct', repeated'⟩
      rw [found] at found'
      cases found'
      rfl

/-- An attempt to declare a name is answered by those that were made before it under that name while
the same scope was the innermost one, and the scope then holds what was answered. A list of
parameters is refused just if a name repeats, and whatever is refused leaves all scopes alone. -/
theorem attempts_answered (ops : List Operation) :
    (∀ op name symbol, op.declared? = some (name, symbol) →
      ((after ops).perform op).answer =
        (due name symbol (attempts ops (after ops).depth name)).map some ∧
      ∀ answered, ((after ops).perform op).answer = .ok (some answered) →
        ((after ops).perform op).table.current.symbols.get? name = some answered) ∧
    (∀ parameters refusal,
      ((after ops).perform (.checkParameters parameters)).answer = .error refusal ↔
        ∃ before name position behind, parameters = before ++ (name, position) :: behind ∧
          (before.map Prod.fst).Nodup ∧ name ∈ before.map Prod.fst ∧
          refusal = ⟨.duplicateParameter name, position⟩) ∧
    ∀ op refusal, ((after ops).perform op).answer = .error refusal →
      ((after ops).perform op).table = after ops := by
  refine ⟨fun op name symbol => perform_due ops, fun parameters refusal => ?_,
    fun op refusal => table_of_refused⟩
  rw [← checkParameters_eq_error_iff]
  change (Scope.checkParameters parameters).map _ = _ ↔ _
  cases Scope.checkParameters parameters <;> simp [Except.map]

/-- A forward function is completed behind a scope of its own, in which its name was used again, and
behind a refused procedure of that name. -/
theorem attempts_answered_completion :
    let ops : List Operation :=
      [.declareFunction "f" "integer" ⟨1, 10⟩ true, .enter "f", .declareVariable "f" ⟨2, 5⟩, .exit,
        .declareProcedure "f" ⟨3, 11⟩ false]
    let op : Operation := .declareFunction "f" "real" ⟨4, 10⟩ false
    op.declared? = some ("f", ⟨.function, ⟨4, 10⟩, false, some "real"⟩) ∧
      attempts ops 0 "f" =
        [⟨.function, ⟨1, 10⟩, true, some "integer"⟩, ⟨.procedure, ⟨3, 11⟩, false, none⟩] ∧
      ((after ops).perform op).answer = .ok (some ⟨.function, ⟨1, 10⟩, false, some "real"⟩) ∧
      ((after ops).perform op).table.current.symbols.get? "f" =
        some ⟨.function, ⟨1, 10⟩, false, some "real"⟩ := by
  intro ops op
  have declared : op.declared? = some ("f", ⟨.function, ⟨4, 10⟩, false, some "real"⟩) := rfl
  have past : attempts ops (after ops).depth "f" =
      [⟨.function, ⟨1, 10⟩, true, some "integer"⟩, ⟨.procedure, ⟨3, 11⟩, false, none⟩] := by
    decide +kernel
  obtain ⟨answer, held⟩ := (attempts_answered ops).1 op "f" _ declared
  rw [past] at answer
  exact ⟨declared, past, answer, held _ answer⟩

end DeclarationChecker.ScopeTable
