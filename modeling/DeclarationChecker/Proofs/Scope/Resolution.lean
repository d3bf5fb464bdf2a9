import DeclarationChecker.Proofs.Scope.Records

set_option autoImplicit false

namespace DeclarationChecker.ScopeTable

def scopeAt? (t : ScopeTable) (depth : Nat) : Option Scope := t.scopes.reverse[depth]?

/-- The name has been declared in the scope that is open at the depth, since that was entered. -/
def IsDeclared (ops : List Operation) (name : String) (depth : Nat) : Prop :=
  ∃ moment op symbol answered, Innermost ops depth moment ∧ ops[moment]? = some op ∧
    op.declared? = some (name, symbol) ∧
    ((after (ops.take moment)).perform op).answer = .ok (some answered)

/-- Operations behind others that end at the depth at which they start, never go below it, and declare
nothing at it. Attempts that are refused may be among them. -/
structure Detour (ops segment : List Operation) : Prop where
  returns : (after (ops ++ segment)).depth = (after ops).depth
  stays : ∀ n ≤ segment.length, (after ops).depth ≤ (after (ops ++ segment.take n)).depth
  refused : ∀ n op name symbol, segment[n]? = some op → op.declared? = some (name, symbol) →
    (after (ops ++ segment.take n)).depth = (after ops).depth →
    ∃ refusal, ((after (ops ++ segment.take n)).perform op).answer = .error refusal

/-! Looking up a name. -/

section

variable {ops : List Operation} {name : String} {depth : Nat}

theorem IsDeclared.concat {op : Operation} (h : IsDeclared ops name depth)
    (stays : depth ≤ (after (ops ++ [op])).depth) : IsDeclared (ops ++ [op]) name depth := by
  obtain ⟨moment, earlier, symbol, answered, innermost, here, declared, answer⟩ := h
  obtain ⟨inside, -⟩ := List.getElem?_eq_some_iff.1 here
  refine ⟨moment, earlier, symbol, answered,
    (innermost_concat (Nat.le_of_lt inside)).2 ⟨innermost, stays⟩, ?_, declared, ?_⟩
  · rwa [List.getElem?_append_left inside]
  · rwa [take_concat (Nat.le_of_lt inside)]

theorem isDeclared_of_attempts (h : attempts ops depth name ≠ []) : IsDeclared ops name depth := by
  induction ops using List.reverseRecOn with
  | nil => exact absurd rfl h
  | append_singleton ops op ih =>
    rw [attempts_concat] at h
    split_ifs at h with stays here
    · by_cases before : attempts ops depth name = []
      · -- The last operation is the first attempt, which is always accepted.
        rw [before, List.nil_append, Ne, Option.toList_eq_nil_iff] at h
        obtain ⟨symbol, as_⟩ := Option.ne_none_iff_exists'.1 h
        have declared := declared?_of_declaredAs? as_
        have answer := (perform_due ops declared).1
        rw [here, before] at answer
        refine ⟨ops.length, op, symbol, symbol, ?_, by simp, declared, ?_⟩
        · exact (innermost_concat (Nat.le_refl _)).2 ⟨innermost_length.2 here, stays⟩
        · rw [List.take_left]
          exact answer
      · exact (ih before).concat stays
    · rw [List.append_nil] at h
      exact (ih h).concat stays
    · exact absurd rfl h

theorem isDeclared_iff : IsDeclared ops name depth ↔ attempts ops depth name ≠ [] := by
  refine ⟨?_, isDeclared_of_attempts⟩
  rintro ⟨moment, op, symbol, answered, innermost, here, declared, -⟩
  have counted : symbol ∈ attempts ops depth name :=
    List.mem_filterMap.2 ⟨(op, moment), List.mem_zipIdx_iff_getElem?.2 here, by
      simp [innermost, declaredAs?_of_declared declared]⟩
  exact List.ne_nil_of_mem counted

theorem IsDeclared.depth_le (h : IsDeclared ops name depth) : depth ≤ (after ops).depth := by
  by_contra deep
  exact isDeclared_iff.1 h (attempts_of_depth_lt (by omega))

/-- A search from the innermost scope outwards stops at the first one that has the name. -/
theorem Recalls.findSome? {scopes : List Scope} (h : Recalls ops scopes) :
    (∃ depth s symbol, attempts ops depth name ≠ [] ∧
      (∀ inner < scopes.length, depth < inner → attempts ops inner name = []) ∧
      scopes.reverse[depth]? = some s ∧ s.symbols.get? name = some symbol ∧
      scopes.findSome? (fun s => s.symbols.get? name) = some symbol) ∨
    (∀ depth < scopes.length, attempts ops depth name = []) ∧
      scopes.findSome? (fun s => s.symbols.get? name) = none := by
  induction scopes with
  | nil => exact .inr ⟨nofun, rfl⟩
  | cons s below ih =>
    cases held : s.symbols.get? name with
    | some symbol =>
      refine .inl ⟨below.length, s, symbol, ?_, ?_, by simp, held, by simp [held]⟩
      · rw [Ne, ← record_eq_none_iff, ← h.1, held]
        exact Option.some_ne_none symbol
      · intro inner inside deeper
        simp only [List.length_cons] at inside
        omega
    | none =>
      have silent : attempts ops below.length name = [] :=
        record_eq_none_iff.1 ((h.1 name).symm.trans held)
      have next : (s :: below).findSome? (fun s => s.symbols.get? name) =
          below.findSome? fun s => s.symbols.get? name := by simp [held]
      rw [next]
      rcases ih h.2 with ⟨depth, outer, symbol, tried, deeper, at_, has, found⟩ | ⟨untried, found⟩
      · refine .inl ⟨depth, outer, symbol, tried, fun inner inside above => ?_, ?_, has, found⟩
        · rcases Nat.lt_succ_iff_lt_or_eq.1 inside with further | rfl
          · exact deeper inner further above
          · exact silent
        · obtain ⟨inside, -⟩ := List.getElem?_eq_some_iff.1 at_
          rwa [List.reverse_cons, List.getElem?_append_left inside]
      · refine .inr ⟨fun depth inside => ?_, found⟩
        rcases Nat.lt_succ_iff_lt_or_eq.1 inside with further | rfl
        · exact untried depth further
        · exact silent

theorem lookup_cases (ops : List Operation) (name : String) :
    (∃ depth s symbol, IsDeclared ops name depth ∧
      (∀ inner, depth < inner → ¬ IsDeclared ops name inner) ∧
      (after ops).scopeAt? depth = some s ∧ s.symbols.get? name = some symbol ∧
      (after ops).lookup name = some symbol) ∨
    (∀ depth, ¬ IsDeclared ops name depth) ∧ (after ops).lookup name = none := by
  rcases (after_recalls ops).findSome? with
    ⟨depth, s, symbol, tried, deeper, at_, has, found⟩ | ⟨untried, found⟩
  · refine .inl ⟨depth, s, symbol, isDeclared_iff.2 tried, fun inner above h => ?_, at_, has, found⟩
    exact isDeclared_iff.1 h (deeper inner (Nat.lt_succ_of_le h.depth_le) above)
  · exact .inr ⟨fun depth h =>
      isDeclared_iff.1 h (untried depth (Nat.lt_succ_of_le h.depth_le)), found⟩

end

/-! Detours. -/

section

variable {t : ScopeTable} {op : Operation} {outer : List Scope}

theorem suffix_perform (h : outer <:+ t.scopes)
    (stays : outer.length ≤ (t.perform op).table.scopes.length)
    (refused : ∀ name symbol, op.declared? = some (name, symbol) →
      outer.length = t.scopes.length → ∃ refusal, (t.perform op).answer = .error refusal) :
    outer <:+ (t.perform op).table.scopes := by
  rcases perform_cases t op with ⟨name, symbol, declared⟩ | ⟨-, ⟨label, rfl⟩ | rfl | same⟩
  · rcases List.suffix_cons_iff.1 h with whole | further
    · obtain ⟨refusal, answer⟩ := refused name symbol declared (congrArg List.length whole)
      rwa [table_of_refused answer]
    · rw [perform_declared declared]
      rcases answering_declare t name symbol with ⟨d, -, e⟩ | ⟨refusal, -, e⟩
      · rw [e]
        exact further.trans (List.suffix_cons _ _)
      · rwa [e]
  · exact h.trans (List.suffix_cons _ _)
  · obtain ⟨current, enclosing⟩ := t
    cases enclosing with
    | nil => exact h
    | cons next rest =>
      rcases List.suffix_cons_iff.1 h with whole | further
      · -- All of them are to stay open, so the innermost is not the one that is left.
        have lengths : outer.length = rest.length + 2 := congrArg List.length whole
        change outer.length ≤ rest.length + 1 at stays
        omega
      · exact further
  · rwa [same]

end

section

variable {ops segment : List Operation}

theorem after_take_succ {n : Nat} {op : Operation} (here : segment[n]? = some op) :
    after (ops ++ segment.take (n + 1)) = ((after (ops ++ segment.take n)).perform op).table := by
  rw [List.take_add_one, here, ← List.append_assoc]
  exact after_concat _ op

namespace Detour

theorem suffix (h : Detour ops segment) {n : Nat} (inside : n ≤ segment.length) :
    (after ops).scopes <:+ (after (ops ++ segment.take n)).scopes := by
  induction n with
  | zero => simp
  | succ n ih =>
    have here : segment[n]? = some segment[n] := List.getElem?_eq_getElem inside
    have stays := h.stays (n + 1) inside
    rw [after_take_succ here] at stays ⊢
    refine suffix_perform (ih (Nat.le_of_lt inside)) (Nat.succ_le_succ stays) ?_
    intro name symbol declared e
    exact h.refused n _ name symbol here declared (Nat.succ.inj e).symm

theorem after_eq (h : Detour ops segment) : after (ops ++ segment) = after ops := by
  have suffix := h.suffix (Nat.le_refl _)
  rw [List.take_length] at suffix
  refine eq_of_scopes (suffix.eq_of_length ?_).symm
  rw [length_scopes, length_scopes, h.returns]

end Detour

end

/-- A name stands for the record that the innermost open scope holds of those in which it has been
declared since they were entered, and for nothing if there is none. Operations that come back to the
depth they start from, and on the way neither go below it nor declare anything at it, change no scope
that was open and no answer. Leaving the outermost scope changes nothing. -/
theorem lookup_resolves (ops : List Operation) :
    (∀ name,
      (∃ depth s symbol, IsDeclared ops name depth ∧
        (∀ inner, depth < inner → ¬ IsDeclared ops name inner) ∧
        (after ops).scopeAt? depth = some s ∧ s.symbols.get? name = some symbol ∧
        (after ops).lookup name = some symbol) ∨
      (∀ depth, ¬ IsDeclared ops name depth) ∧ (after ops).lookup name = none) ∧
    (∀ segment, Detour ops segment →
      (after (ops ++ segment)).scopes = (after ops).scopes ∧
      ∀ name, (after (ops ++ segment)).lookup name = (after ops).lookup name ∧
        (after (ops ++ segment)).hasLocal name = (after ops).hasLocal name) ∧
    ((after ops).depth = 0 → ((after ops).perform .exit).table = after ops) := by
  refine ⟨lookup_cases ops, fun segment h => ?_, exit_of_depth⟩
  rw [h.after_eq]
  exact ⟨rfl, fun name => ⟨rfl, rfl⟩⟩

/-- A name is used again in an inner scope, and a second declaration is refused behind that. -/
theorem lookup_resolves_shadowed :
    let ops : List Operation :=
      [.declareVariable "a" ⟨1, 5⟩, .enter "p", .declareVariable "b" ⟨2, 7⟩]
    let segment : List Operation :=
      [.enter "q", .declareProcedure "a" ⟨3, 11⟩ false, .exit, .declareVariable "b" ⟨4, 7⟩]
    Detour ops segment ∧ (after (ops ++ segment)).scopes = (after ops).scopes ∧
      (after (ops ++ segment.take 2)).lookup "a" = some ⟨.procedure, ⟨3, 11⟩, false, none⟩ ∧
      (after (ops ++ segment)).lookup "a" = some ⟨.variable, ⟨1, 5⟩, false, none⟩ := by
  intro ops segment
  have detour : Detour ops segment := by
    refine ⟨by decide +kernel, by decide +kernel, fun n op name symbol here declared depth => ?_⟩
    match n with
    | 0 => cases here; cases declared
    | 1 => exact absurd depth (by decide +kernel)
    | 2 => cases here; cases declared
    | 3 => cases here; exact ⟨⟨.nameConflict "b" 2, ⟨4, 7⟩⟩, by decide +kernel⟩
    | n + 4 => cases here
  obtain ⟨same, answers⟩ := (lookup_resolves ops).2.1 segment detour
  have first : (after ops).lookup "a" = some ⟨.variable, ⟨1, 5⟩, false, none⟩ := by decide +kernel
  exact ⟨detour, same, by decide +kernel, (answers "a").1.trans first⟩

end DeclarationChecker.ScopeTable
