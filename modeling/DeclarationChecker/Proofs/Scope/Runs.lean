import Mathlib.Data.List.Basic
import Mathlib.Data.List.Induction
import DeclarationChecker.Scope

set_option autoImplicit false

namespace DeclarationChecker.ScopeTable

open Text

inductive Operation where
  | enter (label : String)
  | exit
  | declareVariable (name : String) (position : Position)
  | declareProcedure (name : String) (position : Position) (forward : Bool)
  | declareFunction (name returnType : String) (position : Position) (forward : Bool)
  | checkParameters (parameters : List (String × Position))
  | lookup (name : String)
  deriving DecidableEq, Repr

namespace Operation

def declared? : Operation → Option (String × Symbol)
  | declareVariable name position => some (name, ⟨.variable, position, false, none⟩)
  | declareProcedure name position forward => some (name, ⟨.procedure, position, forward, none⟩)
  | declareFunction name returnType position forward =>
    some (name, ⟨.function, position, forward, some returnType⟩)
  | _ => none

def declaredAs? (op : Operation) (name : String) : Option Symbol :=
  op.declared?.bind fun d => if d.1 = name then some d.2 else none

end Operation

structure Step where
  answer : Except Scope.Refusal (Option Symbol)
  table : ScopeTable
  deriving Repr

def answering (t : ScopeTable) : Except Scope.Refusal Declared → Step
  | .ok d => ⟨.ok (some d.symbol), d.table⟩
  | .error refusal => ⟨.error refusal, t⟩

def perform (t : ScopeTable) : Operation → Step
  | .enter label => ⟨.ok none, t.enter label⟩
  | .exit => ⟨.ok none, t.exit⟩
  | .declareVariable name position => t.answering (t.declareVariable name position)
  | .declareProcedure name position forward =>
    t.answering (t.declareProcedure name position forward)
  | .declareFunction name returnType position forward =>
    t.answering (t.declareFunction name returnType position forward)
  | .checkParameters parameters => ⟨(Scope.checkParameters parameters).map fun _ => none, t⟩
  | .lookup name => ⟨.ok (t.lookup name), t⟩

def after (ops : List Operation) : ScopeTable :=
  ops.foldl (fun t op => (t.perform op).table) .initial

def scopes (t : ScopeTable) : List Scope := t.current :: t.enclosing

/-- The scope that is open at the depth in the end was the innermost one at the moment, so many
operations into the run. -/
def Innermost (ops : List Operation) (depth moment : Nat) : Prop :=
  (after (ops.take moment)).depth = depth ∧
    ∀ later ≤ ops.length, moment ≤ later → depth ≤ (after (ops.take later)).depth

instance (ops : List Operation) (depth moment : Nat) : Decidable (Innermost ops depth moment) :=
  inferInstanceAs (Decidable (_ ∧ _))

/-- What the name was attempted to be declared as, in order, while the scope that is open at the
depth in the end was the innermost one. -/
def attempts (ops : List Operation) (depth : Nat) (name : String) : List Symbol :=
  ops.zipIdx.filterMap fun x => if Innermost ops depth x.2 then x.1.declaredAs? name else none

theorem length_scopes (t : ScopeTable) : t.scopes.length = t.depth + 1 := rfl

theorem eq_of_scopes {t u : ScopeTable} (h : t.scopes = u.scopes) : t = u := by
  cases t
  cases u
  cases h
  rfl

/-! What a single operation does. -/

section

variable {t : ScopeTable} {op : Operation} {name : String} {symbol : Symbol}

theorem perform_declared (h : op.declared? = some (name, symbol)) :
    t.perform op = t.answering (t.declare name symbol) := by
  cases op <;> cases h <;> rfl

theorem perform_cases (t : ScopeTable) (op : Operation) :
    (∃ name symbol, op.declared? = some (name, symbol)) ∨
      op.declared? = none ∧
        ((∃ label, op = .enter label) ∨ op = .exit ∨ (t.perform op).table = t) := by
  cases op with
  | enter label => exact .inr ⟨rfl, .inl ⟨label, rfl⟩⟩
  | exit => exact .inr ⟨rfl, .inr (.inl rfl)⟩
  | declareVariable name _ => exact .inl ⟨name, _, rfl⟩
  | declareProcedure name _ _ => exact .inl ⟨name, _, rfl⟩
  | declareFunction name _ _ _ => exact .inl ⟨name, _, rfl⟩
  | checkParameters _ => exact .inr ⟨rfl, .inr (.inr rfl)⟩
  | lookup _ => exact .inr ⟨rfl, .inr (.inr rfl)⟩

theorem declaredAs?_of_declared (h : op.declared? = some (name, symbol)) (other : String) :
    op.declaredAs? other = if name = other then some symbol else none := by
  simp [Operation.declaredAs?, h]

theorem declaredAs?_eq_none (h : op.declared? = none) (other : String) :
    op.declaredAs? other = none := by
  simp [Operation.declaredAs?, h]

theorem declared?_of_declaredAs? (h : op.declaredAs? name = some symbol) :
    op.declared? = some (name, symbol) := by
  simp only [Operation.declaredAs?, Option.bind_eq_some_iff] at h
  obtain ⟨⟨other, s⟩, declared, same⟩ := h
  split at same
  · rename_i e
    cases e
    cases same
    exact declared
  · cases same

theorem answering_declare (t : ScopeTable) (name : String) (symbol : Symbol) :
    (∃ d, t.current.declare name symbol = .ok d ∧
      t.answering (t.declare name symbol) = ⟨.ok (some d.symbol), ⟨d.scope, t.enclosing⟩⟩) ∨
    ∃ refusal, t.current.declare name symbol = .error refusal ∧
      t.answering (t.declare name symbol) = ⟨.error refusal, t⟩ := by
  unfold declare
  cases t.current.declare name symbol with
  | ok d => exact .inl ⟨d, rfl, rfl⟩
  | error refusal => exact .inr ⟨refusal, rfl, rfl⟩

theorem depth_of_declared (h : op.declared? = some (name, symbol)) :
    (t.perform op).table.depth = t.depth := by
  rw [perform_declared h]
  rcases answering_declare t name symbol with ⟨d, -, e⟩ | ⟨refusal, -, e⟩
  · rw [e]
    rfl
  · rw [e]

theorem exit_of_depth (h : t.depth = 0) : t.exit = t := by
  obtain ⟨current, enclosing⟩ := t
  cases enclosing with
  | nil => rfl
  | cons outer rest => cases h

theorem table_of_refused {refusal : Scope.Refusal} (h : (t.perform op).answer = .error refusal) :
    (t.perform op).table = t := by
  rcases perform_cases t op with ⟨name, symbol, declared⟩ | ⟨-, ⟨label, rfl⟩ | rfl | same⟩
  · rw [perform_declared declared] at h ⊢
    rcases answering_declare t name symbol with ⟨d, -, e⟩ | ⟨refusal, -, e⟩
    · rw [e] at h
      cases h
    · rw [e]
  · cases h
  · cases h
  · exact same

end

/-! How what was attempted grows with a run. -/

section

variable {ops : List Operation} {op : Operation} {depth : Nat} {name : String}

theorem after_concat (ops : List Operation) (op : Operation) :
    after (ops ++ [op]) = ((after ops).perform op).table := by
  simp [after]

theorem take_concat {moment : Nat} (h : moment ≤ ops.length) :
    (ops ++ [op]).take moment = ops.take moment :=
  List.take_append_of_le_length h

theorem innermost_concat {moment : Nat} (h : moment ≤ ops.length) :
    Innermost (ops ++ [op]) depth moment ↔
      Innermost ops depth moment ∧ depth ≤ (after (ops ++ [op])).depth := by
  unfold Innermost
  rw [take_concat h, List.length_append, List.length_singleton, and_assoc]
  refine and_congr_right fun _ => ⟨fun stays => ⟨fun later le from_ => ?_, ?_⟩, ?_⟩
  · have at_ := stays later (by omega) from_
    rwa [take_concat le] at at_
  · have at_ := stays (ops.length + 1) (by omega) (by omega)
    rwa [List.take_of_length_le (by simp)] at at_
  · rintro ⟨stays, last⟩ later le from_
    by_cases this : later ≤ ops.length
    · rw [take_concat this]
      exact stays later this from_
    · rw [List.take_of_length_le (by simp; omega)]
      exact last

theorem innermost_length : Innermost ops depth ops.length ↔ (after ops).depth = depth := by
  unfold Innermost
  rw [List.take_length]
  refine ⟨And.left, fun e => ⟨e, fun later le from_ => ?_⟩⟩
  rw [Nat.le_antisymm le from_, List.take_length]
  exact Nat.le_of_eq e.symm

/-- The last operation counts for the scope that was innermost before it, and any scope counts as
long as it stays open. -/
theorem attempts_concat (ops : List Operation) (op : Operation) (depth : Nat) (name : String) :
    attempts (ops ++ [op]) depth name =
      if depth ≤ (after (ops ++ [op])).depth then
        attempts ops depth name ++
          if (after ops).depth = depth then (op.declaredAs? name).toList else []
      else [] := by
  -- An earlier moment counts as it did before, unless its scope has been left by now.
  have earlier : ∀ x ∈ ops.zipIdx,
      (if Innermost (ops ++ [op]) depth x.2 then x.1.declaredAs? name else none) =
        if depth ≤ (after (ops ++ [op])).depth then
          if Innermost ops depth x.2 then x.1.declaredAs? name else none
        else none := by
    intro x mem
    have inside := List.snd_lt_of_mem_zipIdx mem
    simp only [@innermost_concat ops op depth _ (Nat.le_of_lt inside)]
    split_ifs <;> simp_all
  have last : Innermost (ops ++ [op]) depth ops.length ↔
      (after ops).depth = depth ∧ depth ≤ (after (ops ++ [op])).depth := by
    rw [innermost_concat (Nat.le_refl _), innermost_length]
  unfold attempts
  rw [List.zipIdx_append, List.filterMap_append, List.filterMap_congr earlier]
  by_cases stays : depth ≤ (after (ops ++ [op])).depth
  · by_cases here : (after ops).depth = depth
    · cases as_ : op.declaredAs? name <;> simp [stays, last, here, as_]
    · simp [stays, last, here]
  · simp [stays, last]

end

end DeclarationChecker.ScopeTable
