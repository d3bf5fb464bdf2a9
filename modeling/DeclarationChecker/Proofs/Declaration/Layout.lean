import Mathlib.Data.List.Forall2
import Mathlib.Data.List.NodupEquivFin
import Mathlib.Logic.Function.Basic
import DeclarationChecker.Proofs.Declaration.DeclaredNames
import DeclarationChecker.Proofs.Declaration.Places
import DeclarationChecker.Proofs.Declaration.Relocation

set_option autoImplicit false

namespace DeclarationChecker

open Text

structure Token.Alike (t t' : Token) : Prop where
  kind : t'.kind = t.kind
  text : t'.text = t.text

namespace Dictionary

variable {α β : Type}

theorem map_insertEntry (f : α → β) (name : String) (value : α) (entries : List (String × α)) :
    (insertEntry name value entries).map (fun entry => (entry.1, f entry.2)) =
      insertEntry name (f value) (entries.map fun entry => (entry.1, f entry.2)) := by
  induction entries with
  | nil => rfl
  | cons entry rest ih =>
    obtain ⟨key, old⟩ := entry
    rw [List.map_cons, insertEntry, insertEntry]
    split
    · rfl
    · rw [List.map_cons, ih]

theorem map_insert (f : α → β) (d : Dictionary String α) (name : String) (value : α) :
    (d.insert name value).map f = (d.map f).insert name (f value) := by
  unfold map insert
  simp only [map_insertEntry]

end Dictionary

theorem Repetition.firstAfter_map {α β : Type} [DecidableEq β] {key : α → β} (f : α → α)
    (same : ∀ x, key (f x) = key x) (seen : List β) (xs : List α) :
    firstAfter key seen (xs.map f) = (firstAfter key seen xs).map f := by
  induction xs generalizing seen with
  | nil => rfl
  | cons x rest ih =>
    rw [List.map_cons, firstAfter, firstAfter, same]
    split
    · rfl
    · exact ih _

namespace Declaration

open Token

namespace Relocation

variable (m : Relocation)

def symbol (s : Symbol) : Symbol := { s with declaredAt := m.place s.declaredAt }

def scope (s : Scope) : Scope := ⟨s.label, s.symbols.map m.symbol⟩

def table (scopes : ScopeTable) : ScopeTable :=
  ⟨m.scope scopes.current, scopes.enclosing.map m.scope⟩

theorem get?_scope (s : Scope) (name : String) :
    (m.scope s).symbols.get? name = (s.symbols.get? name).map m.symbol :=
  Dictionary.get?_map m.symbol s.symbols name

theorem put_scope (s : Scope) (name : String) (symbol : Symbol) :
    (m.scope s).put name (m.symbol symbol) = m.scope (s.put name symbol) := by
  unfold scope Scope.put
  rw [Dictionary.map_insert]

theorem put_table (scopes : ScopeTable) (name : String) (symbol : Symbol) :
    (m.table scopes).put name (m.symbol symbol) = m.table (scopes.put name symbol) := by
  unfold table ScopeTable.put
  rw [← m.put_scope]

end Relocation

/-- Every name in an open scope is the spelling of one of the tokens, and declared where that stands. -/
def Known (names : List Token) (scopes : ScopeTable) : Prop :=
  ∀ s ∈ scopes.current :: scopes.enclosing, ∀ name symbol, s.symbols.get? name = some symbol →
    ∃ t ∈ names, t.text = name ∧ symbol.declaredAt = t.position

namespace Known

variable {names more : List Token} {scopes : ScopeTable}

theorem initial : Known [] .initial := by
  intro s mem name symbol found
  rw [List.mem_singleton.1 mem] at found
  cases found

theorem mono (h : Known names scopes) (sub : names ⊆ more) : Known more scopes := by
  intro s mem name symbol found
  obtain ⟨t, mem', e⟩ := h s mem name symbol found
  exact ⟨t, sub mem', e⟩

theorem enter (h : Known names scopes) (label : String) : Known names (scopes.enter label) := by
  refine List.forall_mem_cons.2 ⟨fun name symbol found => ?_, h⟩
  cases found

theorem exit (h : Known names scopes) : Known names scopes.exit := by
  obtain ⟨current, enclosing⟩ := scopes
  cases enclosing with
  | nil => exact h
  | cons outer rest => exact (List.forall_mem_cons.1 h).2

theorem put (h : Known names scopes) {name : String} {symbol : Symbol}
    (stands : ∃ t ∈ names, t.text = name ∧ symbol.declaredAt = t.position) :
    Known names (scopes.put name symbol) := by
  obtain ⟨current, enclosing⟩ := List.forall_mem_cons.1 h
  refine List.forall_mem_cons.2 ⟨fun other found' found => ?_, enclosing⟩
  change (scopes.current.symbols.insert name symbol).get? other = some found' at found
  rw [Dictionary.get?_insert] at found
  split at found
  · rename_i same
    cases found
    exact same ▸ stands
  · exact current other found' found

end Known

/-- Diagnostics that differ by the places only. The line in a name conflict is that of a token which
is declared before. -/
inductive Moved (m : Relocation) (names : List Token) : Diagnostic → Diagnostic → Prop
  | conflict {earlier name : Token} (order : [earlier, name].Sublist names)
      (same : earlier.text = name.text) :
      Moved m names
        ⟨.refused (.nameConflict name.text earlier.position.line), name.position⟩
        ⟨.refused (.nameConflict name.text (m.place earlier.position).line), m.place name.position⟩
  | other {cause cause' : Diagnostic.Cause} {position : Position}
      (noConflict : ∀ name line, cause ≠ .refused (.nameConflict name line))
      (kind : cause'.kind = cause.kind) (message : cause'.message = cause.message) :
      Moved m names ⟨cause, position⟩ ⟨cause', m.place position⟩

theorem Moved.mono {m : Relocation} {names more : List Token} (sub : names.Sublist more)
    {d d' : Diagnostic} (h : Moved m names d d') : Moved m more d d' := by
  cases h with
  | conflict order same => exact .conflict (order.trans sub) same
  | other noConflict kind message => exact .other noConflict kind message

structure Moves (m : Relocation) (names : List Token) (before after : Findings) : Prop where
  scopes : after.scopes = m.table before.scopes
  known : Known names before.scopes
  diagnostics : List.Forall₂ (Moved m names) before.diagnostics after.diagnostics

namespace Moves

variable {m : Relocation} {names : List Token} {scopes : ScopeTable}

theorem quiet {notes notes' : List Note} (known : Known names scopes) :
    Moves m names ⟨scopes, [], notes⟩ ⟨m.table scopes, [], notes'⟩ :=
  ⟨rfl, known, .nil⟩

theorem diagnose {cause cause' : Diagnostic.Cause} {notes notes' : List Note} (known : Known names scopes)
    (position : Position) (noConflict : ∀ name line, cause ≠ .refused (.nameConflict name line))
    (kind : cause'.kind = cause.kind) (message : cause'.message = cause.message) :
    Moves m names ⟨scopes, [⟨cause, position⟩], notes⟩
      ⟨m.table scopes, [⟨cause', m.place position⟩], notes'⟩ :=
  ⟨rfl, known, .cons (.other noConflict kind message) .nil⟩

theorem of_ite {cause : Diagnostic.Cause} (c : Bool) (known : Known names scopes) (position : Position)
    (noConflict : ∀ name line, cause ≠ .refused (.nameConflict name line)) :
    Moves m names (if c = true then .quiet scopes else .diagnose scopes cause position)
      (if c = true then .quiet (m.table scopes)
        else .diagnose (m.table scopes) cause (m.place position)) := by
  cases c with
  | true => exact .quiet known
  | false => exact .diagnose known position noConflict rfl rfl

theorem ofDeclared (known : Known names scopes) {t : Token} {symbol : Symbol}
    (place : symbol.declaredAt = t.position) :
    Moves m (names ++ [t]) (.ofDeclared scopes t.text (scopes.declare t.text symbol))
      (.ofDeclared (m.table scopes) t.text ((m.table scopes).declare t.text (m.symbol symbol))) := by
  have known' : Known (names ++ [t]) scopes := known.mono (List.subset_append_left _ _)
  have moved : (m.table scopes).current.symbols.get? t.text =
      (scopes.current.symbols.get? t.text).map m.symbol := m.get?_scope _ _
  unfold ScopeTable.declare Scope.declare
  rw [moved]
  cases found : scopes.current.symbols.get? t.text with
  | none =>
    have stands : ∃ u ∈ names ++ [t], u.text = t.text ∧ symbol.declaredAt = u.position :=
      ⟨t, List.mem_append_right _ List.mem_cons_self, rfl, place⟩
    exact ⟨m.put_table scopes t.text symbol, known'.put stands, .nil⟩
  | some earlier =>
    -- The symbol in the way stands where one of the names does, and so goes to where that goes.
    obtain ⟨u, declared, text, stands⟩ := known _ List.mem_cons_self _ _ found
    have same : Scope.completes (m.symbol earlier) (m.symbol symbol) = Scope.completes earlier symbol := rfl
    dsimp only [Option.map]
    rw [same]
    cases Scope.completes earlier symbol with
    | true =>
      have completed : ∃ u ∈ names ++ [t], u.text = t.text ∧
          (Scope.completion earlier symbol).declaredAt = u.position :=
        ⟨u, List.mem_append_left _ declared, text, stands⟩
      exact ⟨m.put_table scopes t.text (Scope.completion earlier symbol), known'.put completed, .nil⟩
    | false =>
      have order : [u, t].Sublist (names ++ [t]) :=
        (List.singleton_sublist.2 declared).append (List.Sublist.refl [t])
      have conflict := Moved.conflict (m := m) order text
      rw [← stands, ← place] at conflict
      exact ⟨rfl, known', .cons conflict .nil⟩

theorem ofParameters (known : Known names scopes) (parameters : List Token) :
    Moves m names
      (.ofParameters scopes (Scope.checkParameters (parameters.map fun t => (t.text, t.position))))
      (.ofParameters (m.table scopes) (Scope.checkParameters
        ((parameters.map m.token).map fun t => (t.text, t.position)))) := by
  have moved : (parameters.map m.token).map (fun t => (t.text, t.position)) =
      (parameters.map fun t => (t.text, t.position)).map fun entry => (entry.1, m.place entry.2) := by
    rw [List.map_map, List.map_map]
    exact List.map_congr_left fun t _ => Prod.ext (m.text t) (m.position t)
  unfold Scope.checkParameters Repetition.first?
  rw [moved, Repetition.firstAfter_map (fun entry : String × Position => (entry.1, m.place entry.2))
    fun _ => rfl]
  cases Repetition.firstAfter Prod.fst [] (parameters.map fun t => (t.text, t.position)) with
  | none => exact .quiet known
  | some repeated => exact .diagnose known repeated.2 (fun _ _ => nofun) rfl rfl

theorem followedBy {more : List Token} {before before' after after' : Findings}
    (h : Moves m names before after) (h' : Moves m more before' after') (sub : names.Sublist more) :
    Moves m more (before.followedBy before') (after.followedBy after') :=
  ⟨h'.scopes, h'.known, List.rel_append (h.diagnostics.imp fun _ _ => Moved.mono sub) h'.diagnostics⟩

end Moves

section

variable {m : Relocation} {names : List Token} {scopes : ScopeTable}

theorem declareVariable_moves (known : Known names scopes) (name : Token) :
    Moves m (names ++ [name])
      (.ofDeclared scopes name.text (scopes.declareVariable name.text name.position))
      (.ofDeclared (m.table scopes) name.text
        ((m.table scopes).declareVariable name.text (m.place name.position))) :=
  .ofDeclared known rfl

theorem declareSubprogram_moves (known : Known names scopes) (h : Header) :
    Moves m (names ++ [h.name]) (.ofDeclared scopes h.name.text (declareSubprogram scopes h))
      (.ofDeclared (m.table scopes) (m.header h).name.text
        (declareSubprogram (m.table scopes) (m.header h))) := by
  obtain ⟨keyword, name, parameters, returnType, forward⟩ := h
  unfold declareSubprogram Relocation.header
  dsimp only
  rw [m.text, m.position]
  cases returnType with
  | some type => exact .ofDeclared known rfl
  | none => exact .ofDeclared known rfl

theorem message_unexpected (m : Relocation) (expected : Expected) (found : Token) :
    (Diagnostic.Cause.unexpected expected (m.token found)).message =
      (Diagnostic.Cause.unexpected expected found).message :=
  congrArg (fun said => s!"Expected {expected.describe}, found {said}") (m.describe found)

theorem observe_moves (known : Known names scopes) (event : Event) :
    Moves m (names ++ event.declared?.toList) (observe scopes event)
      (observe (m.table scopes) (m.event event)) := by
  have known' : Known (names ++ []) scopes := known.mono (List.subset_append_left _ _)
  cases event with
  | «variable» name =>
    unfold observe Relocation.event
    dsimp only
    rw [m.text, m.position]
    exact declareVariable_moves known name
  | subprogram h =>
    have announced : Moves m names ⟨scopes, [], [.header h scopes.depth]⟩
        ⟨m.table scopes, [], [.header (m.header h) (m.table scopes).depth]⟩ := .quiet known
    exact announced.followedBy (declareSubprogram_moves known h) (List.sublist_append_left _ _)
  | parameters parameters => exact .ofParameters known' parameters
  | range bounds position => exact .of_ite _ known' position fun _ _ => nofun
  | stringSize size position => exact .of_ite _ known' position fun _ _ => nofun
  | returnType function type position =>
    unfold observe Relocation.event
    dsimp only
    rw [m.text]
    exact .of_ite _ known' position fun _ _ => nofun
  | unexpected expected found =>
    unfold observe Relocation.event
    dsimp only
    rw [m.position]
    exact .diagnose known' found.position (fun _ _ => nofun) rfl (message_unexpected m expected found)
  | variableList type => exact .quiet known'
  | enter label => exact ⟨rfl, known'.enter label, .nil⟩
  | leave =>
    obtain ⟨current, enclosing⟩ := scopes
    cases enclosing with
    | nil => exact .quiet known'
    | cons outer rest => exact ⟨rfl, known'.exit, .nil⟩
  | tooDeep position => exact .diagnose known' position (fun _ _ => nofun) rfl rfl

theorem observeAll_moves (known : Known names scopes) (events : List Event) :
    Moves m (names ++ declaredNames events) (observeAll scopes events)
      (observeAll (m.table scopes) (events.map m.event)) := by
  induction events generalizing names scopes with
  | nil => exact .quiet (known.mono (List.subset_append_left _ _))
  | cons event events ih =>
    have first : Moves m (names ++ event.declared?.toList) _ _ := observe_moves known event
    have later := ih first.known
    have whole : names ++ declaredNames (event :: events) =
        names ++ event.declared?.toList ++ declaredNames events := by
      rw [List.append_assoc, declaredNames, List.filterMap_cons]
      cases event.declared? <;> rfl
    rw [whole, List.map_cons, observeAll, observeAll, first.scopes]
    exact first.followedBy later (List.sublist_append_left _ _)

end

def Relocation.along (target : Position → Token) : Relocation where
  token t := ⟨t.kind, t.text, (target t.position).position, (target t.position).offset⟩
  place p := (target p).position
  kind _ := rfl
  text _ := rfl
  position _ := rfl

/-- Tokens at places of their own can be moved to where any like tokens stand. -/
theorem exists_relocation {tokens tokens' : List Token} (alike : List.Forall₂ Token.Alike tokens tokens')
    (apart : (tokens.map Token.position).Nodup) :
    ∃ m : Relocation, tokens.map m.token = tokens' := by
  suffices ∃ target, tokens.map (Relocation.along target).token = tokens' by
    obtain ⟨target, e⟩ := this
    exact ⟨_, e⟩
  induction alike with
  | nil => exact ⟨fun _ => endAfter [], rfl⟩
  | @cons t t' rest rest' same _ ih =>
    rw [List.map_cons, List.nodup_cons] at apart
    obtain ⟨target, e⟩ := ih apart.2
    refine ⟨Function.update target t.position t', ?_⟩
    rw [List.map_cons, ← e]
    congr 1
    · unfold Relocation.along
      dsimp only
      rw [Function.update_self, ← same.kind, ← same.text]
    · -- Nothing else stands at the place of the first token.
      refine List.map_congr_left fun u mem => ?_
      have other : u.position ≠ t.position := fun e => apart.1 (e ▸ List.mem_map_of_mem mem)
      unfold Relocation.along
      dsimp only
      rw [Function.update_of_ne other]

theorem Relocation.declaredNames_map (m : Relocation) (events : List Event) :
    declaredNames (events.map m.event) = (declaredNames events).map m.token := by
  rw [declaredNames, declaredNames, List.filterMap_map, List.map_filterMap]
  refine List.filterMap_congr fun event _ => ?_
  cases event <;> rfl

def namesIn (tokens : List Token) : List Token :=
  declaredNames (program (endAfter tokens) tokens).events

/-- Diagnostics of two lists of tokens, each about the token at one and the same place in its list.
They say the same, but for the lines of earlier declarations, which are also those of the tokens at
one and the same place. -/
inductive Corresponds (tokens tokens' : List Token) : Diagnostic → Diagnostic → Prop
  | same {k : Nat} {t t' : Token} {cause cause' : Diagnostic.Cause}
      (blamed : (prepare tokens)[k]? = some t) (blamed' : (prepare tokens')[k]? = some t')
      (noConflict : ∀ name line, cause ≠ .refused (.nameConflict name line))
      (kind : cause'.kind = cause.kind) (message : cause'.message = cause.message) :
      Corresponds tokens tokens' ⟨cause, t.position⟩ ⟨cause', t'.position⟩
  | conflict {j k : Nat} {u u' t t' : Token} (before : j < k)
      (earlier : (prepare tokens)[j]? = some u) (earlier' : (prepare tokens')[j]? = some u')
      (blamed : (prepare tokens)[k]? = some t) (blamed' : (prepare tokens')[k]? = some t')
      (declares : u ∈ namesIn tokens) (declares' : u' ∈ namesIn tokens')
      (named : u.text = t.text) (named' : t'.text = t.text) :
      Corresponds tokens tokens'
        ⟨.refused (.nameConflict t.text u.position.line), t.position⟩
        ⟨.refused (.nameConflict t'.text u'.position.line), t'.position⟩

theorem exists_lt_of_sublist {α : Type} {a b : α} {xs : List α} (h : [a, b].Sublist xs) :
    ∃ j k : Nat, j < k ∧ xs[j]? = some a ∧ xs[k]? = some b := by
  obtain ⟨f, places⟩ := List.sublist_iff_exists_orderEmbedding_getElem?_eq.1 h
  exact ⟨f 0, f 1, f.lt_iff_lt.2 Nat.one_pos, (places 0).symm, (places 1).symm⟩

section

variable {source source' : String} {tokens tokens' : List Token}

theorem Relocation.corresponds {m : Relocation} (moved : (prepare tokens).map m.token = prepare tokens')
    (declared : (namesIn tokens).map m.token = namesIn tokens')
    (inOrder : (namesIn tokens).Sublist (prepare tokens)) {d d' : Diagnostic}
    (standing : ∃ t ∈ prepare tokens, d.position = t.position) (h : Moved m (namesIn tokens) d d') :
    Corresponds tokens tokens' d d' := by
  have place : ∀ {k : Nat} {t : Token}, (prepare tokens)[k]? = some t → (prepare tokens')[k]? = some (m.token t) := by
    intro k t at_k
    rw [← moved, List.getElem?_map, at_k]
    rfl
  cases h with
  | @conflict u t order named =>
    obtain ⟨j, k, before, earlier, blamed⟩ := exists_lt_of_sublist (order.trans inOrder)
    have declares : u ∈ namesIn tokens := order.subset List.mem_cons_self
    have declares' : m.token u ∈ namesIn tokens' := declared ▸ List.mem_map_of_mem declares
    have whole := Corresponds.conflict before earlier (place earlier) blamed (place blamed) declares declares'
      named (m.text t)
    rwa [m.position, m.position, m.text] at whole
  | other noConflict kind message =>
    obtain ⟨t, mem, rfl⟩ := standing
    obtain ⟨k, blamed⟩ := List.mem_iff_getElem?.1 mem
    have whole := Corresponds.same blamed (place blamed) noConflict kind message
    rwa [m.position] at whole

theorem exists_relocation_of_alike (ok : tokenize source = .ok tokens)
    (alike : List.Forall₂ Token.Alike tokens tokens') : ∃ m : Relocation,
      tokens.map m.token = tokens' ∧ m.token (endAfter tokens) = endAfter tokens' := by
  have ends : Token.Alike (endAfter tokens) (endAfter tokens') := by
    unfold endAfter
    cases tokens.getLast? <;> cases tokens'.getLast? <;> exact ⟨rfl, rfl⟩
  have all : List.Forall₂ Token.Alike (tokens ++ [endAfter tokens]) (tokens' ++ [endAfter tokens']) :=
    List.rel_append alike (.cons ends .nil)
  have apart : ((tokens ++ [endAfter tokens]).map Token.position).Nodup :=
    List.pairwise_map.2 ((tokenize_ordered ok).imp Position.Before.ne)
  obtain ⟨m, moved⟩ := exists_relocation all apart
  obtain ⟨whole, last⟩ := List.append_inj' (List.map_append.symm.trans moved) rfl
  exact ⟨m, whole, (List.cons.inj last).1⟩

/-- Texts with like tokens are found to be wrong in like ways. -/
theorem check_alike (ok : tokenize source = .ok tokens) (ok' : tokenize source' = .ok tokens')
    (alike : List.Forall₂ Token.Alike tokens tokens') (nests : NestsAtMost 200 (terminals tokens)) :
    List.Forall₂ (Corresponds tokens tokens') (check source).diagnostics (check source').diagnostics := by
  have standing := (check_placed ok nests).standing
  have noEnd : ∀ t ∈ tokens, t.isEnd = false := fun t mem => isEnd_eq_false (tokenize_spells ok t mem)
  have noEnd' : ∀ t ∈ tokens', t.isEnd = false := fun t mem => isEnd_eq_false (tokenize_spells ok' t mem)
  obtain ⟨m, whole, last⟩ := exists_relocation_of_alike ok alike
  have read := program_follows m (endAfter tokens) tokens
  rw [whole, last] at read
  have events : (program (endAfter tokens') tokens').events =
      (program (endAfter tokens) tokens).events.map m.event := congrArg Reading.events read
  have moved : (prepare tokens).map m.token = prepare tokens' := by
    rw [prepare_eq noEnd, prepare_eq noEnd', List.map_append, whole, List.map_singleton, last]
  have declared : (namesIn tokens).map m.token = namesIn tokens' := by
    rw [namesIn, namesIn, events, m.declaredNames_map]
  have inOrder : (namesIn tokens).Sublist (prepare tokens) := by
    rw [prepare_eq noEnd]
    exact (program_inOrder (isEnd_endAfter tokens) tokens).trans (List.sublist_append_left _ _)
  have moves := observeAll_moves (m := m) .initial (program (endAfter tokens) tokens).events
  rw [← events] at moves
  rw [check_eq ok] at standing
  rw [check_eq ok, check_eq ok']
  exact ((List.forall₂_and_left _ _).2 ⟨standing, moves.diagnostics⟩).imp fun d d' h =>
    Relocation.corresponds moved declared inOrder h.1 h.2

/-- The line that a name conflict points to goes with the layout, and the rest stays. -/
theorem check_alike_conflict :
    let source := "var a,a;"
    let source' := "// names\nVAR a\n, a ;"
    ∃ tokens tokens', tokenize source = .ok tokens ∧ tokenize source' = .ok tokens' ∧
      List.Forall₂ Token.Alike tokens tokens' ∧ NestsAtMost 200 (terminals tokens) ∧
      (check source).diagnostics.map Diagnostic.describe =
        ["1:7: semantic: Name 'a' conflicts with an earlier declaration on line 1",
          "1:8: syntax: Expected ':', found ';'"] ∧
      (check source').diagnostics.map Diagnostic.describe =
        ["3:3: semantic: Name 'a' conflicts with an earlier declaration on line 2",
          "3:5: syntax: Expected ':', found ';'"] ∧
      List.Forall₂ (Corresponds tokens tokens') (check source).diagnostics
        (check source').diagnostics := by
  intro source source'
  let tokens : List Token := [⟨.keyword, "var", ⟨1, 1⟩, 0⟩, ⟨.identifier, "a", ⟨1, 5⟩, 4⟩,
    ⟨.punctuation, ",", ⟨1, 6⟩, 5⟩, ⟨.identifier, "a", ⟨1, 7⟩, 6⟩, ⟨.punctuation, ";", ⟨1, 8⟩, 7⟩]
  let tokens' : List Token := [⟨.keyword, "var", ⟨2, 1⟩, 9⟩, ⟨.identifier, "a", ⟨2, 5⟩, 13⟩,
    ⟨.punctuation, ",", ⟨3, 1⟩, 15⟩, ⟨.identifier, "a", ⟨3, 3⟩, 17⟩, ⟨.punctuation, ";", ⟨3, 5⟩, 19⟩]
  have ok : tokenize source = .ok tokens := by decide +kernel
  have ok' : tokenize source' = .ok tokens' := by decide +kernel
  have alike : List.Forall₂ Token.Alike tokens tokens' :=
    .cons ⟨rfl, rfl⟩ (.cons ⟨rfl, rfl⟩ (.cons ⟨rfl, rfl⟩ (.cons ⟨rfl, rfl⟩ (.cons ⟨rfl, rfl⟩ .nil))))
  have nests : NestsAtMost 200 (terminals tokens) := nestsAtMost_of_length_le (by decide)
  exact ⟨tokens, tokens', ok, ok', alike, nests, by decide +kernel, by decide +kernel,
    check_alike ok ok' alike nests⟩

end

end Declaration

end DeclarationChecker
