import DeclarationChecker.CommandLine.Run
import DeclarationChecker.Proofs.Declaration.Blame
import DeclarationChecker.Proofs.Declaration.SyntaxErrors
import DeclarationChecker.Proofs.Token.Tokenization

set_option autoImplicit false

namespace DeclarationChecker

open Text

theorem Repetition.mem_of_firstAfter {α β : Type} [DecidableEq β] {key : α → β} {seen : List β}
    {xs : List α} {x : α} (h : firstAfter key seen xs = some x) : x ∈ xs := by
  induction xs generalizing seen with
  | nil => cases h
  | cons y ys ih =>
    rw [firstAfter] at h
    split at h
    · exact Option.some.inj h ▸ List.mem_cons_self
    · exact List.mem_cons_of_mem _ (ih h)

theorem Scope.mem_of_checkParameters {names : List (String × Position)} {refusal : Refusal}
    (h : checkParameters names = .error refusal) : refusal.position ∈ names.map Prod.snd := by
  unfold checkParameters at h
  split at h
  · cases h
  · rename_i name position found
    cases h
    exact List.mem_map_of_mem (Repetition.mem_of_firstAfter found)

theorem ScopeTable.position_of_declare {scopes : ScopeTable} {name : String} {symbol : Symbol}
    {refusal : Scope.Refusal} (h : scopes.declare name symbol = .error refusal) :
    refusal.position = symbol.declaredAt := by
  unfold declare Scope.declare at h
  split at h
  · cases h
  · split at h
    · cases h
    · cases h
      rfl

namespace Declaration

open Token

theorem position_of_declareSubprogram {scopes : ScopeTable} {h : Header} {refusal : Scope.Refusal}
    (refused : declareSubprogram scopes h = .error refusal) : refusal.position = h.name.position := by
  unfold declareSubprogram at refused
  split at refused
  · exact ScopeTable.position_of_declare refused
  · exact ScopeTable.position_of_declare refused

section

variable (scopes : ScopeTable)

theorem ofDeclared_blames {name : String} {position : Position}
    {declared : Except Scope.Refusal ScopeTable.Declared}
    (h : ∀ refusal, declared = .error refusal → refusal.position = position) :
    ((Findings.ofDeclared scopes name declared).diagnostics.map Diagnostic.position).Sublist
      [position] := by
  cases declared with
  | ok declared => exact List.nil_sublist _
  | error refusal =>
    rw [← h refusal rfl]
    exact List.Sublist.refl _

theorem diagnose_blames (cause : Diagnostic.Cause) (position : Position) (c : Bool) :
    ((if c = true then Findings.quiet scopes else
      Findings.diagnose scopes cause position).diagnostics.map Diagnostic.position).Sublist
        [position] := by
  cases c with
  | true => exact List.nil_sublist _
  | false => exact List.Sublist.refl _

theorem ofParameters_blames (names : List Token) :
    ((Findings.ofParameters scopes (Scope.checkParameters (names.map fun t =>
      (t.text, t.position)))).diagnostics.map Diagnostic.position).Sublist (names.map Token.position) := by
  cases checked : Scope.checkParameters (names.map fun t => (t.text, t.position)) with
  | ok _ => exact List.nil_sublist _
  | error refusal =>
    have mem := Scope.mem_of_checkParameters checked
    rw [List.map_map] at mem
    exact List.singleton_sublist.2 mem

theorem observe_blames {event : Event} (h : event.isSyntactic = false) :
    ((observe scopes event).diagnostics.map Diagnostic.position).Sublist event.blames := by
  cases event with
  | «variable» name => exact ofDeclared_blames scopes fun _ => ScopeTable.position_of_declare
  | variableList type => exact List.nil_sublist _
  | range bounds position => exact diagnose_blames scopes _ position _
  | stringSize size position => exact diagnose_blames scopes _ position _
  | returnType function type position => exact diagnose_blames scopes _ position _
  | subprogram header => exact ofDeclared_blames scopes fun _ => position_of_declareSubprogram
  | enter label => exact List.nil_sublist _
  | parameters names => exact ofParameters_blames scopes names
  | leave =>
    unfold observe
    cases scopes.enclosing <;> exact List.nil_sublist _
  | unexpected expected found => cases h
  | tooDeep position => cases h

theorem observeAll_blames {events : List Event} (quiet : syntaxEvents events = []) :
    ((observeAll scopes events).diagnostics.map Diagnostic.position).Sublist
      (events.flatMap Event.blames) := by
  induction events generalizing scopes with
  | nil => exact List.nil_sublist _
  | cons event events ih =>
    obtain ⟨silent, others⟩ := List.forall_mem_cons.1 (List.filter_eq_nil_iff.1 quiet)
    rw [observeAll, List.flatMap_cons]
    dsimp only [Findings.followedBy]
    rw [List.map_append]
    exact (observe_blames scopes (Bool.eq_false_iff.2 silent)).append
      (ih _ (List.filter_eq_nil_iff.2 others))

theorem observeAll_semantic {events : List Event} (quiet : syntaxEvents events = []) :
    ∀ d ∈ (observeAll scopes events).diagnostics, d.kind = .semantic := by
  induction events generalizing scopes with
  | nil => exact fun d mem => nomatch mem
  | cons event events ih =>
    obtain ⟨silent, others⟩ := List.forall_mem_cons.1 (List.filter_eq_nil_iff.1 quiet)
    intro d mem
    rcases mem_observeAll_cons.1 mem with here | later
    · exact observe_semantic scopes (Bool.eq_false_iff.2 silent) d here
    · exact ih _ (List.filter_eq_nil_iff.2 others) d later

theorem observeAll_leaves {closing : List Event} (leaves : ∀ event ∈ closing, event = .leave) :
    (observeAll scopes closing).diagnostics = [] := by
  have quiet : syntaxEvents closing = [] := List.filter_eq_nil_iff.2 fun event mem => by
    rw [leaves event mem]
    exact Bool.false_ne_true
  have silent : closing.flatMap Event.blames = [] := List.flatMap_eq_nil_iff.2 fun event mem => by
    rw [leaves event mem]
    rfl
  have none := observeAll_blames scopes quiet
  rw [silent, List.sublist_nil, List.map_eq_nil_iff] at none
  exact none

/-- What a reader says when it gives up comes behind all else that it has to say. -/
theorem observeAll_giveUp {before closing : List Event} (expected : Expected) (found : Token)
    (leaves : ∀ event ∈ closing, event = .leave) :
    (observeAll scopes (before ++ .unexpected expected found :: closing)).diagnostics =
      (observeAll scopes before).diagnostics ++ [⟨.unexpected expected found, found.position⟩] := by
  rw [observeAll_append, observeAll]
  dsimp only [Findings.followedBy]
  rw [observeAll_leaves _ leaves, List.append_nil]
  rfl

end

/-- Semantic errors at some of the tokens, no two at the same. -/
structure SemanticAt (tokens : List Token) (ds : List Diagnostic) : Prop where
  kind : ∀ d ∈ ds, d.kind = .semantic
  apart : ∀ p, (ds.map Diagnostic.position).count p ≤ placed p tokens

namespace SemanticAt

variable {tokens : List Token} {ds : List Diagnostic}

theorem of_events {events : List Event} (scopes : ScopeTable) (quiet : syntaxEvents events = [])
    (paid : ∀ p, blamed p events ≤ placed p tokens) :
    SemanticAt tokens (observeAll scopes events).diagnostics :=
  ⟨observeAll_semantic scopes quiet,
    fun p => Nat.le_trans ((observeAll_blames scopes quiet).count_le p) (paid p)⟩

theorem mem (h : SemanticAt tokens ds) : ∀ d ∈ ds, ∃ t ∈ tokens, d.position = t.position := by
  intro d mem
  have counted := List.one_le_count_iff.2 (List.mem_map_of_mem (f := Diagnostic.position) mem)
  obtain ⟨t, there, e⟩ :=
    List.mem_map.1 (List.one_le_count_iff.1 (Nat.le_trans counted (h.apart d.position)))
  exact ⟨t, there, e.symm⟩

theorem nodup (h : SemanticAt tokens ds) (nodup : (tokens.map Token.position).Nodup) :
    (ds.map Diagnostic.position).Nodup :=
  List.nodup_iff_count.2 fun p => Nat.le_trans (h.apart p) (List.nodup_iff_count.1 nodup p)

end SemanticAt

section

variable {source : String} {tokens : List Token}

theorem syntaxEvents_giveUp {before closing : List Event} {expected expected' : Expected}
    {found found' : Token}
    (h : syntaxEvents (before ++ .unexpected expected found :: closing) = [.unexpected expected' found']) :
    syntaxEvents before = [] ∧ expected = expected' ∧ found = found' := by
  have first : syntaxEvents (.unexpected expected found :: closing) =
      .unexpected expected found :: syntaxEvents closing := rfl
  rw [syntaxEvents_append, first] at h
  rcases List.append_eq_singleton_iff.1 h with ⟨quiet, e⟩ | ⟨-, e⟩
  · obtain ⟨rfl, rfl⟩ := Event.unexpected.inj (List.cons.inj e).1
    exact ⟨quiet, rfl, rfl⟩
  · cases e

theorem toEnd_solvent (p : Position) (depth : Nat) : Solvent p 0 (fun _ => 0) (toEnd depth) := by
  refine (declarations_solvent (body_solvent p depth)).bind fun _ => ?_
  exact Solvent.current.bind fun next => .ite _ (.unexpected _) (.pure (Nat.le_refl _))

/-- A check says what is wrong with the tokens that have been read, and last of all which token could
not be. -/
theorem check_recorded (ok : tokenize source = .ok tokens) (nests : NestsAtMost 200 (terminals tokens)) :
    ∃ xs rest ds, tokens = xs ++ rest ∧ SemanticAt xs ds ∧ ((check source).diagnostics = ds ∨
      ∃ expected, (check source).diagnostics = ds ++
        [⟨.unexpected expected (rest.headD (endAfter tokens)), (rest.headD (endAfter tokens)).position⟩]) := by
  have hstop := isEnd_endAfter tokens
  have notDeep := toEnd_not_tooDeep nests (by decide : 200 < nestingLimit) hstop
  have account := (toEnd_reads nestingLimit).accounts _ tokens hstop
  have affords := fun p => toEnd_solvent p nestingLimit _ tokens hstop
  rw [check_eq ok, program_eq_toEnd nests (by decide) hstop]
  generalize endAfter tokens = stop at *
  -- From here on only what is known of the reading counts, not how it came about.
  generalize toEnd nestingLimit stop tokens = reading at *
  cases account with
  | @value xs rest a events complete quiet =>
    refine ⟨xs, rest, _, rfl, .of_events .initial quiet fun p => ?_, .inl rfl⟩
    have within := (affords p).within
    dsimp only [Outcome.owes] at within
    rwa [List.take_left, Nat.zero_add, Nat.add_zero] at within
  | @unexpected xs rest more a events expected viable blame =>
    obtain ⟨before, expected', found, closing, rfl, leaves⟩ := (affords ⟨1, 1⟩).last rfl
    obtain ⟨quiet, rfl, rfl⟩ := syntaxEvents_giveUp blame
    refine ⟨xs, rest, _, rfl, .of_events .initial quiet fun p => ?_, .inr ⟨expected', ?_⟩⟩
    · have within := (affords p).within
      dsimp only [Outcome.owes] at within
      rw [List.take_left, blamed_append] at within
      omega
    · exact observeAll_giveUp .initial expected' _ leaves
  | tooDeep viable quiet deep => exact absurd rfl notDeep

theorem read_sublist (xs rest : List Token) (stop : Token) :
    (xs ++ [rest.headD stop]).Sublist (xs ++ rest ++ [stop]) := by
  rw [List.append_assoc]
  refine (List.Sublist.refl xs).append (List.singleton_sublist.2 ?_)
  cases rest with
  | nil => exact List.mem_cons_self
  | cons t rest => exact List.mem_cons_self

/-- The tokens that have been read stand before the one that could not be. -/
theorem read_ordered {xs rest : List Token} (ok : tokenize source = .ok (xs ++ rest)) :
    (xs ++ [rest.headD (endAfter (xs ++ rest))]).Pairwise fun t u => t.position.Before u.position :=
  (tokenize_ordered ok).sublist (read_sublist xs rest _)

end

section

variable {ds recorded : List Diagnostic}

theorem inOrder_before (apart : (ds.map Diagnostic.position).Nodup) :
    (Diagnostic.inOrder ds).Pairwise fun d e => d.position.Before e.position := by
  have sorted : (Diagnostic.inOrder ds).Pairwise fun d e => d.position.le e.position = true :=
    List.pairwise_mergeSort (fun d e f => Position.le_trans d.position e.position f.position)
      (fun d e => Position.le_total d.position e.position) ds
  have apart' : (Diagnostic.inOrder ds).Pairwise fun d e => d.position ≠ e.position :=
    List.pairwise_map.1 (((List.mergeSort_perm ds _).map Diagnostic.position).nodup_iff.2 apart)
  exact (List.pairwise_and_iff.2 ⟨sorted, apart'⟩).imp fun h =>
    (Position.le_iff_before_or_eq.1 h.1).resolve_right h.2

/-- There is only one reading order of such diagnostics. -/
theorem inOrder_eq_of_perm (apart : (ds.map Diagnostic.position).Nodup) (perm : recorded.Perm ds) :
    Diagnostic.inOrder recorded = Diagnostic.inOrder ds := by
  have apart' : (recorded.map Diagnostic.position).Nodup := (perm.map _).nodup_iff.2 apart
  have same : (Diagnostic.inOrder recorded).Perm (Diagnostic.inOrder ds) :=
    (List.mergeSort_perm recorded _).trans (perm.trans (List.mergeSort_perm ds _).symm)
  refine List.Perm.eq_of_pairwise (fun d e _ _ before after => ?_) (inOrder_before apart')
    (inOrder_before apart) same
  exact absurd rfl (before.trans after).ne

end

/-- The diagnostics stand at some of the tokens, each at another one, and the one about the syntax is
the last and behind all others. -/
structure Placed (tokens : List Token) (ds : List Diagnostic) : Prop where
  standing : ∀ d ∈ ds, ∃ t ∈ tokens, d.position = t.position
  apart : (ds.map Diagnostic.position).Nodup
  syntactic : ∀ d ∈ ds, d.kind = .syntactic → ∃ others, ds = others ++ [d] ∧
    ∀ e ∈ others, e.kind ≠ .syntactic ∧ e.position.Before d.position

namespace SemanticAt

variable {xs tokens : List Token} {next : Token} {ds : List Diagnostic}

theorem not_syntactic (h : SemanticAt xs ds) : ∀ d ∈ ds, d.kind ≠ .syntactic := fun d mem e =>
  nomatch (h.kind d mem).symm.trans e

theorem placed (h : SemanticAt xs ds) (sub : xs ⊆ tokens)
    (ordered : xs.Pairwise fun t u => t.position.Before u.position) : Placed tokens ds where
  standing d mem := by
    obtain ⟨t, there, e⟩ := h.mem d mem
    exact ⟨t, sub there, e⟩
  apart := h.nodup (List.pairwise_map.2 (ordered.imp Position.Before.ne))
  syntactic d mem kind := absurd kind (h.not_syntactic d mem)

theorem placed_append (h : SemanticAt xs ds) (sub : xs ++ [next] ⊆ tokens)
    (ordered : (xs ++ [next]).Pairwise fun t u => t.position.Before u.position) (expected : Expected) :
    Placed tokens (ds ++ [⟨.unexpected expected next, next.position⟩]) := by
  obtain ⟨subset, mem⟩ := List.append_subset.1 sub
  obtain ⟨ordered, -, behind⟩ := List.pairwise_append.1 ordered
  have before : ∀ e ∈ ds, e.position.Before next.position := fun e there => by
    obtain ⟨t, read, same⟩ := h.mem e there
    rw [same]
    exact behind t read next List.mem_cons_self
  obtain ⟨standing, apart, -⟩ := h.placed subset ordered
  refine ⟨?_, ?_, fun d there kind => ?_⟩
  · exact List.forall_mem_append.2 ⟨standing,
      List.forall_mem_singleton.2 ⟨next, mem List.mem_cons_self, rfl⟩⟩
  · rw [List.map_append, List.nodup_append]
    refine ⟨apart, List.pairwise_singleton _ _, fun p there q last => ?_⟩
    obtain ⟨e, mem, rfl⟩ := List.mem_map.1 there
    rw [List.mem_singleton.1 last]
    exact (before e mem).ne
  · rcases List.mem_append.1 there with semantic | last
    · exact absurd kind (h.not_syntactic d semantic)
    · rw [List.mem_singleton.1 last]
      exact ⟨ds, rfl, fun e mem => ⟨h.not_syntactic e mem, before e mem⟩⟩

end SemanticAt

section

variable {source : String} {tokens : List Token}

theorem check_placed (ok : tokenize source = .ok tokens) (nests : NestsAtMost 200 (terminals tokens)) :
    Placed (prepare tokens) (check source).diagnostics := by
  obtain ⟨xs, rest, ds, rfl, semantic, said⟩ := check_recorded ok nests
  have ordered := read_ordered ok
  have sub : xs ++ [rest.headD (endAfter (xs ++ rest))] ⊆ prepare (xs ++ rest) := by
    rw [prepare_eq fun t mem => isEnd_eq_false (tokenize_spells ok t mem)]
    exact (read_sublist xs rest _).subset
  rcases said with e | ⟨expected, e⟩
  · rw [e]
    exact semantic.placed (List.append_subset.1 sub).1 (List.pairwise_append.1 ordered).1
  · rw [e]
    exact semantic.placed_append sub ordered expected

theorem printed_of_perm {recorded : List Diagnostic} (placed : Placed tokens (check source).diagnostics)
    (perm : recorded.Perm (check source).diagnostics) (all : Bool) :
    (CommandLine.checkSource source all).printed =
      Text.CodePoints.ofStrings (if recorded = [] then ["Declarations are correct"]
        else (CommandLine.chosenDiagnostics all recorded).map Diagnostic.describe) := by
  have chosen : CommandLine.chosenDiagnostics all recorded =
      CommandLine.chosenDiagnostics all (check source).diagnostics := by
    unfold CommandLine.chosenDiagnostics
    rw [inOrder_eq_of_perm placed.apart perm]
  unfold CommandLine.checkSource
  dsimp only
  by_cases none : (check source).diagnostics = []
  · rw [none] at perm
    rw [if_pos none, if_pos perm.eq_nil]
  · rw [if_neg none, if_neg fun e => none (e ▸ perm).nil_eq.symm, chosen]

/-- Diagnostics stand at tokens, each at another one and the one about the syntax behind all others.
So what is shown of them does not depend on when they were made. -/
theorem check_places (ok : tokenize source = .ok tokens) (nests : NestsAtMost 200 (terminals tokens)) :
    Placed (prepare tokens) (check source).diagnostics ∧
    (Diagnostic.inOrder (check source).diagnostics).Pairwise
      (fun d e => d.position.Before e.position) ∧
    ∀ recorded, recorded.Perm (check source).diagnostics →
      Diagnostic.inOrder recorded = Diagnostic.inOrder (check source).diagnostics ∧
      ∀ all, (CommandLine.checkSource source all).printed =
        Text.CodePoints.ofStrings (if recorded = [] then ["Declarations are correct"]
          else (CommandLine.chosenDiagnostics all recorded).map Diagnostic.describe) := by
  have placed := check_placed ok nests
  exact ⟨placed, inOrder_before placed.apart,
    fun recorded perm => ⟨inOrder_eq_of_perm placed.apart perm, printed_of_perm placed perm⟩⟩

theorem check_places_conflict :
    ∃ tokens, tokenize "var a,a:real;x" = .ok tokens ∧ NestsAtMost 200 (terminals tokens) ∧
      (check "var a,a:real;x").diagnostics.map Diagnostic.kind = [.semantic, .syntactic] ∧
      Placed (prepare tokens) (check "var a,a:real;x").diagnostics ∧
      (Diagnostic.inOrder (check "var a,a:real;x").diagnostics).Pairwise
        (fun d e => d.position.Before e.position) ∧
      ∀ recorded, recorded.Perm (check "var a,a:real;x").diagnostics →
        Diagnostic.inOrder recorded = Diagnostic.inOrder (check "var a,a:real;x").diagnostics ∧
        ∀ all, (CommandLine.checkSource "var a,a:real;x" all).printed =
          Text.CodePoints.ofStrings (if recorded = [] then ["Declarations are correct"]
            else (CommandLine.chosenDiagnostics all recorded).map Diagnostic.describe) := by
  have ok : tokenize "var a,a:real;x" = .ok [⟨.keyword, "var", ⟨1, 1⟩, 0⟩,
      ⟨.identifier, "a", ⟨1, 5⟩, 4⟩, ⟨.punctuation, ",", ⟨1, 6⟩, 5⟩, ⟨.identifier, "a", ⟨1, 7⟩, 6⟩,
      ⟨.punctuation, ":", ⟨1, 8⟩, 7⟩, ⟨.keyword, "real", ⟨1, 9⟩, 8⟩,
      ⟨.punctuation, ";", ⟨1, 13⟩, 12⟩, ⟨.identifier, "x", ⟨1, 14⟩, 13⟩] := by decide +kernel
  have nests : NestsAtMost 200 ["var", "ident", ",", "ident", ":", "real", ";", "ident"] :=
    nestsAtMost_of_length_le (by decide)
  have kinds : (check "var a,a:real;x").diagnostics.map Diagnostic.kind = [.semantic, .syntactic] := by
    decide +kernel
  exact ⟨_, ok, nests, kinds, check_places ok nests⟩

end

end Declaration

end DeclarationChecker
