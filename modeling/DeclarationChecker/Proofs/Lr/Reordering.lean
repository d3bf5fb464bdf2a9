import DeclarationChecker.Proofs.Grammar.Validity
import Mathlib.Data.List.Forall2
import DeclarationChecker.Proofs.Lr.Contest

set_option autoImplicit false

namespace DeclarationChecker.Grammar

/-- The same symbols and the same alternatives of each, in any order. An alternative may be listed
more than once. -/
structure Reorders (g g' : Grammar) : Prop where
  start : g.start = g'.start
  terminals : g.terminals.Perm g'.terminals
  nonterminals : g.nonterminals.Perm g'.nonterminals
  keys : g.productions.keys.Perm g'.productions.keys
  alternatives : ∀ name rhs, rhs ∈ g.alternatives name ↔ rhs ∈ g'.alternatives name

namespace Reorders

variable {g g' : Grammar}

theorem declares (h : g.Reorders g') (symbol : Name) : g'.declares symbol = g.declares symbol := by
  rw [Bool.eq_iff_iff, declares_iff, declares_iff, h.terminals.mem_iff, h.nonterminals.mem_iff]

theorem wellFormed (h : g.Reorders g') (valid : g.WellFormed) : g'.WellFormed where
  terminals_ne_nil := fun e => valid.terminals_ne_nil (List.Perm.eq_nil (e ▸ h.terminals))
  nonterminals_ne_nil := fun e => valid.nonterminals_ne_nil (List.Perm.eq_nil (e ▸ h.nonterminals))
  terminals_nodup := h.terminals.nodup_iff.1 valid.terminals_nodup
  nonterminals_nodup := h.nonterminals.nodup_iff.1 valid.nonterminals_nodup
  apart := fun name mem listed =>
    valid.apart name (h.nonterminals.mem_iff.2 mem) (h.terminals.mem_iff.2 listed)
  reserved := (h.declares endSymbol).trans valid.reserved
  start := h.start ▸ h.nonterminals.mem_iff.1 valid.start
  keys := fun name mem => h.nonterminals.mem_iff.1 (valid.keys name (h.keys.mem_iff.2 mem))
  productive := fun name mem none => by
    obtain ⟨rhs, listed⟩ :=
      List.exists_mem_of_ne_nil _ (valid.productive name (h.nonterminals.mem_iff.2 mem))
    have listed' := (h.alternatives name rhs).1 listed
    rw [none] at listed'
    cases listed'
  declared := fun name mem rhs listed symbol inside => (h.declares symbol).trans
    (valid.declared name (h.nonterminals.mem_iff.2 mem) rhs ((h.alternatives name rhs).2 listed)
      symbol inside)

end Reorders

end DeclarationChecker.Grammar

/-! ### Closures and tables of a reordered grammar -/

namespace DeclarationChecker

namespace Dictionary

variable {α β γ δ : Type} {related : α → β → Prop} {d : Dictionary Name α} {d' : Dictionary Name β}

def Aligned (related : α → β → Prop) (d : Dictionary Name α) (d' : Dictionary Name β) : Prop :=
  List.Forall₂ (fun entry entry' => entry.1 = entry'.1 ∧ related entry.2 entry'.2) d.entries d'.entries

namespace Aligned

theorem get? (h : Aligned related d d') (name : Name) :
    Option.Rel related (d.get? name) (d'.get? name) := by
  obtain ⟨entries, distinct⟩ := d
  obtain ⟨entries', distinct'⟩ := d'
  change List.Forall₂ _ entries entries' at h
  change Option.Rel related (entries.lookup name) (entries'.lookup name)
  clear distinct distinct'
  induction h with
  | nil => exact .none
  | @cons entry entry' _ _ here _ ih =>
    obtain ⟨key, value⟩ := entry
    obtain ⟨key', value'⟩ := entry'
    obtain ⟨rfl, here⟩ := here
    rw [lookup_cons_eq_ite, lookup_cons_eq_ite]
    split
    · exact .some here
    · exact ih

theorem contains (h : Aligned related d d') (name : Name) : d.contains name = d'.contains name := by
  unfold Dictionary.contains
  match d.get? name, d'.get? name, h.get? name with
  | _, _, .none => rfl
  | _, _, .some _ => rfl

theorem insert (h : Aligned related d d') (name : Name) {value : α} {value' : β}
    (new : related value value') : Aligned related (d.insert name value) (d'.insert name value') := by
  obtain ⟨entries, distinct⟩ := d
  obtain ⟨entries', distinct'⟩ := d'
  change List.Forall₂ _ entries entries' at h
  change List.Forall₂ _ (insertEntry name value entries) (insertEntry name value' entries')
  clear distinct distinct'
  induction h with
  | nil => exact .cons ⟨rfl, new⟩ .nil
  | @cons entry entry' _ _ here others ih =>
    obtain ⟨key, old⟩ := entry
    obtain ⟨key', old'⟩ := entry'
    obtain ⟨rfl, here⟩ := here
    unfold insertEntry
    split
    · exact .cons ⟨rfl, new⟩ others
    · exact .cons ⟨rfl, here⟩ ih

theorem empty : Aligned related .empty .empty := .nil

theorem map {related' : γ → δ → Prop} {f : α → γ} {f' : β → δ} (h : Aligned related d d')
    (step : ∀ value value', related value value' → related' (f value) (f' value')) :
    Aligned related' (d.map f) (d'.map f') :=
  List.rel_map (fun _ _ here => ⟨here.1, step _ _ here.2⟩) h

end Aligned

end Dictionary

namespace Lr

/-- Actions that do the same, though the production of a reduction may have two numbers. -/
inductive Action.Corresponds (numbering numbering' : List Production) : Action → Action → Prop
  | shift (state : Int) : Corresponds numbering numbering' (.shift state) (.shift state)
  | reduce (name : Name) (count : Nat) {index index' : Nat} {p : Production}
      (here : numbering[index]? = some p) (there : numbering'[index']? = some p) :
      Corresponds numbering numbering' (.reduce name index count) (.reduce name index' count)
  | accept : Corresponds numbering numbering' .accept .accept

/-- The numbers of productions are not part of the message. -/
theorem Action.Corresponds.message {numbering numbering' : List Production} {x x' y y' : Action}
    (existing : Action.Corresponds numbering numbering' x x')
    (added : Action.Corresponds numbering numbering' y y') (state : Int) (symbol : Name)
    (path : List Name) (i j : Item) : Conflict.message ⟨state, symbol, path, ⟨i, x⟩, ⟨j, y⟩⟩ =
      Conflict.message ⟨state, symbol, path, ⟨i, x'⟩, ⟨j, y'⟩⟩ := by
  cases existing <;> cases added <;> rfl

structure ParseTable.Corresponds (t t' : ParseTable) : Prop where
  gotos : t.gotos = t'.gotos
  actions : List.Forall₂ (Dictionary.Aligned (Action.Corresponds t.productions t'.productions))
    t.actions t'.actions

structure Verdict.Corresponds (v v' : Verdict) : Prop where
  ok : v.ok = v'.ok
  message : v.message = v'.message
  stateCount : v.stateCount = v'.stateCount
  table : Option.Rel ParseTable.Corresponds v.table? v'.table?

theorem ParseTable.Corresponds.verdict {t t' : ParseTable} (h : t.Corresponds t') :
    (Verdict.accepted t).Corresponds (.accepted t') where
  ok := rfl
  message := by
    rw [Verdict.message, Verdict.message, ParseTable.stateCount, h.actions.length_eq]
    rfl
  stateCount := h.actions.length_eq
  table := .some h

theorem Conflict.verdict_corresponds {c c' : Conflict} (message : c.message = c'.message)
    (states states' : Nat) :
    (Verdict.conflicting states c).Corresponds (.conflicting states' c') where
  ok := rfl
  message := message
  stateCount := rfl
  table := .none

theorem freshName_perm {taken taken' : List Name} (h : taken.Perm taken') (candidate : Name) :
    freshName taken candidate = freshName taken' candidate := by
  induction taken, candidate using freshName.induct generalizing taken' with
  | case1 taken candidate mem ih =>
    rw [freshName, if_pos mem, ih (h.erase candidate)]
    conv_rhs => rw [freshName, if_pos (h.mem_iff.1 mem)]
  | case2 taken candidate free =>
    rw [freshName, if_neg free]
    conv_rhs => rw [freshName, if_neg fun mem => free (h.mem_iff.2 mem)]

namespace Augmented

variable {a a' : Augmented}

structure SameProductions (a a' : Augmented) : Prop where
  start : a.startProduction = a'.startProduction
  mem_iff : ∀ p, p ∈ a.allProductions ↔ p ∈ a'.allProductions

namespace SameProductions

theorem brings (h : SameProductions a a') : a.Brings = a'.Brings := by
  funext item fresh
  refine propext ⟨fun step => ?_, fun step => ?_⟩
  · exact ⟨step.next, step.dot, step.lookahead, (h.mem_iff _).1 step.mem⟩
  · exact ⟨step.next, step.dot, step.lookahead, (h.mem_iff _).2 step.mem⟩

theorem closure (h : SameProductions a a') (seeds : List Item) :
    a.closure seeds = a'.closure seeds := by
  refine SortedSet.ext _ _ fun item => ?_
  rw [mem_closure, mem_closure, h.brings]

theorem moves (h : SameProductions a a') : a.moves = a'.moves := by
  funext items
  refine List.map_congr_left fun symbol _ => ?_
  rw [goto, goto, h.closure]

theorem explore (h : SameProductions a a') (room : Nat) (found : List Explored)
    (due : List ItemSet) : a.explore room found due = a'.explore room found due := by
  induction room, found, due using Augmented.explore.induct a with
  | case1 found due => rfl
  | case2 room found due none => rw [Augmented.explore, Augmented.explore, none]
  | case3 room found due items rest some moves ih =>
    rw [Augmented.explore, Augmented.explore, some]
    dsimp only
    rw [← h.moves]
    exact ih

/-- The graphs are the same, since there may be more room than a collection needs. -/
theorem graph (h : SameProductions a a') : a.graph = a'.graph := by
  have start : a.startItem = a'.startItem := by rw [startItem, startItem, h.start]
  have same : a.collection = a'.collection := by
    rw [← explore_eq_collection (Nat.le_add_right (2 ^ a.everyItem.length) (2 ^ a'.everyItem.length)),
      ← explore_eq_collection (Nat.le_add_left (2 ^ a'.everyItem.length) (2 ^ a.everyItem.length)),
      h.explore, h.closure, start]
  rw [Augmented.graph, Augmented.graph, same]

end SameProductions

end Augmented

section

open Augmented

variable {g g' : Grammar} {s : GraphState} {item i j : Item}

theorem start_reorders (h : g.Reorders g') : (augment g).start = (augment g').start := by
  have taken := freshName_perm (h.terminals.append h.nonterminals) (g.start ++ "'")
  rw [h.start] at taken
  exact (congrArg (fun name => freshName _ (name ++ "'")) h.start).trans taken

theorem sameProductions (h : g.Reorders g') : (augment g).SameProductions (augment g') := by
  have start : (augment g).startProduction = (augment g').startProduction := by
    change (⟨(augment g).start, [g.start]⟩ : Production) = ⟨(augment g').start, [g'.start]⟩
    rw [start_reorders h, h.start]
  refine ⟨start, fun p => ?_⟩
  change p ∈ (augment g).startProduction :: productionsOf g ↔
    p ∈ (augment g').startProduction :: productionsOf g'
  rw [List.mem_cons, List.mem_cons, start, mem_productionsOf, mem_productionsOf,
    h.nonterminals.mem_iff, h.alternatives]

theorem mem_everyItem_reorders (h : g.Reorders g') (mem : item ∈ (augment g).everyItem) :
    item ∈ (augment g').everyItem := by
  obtain ⟨listed, inside⟩ := mem_everyItem.1 mem
  exact mem_everyItem.2 ⟨((sameProductions h).mem_iff _).1 listed, inside⟩

theorem completion_corresponds (h : g.Reorders g') (mem : item ∈ (augment g).everyItem) :
    Action.Corresponds (productionsOf g) (productionsOf g') ((augment g).completion item)
      ((augment g').completion item) := by
  unfold completion
  rw [← start_reorders h]
  split
  · exact .accept
  · rename_i other
    have other' : item.lhs ≠ (augment g').start := (start_reorders h) ▸ other
    exact .reduce _ _ (List.getElem?_idxOf (mem_productions mem other))
      (List.getElem?_idxOf (mem_productions (mem_everyItem_reorders h mem) other'))

def Alike (g g' : Grammar) (claim claim' : Claim) : Prop :=
  Action.Corresponds (productionsOf g) (productionsOf g') claim.action claim'.action

theorem call?_alike (h : g.Reorders g') (successors : Dictionary Name Nat)
    (mem : item ∈ (augment g).everyItem) :
    Option.Rel (fun call call' : Call => call.1 = call'.1 ∧ Alike g g' call.2 call'.2)
      ((augment g).call? successors item) ((augment g').call? successors item) := by
  unfold call?
  cases item.next? with
  | none => exact .some ⟨rfl, completion_corresponds h mem⟩
  | some symbol =>
    have terminals : symbol ∈ (augment g).terminals ↔ symbol ∈ (augment g').terminals :=
      h.terminals.mem_iff
    dsimp only
    by_cases terminal : symbol ∈ (augment g).terminals
    · rw [if_pos terminal, if_pos (terminals.1 terminal)]
      cases successors.get? symbol with
      | none => exact .none
      | some target => exact .some ⟨rfl, .shift target⟩
    · rw [if_neg terminal, if_neg (mt terminals.2 terminal)]
      exact .none

theorem calls_alike (h : g.Reorders g') (mem : s ∈ (augment g).graph.states) :
    List.Forall₂ (fun call call' : Call => call.1 = call'.1 ∧ Alike g g' call.2 call'.2)
      ((augment g).calls s) ((augment g').calls s) := by
  have same : List.Forall₂ (fun i j => i = j ∧ i ∈ (augment g).everyItem)
      s.items.elements s.items.elements :=
    List.forall₂_same.2 fun item listed => ⟨rfl, mem_everyItem_of_state mem listed⟩
  refine List.rel_filterMap ?_ same
  rintro item _ ⟨rfl, every⟩
  exact call?_alike h s.successors every

theorem actionRow_aligned (h : g.Reorders g') (mem : s ∈ (augment g).graph.states) :
    ((augment g).actionRow s).Aligned
      (Action.Corresponds (productionsOf g) (productionsOf g')) ((augment g').actionRow s) := by
  have claims : (firstClaims ((augment g).calls s)).Aligned (Alike g g')
      (firstClaims ((augment g').calls s)) := by
    refine List.rel_foldl (P := Dictionary.Aligned (Alike g g')) ?_ .empty (calls_alike h mem)
    rintro row row' aligned ⟨symbol, claim⟩ ⟨_, claim'⟩ ⟨rfl, alike⟩
    unfold addClaim
    rw [aligned.contains]
    split
    · exact aligned
    · exact aligned.insert symbol alike
  exact claims.map fun _ _ alike => alike

theorem gotoRow_reorders (h : g.Reorders g') (successors : Dictionary Name Nat) :
    (augment g).gotoRow successors = (augment g').gotoRow successors := by
  have contains : ∀ name,
      (augment g).nonterminals.contains name = (augment g').nonterminals.contains name := by
    intro name
    rw [Bool.eq_iff_iff, List.contains_iff_mem, List.contains_iff_mem]
    change name ∈ (augment g).start :: g.nonterminals ↔ name ∈ (augment g').start :: g'.nonterminals
    rw [List.mem_cons, List.mem_cons, start_reorders h, h.nonterminals.mem_iff]
  unfold gotoRow
  simp only [contains]

theorem rows_corresponds (h : g.Reorders g') :
    ((augment g).rows (augment g).graph).Corresponds ((augment g').rows (augment g').graph) := by
  rw [← (sameProductions h).graph]
  constructor
  · exact List.map_congr_left fun s _ => gotoRow_reorders h s.successors
  · rw [rows, rows, List.forall₂_map_left_iff, List.forall₂_map_right_iff, List.forall₂_same]
    exact fun s mem => actionRow_aligned h mem

theorem contest_message (h : g.Reorders g') (number : Nat) (path : List Name)
    (hi : i ∈ (augment g).everyItem) (hj : j ∈ (augment g).everyItem) :
    ((augment g).contest number path i j).message =
      ((augment g').contest number path i j).message :=
  (completion_corresponds h hi).message (completion_corresponds h hj) number _ path i j

/-- Descriptions of one grammar are judged alike, whatever the order of their parts. -/
theorem judge_reorders (valid : g.problem? = none) (h : g.Reorders g') :
    ∃ verdict verdict', judge g = .ok verdict ∧ judge g' = .ok verdict' ∧
      verdict.Corresponds verdict' := by
  have valid' : g'.problem? = none :=
    Grammar.problem?_eq_none_iff.2 (h.wellFormed (Grammar.problem?_eq_none_iff.1 valid))
  have same := (sameProductions h).graph
  rcases uncontested_or (augment g).graph with none | ⟨number, i, j, first⟩
  · have none' : Uncontested (augment g').graph := by rwa [← same]
    exact ⟨_, _, judge_uncontested valid none, judge_uncontested valid' none',
      (rows_corresponds h).verdict⟩
  · have first' : FirstContest (augment g').graph number i j := by rwa [← same]
    obtain ⟨path, found, -, refused⟩ := judge_contested valid first
    obtain ⟨path', found', -, refused'⟩ := judge_contested valid' first'
    rw [← same, found] at found'
    obtain rfl := Except.ok.inj found'
    obtain ⟨s, rest, here, contested⟩ := first.exists_state
    have every : ∀ item ∈ completed s, item ∈ (augment g).everyItem := fun item mem =>
      mem_everyItem_of_state (List.mem_of_getElem? here) (mem_completed.1 mem).1
    rw [contested] at every
    have message := contest_message h number path (every i List.mem_cons_self)
      (every j (List.mem_cons_of_mem _ List.mem_cons_self))
    exact ⟨_, _, refused, refused', Conflict.verdict_corresponds message _ _⟩

def leftRecursive : Grammar :=
  ⟨["+", "id"], ["E", "T"], "E", .ofList [("E", [["E", "+", "T"], ["T"]]), ("T", [["id"]])]⟩

/-- The same with everything in another order, and one alternative twice. -/
def leftRecursiveTwice : Grammar :=
  ⟨["id", "+"], ["T", "E"], "E",
    .ofList [("T", [["id"]]), ("E", [["T"], ["E", "+", "T"], ["T"]])]⟩

theorem judge_reorders_leftRecursive :
    leftRecursive.problem? = none ∧ leftRecursive.Reorders leftRecursiveTwice ∧
    ∃ verdict verdict', judge leftRecursive = .ok verdict ∧
      judge leftRecursiveTwice = .ok verdict' ∧ verdict.Corresponds verdict' := by
  have valid : leftRecursive.problem? = none := by decide
  have reorders : leftRecursive.Reorders leftRecursiveTwice := by
    refine ⟨rfl, by decide, by decide, by decide, fun name rhs => ?_⟩
    have empty : (Dictionary.empty : Dictionary Name (List (List Name))).get? name = none := rfl
    simp only [Grammar.alternatives, leftRecursive, leftRecursiveTwice, Dictionary.ofList,
      List.foldl_cons, List.foldl_nil, Dictionary.get?_insert, empty]
    by_cases e : name = "E"
    · subst e
      simp [or_comm]
    · simp [e]
  exact ⟨valid, reorders, judge_reorders valid reorders⟩

end

end Lr

end DeclarationChecker
