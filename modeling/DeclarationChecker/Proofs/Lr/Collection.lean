import Mathlib.Data.Finset.Powerset
import DeclarationChecker.Lr.Collection
import DeclarationChecker.Proofs.Lr.ViablePrefix

set_option autoImplicit false

namespace DeclarationChecker.Lr

open Relation

variable {a : Augmented} {items : ItemSet} {item fresh : Item} {symbol : Name}
  {word : List Name}

namespace Augmented

theorem mem_everyItem : item ∈ a.everyItem ↔ ⟨item.lhs, item.rhs⟩ ∈ a.allProductions ∧
    item.dot ≤ item.rhs.length ∧ item.lookahead = Grammar.endSymbol := by
  simp only [everyItem, List.mem_flatMap, List.mem_map, List.mem_range]
  constructor
  · rintro ⟨p, mem, dot, h, rfl⟩
    exact ⟨mem, Nat.le_of_lt_succ h, rfl⟩
  · rintro ⟨mem, h, lookahead⟩
    refine ⟨_, mem, item.dot, Nat.lt_succ_of_le h, ?_⟩
    rw [← lookahead]

theorem startItem_mem_everyItem : a.startItem ∈ a.everyItem :=
  mem_everyItem.2 ⟨List.mem_cons_self, Nat.zero_le _, rfl⟩

theorem advance_mem_everyItem (h : item ∈ a.everyItem) (next : item.next? = some symbol) :
    item.advance ∈ a.everyItem := by
  obtain ⟨mem, -, lookahead⟩ := mem_everyItem.1 h
  have inside := (List.getElem?_eq_some_iff.1 next).1
  exact mem_everyItem.2 ⟨mem, inside, lookahead⟩

theorem mem_everyItem_of_path (h : item ∈ a.everyItem) (path : ReflTransGen a.Brings item fresh) :
    fresh ∈ a.everyItem := by
  induction path with
  | refl => exact h
  | tail _ step ih =>
    refine mem_everyItem.2 ⟨step.mem, ?_, ?_⟩
    · rw [step.dot]
      exact Nat.zero_le _
    · rw [step.lookahead, (mem_everyItem.1 ih).2.2]

theorem mem_everyItem_of_mem_after (h : item ∈ a.after word) : item ∈ a.everyItem := by
  induction word using List.reverseRecOn generalizing item with
  | nil =>
    obtain ⟨seed, mem, path⟩ := mem_closure.1 h
    rw [List.mem_singleton.1 mem] at path
    exact mem_everyItem_of_path startItem_mem_everyItem path
  | append_singleton word symbol ih =>
    rw [after_append_singleton] at h
    obtain ⟨before, mem, next, path⟩ := mem_goto.1 h
    exact mem_everyItem_of_path (advance_mem_everyItem (ih mem) next) path

end Augmented

theorem mem_nextSymbols : symbol ∈ items.nextSymbols ↔
    ∃ item, item ∈ items ∧ item.next? = some symbol := by
  rw [ItemSet.nextSymbols, ← SortedSet.mem_iff, SortedSet.mem_ofList, List.mem_filterMap]
  rfl

/-- Of a list of items there are at most two to the power of its length sets. -/
theorem length_le_two_pow {sets : List ItemSet} {every : List Item} (distinct : sets.Nodup)
    (h : ∀ items ∈ sets, ∀ item ∈ items, item ∈ every) : sets.length ≤ 2 ^ every.length := by
  have injective : Function.Injective fun items : ItemSet => items.elements.toFinset := by
    intro s t same
    refine SortedSet.ext s t fun item => ?_
    have same' := Finset.ext_iff.1 same item
    rw [List.mem_toFinset, List.mem_toFinset] at same'
    exact same'
  have inside : (sets.map fun items => items.elements.toFinset).toFinset ⊆
      every.toFinset.powerset := by
    intro s mem
    obtain ⟨items, listed, rfl⟩ := List.mem_map.1 (List.mem_toFinset.1 mem)
    rw [Finset.mem_powerset]
    intro item mem'
    rw [List.mem_toFinset] at mem' ⊢
    exact h items listed item mem'
  have count := Finset.card_le_card inside
  rw [List.toFinset_card_of_nodup (distinct.map injective), List.length_map,
    Finset.card_powerset] at count
  exact count.trans (Nat.pow_le_pow_right Nat.zero_lt_two every.toFinset_card_le)

structure Augmented.Reaches (a : Augmented) (items : ItemSet) : Prop where
  nonempty : ∃ item, item ∈ items
  word : ∃ word, a.after word = items

namespace Augmented.Reaches

theorem start : a.Reaches (a.closure [a.startItem]) :=
  ⟨⟨a.startItem, mem_closure.2 ⟨_, List.mem_singleton.2 rfl, .refl⟩⟩, [], rfl⟩

theorem goto (h : a.Reaches items) (next : symbol ∈ items.nextSymbols) :
    a.Reaches (a.goto items symbol) := by
  obtain ⟨item, mem, stands⟩ := mem_nextSymbols.1 next
  obtain ⟨word, rfl⟩ := h.word
  exact ⟨⟨item.advance, mem_goto.2 ⟨item, mem, stands, .refl⟩⟩, word ++ [symbol],
    after_append_singleton⟩

theorem mem_everyItem (h : a.Reaches items) (mem : item ∈ items) : item ∈ a.everyItem := by
  obtain ⟨word, rfl⟩ := h.word
  exact mem_everyItem_of_mem_after mem

theorem length_le {sets : List ItemSet} (distinct : sets.Nodup)
    (h : ∀ items ∈ sets, a.Reaches items) : sets.length ≤ 2 ^ a.everyItem.length :=
  length_le_two_pow distinct fun items mem _ => (h items mem).mem_everyItem

end Augmented.Reaches

theorem any_items_iff {found : List Explored} :
    (found.any fun e => e.items = items) = true ↔ items ∈ found.map Explored.items := by
  rw [List.any_eq_true, List.mem_map]
  simp only [decide_eq_true_eq]

/-- What holds all along the exploration: the sets found are distinct, their moves are known and
lead to sets that are found or due. -/
structure Exploration (a : Augmented) (found : List Explored) (due : List ItemSet) : Prop where
  distinct : (found.map Explored.items).Nodup
  reached : ∀ items ∈ found.map Explored.items ++ due, a.Reaches items
  moves : ∀ e ∈ found, e.moves = a.moves e.items
  closed : ∀ items ∈ found.map Explored.items, ∀ symbol ∈ items.nextSymbols,
    a.goto items symbol ∈ found.map Explored.items ++ due

namespace Exploration

variable {found : List Explored} {due rest : List ItemSet}

theorem forget (h : Exploration a found due) (fewer : ∀ items ∈ rest, items ∈ due)
    (known : ∀ items ∈ due, items ∉ rest → items ∈ found.map Explored.items) :
    Exploration a found rest := by
  refine ⟨h.distinct, fun items mem => h.reached items ?_, h.moves, fun items mem symbol next => ?_⟩
  · rcases List.mem_append.1 mem with old | new
    · exact List.mem_append_left _ old
    · exact List.mem_append_right _ (fewer items new)
  · rcases List.mem_append.1 (h.closed items mem symbol next) with old | new
    · exact List.mem_append_left _ old
    · by_cases still : a.goto items symbol ∈ rest
      · exact List.mem_append_right _ still
      · exact List.mem_append_left _ (known _ new still)

/-- A set that was due has been found, and the sets its moves lead to are due. -/
theorem visit (h : Exploration a found (items :: rest))
    (new : items ∉ found.map Explored.items) :
    Exploration a (found ++ [⟨items, a.moves items⟩])
      (rest ++ (a.moves items).map Move.target) := by
  have targets : (a.moves items).map Move.target = items.nextSymbols.map (a.goto items) := by
    rw [Augmented.moves, List.map_map]
    rfl
  have known : List.map Explored.items (found ++ [⟨items, a.moves items⟩]) ++
      (rest ++ (a.moves items).map Move.target) =
        (found.map Explored.items ++ items :: rest) ++ items.nextSymbols.map (a.goto items) := by
    rw [targets, List.map_append, List.append_assoc, List.append_assoc]
    rfl
  constructor
  · rw [List.map_append]
    refine List.nodup_append.2 ⟨h.distinct, List.nodup_singleton _, fun s old t last e => ?_⟩
    rw [e, List.mem_singleton.1 last] at old
    exact new old
  · rw [known]
    intro set mem
    rcases List.mem_append.1 mem with mem | target
    · exact h.reached set mem
    · obtain ⟨symbol, next, rfl⟩ := List.mem_map.1 target
      exact (h.reached items (List.mem_append_right _ List.mem_cons_self)).goto next
  · intro e mem
    rcases List.mem_append.1 mem with old | this
    · exact h.moves e old
    · rw [List.mem_singleton.1 this]
  · rw [known, List.map_append]
    intro set mem symbol next
    rcases List.mem_append.1 mem with old | this
    · exact List.mem_append_left _ (h.closed set old symbol next)
    · rw [List.mem_singleton.1 this] at next ⊢
      exact List.mem_append_right _ (List.mem_map_of_mem next)

theorem start : Exploration a [] [a.closure [a.startItem]] := by
  refine ⟨List.nodup_nil, fun items mem => ?_, fun e mem => ?_, fun items mem => ?_⟩
  · rw [List.mem_singleton.1 mem]
    exact .start
  · cases mem
  · cases mem

/-- When there is no room for one more set, what is due has been found. -/
theorem found_of_due (h : Exploration a found due) (full : 2 ^ a.everyItem.length ≤ found.length)
    (mem : items ∈ due) : items ∈ found.map Explored.items := by
  by_contra new
  -- Together with the sets found it would make one set too many.
  have more : (items :: found.map Explored.items).length ≤ 2 ^ a.everyItem.length := by
    refine Augmented.Reaches.length_le (List.nodup_cons.2 ⟨new, h.distinct⟩) fun set mem' => ?_
    rcases List.mem_cons.1 mem' with rfl | old
    · exact h.reached set (List.mem_append_right _ mem)
    · exact h.reached set (List.mem_append_left _ old)
  rw [List.length_cons, List.length_map] at more
  omega

theorem complete (h : Exploration a found due) (full : 2 ^ a.everyItem.length ≤ found.length) :
    Exploration a found [] :=
  h.forget (fun _ mem => absurd mem List.not_mem_nil) fun _ mem _ => h.found_of_due full mem

theorem dropWhile (h : Exploration a found due) :
    Exploration a found (due.dropWhile fun items => found.any fun e => e.items = items) := by
  refine h.forget (fun items mem => (List.dropWhile_sublist _).subset mem) fun items mem out => ?_
  rw [← List.takeWhile_append_dropWhile (p := fun items => found.any fun e => e.items = items)
    (l := due)] at mem
  rcases List.mem_append.1 mem with taken | left
  · exact any_items_iff.1 (List.all_eq_true.1 List.all_takeWhile items taken)
  · exact absurd left out

theorem explore {room : Nat} (h : Exploration a found due)
    (enough : 2 ^ a.everyItem.length ≤ found.length + room) :
    Exploration a (a.explore room found due) [] := by
  induction room, found, due using Augmented.explore.induct a with
  | case1 found due => exact h.complete enough
  | case2 room found due none =>
    have left := h.dropWhile
    rw [Augmented.explore, none]
    rw [none] at left
    exact left
  | case3 room found due items rest some moves ih =>
    have left := h.dropWhile
    have new := List.head?_dropWhile_not (fun items => found.any fun e => e.items = items) due
    rw [Augmented.explore, some]
    rw [some] at left new
    refine ih (left.visit ?_) ?_
    · rw [← any_items_iff, Bool.not_eq_true]
      exact new
    · rw [List.length_append, List.length_singleton]
      omega

end Exploration

namespace Augmented

theorem prefix_explore (room : Nat) (found : List Explored) (due : List ItemSet) :
    found <+: a.explore room found due := by
  induction room, found, due using explore.induct a with
  | case1 found due => exact List.prefix_rfl
  | case2 room found due none =>
    rw [explore, none]
  | case3 room found due items rest some moves ih =>
    rw [explore, some]
    exact (List.prefix_append _ _).trans ih

theorem collection_exploration (a : Augmented) : Exploration a a.collection [] :=
  Exploration.start.explore (Nat.le_add_left _ _)

theorem exists_collection_eq (a : Augmented) : ∃ room, a.collection =
    a.explore room [⟨a.closure [a.startItem], a.moves (a.closure [a.startItem])⟩]
      ((a.moves (a.closure [a.startItem])).map Move.target) := by
  obtain ⟨room, e⟩ := Nat.exists_eq_succ_of_ne_zero (Nat.two_pow_pos a.everyItem.length).ne'
  have begun : Nat.pow 2 a.everyItem.length = room + 1 := e
  refine ⟨room, ?_⟩
  rw [collection, begun, explore]
  rfl

theorem collection_eq_cons (a : Augmented) : ∃ rest, a.collection =
    ⟨a.closure [a.startItem], a.moves (a.closure [a.startItem])⟩ :: rest := by
  obtain ⟨room, e⟩ := a.exists_collection_eq
  rw [e]
  obtain ⟨rest, whole⟩ := a.prefix_explore room
    [⟨a.closure [a.startItem], a.moves (a.closure [a.startItem])⟩]
    ((a.moves (a.closure [a.startItem])).map Move.target)
  exact ⟨rest, whole.symm⟩

/-- The collection holds every set that symbols lead to, unless it is empty. -/
theorem mem_collection_iff : items ∈ a.collection.map Explored.items ↔ a.Reaches items := by
  have spec := a.collection_exploration
  constructor
  · intro mem
    exact spec.reached items (List.mem_append_left _ mem)
  · rintro ⟨nonempty, word, rfl⟩
    induction word using List.reverseRecOn with
    | nil =>
      obtain ⟨rest, e⟩ := a.collection_eq_cons
      rw [e]
      exact List.mem_cons_self
    | append_singleton word symbol ih =>
      rw [after_append_singleton] at nonempty ⊢
      obtain ⟨item, mem⟩ := nonempty
      obtain ⟨before, old, next, -⟩ := mem_goto.1 mem
      have known := spec.closed _ (ih ⟨before, old⟩) symbol (mem_nextSymbols.2 ⟨before, old, next⟩)
      rw [List.append_nil] at known
      exact known

end Augmented

end DeclarationChecker.Lr
