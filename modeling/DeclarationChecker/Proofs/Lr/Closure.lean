import Mathlib.Logic.Relation
import DeclarationChecker.Lr.Closure

set_option autoImplicit false

namespace DeclarationChecker.Lr

open Relation

/-- An item at the start of a production, brought in by one with the dot before its left side. -/
structure Augmented.Brings (a : Augmented) (item fresh : Item) : Prop where
  next : item.next? = some fresh.lhs
  dot : fresh.dot = 0
  lookahead : fresh.lookahead = item.lookahead
  mem : ⟨fresh.lhs, fresh.rhs⟩ ∈ a.allProductions

theorem Augmented.Brings.eq {a : Augmented} {item fresh : Item} (h : a.Brings item fresh) :
    fresh = ⟨fresh.lhs, fresh.rhs, 0, item.lookahead⟩ := by
  rw [← h.dot, ← h.lookahead]

def Draws (pool : List Item) (item fresh : Item) : Prop :=
  fresh ∈ pool ∧ bringsIn item fresh = true

section

variable {pool pending : List Item} {item fresh : Item}

theorem mem_broughtIn : fresh ∈ broughtIn item pool ↔ Draws pool item fresh :=
  List.mem_filter

theorem mem_leftOver : fresh ∈ leftOver item pool ↔ fresh ∈ pool ∧ bringsIn item fresh = false := by
  rw [leftOver, List.mem_filter, Bool.not_eq_true']

theorem Draws.of_leftOver {i j : Item} (h : Draws (leftOver item pool) i j) : Draws pool i j :=
  ⟨(mem_leftOver.1 h.1).1, h.2⟩

theorem exists_of_mem_closeFrom (h : fresh ∈ closeFrom pool pending) :
    ∃ seed ∈ pending, ReflTransGen (Draws pool) seed fresh := by
  induction pool, pending using closeFrom.induct with
  | case1 pool => simp [closeFrom] at h
  | case2 pool item rest ih =>
    rw [closeFrom, List.mem_cons] at h
    rcases h with rfl | h
    · exact ⟨fresh, List.mem_cons_self, .refl⟩
    · obtain ⟨seed, mem, path⟩ := ih h
      have path' := ReflTransGen.mono (fun i j => Draws.of_leftOver) _ _ path
      rcases List.mem_append.1 mem with old | new
      · exact ⟨seed, List.mem_cons_of_mem _ old, path'⟩
      · exact ⟨item, List.mem_cons_self, .head (mem_broughtIn.1 new) path'⟩

theorem subset_closeFrom (h : item ∈ pending) : item ∈ closeFrom pool pending := by
  induction pool, pending using closeFrom.induct with
  | case1 pool => cases h
  | case2 pool first rest ih =>
    rw [closeFrom]
    rcases List.mem_cons.1 h with rfl | h
    · exact List.mem_cons_self
    · exact List.mem_cons_of_mem _ (ih (List.mem_append_left _ h))

theorem closeFrom_closed (h : item ∈ closeFrom pool pending) (draws : Draws pool item fresh) :
    fresh ∈ closeFrom pool pending := by
  induction pool, pending using closeFrom.induct with
  | case1 pool => simp [closeFrom] at h
  | case2 pool first rest ih =>
    rw [closeFrom] at h ⊢
    refine List.mem_cons_of_mem _ ?_
    -- What the first item draws is pending next; all else of the pool is left for the others.
    cases drawn : bringsIn first fresh with
    | true =>
      have new : fresh ∈ broughtIn first pool := mem_broughtIn.2 ⟨draws.1, drawn⟩
      exact subset_closeFrom (List.mem_append_right _ new)
    | false =>
      have left : fresh ∈ leftOver first pool := mem_leftOver.2 ⟨draws.1, drawn⟩
      rcases List.mem_cons.1 h with rfl | h
      · exact absurd draws.2 (by rw [drawn]; exact Bool.false_ne_true)
      · exact ih h ⟨left, draws.2⟩

theorem mem_closeFrom_iff : fresh ∈ closeFrom pool pending ↔
    ∃ seed ∈ pending, ReflTransGen (Draws pool) seed fresh := by
  constructor
  · exact exists_of_mem_closeFrom
  · rintro ⟨seed, mem, path⟩
    induction path with
    | refl => exact subset_closeFrom mem
    | tail _ step ih => exact closeFrom_closed ih step

end

namespace Augmented

variable {a : Augmented} {seeds : List Item} {item fresh : Item}

theorem bringsIn_iff : bringsIn item fresh = true ↔
    item.next? = some fresh.lhs ∧ item.lookahead = fresh.lookahead := by
  rw [bringsIn, Bool.and_eq_true, decide_eq_true_eq, decide_eq_true_eq]

theorem mem_pool : fresh ∈ a.pool seeds ↔ fresh.dot = 0 ∧
    (∃ seed ∈ seeds, seed.lookahead = fresh.lookahead) ∧
      ⟨fresh.lhs, fresh.rhs⟩ ∈ a.allProductions := by
  simp only [pool, List.mem_flatMap, List.mem_map, ← SortedSet.mem_iff, SortedSet.mem_ofList]
  constructor
  · rintro ⟨lookahead, seed, ⟨p, mem, rfl⟩⟩
    exact ⟨rfl, seed, mem⟩
  · rintro ⟨dot, seed, mem⟩
    refine ⟨fresh.lookahead, seed, ⟨fresh.lhs, fresh.rhs⟩, mem, ?_⟩
    cases fresh
    cases dot
    rfl

theorem lookahead_eq (path : ReflTransGen a.Brings item fresh) :
    fresh.lookahead = item.lookahead := by
  induction path with
  | refl => rfl
  | tail _ step ih => rw [step.lookahead, ih]

theorem draws_of_brings {seed : Item} (mem : seed ∈ seeds) (same : item.lookahead = seed.lookahead)
    (h : a.Brings item fresh) : Draws (a.pool seeds) item fresh :=
  ⟨mem_pool.2 ⟨h.dot, ⟨seed, mem, by rw [h.lookahead, same]⟩, h.mem⟩,
    bringsIn_iff.2 ⟨h.next, h.lookahead.symm⟩⟩

theorem brings_of_draws (h : Draws (a.pool seeds) item fresh) : a.Brings item fresh := by
  obtain ⟨dot, -, mem⟩ := mem_pool.1 h.1
  obtain ⟨next, lookahead⟩ := bringsIn_iff.1 h.2
  exact ⟨next, dot, lookahead.symm, mem⟩

theorem draws_path {seed : Item} (mem : seed ∈ seeds) (path : ReflTransGen a.Brings seed item) :
    ReflTransGen (Draws (a.pool seeds)) seed item := by
  induction path with
  | refl => exact .refl
  | tail before step ih => exact ih.tail (draws_of_brings mem (lookahead_eq before) step)

/-- The closure of some items is what can be reached from them by bringing in. -/
theorem mem_closure : item ∈ a.closure seeds ↔
    ∃ seed ∈ seeds, ReflTransGen a.Brings seed item := by
  rw [closure, SortedSet.mem_ofList, mem_closeFrom_iff]
  constructor
  · rintro ⟨seed, mem, path⟩
    exact ⟨seed, mem, ReflTransGen.mono (fun _ _ => brings_of_draws) _ _ path⟩
  · rintro ⟨seed, mem, path⟩
    exact ⟨seed, mem, draws_path mem path⟩

theorem mem_goto {items : ItemSet} {symbol : Name} : item ∈ a.goto items symbol ↔
    ∃ before, before ∈ items ∧ before.next? = some symbol ∧
      ReflTransGen a.Brings before.advance item := by
  rw [goto, mem_closure]
  constructor
  · rintro ⟨seed, mem, path⟩
    obtain ⟨before, kept, rfl⟩ := List.mem_map.1 mem
    obtain ⟨old, next⟩ := List.mem_filter.1 kept
    exact ⟨before, old, of_decide_eq_true next, path⟩
  · rintro ⟨before, mem, next, path⟩
    exact ⟨before.advance, List.mem_map.2 ⟨before, List.mem_filter.2 ⟨mem, decide_eq_true next⟩, rfl⟩,
      path⟩

end Augmented

end DeclarationChecker.Lr
