import DeclarationChecker.SortedSet
import DeclarationChecker.Grammar.Basic

set_option autoImplicit false

namespace DeclarationChecker.Lr

open Text

structure Item where
  lhs : Name
  rhs : List Name
  dot : Nat
  lookahead : Name
  deriving DecidableEq, Repr

namespace Item

def order : Item → Item → Ordering :=
  compareLex (compareOn lhs) (compareLex (compareOn rhs)
    (compareLex (compareOn dot) (compareOn lookahead)))

instance : Ord Item := ⟨order⟩

instance : Std.TransOrd Item := by
  change Std.TransCmp order
  unfold order
  infer_instance

instance : Std.LawfulEqOrd Item where
  eq_of_compare {i j} h := by
    have h : order i j = .eq := h
    simp only [order, compareLex, Ordering.then_eq_eq, compareOn,
      Std.LawfulEqCmp.compare_eq_iff_eq] at h
    obtain ⟨hl, hr, hd, ha⟩ := h
    cases i
    cases j
    simp only at hl hr hd ha
    subst hl hr hd ha
    rfl

def start (lhs : Name) (rhs : List Name) (lookahead : Name) : Item := ⟨lhs, rhs, 0, lookahead⟩

def atEnd (i : Item) : Bool := i.dot = i.rhs.length

def next? (i : Item) : Option Name := i.rhs[i.dot]?

def advance (i : Item) : Item := { i with dot := i.dot + 1 }

def markedSymbols (i : Item) : List CodePoints :=
  i.rhs.mapIdx fun index symbol => if index = i.dot then "* " ++ symbol else symbol

def describe (i : Item) : CodePoints :=
  let ending : CodePoints := if i.atEnd then " *" else ""
  i.lhs ++ " -> " ++ .intercalate " " i.markedSymbols ++ ending ++ ", " ++ i.lookahead

end Item

abbrev ItemSet := SortedSet Item

namespace ItemSet

def describe (items : ItemSet) : List CodePoints := items.elements.map Item.describe

def nextSymbols (items : ItemSet) : List Name :=
  (SortedSet.ofList (items.elements.filterMap Item.next?)).elements

end ItemSet

/-! ### Closures -/

structure Production where
  lhs : Name
  rhs : List Name
  deriving DecidableEq, Repr

/-- The productions of a grammar, nonterminal by nonterminal. Tables refer to them by index. -/
def productionsOf (g : Grammar) : List Production :=
  g.nonterminals.flatMap fun name => (g.alternatives name).map fun rhs => ⟨name, rhs⟩

/-- The candidate with as few marks appended as keep it apart from the names taken. -/
def freshName (taken : List Name) (candidate : Name) : Name :=
  if candidate ∈ taken then freshName (taken.erase candidate) (candidate ++ "'") else candidate
termination_by taken.length
decreasing_by
  rename_i h
  have := List.length_erase_of_mem h
  have := List.length_pos_of_mem h
  omega

/-- A grammar with a fresh nonterminal whose only production is the old start symbol. -/
structure Augmented where
  terminals : List Name
  nonterminals : List Name
  start : Name
  startProduction : Production
  productions : List Production
  deriving DecidableEq, Repr

def augment (g : Grammar) : Augmented :=
  let start := freshName (g.terminals ++ g.nonterminals) (g.start ++ "'")
  { terminals := g.terminals
    nonterminals := start :: g.nonterminals
    start := start
    startProduction := ⟨start, [g.start]⟩
    productions := productionsOf g }

namespace Augmented

def allProductions (a : Augmented) : List Production := a.startProduction :: a.productions

def startItem (a : Augmented) : Item :=
  .start a.startProduction.lhs a.startProduction.rhs Grammar.endSymbol

/-- The items at the start of a production, with a lookahead of one of the seeds. -/
def pool (a : Augmented) (seeds : List Item) : List Item :=
  (SortedSet.ofList (seeds.map Item.lookahead)).elements.flatMap fun lookahead =>
    a.allProductions.map fun p => .start p.lhs p.rhs lookahead

end Augmented

def bringsIn (item fresh : Item) : Bool :=
  item.next? = some fresh.lhs && item.lookahead = fresh.lookahead

def broughtIn (item : Item) (pool : List Item) : List Item := pool.filter (bringsIn item)

def leftOver (item : Item) (pool : List Item) : List Item :=
  pool.filter fun fresh => !bringsIn item fresh

theorem length_broughtIn_add_length_leftOver (item : Item) (pool : List Item) :
    (broughtIn item pool).length + (leftOver item pool).length = pool.length := by
  induction pool with
  | nil => rfl
  | cons fresh pool ih =>
    cases h : bringsIn item fresh <;> simp [broughtIn, leftOver, h] at ih ⊢ <;> omega

/-- The pending items and all that they bring in from the pool, which gives each item once. -/
def closeFrom (pool pending : List Item) : List Item :=
  match pending with
  | [] => []
  | item :: rest => item :: closeFrom (leftOver item pool) (rest ++ broughtIn item pool)
termination_by pool.length + pending.length
decreasing_by
  have := length_broughtIn_add_length_leftOver item pool
  simp only [List.length_append, List.length_cons]
  omega

namespace Augmented

def closure (a : Augmented) (seeds : List Item) : ItemSet :=
  .ofList (closeFrom (a.pool seeds) seeds)

def goto (a : Augmented) (items : ItemSet) (symbol : Name) : ItemSet :=
  a.closure ((items.elements.filter fun item => item.next? = some symbol).map Item.advance)

end Augmented

end DeclarationChecker.Lr
