import DeclarationChecker.Proofs.Declaration.SyntaxTree
import DeclarationChecker.Proofs.Numeral.Value

set_option autoImplicit false

namespace DeclarationChecker.Declaration

open Text

section

variable {α : Type}

def withEarlier (xs : List α) : List (List α × α) :=
  xs.zipIdx.map fun x => (xs.take x.2, x.1)

def withEarlierFrom (before : List α) : List α → List (List α × α)
  | [] => []
  | x :: xs => (before, x) :: withEarlierFrom (before ++ [x]) xs

theorem withEarlierFrom_eq (before xs : List α) : withEarlierFrom before xs =
    (xs.zipIdx before.length).map fun x => ((before ++ xs).take x.2, x.1) := by
  induction xs generalizing before with
  | nil => rfl
  | cons x xs ih =>
    have others := ih (before ++ [x])
    rw [List.length_append, List.length_singleton, ← List.append_cons] at others
    rw [withEarlierFrom, others, List.zipIdx_cons, List.map_cons, List.take_left]

theorem withEarlier_eq (xs : List α) : withEarlier xs = withEarlierFrom [] xs :=
  (withEarlierFrom_eq [] xs).symm

theorem withEarlierFrom_append (before xs ys : List α) : withEarlierFrom before (xs ++ ys) =
    withEarlierFrom before xs ++ withEarlierFrom (before ++ xs) ys := by
  induction xs generalizing before with
  | nil => rw [List.append_nil]; rfl
  | cons x xs ih =>
    rw [List.cons_append, withEarlierFrom, withEarlierFrom, ih, List.append_assoc]
    rfl

end

structure Entry where
  name : Token
  kind : SymbolKind
  forward : Bool

namespace Entry

def completes (first later : Entry) : Bool := later.kind = first.kind && !later.forward

def namesakes (name : String) (entries : List Entry) : List Entry :=
  entries.filter fun e => e.name.text = name

/-- A name that has been declared before is a conflict with the first declaration. The first one
to complete a forward declaration is none. -/
def conflict? (earlier : List Entry) (e : Entry) : Option Diagnostic :=
  match namesakes e.name.text earlier with
  | [] => none
  | first :: more =>
    if first.forward && first.completes e && !more.any first.completes then none
    else some ⟨.refused (.nameConflict e.name.text first.name.position.line), e.name.position⟩

def conflicts (entries : List Entry) : List Diagnostic :=
  (withEarlier entries).filterMap fun e => conflict? e.1 e.2

end Entry

namespace SyntaxTree

open Numeral

def Range.error? (r : Range) : Option Diagnostic :=
  if valueOf r.low.val.text ≥ valueOf r.high.val.text then
    some ⟨.range r.bounds, r.low.val.position⟩
  else none

def Size.error? (s : Size) : Option Diagnostic :=
  if 1 ≤ valueOf s.number.val.text ∧ valueOf s.number.val.text ≤ 255 then none
  else some ⟨.stringSize s.numeral, s.number.val.position⟩

def Parameters.types : Parameters → List TypeExpr
  | absent => []
  | empty _ _ => []
  | listed _ first others _ => first.type :: others.map fun other => other.2.type

namespace Heading

def types (h : Heading) : List TypeExpr := h.parameters.types ++ (h.returned.map Prod.snd).toList

def kind (h : Heading) : SymbolKind := if h.returned.isSome then .function else .procedure

def entry (h : Heading) (forward : Bool) : Entry := ⟨h.name.val, h.kind, forward⟩

def returnError? (h : Heading) : Option Diagnostic :=
  match h.returned with
  | none => none
  | some (_, type) =>
    if type.declared = .primitive .integer ∨ type.declared = .primitive .real then none
    else some ⟨.returnType h.name.val.text type.declared, type.first.position⟩

def parameterError? (h : Heading) : Option Diagnostic :=
  ((withEarlier h.parameterNames).find? fun p => p.2.text ∈ p.1.map Token.text).map fun p =>
    ⟨.refused (.duplicateParameter p.2.text), p.2.position⟩

end Heading

def Variables.entries (v : Variables) : List Entry :=
  v.names.list.map fun name => ⟨name, .variable, false⟩

namespace Block

def types : Block → List TypeExpr
  | empty => []
  | var list rest => list.type :: rest.types
  | forward heading _ _ rest => heading.types ++ rest.types
  | defined heading _ inner _ _ rest => heading.types ++ (inner.types ++ rest.types)

def headings : Block → List Heading
  | empty => []
  | var _ rest => rest.headings
  | forward heading _ _ rest => heading :: rest.headings
  | defined heading _ inner _ _ rest => heading :: (inner.headings ++ rest.headings)

def entries : Block → List Entry
  | empty => []
  | var list rest => list.entries ++ rest.entries
  | forward heading _ _ rest => heading.entry true :: rest.entries
  | defined heading _ _ _ _ rest => heading.entry false :: rest.entries

def bodies : Block → List (List Entry)
  | empty => []
  | var _ rest => rest.bodies
  | forward _ _ _ rest => rest.bodies
  | defined _ _ inner _ _ rest => inner.entries :: (inner.bodies ++ rest.bodies)

def namespaces (b : Block) : List (List Entry) := b.entries :: b.bodies

/-- All that a program does against the rules. -/
def violations (b : Block) : List Diagnostic :=
  (b.types.flatMap TypeExpr.ranges).filterMap Range.error? ++
    (b.types.filterMap fun type => type.element.size?).filterMap Size.error? ++
    b.headings.filterMap Heading.returnError? ++
    b.headings.filterMap Heading.parameterError? ++
    b.namespaces.flatMap Entry.conflicts

end Block

end SyntaxTree

end DeclarationChecker.Declaration
