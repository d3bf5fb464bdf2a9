import DeclarationChecker.Declaration.Constructs

set_option autoImplicit false

/-!
Declarations as trees. A tree keeps the tokens it was built from, each with a proof that it passes
the test of its place, so every tree is a possible text: `tokens` writes it out. `events` is what
a reader of that text has to report.
-/

namespace DeclarationChecker.Declaration.SyntaxTree

abbrev Tested (test : Token → Bool) := {t : Token // test t = true}

abbrev Keyword (word : String) := Tested fun t => t.isKeyword word

abbrev Mark (mark : String) := Tested fun t => t.isPunctuation mark

abbrev Identifier := Tested fun t => t.kind = .identifier

abbrev Number := Tested fun t => t.kind = .number

abbrev Dots := Tested fun t => t.kind = .dots

structure Names where
  first : Identifier
  others : List (Mark "," × Identifier)

namespace Names

def otherTokens (others : List (Mark "," × Identifier)) : List Token :=
  others.flatMap fun other => [other.1.val, other.2.val]

def tokens (n : Names) : List Token := n.first.val :: otherTokens n.others

def list (n : Names) : List Token := n.first.val :: n.others.map fun other => other.2.val

end Names

structure Range where
  array : Keyword "array"
  opening : Mark "["
  low : Number
  dots : Dots
  high : Number
  closing : Mark "]"
  of : Keyword "of"

namespace Range

def tail (r : Range) : List Token :=
  [r.opening.val, r.low.val, r.dots.val, r.high.val, r.closing.val, r.of.val]

def tokens (r : Range) : List Token := r.array.val :: r.tail

def bounds (r : Range) : DeclaredType.Range :=
  ⟨Numeral.ofText r.low.val.text, Numeral.ofText r.high.val.text⟩

def event (r : Range) : Event := .range r.bounds r.low.val.position

end Range

structure Size where
  opening : Mark "["
  number : Number
  closing : Mark "]"

namespace Size

def tokens (s : Size) : List Token := [s.opening.val, s.number.val, s.closing.val]

def numeral (s : Size) : Numeral := Numeral.ofText s.number.val.text

def event (s : Size) : Event := .stringSize s.numeral s.number.val.position

end Size

inductive Element where
  | primitive (word : Token) (type : PrimitiveType) (named : primitive? word = some type)
  | string (word : Keyword "string") (size : Option Size)

namespace Element

def first : Element → Token
  | primitive word _ _ => word
  | string word _ => word.val

def tail : Element → List Token
  | primitive _ _ _ => []
  | string _ none => []
  | string _ (some size) => size.tokens

def tokens (e : Element) : List Token := e.first :: e.tail

def declared : Element → DeclaredType
  | primitive _ type _ => .primitive type
  | string _ size => .string (size.map Size.numeral)

def size? : Element → Option Size
  | primitive _ _ _ => none
  | string _ size => size

def events (e : Element) : List Event := (e.size?.map Size.event).toList

end Element

structure TypeExpr where
  ranges : List Range
  element : Element

namespace TypeExpr

def tokens (t : TypeExpr) : List Token := t.ranges.flatMap Range.tokens ++ t.element.tokens

def first (t : TypeExpr) : Token := ((t.ranges.map fun r => r.array.val).head?).getD t.element.first

def declared (t : TypeExpr) : DeclaredType := .ofRanges (t.ranges.map Range.bounds) t.element.declared

def events (t : TypeExpr) : List Event := t.ranges.map Range.event ++ t.element.events

end TypeExpr

structure Section where
  names : Names
  colon : Mark ":"
  type : TypeExpr

namespace Section

def tokens (s : Section) : List Token := s.names.tokens ++ s.colon.val :: s.type.tokens

def parameters (s : Section) : List Parameter :=
  s.names.list.map fun name => ⟨name, s.type.declared⟩

end Section

inductive Parameters where
  | absent
  | empty (opening : Mark "(") (closing : Mark ")")
  | listed (opening : Mark "(") (first : Section) (others : List (Mark ";" × Section))
      (closing : Mark ")")

namespace Parameters

def otherTokens (others : List (Mark ";" × Section)) : List Token :=
  others.flatMap fun other => other.1.val :: other.2.tokens

def tokens : Parameters → List Token
  | absent => []
  | empty opening closing => [opening.val, closing.val]
  | listed opening first others closing =>
    opening.val :: (first.tokens ++ (otherTokens others ++ [closing.val]))

def list : Parameters → List Parameter
  | absent => []
  | empty _ _ => []
  | listed _ first others _ =>
    first.parameters ++ (others.map fun other => other.2.parameters).flatten

def events : Parameters → List Event
  | absent => []
  | empty _ _ => []
  | listed _ first others _ =>
    first.type.events ++ others.flatMap fun other => other.2.type.events

end Parameters

structure Variables where
  var : Keyword "var"
  names : Names
  colon : Mark ":"
  type : TypeExpr
  semicolon : Mark ";"

namespace Variables

def tail (v : Variables) : List Token :=
  v.names.tokens ++ v.colon.val :: (v.type.tokens ++ [v.semicolon.val])

def tokens (v : Variables) : List Token := v.var.val :: v.tail

def events (v : Variables) : List Event :=
  v.names.list.map .variable ++ (v.type.events ++ [.variableList v.type.declared])

end Variables

structure Heading where
  keyword : Tested fun t => t.isKeyword "procedure" || t.isKeyword "function"
  name : Identifier
  parameters : Parameters
  returned : Option (Mark ":" × TypeExpr)
  returns : keyword.val.isKeyword "function" = returned.isSome
  semicolon : Mark ";"

namespace Heading

def returnedTokens : Option (Mark ":" × TypeExpr) → List Token
  | none => []
  | some (colon, type) => colon.val :: type.tokens

def tail (h : Heading) : List Token :=
  h.name.val :: (h.parameters.tokens ++ (returnedTokens h.returned ++ [h.semicolon.val]))

def tokens (h : Heading) : List Token := h.keyword.val :: h.tail

def parameterNames (h : Heading) : List Token := h.parameters.list.map Parameter.name

def returnType (h : Heading) : Option DeclaredType := h.returned.map fun r => r.2.declared

def header (h : Heading) (forward : Bool) : Header :=
  ⟨h.keyword.val, h.name.val, h.parameterNames, h.returnType, forward⟩

def returnEvents (name : Token) : Option (Mark ":" × TypeExpr) → List Event
  | none => []
  | some (_, type) => type.events ++ [.returnType name type.declared type.first.position]

def events (h : Heading) : List Event := h.parameters.events ++ returnEvents h.name.val h.returned

def opening (h : Heading) (forward : Bool) : List Event :=
  [.subprogram (h.header forward), .enter h.name.val.text, .parameters h.parameterNames]

end Heading

/-- The declarations of one name space, in the order in which they stand. Those inside a body are
a block of their own. -/
inductive Block where
  | empty
  | var (list : Variables) (rest : Block)
  | forward (heading : Heading) (word : Keyword "forward") (semicolon : Mark ";") (rest : Block)
  | defined (heading : Heading) (opening : Keyword "begin") (inner : Block)
      (closing : Keyword "end") (semicolon : Option (Mark ";")) (rest : Block)

namespace Block

def tokens : Block → List Token
  | empty => []
  | var list rest => list.tokens ++ rest.tokens
  | forward heading word semicolon rest =>
    heading.tokens ++ ([word.val, semicolon.val] ++ rest.tokens)
  | defined heading opening inner closing semicolon rest =>
    heading.tokens ++ (opening.val :: (inner.tokens ++
      (closing.val :: (semicolon.map Subtype.val).toList)) ++ rest.tokens)

def events : Block → List Event
  | empty => []
  | var list rest => list.events ++ rest.events
  | forward heading _ _ rest => heading.events ++ (heading.opening true ++ .leave :: rest.events)
  | defined heading _ inner _ _ rest =>
    heading.events ++ (heading.opening false ++ (inner.events ++ .leave :: rest.events))

def depth : Block → Nat
  | empty => 0
  | var _ rest => rest.depth
  | forward _ _ _ rest => rest.depth
  | defined _ _ inner _ _ rest => max (inner.depth + 1) rest.depth

end Block

end DeclarationChecker.Declaration.SyntaxTree
