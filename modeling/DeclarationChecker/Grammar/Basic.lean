import DeclarationChecker.Dictionary
import DeclarationChecker.Repetition
import DeclarationChecker.Text.CodePoints

set_option autoImplicit false

namespace DeclarationChecker

open Text

/-- A symbol of a grammar. It may hold surrogates, which no declaration does. -/
abbrev Name := CodePoints

structure Grammar where
  terminals : List Name
  nonterminals : List Name
  start : Name
  productions : Dictionary Name (List (List Name))
  deriving DecidableEq, Repr

namespace Grammar

/-- The reserved symbol that stands for the end of the input. -/
def endSymbol : Name := "$"

def alternatives (g : Grammar) (name : Name) : List (List Name) :=
  (g.productions.get? name).getD []

def names (g : Grammar) : List Name :=
  g.terminals ++ g.nonterminals ++ [g.start] ++
    g.productions.entries.flatMap fun entry => entry.1 :: entry.2.flatten

def Spelled (g : Grammar) : Prop := ∀ name ∈ g.names, name.isWellFormed = true

instance (g : Grammar) : Decidable g.Spelled :=
  inferInstanceAs (Decidable (∀ name ∈ g.names, name.isWellFormed = true))

end Grammar

end DeclarationChecker

/-! ### What can be wrong with a description -/

namespace DeclarationChecker.Grammar

open Text

/-- What can be wrong with a description, in the order in which it is looked for. -/
inductive Problem where
  | noTerminals
  | noNonterminals
  | repeatedTerminal (name : Name)
  | repeatedNonterminal (name : Name)
  | ambiguousSymbol (name : Name)
  | reservedSymbol
  | unknownStart (name : Name)
  | foreignProductions (name : Name)
  | noProductions (name : Name)
  | unknownSymbol (name symbol : Name)
  deriving DecidableEq, Repr

def Problem.message : Problem → CodePoints
  | .noTerminals => "The grammar has no terminals"
  | .noNonterminals => "The grammar has no nonterminals"
  | .repeatedTerminal name => "Terminal '" ++ name ++ "' is listed more than once"
  | .repeatedNonterminal name => "Nonterminal '" ++ name ++ "' is listed more than once"
  | .ambiguousSymbol name => "'" ++ name ++ "' is both a terminal and a nonterminal"
  | .reservedSymbol => "Can't use '" ++ endSymbol ++ "' in grammars, it's reserved"
  | .unknownStart name => "The start symbol '" ++ name ++ "' is not a nonterminal"
  | .foreignProductions name => "Found productions for '" ++ name ++ "', which is not a nonterminal"
  | .noProductions name => "Nonterminal '" ++ name ++ "' has no productions"
  | .unknownSymbol name symbol =>
    "A production for '" ++ name ++ "' uses '" ++ symbol ++
      "', which is neither a terminal nor a nonterminal"

def declares (g : Grammar) (symbol : Name) : Bool :=
  g.terminals.contains symbol || g.nonterminals.contains symbol

def unknownSymbolOf? (g : Grammar) (name : Name) : Option Problem :=
  ((g.alternatives name).flatten.find? fun symbol => !g.declares symbol).map
    (.unknownSymbol name)

def problem? (g : Grammar) : Option Problem :=
  if g.terminals = [] then some .noTerminals
  else if g.nonterminals = [] then some .noNonterminals
  else
    (Repetition.first? id g.terminals).map .repeatedTerminal
    <|> (Repetition.first? id g.nonterminals).map .repeatedNonterminal
    <|> (g.nonterminals.find? g.terminals.contains).map .ambiguousSymbol
    <|> (if g.declares endSymbol then some .reservedSymbol else none)
    <|> (if g.nonterminals.contains g.start then none else some (.unknownStart g.start))
    <|> (g.productions.keys.find? fun name => !g.nonterminals.contains name).map
      .foreignProductions
    <|> (g.nonterminals.find? fun name => (g.alternatives name).isEmpty).map .noProductions
    <|> g.nonterminals.findSome? g.unknownSymbolOf?

/-! ### The declaration language -/

def declarationTerminals : List String :=
  ["var", "procedure", "function", "forward", "begin", "end", "array", "of", "integer", "real",
    "char", "boolean", "string", "ident", "number", ":", ";", ",", "(", ")", "[", "]", ".."]

def declarationRules : List (String × List (List String)) :=
  [("Program", [["DeclarationList"]]),
    ("DeclarationList", [[], ["Declaration", "DeclarationList"]]),
    ("Declaration", [["VarDecl"], ["ProcedureDecl"], ["FunctionDecl"]]),
    ("VarDecl", [["var", "IdentList", ":", "Type", ";"]]),
    ("IdentList", [["ident", "IdentTail"]]),
    ("IdentTail", [[], [",", "ident", "IdentTail"]]),
    ("ProcedureDecl", [["procedure", "ident", "ParamListOpt", ";", "DeclarationTail"]]),
    ("FunctionDecl",
      [["function", "ident", "ParamListOpt", ":", "Type", ";", "DeclarationTail"]]),
    ("DeclarationTail", [["forward", ";"], ["Body"]]),
    ("Body", [["begin", "DeclarationList", "end", "EndOpt"]]),
    ("EndOpt", [[], [";"]]),
    ("ParamListOpt", [[], ["(", "ParamBody", ")"]]),
    ("ParamBody", [[], ["ParamSections"]]),
    ("ParamSections", [["ParamSection", "ParamSectionTail"]]),
    ("ParamSectionTail", [[], [";", "ParamSection", "ParamSectionTail"]]),
    ("ParamSection", [["IdentList", ":", "Type"]]),
    ("Type",
      [["integer"], ["real"], ["char"], ["boolean"], ["string", "StringSizeOpt"],
        ["array", "[", "number", "..", "number", "]", "of", "Type"]]),
    ("StringSizeOpt", [[], ["[", "number", "]"]])]

def declarationProductions : Dictionary Name (List (List Name)) where
  entries := declarationRules.map fun rule => (↑rule.1, rule.2.map CodePoints.ofStrings)
  distinct := by decide

def declarations : Grammar where
  terminals := CodePoints.ofStrings declarationTerminals
  nonterminals := declarationProductions.keys
  start := "Program"
  productions := declarationProductions

end DeclarationChecker.Grammar
