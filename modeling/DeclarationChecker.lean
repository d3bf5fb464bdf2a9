import DeclarationChecker.Dictionary
import DeclarationChecker.Text.CharacterClass
import DeclarationChecker.Text.Lines
import DeclarationChecker.Text.CodePoints
import DeclarationChecker.Text.Utf8
import DeclarationChecker.Token.Basic
import DeclarationChecker.Declaration.Constructs
import DeclarationChecker.Grammar.Basic
import DeclarationChecker.Grammar.OfJson
import DeclarationChecker.Lr.Closure
import DeclarationChecker.Lr.Collection
import DeclarationChecker.Lr.Table
import DeclarationChecker.Lr.Verdict
import DeclarationChecker.CommandLine.Arguments
import DeclarationChecker.CommandLine.Files
import DeclarationChecker.CommandLine.Run
import DeclarationChecker.Main
import DeclarationChecker.Proofs.Grammar.Derivation
import DeclarationChecker.Proofs.Token.Spelling
import DeclarationChecker.Proofs.Declaration.SyntaxTree
import DeclarationChecker.Proofs.Declaration.Taking
import DeclarationChecker.Proofs.Declaration.Nesting
import DeclarationChecker.Proofs.Declaration.Lookahead
import DeclarationChecker.Proofs.Declaration.ReaderLaws
import DeclarationChecker.Proofs.Declaration.Accounting
import DeclarationChecker.Proofs.Declaration.Sentences
import DeclarationChecker.Proofs.Declaration.Program
import DeclarationChecker.Proofs.Declaration.SyntaxErrors
import DeclarationChecker.Proofs.Numeral.Value
import DeclarationChecker.Proofs.Declaration.Violations
import DeclarationChecker.Proofs.Declaration.Semantics
import DeclarationChecker.Proofs.Lr.Closure
import DeclarationChecker.Proofs.Lr.ViablePrefix
import DeclarationChecker.Proofs.Lr.Collection
import DeclarationChecker.Proofs.Lr.States
import DeclarationChecker.Proofs.Grammar.Validity
import DeclarationChecker.Proofs.Lr.Canonical
import DeclarationChecker.Proofs.Lr.Path
import DeclarationChecker.Proofs.Lr.Row
import DeclarationChecker.Proofs.Lr.Filling
import DeclarationChecker.Proofs.Lr.Contest
import DeclarationChecker.Proofs.Lr.Handles
import DeclarationChecker.Proofs.Lr.Cells
import DeclarationChecker.Proofs.Lr.Reordering
import DeclarationChecker.Proofs.Text.LineTable
import DeclarationChecker.Proofs.Token.Tokenization
import DeclarationChecker.Proofs.Token.Lines
import DeclarationChecker.Proofs.Declaration.Blame
import DeclarationChecker.Proofs.Declaration.Places
import DeclarationChecker.Proofs.Lr.Totality
import DeclarationChecker.Proofs.Lr.Names
import DeclarationChecker.Proofs.CommandLine.ExitStatus
import DeclarationChecker.Proofs.Lr.Saturation
import DeclarationChecker.Proofs.Lr.Shortest
import DeclarationChecker.Proofs.Lr.Numbering
import DeclarationChecker.Proofs.Lr.Report
import DeclarationChecker.Proofs.Declaration.Composition
import DeclarationChecker.Proofs.Declaration.Endings
import DeclarationChecker.Proofs.Declaration.Operations
import DeclarationChecker.Proofs.Declaration.Unwinding
import DeclarationChecker.Proofs.Declaration.Relocation
import DeclarationChecker.Proofs.Declaration.DeclaredNames
import DeclarationChecker.Proofs.Declaration.Layout
import DeclarationChecker.Proofs.Declaration.Continuation
import DeclarationChecker.Proofs.Declaration.TypeChecks
import DeclarationChecker.Proofs.Scope.Runs
import DeclarationChecker.Proofs.Scope.Records
import DeclarationChecker.Proofs.Scope.Resolution
import DeclarationChecker.Proofs.Token.Printing
import DeclarationChecker.Proofs.Declaration.TypePrinting
import DeclarationChecker.Proofs.Token.Invalid
import DeclarationChecker.Proofs.Lr.WriteOnce
import DeclarationChecker.Proofs.Json.Strings
import DeclarationChecker.Proofs.Json.Numbers
import DeclarationChecker.Proofs.Json.Writing
import DeclarationChecker.Proofs.Json.Reading
import DeclarationChecker.Proofs.Json.Refusal
import DeclarationChecker.Proofs.Grammar.Loading
