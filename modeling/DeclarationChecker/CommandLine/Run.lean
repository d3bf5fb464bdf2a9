import DeclarationChecker.Declaration.Event
import DeclarationChecker.Lr.Verdict
import DeclarationChecker.CommandLine.Files
import DeclarationChecker.CommandLine.Arguments
import DeclarationChecker.Declaration.Constructs
import DeclarationChecker.Grammar.Basic
import DeclarationChecker.Grammar.OfJson

set_option autoImplicit false

namespace DeclarationChecker.CommandLine

inductive Level where
  | debug
  | info
  | error
  deriving DecidableEq, Repr

structure LogLine where
  level : Level
  source : String
  text : String
  deriving DecidableEq, Repr

namespace LogLine

def render (l : LogLine) : String := s!"{l.source}: {l.text}"

def shows (verbose : Bool) (l : LogLine) : Bool := verbose || l.level ≠ .debug

def ofNote : Declaration.Note → LogLine
  | .variableList type depth =>
    ⟨.debug, "declcheck.parse", s!"var ... : {type.describe} (depth {depth})"⟩
  | .header h depth =>
    let count := h.parameters.length
    let forward := if h.forward then ", forward" else ""
    ⟨.debug, "declcheck.parse",
      s!"{h.keyword.text} {h.name.text} ({count} params{forward}) at depth {depth}"⟩
  | .completed kind name =>
    ⟨.debug, "declcheck.scope", s!"{kind.name} '{name}' completes its forward declaration"⟩
  | .entered label depth => ⟨.debug, "declcheck.scope", s!"enter {label} (depth {depth})"⟩
  | .left label depth => ⟨.debug, "declcheck.scope", s!"exit {label} (depth {depth})"⟩
  | .tooDeep position =>
    ⟨.info, "declcheck.parse", s!"Ran out of stack at {position.describe}"⟩

def states (count : Nat) : LogLine := ⟨.debug, "declcheck.lr1", s!"Generated {count} states"⟩

/-- The states are counted once they are known, before a conflict is found. -/
def ofVerdict : Lr.Verdict → List LogLine
  | .malformed _ => []
  | .conflicting count conflict =>
    [states count, ⟨.info, "declcheck.lr1", s!"Grammar is not LR(1): {conflict.summary.escaped}"⟩]
  | .accepted table => [states table.stateCount]

def ofUnreadable (u : Unreadable) : LogLine :=
  ⟨.error, "declcheck", s!"Unable to read input: {u.message}"⟩

end LogLine

/-! ### Running -/

open Text

inductive Status where
  | ok
  | rejected
  | unusable
  deriving DecidableEq, Repr

def Status.code : Status → Nat
  | .ok => 0
  | .rejected => 1
  | .unusable => 2

/-- What a run of the command leaves behind: printed texts, each ending its line, and the log. A
surrogate in the log is escaped, but one in a printed text cannot be written. -/
structure Report where
  status : Status
  printed : List CodePoints
  log : List LogLine
  deriving DecidableEq, Repr

def chosenDiagnostics (all : Bool) (diagnostics : List Diagnostic) : List Diagnostic :=
  let sorted := Diagnostic.inOrder diagnostics
  if all then sorted else sorted.take 1

def checkSource (source : String) (all : Bool) : Report :=
  let findings := Declaration.check source
  let log := findings.notes.map LogLine.ofNote
  if findings.diagnostics = [] then ⟨.ok, CodePoints.ofStrings ["Declarations are correct"], log⟩
  else
    let shown := chosenDiagnostics all findings.diagnostics
    ⟨.rejected, CodePoints.ofStrings (shown.map Diagnostic.describe), log⟩

def rejection (reason : CodePoints) : CodePoints := "Grammar is not LR(1): " ++ reason

/-- What is printed about a grammar: the verdict, and behind it the table if it is asked for. -/
def announced (tables : Bool) (verdict : Lr.Verdict) : List CodePoints :=
  match verdict.table? with
  | none => [rejection verdict.message]
  | some table =>
    ("Grammar is LR(1): " ++ verdict.message) :: if tables then [table.render] else []

def run (source : String) (g : Grammar) (all tables : Bool) : Except Lr.TableFault Report := do
  let verdict ← Lr.judge g
  let log := LogLine.ofVerdict verdict
  if verdict.ok then
    let checked := checkSource source all
    return ⟨checked.status, announced tables verdict ++ checked.printed, log ++ checked.log⟩
  else return ⟨.rejected, announced tables verdict, log⟩

inductive Failure where
  | nulInPath
  | undecodable (error : Utf8.DecodeError)
  | unencodable (error : Utf8.EncodeError)
  | overlongInteger (digits : Nat)
  | table (fault : Lr.TableFault)
  deriving DecidableEq, Repr

def Failure.message : Failure → String
  | .nulInPath => "embedded null byte"
  | .undecodable e => e.message
  | .unencodable e => e.message
  | .overlongInteger digits => Json.describeOverlong digits
  | .table _ => "The tables of the grammar cannot be built"

/-- A path that cannot be read is reported; the other faults have no answer. -/
def TextFault.outcome : TextFault → Except Failure Report
  | .nulInPath => .error .nulInPath
  | .unreadable u => .ok ⟨.unusable, [], [.ofUnreadable u]⟩
  | .undecodable e => .error (.undecodable e)

def loadGrammar (files : Files) (path : Option String) :
    Except TextFault (Except Grammar.LoadFault Grammar) :=
  match path.filter (· ≠ "") with
  | none => .ok (.ok Grammar.declarations)
  | some path => (readText files path).map Grammar.ofJson

def perform (files : Files) (options : Options) : Except Failure Report :=
  match readText files options.source with
  | .error fault => fault.outcome
  | .ok source =>
    match loadGrammar files options.grammar with
    | .error fault => fault.outcome
    | .ok (.error (.overlongInteger digits)) => .error (.overlongInteger digits)
    | .ok (.error fault) => .ok ⟨.rejected, [rejection fault.message], []⟩
    | .ok (.ok g) =>
      match run (String.ofList source) g options.all options.tables with
      | .ok report => .ok report
      | .error fault => .error (.table fault)

def usageLine : String :=
  "usage: declcheck [-h] [--grammar GRAMMAR] [--all] [--tables] [-v] source_path"

def helpLines : List String :=
  [usageLine,
    "",
    "Check Pascal-style variable, procedure and function declarations",
    "",
    "positional arguments:",
    "  source_path        Path to the source file to check",
    "",
    "options:",
    "  -h, --help         show this help message and exit",
    "  --grammar GRAMMAR  Path to a JSON grammar description to check for LR(1)",
    "                     conflicts. The default is the description of the",
    "                     declaration language that ships with this package.",
    "  --all              Print every diagnostic, sorted by position, instead of",
    "                     only the first one.",
    "  --tables           Print the ACTION/GOTO tables when the grammar is",
    "                     accepted.",
    "  -v, --verbose      Enable debug logging."]

structure Result where
  status : Status
  output : String
  errors : String
  deriving DecidableEq, Repr

def lines (texts : List String) : String := String.join (texts.map (· ++ "\n"))

def execute (files : Files) (arguments : List String) : Except Failure Result :=
  match parseArguments arguments with
  | .error .help => .ok ⟨.ok, lines helpLines, ""⟩
  | .error (.usage fault) =>
    .ok ⟨.unusable, "", lines [usageLine, s!"declcheck: error: {fault.message}"]⟩
  | .ok options => do
    let report ← perform files options
    let printed ← (report.printed.mapM Utf8.encode).mapError .unencodable
    let shown := report.log.filter (LogLine.shows options.verbose)
    return ⟨report.status, lines printed, lines (shown.map LogLine.render)⟩

end DeclarationChecker.CommandLine
