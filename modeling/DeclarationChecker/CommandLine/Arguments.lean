import DeclarationChecker.Text.CharacterClass
import DeclarationChecker.Text.CodePoints

set_option autoImplicit false

namespace DeclarationChecker.CommandLine

inductive Switch where
  | help
  | grammar
  | all
  | tables
  | verbose
  deriving DecidableEq, Repr

namespace Switch

def takesValue : Switch → Bool
  | grammar => true
  | _ => false

def name : Switch → String
  | help => "-h/--help"
  | grammar => "--grammar"
  | all => "--all"
  | tables => "--tables"
  | verbose => "-v/--verbose"

def spellings : List (String × Switch) :=
  [("-h", help), ("--help", help), ("--grammar", grammar), ("--all", all), ("--tables", tables),
    ("-v", verbose), ("--verbose", verbose)]

def ofSpelling? (spelling : String) : Option Switch := spellings.lookup spelling

def ofLetter? (letter : Char) : Option Switch := ofSpelling? (String.ofList ['-', letter])

def completions (shortened : List Char) : List (String × Switch) :=
  spellings.filter fun entry => shortened.isPrefixOf entry.1.toList

end Switch

inductive UsageFault where
  | ambiguous (argument : String) (candidates : List String)
  | valueIgnored (switch : Switch) (value : String)
  | valueMissing (switch : Switch)
  | sourceMissing
  | unrecognized (arguments : List String)
  deriving DecidableEq, Repr

def UsageFault.message : UsageFault → String
  | .ambiguous argument candidates =>
    let listed := ", ".intercalate candidates
    s!"ambiguous option: {argument} could match {listed}"
  | .valueIgnored switch value =>
    s!"argument {switch.name}: ignored explicit argument {Text.quoted value}"
  | .valueMissing switch => s!"argument {switch.name}: expected one argument"
  | .sourceMissing => "the following arguments are required: source_path"
  | .unrecognized arguments =>
    let listed := " ".intercalate arguments
    s!"unrecognized arguments: {listed}"

/-- What an argument is. A switch may come with a value, after `=` or after its letter. -/
inductive Role where
  | switch (switch : Switch) (value : Option String)
  /-- A letter switch with more letters after it, none of which takes a value. -/
  | cluster (first : Switch) (more : List Char)
  | unknownSwitch
  | operand
  | separator
  deriving DecidableEq, Repr

def splitValue (argument : List Char) : List Char × Option String :=
  match argument.dropWhile (· ≠ '=') with
  | [] => (argument, none)
  | _ :: value => (argument.takeWhile (· ≠ '='), some (String.ofList value))

def isNumber (text : List Char) : Bool :=
  match text.dropWhile Text.isDecimalDigit with
  | [] => !text.isEmpty
  | '.' :: fraction => !fraction.isEmpty && fraction.all Text.isDecimalDigit
  | _ => false

/-- A minus sign and a number, which no switch looks like. A line may end after the number. -/
def isNegativeNumber : List Char → Bool
  | '-' :: rest => isNumber (if rest.getLast? = some '\n' then rest.dropLast else rest)
  | _ => false

def letterRole (switch : Switch) : List Char → Role
  | [] => .switch switch none
  | more =>
    if switch.takesValue then .switch switch (some (String.ofList more))
    else .cluster switch more

def shortenedRole (argument : List Char) : Except UsageFault Role :=
  let split := splitValue argument
  match argument with
  | '-' :: '-' :: _ =>
    match Switch.completions split.1 with
    | [] => fallback
    | [entry] => .ok (.switch entry.2 split.2)
    | entries => .error (.ambiguous (String.ofList argument) (entries.map Prod.fst))
  | '-' :: letter :: more =>
    match Switch.ofLetter? letter with
    | some switch => .ok (letterRole switch more)
    | none => fallback
  | _ => fallback
where
  /-- Negative numbers and texts with a blank are operands. -/
  fallback : Except UsageFault Role :=
    .ok (if isNegativeNumber argument || argument.contains ' ' then .operand else .unknownSwitch)

def fullRole (switch : Switch) (spelling : List Char) (value : String) : Role :=
  match spelling, value.toList with
  | ['-', _], c :: rest =>
    if switch.takesValue then .switch switch (some value) else .cluster switch (c :: rest)
  | _, _ => .switch switch (some value)

def roleOf (argument : String) : Except UsageFault Role :=
  match argument.toList with
  | '-' :: rest =>
    match Switch.ofSpelling? argument with
    | some switch => .ok (.switch switch none)
    | none =>
      if rest = [] then .ok .operand
      else
        let split := splitValue argument.toList
        match Switch.ofSpelling? (String.ofList split.1), split.2 with
        | some switch, some value => .ok (fullRole switch split.1 value)
        | _, _ => shortenedRole argument.toList
  | _ => .ok .operand

structure Argument where
  text : String
  role : Role
  deriving DecidableEq, Repr

def classify : List String → Except UsageFault (List Argument)
  | [] => .ok []
  | text :: rest =>
    if text = "--" then .ok (⟨text, .separator⟩ :: rest.map fun t => ⟨t, .operand⟩)
    else do
      let role ← roleOf text
      return ⟨text, role⟩ :: (← classify rest)

structure Options where
  source : String
  grammar : Option String
  all : Bool
  tables : Bool
  verbose : Bool
  deriving DecidableEq, Repr

structure Gathered where
  source : Option String
  grammar : Option String
  all : Bool
  tables : Bool
  verbose : Bool
  extras : List String
  deriving DecidableEq, Repr

def Gathered.nothing : Gathered := ⟨none, none, false, false, false, []⟩

def Gathered.extra (g : Gathered) (text : String) : Gathered :=
  { g with extras := g.extras ++ [text] }

inductive Interruption where
  | help
  | usage (fault : UsageFault)
  deriving DecidableEq, Repr

def Gathered.turnOn (g : Gathered) : Switch → Except Interruption Gathered
  | .help => .error .help
  | .all => .ok { g with all := true }
  | .tables => .ok { g with tables := true }
  | .verbose => .ok { g with verbose := true }
  | .grammar => .error (.usage (.valueMissing .grammar))

/-- A later grammar replaces an earlier one; a separator as value names none. -/
def Gathered.setGrammar (g : Gathered) (value : String) : Gathered :=
  { g with grammar := if value = "--" then none else some value }

def clusterSwitches (first : Switch) : List Char → Except UsageFault (List Switch)
  | [] => .ok [first]
  | letter :: more =>
    match Switch.ofLetter? letter with
    | none => .error (.valueIgnored first (String.ofList (letter :: more)))
    | some next => (clusterSwitches next more).map (first :: ·)

def usage {α : Type} : Except UsageFault α → Except Interruption α
  | .ok a => .ok a
  | .error fault => .error (.usage fault)

/-- At a separator, which only operands follow. It is dropped together with a first operand. -/
def Gathered.atSeparator (g : Gathered) (operands : List String) : Gathered :=
  match g.source, operands with
  | none, source :: more => { g with source := some source, extras := g.extras ++ more }
  | _, _ => { g with extras := g.extras ++ "--" :: operands }

def startsWithSeparator (arguments : List Argument) : Bool :=
  (arguments.head?.map Argument.role) = some .separator

/-- Follows the arguments in order. The first operand is the source, and a separator right after
it is dropped. -/
def gather (g : Gathered) : List Argument → Except Interruption Gathered
  | [] => .ok g
  | ⟨text, .unknownSwitch⟩ :: rest => gather (g.extra text) rest
  | ⟨_, .cluster first more⟩ :: rest => do
    let switches ← usage (clusterSwitches first more)
    let turned ← switches.foldlM Gathered.turnOn g
    gather turned rest
  | ⟨_, .switch switch value⟩ :: rest =>
    match switch.takesValue, value with
    | false, none => do gather (← g.turnOn switch) rest
    | false, some text => .error (.usage (.valueIgnored switch text))
    | true, some text => gather (g.setGrammar text) rest
    | true, none =>
      match rest with
      | ⟨text, .operand⟩ :: more => gather (g.setGrammar text) more
      | _ => .error (.usage (.valueMissing switch))
  | ⟨_, .separator⟩ :: rest => .ok (g.atSeparator (rest.map Argument.text))
  | ⟨text, .operand⟩ :: rest =>
    if g.source = none then
      let found := { g with source := some text }
      if startsWithSeparator rest then
        .ok { found with extras := g.extras ++ rest.tail.map Argument.text }
      else gather found rest
    else gather (g.extra text) rest

def Gathered.options (g : Gathered) : Except UsageFault Options :=
  match g.source with
  | none => .error .sourceMissing
  | some source =>
    if g.extras = [] then .ok ⟨source, g.grammar, g.all, g.tables, g.verbose⟩
    else .error (.unrecognized g.extras)

def parseArguments (arguments : List String) : Except Interruption Options := do
  let classified ← usage (classify arguments)
  let gathered ← gather .nothing classified
  usage gathered.options

end DeclarationChecker.CommandLine
