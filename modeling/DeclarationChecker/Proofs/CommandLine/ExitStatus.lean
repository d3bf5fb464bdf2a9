import DeclarationChecker.CommandLine.Run
import DeclarationChecker.Proofs.Lr.Names
import DeclarationChecker.Proofs.Lr.Totality

set_option autoImplicit false

namespace DeclarationChecker.Text.Utf8

variable {text : CodePoints} {texts : List CodePoints}

theorem encode_of_isWellFormed (h : text.isWellFormed = true) :
    encode text = .ok (String.ofList (text.toList.map CodePoint.toChar)) := by
  rw [encode, List.dropWhile_eq_nil_iff.2 (List.all_eq_true.1 h)]

@[simp] theorem encode_ofString (text : String) : encode (.ofString text) = .ok text := by
  have characters : text.toList.map (CodePoint.toChar ∘ CodePoint.ofChar) = text.toList := by
    simp [Function.comp_def]
  rw [encode_of_isWellFormed (CodePoints.isWellFormed_ofString text), CodePoints.ofString,
    CodePoints.ofChars, List.map_map, characters, String.ofList_toList]

theorem mapM_encode_of_isWellFormed (h : ∀ text ∈ texts, text.isWellFormed = true) :
    ∃ written, texts.mapM encode = .ok written := by
  induction texts with
  | nil => exact ⟨[], rfl⟩
  | cons text texts ih =>
    obtain ⟨here, others⟩ := List.forall_mem_cons.1 h
    obtain ⟨written, encoded⟩ := ih others
    rw [List.mapM_cons, encode_of_isWellFormed here, encoded]
    exact ⟨_, rfl⟩

theorem mapM_encode_ofStrings (strings : List String) :
    (CodePoints.ofStrings strings).mapM encode = .ok strings := by
  induction strings with
  | nil => rfl
  | cons text strings ih =>
    change (CodePoints.ofString text :: CodePoints.ofStrings strings).mapM encode = _
    rw [List.mapM_cons, encode_ofString, ih]
    rfl

theorem mapM_encode_append_ofStrings (texts : List CodePoints) (strings : List String) :
    (texts ++ CodePoints.ofStrings strings).mapM encode = (texts.mapM encode).map (· ++ strings) := by
  rw [List.mapM_append, mapM_encode_ofStrings]
  cases texts.mapM encode <;> rfl

end DeclarationChecker.Text.Utf8

namespace DeclarationChecker.CommandLine

open Text

def Correct (source : String) : Prop := (Declaration.check source).diagnostics = []

instance (source : String) : Decidable (Correct source) :=
  inferInstanceAs (Decidable ((Declaration.check source).diagnostics = []))

def deserved (verdict : Lr.Verdict) (source : String) : Status :=
  if verdict.ok = true ∧ Correct source then .ok else .rejected

section

variable {verdict : Lr.Verdict} {source : String}

theorem deserved_code_eq_zero_iff :
    (deserved verdict source).code = 0 ↔ verdict.ok = true ∧ Correct source := by
  unfold deserved
  split <;> simp [*, Status.code]

theorem deserved_code_eq_one_iff :
    (deserved verdict source).code = 1 ↔ ¬(verdict.ok = true ∧ Correct source) := by
  unfold deserved
  split <;> simp [*, Status.code]

theorem checkSource_status {table : Lr.ParseTable} (all : Bool) :
    (checkSource source all).status = deserved (.accepted table) source := by
  unfold checkSource deserved Correct
  dsimp only [Lr.Verdict.ok]
  split <;> simp [*]

theorem checkSource_printed (source : String) (all : Bool) :
    ∃ strings, (checkSource source all).printed = CodePoints.ofStrings strings := by
  unfold checkSource
  dsimp only
  split <;> exact ⟨_, rfl⟩

theorem deserved_of_not_ok (unfavourable : verdict.ok = false) : deserved verdict source = .rejected :=
  if_neg fun both => Bool.false_ne_true (unfavourable.symm.trans both.1)

/-- Only what is announced may hold a name of the grammar. -/
theorem run_of_judge {g : Grammar} (judged : Lr.judge g = .ok verdict) (all tables : Bool) :
    ∃ report strings, run source g all tables = .ok report ∧ report.status = deserved verdict source ∧
      report.printed = announced tables verdict ++ CodePoints.ofStrings strings := by
  unfold run
  rw [judged]
  -- Without a table the source is not looked at, and the verdict is unfavourable.
  cases verdict with
  | malformed problem =>
    exact ⟨_, [], rfl, (deserved_of_not_ok rfl).symm, (List.append_nil _).symm⟩
  | conflicting states conflict =>
    exact ⟨_, [], rfl, (deserved_of_not_ok rfl).symm, (List.append_nil _).symm⟩
  | accepted table =>
    obtain ⟨strings, printed⟩ := checkSource_printed source all
    exact ⟨_, strings, rfl, checkSource_status all, congrArg (announced tables _ ++ ·) printed⟩

theorem isWellFormed_of_announced {g : Grammar} (spelled : g.Spelled)
    (judged : Lr.judge g = .ok verdict) (tables : Bool) :
    ∀ text ∈ announced tables verdict, text.isWellFormed = true := by
  obtain ⟨message, table⟩ := Lr.isWellFormed_of_judge spelled judged
  cases verdict with
  | malformed problem => simpa [announced, Lr.Verdict.table?, rejection] using message
  | conflicting states conflict => simpa [announced, Lr.Verdict.table?, rejection] using message
  | accepted table' =>
    have render := table table' rfl
    cases tables <;> simp_all [announced, Lr.Verdict.table?]

theorem isWellFormed_of_ok (accepted : verdict.ok = true) :
    ∀ text ∈ announced false verdict, text.isWellFormed = true := by
  cases verdict with
  | malformed problem => cases accepted
  | conflicting states conflict => cases accepted
  | accepted table => simp [announced, Lr.Verdict.table?, Lr.Verdict.message]

end

theorem exists_verdict (g : Grammar) : ∃ verdict, Lr.judge g = .ok verdict := by
  rcases Lr.judge_cases g with ⟨problem, judged⟩ | ⟨judged, -⟩ | ⟨conflict, judged⟩
  · exact ⟨_, judged⟩
  · exact ⟨_, judged⟩
  · exact ⟨_, judged⟩

/-- The source can be read, whatever its bytes are, and the grammar is a description. -/
structure Given (files : Files) (options : Options) (bytes : List UInt8) (g : Grammar) : Prop where
  path : nul ∉ options.source.toList
  readable : files options.source = .ok bytes
  loaded : loadGrammar files options.grammar = .ok (.ok g)

section

variable {files : Files} {arguments : List String} {options : Options} {bytes : List UInt8}
  {g : Grammar}

namespace Given

theorem readText_eq (given : Given files options bytes g) : readText files options.source =
    ((Utf8.decode bytes).map normalizeLineEndings).mapError .undecodable := by
  rw [readText, if_neg given.path, given.readable]
  dsimp only
  cases Utf8.decode bytes <;> rfl

theorem perform_of_undecodable (given : Given files options bytes g) {e : Utf8.DecodeError}
    (undecodable : Utf8.decode bytes = .error e) :
    perform files options = .error (.undecodable e) := by
  rw [perform, given.readText_eq, undecodable]
  rfl

theorem perform_of_decode (given : Given files options bytes g) {text : List Char}
    (decoded : Utf8.decode bytes = .ok text) :
    perform files options =
      (run (String.ofList (normalizeLineEndings text)) g options.all options.tables).mapError .table := by
  rw [perform, given.readText_eq, decoded, given.loaded]
  dsimp only [Except.map, Except.mapError]
  cases run _ g options.all options.tables <;> rfl

end Given

theorem execute_of_parse (parsed : parseArguments arguments = .ok options) :
    execute files arguments = (perform files options).bind fun report =>
      ((report.printed.mapM Utf8.encode).mapError .unencodable).map fun printed =>
        ⟨report.status, lines printed,
          lines ((report.log.filter (LogLine.shows options.verbose)).map LogLine.render)⟩ := by
  rw [execute, parsed]
  dsimp only [bind, Except.bind]
  cases perform files options with
  | error fault => rfl
  | ok report => cases report.printed.mapM Utf8.encode <;> rfl

/-- Given a source and a grammar, the command ends with status 0 if the grammar is accepted and the
source is correct, and else with status 1, however it is called. It is left without a status by two
things: a source that is no UTF-8, and a name with a surrogate in what has to be printed about the
grammar. -/
theorem execute_status (parsed : parseArguments arguments = .ok options)
    (given : Given files options bytes g) :
    (∀ e, Utf8.decode bytes = .error e → execute files arguments = .error (.undecodable e)) ∧
    ∀ text, Utf8.decode bytes = .ok text → ∃ verdict, Lr.judge g = .ok verdict ∧
      (∀ e, (announced options.tables verdict).mapM Utf8.encode = .error e →
        execute files arguments = .error (.unencodable e)) ∧
      (∀ shown, (announced options.tables verdict).mapM Utf8.encode = .ok shown →
        ∃ result, execute files arguments = .ok result ∧
          (result.status.code = 0 ↔
            verdict.ok = true ∧ Correct (String.ofList (normalizeLineEndings text))) ∧
          (result.status.code = 1 ↔
            ¬(verdict.ok = true ∧ Correct (String.ofList (normalizeLineEndings text))))) ∧
      (g.Spelled ∨ verdict.ok = true ∧ options.tables = false →
        ∃ shown, (announced options.tables verdict).mapM Utf8.encode = .ok shown) := by
  rw [execute_of_parse parsed]
  constructor
  · intro e undecodable
    rw [given.perform_of_undecodable undecodable]
    rfl
  · intro text decoded
    obtain ⟨verdict, judged⟩ := exists_verdict g
    obtain ⟨report, strings, ran, status, printed⟩ := run_of_judge judged options.all options.tables
    rw [given.perform_of_decode decoded, ran]
    dsimp only [Except.mapError, Except.bind]
    rw [printed, Utf8.mapM_encode_append_ofStrings]
    refine ⟨verdict, judged, ?_, ?_, ?_⟩
    · intro e unencodable
      rw [unencodable]
      rfl
    · intro shown encoded
      rw [encoded]
      refine ⟨_, rfl, ?_⟩
      dsimp only
      rw [status]
      exact ⟨deserved_code_eq_zero_iff, deserved_code_eq_one_iff⟩
    · rintro (spelled | ⟨accepted, untold⟩)
      · exact Utf8.mapM_encode_of_isWellFormed (isWellFormed_of_announced spelled judged _)
      · rw [untold]
        exact Utf8.mapM_encode_of_isWellFormed (isWellFormed_of_ok accepted)

end

def ascii (text : String) : List UInt8 := text.toList.map fun c => c.toNat.toUInt8

/-- A source that ends its line with two characters, and a grammar of one sentence that starts with
the given symbol. -/
def smallFiles (start : String) : Files
  | "a.pas" => .ok (ascii "var x: real;\r\n")
  | "g.json" => .ok (ascii ("\x7b\"startSymbol\": \"" ++ start ++ "\", \"terminals\": [\"a\"], " ++
      "\"nonterminals\": [\"S\"], \"productions\": \x7b\"S\": [[\"a\"]]\x7d\x7d"))
  | _ => .error .missing

def smallGrammar (start : Name) : Grammar := ⟨["a"], ["S"], start, .ofList [("S", [["a"]])]⟩

theorem execute_status_accepted : ∃ result,
    execute (smallFiles "S") ["a.pas", "--all", "--grammar", "g.json", "-v", "--tables"] = .ok result ∧
      result.status.code = 0 := by
  have parsed : parseArguments ["a.pas", "--all", "--grammar", "g.json", "-v", "--tables"] =
      .ok ⟨"a.pas", some "g.json", true, true, true⟩ := by
    decide +kernel
  have given : Given (smallFiles "S") ⟨"a.pas", some "g.json", true, true, true⟩
      (ascii "var x: real;\r\n") (smallGrammar "S") :=
    ⟨by decide, rfl, by decide +kernel⟩
  have accepted : (Lr.judge (smallGrammar "S")).map Lr.Verdict.ok = .ok true := by decide +kernel
  obtain ⟨verdict, judged, -, ends, printable⟩ :=
    (execute_status parsed given).2 "var x: real;\r\n".toList (by decide +kernel)
  obtain ⟨shown, encoded⟩ := printable (.inl (by decide))
  obtain ⟨result, executed, zero, -⟩ := ends shown encoded
  rw [judged] at accepted
  exact ⟨result, executed, zero.2 ⟨Except.ok.inj accepted, by decide +kernel⟩⟩

def badSource : Files := fun _ => .ok [0xFF]

def surrogate : CodePoint := .ofNat 0xD800

/-- A single byte that starts no character is enough, and so is an escape in the grammar. -/
theorem execute_no_status :
    (parseArguments ["a.pas"] = .ok ⟨"a.pas", none, false, false, false⟩ ∧
      Given badSource ⟨"a.pas", none, false, false, false⟩ [0xFF] Grammar.declarations ∧
      execute badSource ["a.pas"] = .error (.undecodable ⟨0, 0xFF, [], .invalidStart⟩)) ∧
    parseArguments ["a.pas", "--grammar", "g.json"] = .ok ⟨"a.pas", some "g.json", false, false, false⟩ ∧
      Given (smallFiles "\\ud800") ⟨"a.pas", some "g.json", false, false, false⟩
        (ascii "var x: real;\r\n") (smallGrammar ⟨[surrogate]⟩) ∧
      execute (smallFiles "\\ud800") ["a.pas", "--grammar", "g.json"] =
        .error (.unencodable ⟨40, surrogate, 1⟩) := by
  refine ⟨⟨by decide +kernel, ⟨by decide, rfl, rfl⟩, by decide +kernel⟩, by decide +kernel, ?_,
    by decide +kernel⟩
  exact ⟨by decide, rfl, by decide +kernel⟩

end DeclarationChecker.CommandLine
