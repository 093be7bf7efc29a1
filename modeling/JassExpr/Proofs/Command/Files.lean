import JassExpr.Command

/-!
# One file after another

A command works on one file after the other and prints line by line as it goes. What has been
printed stays, also when an error comes up later, and so does the mark that some file has failed. A
file nevertheless adds to a run just what running the command on that file alone comes to, for the
error of a file is always found before anything of the file is printed.
-/

namespace JassExpr

namespace Outcome

theorem append_empty (outcome : Outcome) : outcome.append empty = outcome := by
  simp [append, empty]

theorem empty_append (outcome : Outcome) : empty.append outcome = outcome := by
  simp [append, empty]

theorem append_assoc (first second third : Outcome) :
    (first.append second).append third = first.append (second.append third) := by
  simp [append, String.append_assoc, Bool.or_assoc]

end Outcome

/-- Work that prints as it goes. Its state is what has been printed so far, and whether some file
has failed. -/
abbrev Printing :=
  StateM Outcome

namespace Printing

def line (text : String) : Printing Unit :=
  modify fun before => { before with stdout := before.stdout ++ (text ++ "\n") }

def report (text : String) : Printing Unit :=
  modify fun before => { before with stderr := before.stderr ++ (text ++ "\n") }

def fail : Printing Unit :=
  modify fun before => { before with failed := true }

/-- Some work adds an outcome to whatever has been printed before. -/
def Adds (work : Printing Unit) (outcome : Outcome) : Prop :=
  ∀ before, work.run before = ((), before.append outcome)

theorem adds_pure : Adds (pure ()) Outcome.empty := by
  intro before
  rw [Outcome.append_empty]
  rfl

theorem adds_line (text : String) : Adds (line text) ⟨text ++ "\n", "", false⟩ := by
  intro before
  simp [line, Outcome.append]
  rfl

theorem adds_report (text : String) : Adds (report text) ⟨"", text ++ "\n", false⟩ := by
  intro before
  simp [report, Outcome.append]
  rfl

theorem adds_fail : Adds fail ⟨"", "", true⟩ := by
  intro before
  simp [fail, Outcome.append]
  rfl

theorem Adds.bind {first second : Printing Unit} {outcome others : Outcome}
    (adds : Adds first outcome) (addsOthers : Adds second others) :
    Adds (first >>= fun _ => second) (outcome.append others) := by
  intro before
  rw [StateT.run_bind, adds before, ← Outcome.append_assoc]
  exact addsOthers _

theorem adds_forM_line {α : Type} (items : List α) (text : α → String) :
    Adds (forM items fun item => line (text item)) ⟨unlines (items.map text), "", false⟩ := by
  induction items with
  | nil => exact adds_pure
  | cons item items ih =>
      have both := (adds_line (text item)).bind ih
      rw [List.forM_cons]
      simpa [Outcome.append, unlines] using both

/-- Ends with the error of a result, or goes on to work with its value. -/
def after {ε α : Type} (result : Except ε α) (work : α → Printing Unit) :
    ExceptT ε Printing Unit := do
  let value ← ExceptT.mk (pure result)
  ExceptT.lift (work value)

/-- Some work adds an outcome to whatever has been printed before, or ends with an error and adds
nothing. -/
def ComesTo {ε : Type} (work : ExceptT ε Printing Unit) (result : Except ε Outcome) : Prop :=
  ∀ before, work.run.run before =
    match result with
    | .ok added => (.ok (), before.append added)
    | .error error => (.error error, before)

theorem comesTo_after {ε α : Type} {work : α → Printing Unit} {outcome : α → Outcome}
    (adds : ∀ value, Adds (work value) (outcome value)) (result : Except ε α) :
    ComesTo (after result work) (result.map outcome) := by
  intro before
  cases result with
  | error error => rfl
  | ok value =>
      change (ExceptT.lift (work value)).run.run before = (.ok (), before.append (outcome value))
      rw [ExceptT.run_lift, StateT.run_map, adds value before]
      rfl

end Printing

open Printing

namespace Command

/-- Reads a source and then prints what a command makes of it, line by line. -/
def printSource (command : Command) (source : String) : ExceptT SourceError Printing Unit :=
  match command with
  | tokens =>
      after ((tokenize source).mapError .lexical) fun found =>
        forM found fun token => line token.dumpLine
  | tree =>
      after (parseSource source) fun phrases => forM phrases fun phrase => line phrase.expr.sexpr
  | format =>
      after (parseSource source) fun phrases => forM phrases fun phrase => line phrase.expr.format
  | validate => after (parseSource source) fun phrases => report (summary phrases)

/-- Works on one file. An error is reported, and the run goes on. -/
def printFile (command : Command) (path : String) (content : Except FileError String) :
    Printing Unit :=
  match content with
  | .error error => do
      report (path ++ ": " ++ error.message)
      fail
  | .ok source => do
      match ← (command.printSource source).run with
      | .ok _ => pure ()
      | .error error =>
          report (path ++ ":" ++ (error.position source).display ++ ": " ++ error.message)
          fail

def printFiles (command : Command) (files : List (String × Except FileError String)) :
    Printing Unit :=
  forM files fun file => command.printFile file.1 file.2

/-- Printing line by line comes to the outcome of a source, and to nothing if there is an error. -/
theorem comesTo_printSource (command : Command) (source : String) :
    ComesTo (command.printSource source) (command.runSource source) := by
  cases command with
  | tokens =>
      have same : tokens.runSource source = ((tokenize source).mapError .lexical).map
          fun found => ⟨unlines (found.map Token.dumpLine), "", false⟩ := by
        rw [runSource]
        cases tokenize source <;> rfl
      rw [same]
      exact comesTo_after (fun found => adds_forM_line found Token.dumpLine) _
  | tree =>
      exact comesTo_after
        (fun phrases => adds_forM_line phrases fun phrase : Phrase Token => phrase.expr.sexpr)
        (parseSource source)
  | format =>
      exact comesTo_after
        (fun phrases => adds_forM_line phrases fun phrase : Phrase Token => phrase.expr.format)
        (parseSource source)
  | validate =>
      have same : validate.runSource source = (parseSource source).map
          fun phrases => ⟨"", summary phrases ++ "\n", false⟩ := by
        simp [runSource, unlines]
      rw [same]
      exact comesTo_after (fun phrases => adds_report (summary phrases)) (parseSource source)

/-- The report on a file that fails. -/
theorem adds_report_fail (text : String) :
    Adds (report text >>= fun _ => fail) ⟨"", unlines [text], true⟩ := by
  have both := (adds_report text).bind adds_fail
  simpa [Outcome.append, unlines] using both

theorem adds_printFile (command : Command) (path : String) (content : Except FileError String) :
    Adds (command.printFile path content) (command.runFile path content) := by
  cases content with
  | error error => exact adds_report_fail _
  | ok source =>
      intro before
      rw [printFile, StateT.run_bind, command.comesTo_printSource source before, runFile]
      cases command.runSource source with
      | ok added => rfl
      | error error => exact adds_report_fail _ before

/-- A run adds for each file what running the command on that file comes to. -/
theorem adds_printFiles (command : Command) (files : List (String × Except FileError String)) :
    Adds (command.printFiles files) (command.runFiles files) := by
  induction files with
  | nil => exact adds_pure
  | cons file files ih =>
      rw [printFiles, List.forM_cons]
      exact (command.adds_printFile file.1 file.2).bind ih

/-! ## Each file alone -/

/-- A command accepts a file if it has a text, and that text can be cut into tokens or, for any
other command than the one that prints tokens, be read as expressions. -/
def Accepts (command : Command) (content : Except FileError String) : Prop :=
  ∃ source, content = .ok source ∧
    match command with
    | tokens => ∃ found, tokenize source = .ok found
    | _ => ∃ phrases, parseSource source = .ok phrases

theorem runSource_cases (command : Command) (source : String) :
    (command.Accepts (.ok source) ∧
      ∃ added, command.runSource source = .ok added ∧ added.failed = false) ∨
    (¬ command.Accepts (.ok source) ∧ ∃ error, command.runSource source = .error error) := by
  cases command with
  | tokens =>
      cases scanned : tokenize source <;> simp [Accepts, runSource, scanned]
  | tree | format | validate =>
      cases parsed : parseSource source <;> simp [Accepts, runSource, parsed, Except.map]

variable (command : Command)

/-- Just the files that are not accepted fail, and they print nothing but a report. -/
theorem runFile_cases (path : String) (content : Except FileError String) :
    (command.Accepts content ∧ (command.runFile path content).failed = false) ∨
    (¬ command.Accepts content ∧ (command.runFile path content).failed = true ∧
      (command.runFile path content).stdout = "") := by
  cases content with
  | error error => exact .inr ⟨by simp [Accepts], rfl, rfl⟩
  | ok source =>
      rw [runFile]
      rcases command.runSource_cases source with ⟨accepts, added, found, succeeds⟩ |
        ⟨notAccepts, error, failed⟩
      · rw [found]
        exact .inl ⟨accepts, succeeds⟩
      · rw [failed]
        exact .inr ⟨notAccepts, rfl, rfl⟩

variable (files : List (String × Except FileError String))

theorem stdout_runFiles :
    (command.runFiles files).stdout =
      String.join (files.map fun file => (command.runFile file.1 file.2).stdout) := by
  induction files with
  | nil => rfl
  | cons file files ih =>
      rw [List.map_cons, String.join_cons, ← ih]
      rfl

theorem stderr_runFiles :
    (command.runFiles files).stderr =
      String.join (files.map fun file => (command.runFile file.1 file.2).stderr) := by
  induction files with
  | nil => rfl
  | cons file files ih =>
      rw [List.map_cons, String.join_cons, ← ih]
      rfl

theorem failed_runFiles :
    (command.runFiles files).failed =
      files.any fun file => (command.runFile file.1 file.2).failed := by
  induction files with
  | nil => rfl
  | cons file files ih =>
      rw [List.any_cons, ← ih]
      rfl

def name : Command → String
  | tokens => "tokens"
  | tree => "tree"
  | format => "fmt"
  | validate => "validate"

theorem ofName?_name : ofName? command.name = some command := by
  cases command <;> rfl

/-- What the program answers to the name of a command and the paths of some files, given what the
files have in them. -/
def answer : Outcome × Nat :=
  (Request.ofArguments (command.name :: files.map Prod.fst)).answer files

variable {files}

theorem answer_eq (nonempty : files ≠ []) :
    command.answer files =
      (command.runFiles files, if (command.runFiles files).failed then 1 else 0) := by
  have noHelp : ¬ (command.name = "--help" ∨ command.name = "-h") := by
    cases command <;> decide
  have paths : files.map Prod.fst ≠ [] := by simpa using nonempty
  rw [answer, Request.ofArguments, if_neg noHelp, ofName?_name]
  simp only [if_neg paths]
  rfl

theorem answer_singleton (file : String × Except FileError String) :
    command.answer [file] = (command.runFile file.1 file.2,
      if (command.runFile file.1 file.2).failed then 1 else 0) := by
  rw [answer_eq command (List.cons_ne_nil file [])]
  simp only [runFiles, Outcome.append_empty]

/-- A run on files prints what the runs on each of them alone print, one after another, and ends
with code one just if one of those does. These are the runs on files that are not accepted, and
nothing of such a file is printed but a report. The same comes of printing line by line, where
nothing can be taken back. -/
theorem answer_eq_join (nonempty : files ≠ []) :
    (command.answer files).1.stdout =
        String.join (files.map fun file => (command.answer [file]).1.stdout) ∧
      (command.answer files).1.stderr =
        String.join (files.map fun file => (command.answer [file]).1.stderr) ∧
      (∀ file ∈ files, ((command.answer [file]).2 = 1 ↔ ¬ command.Accepts file.2) ∧
        (¬ command.Accepts file.2 → (command.answer [file]).1.stdout = "")) ∧
      (command.answer files).2 = (if ∃ file ∈ files, (command.answer [file]).2 = 1 then 1 else 0) ∧
      (command.printFiles files).run Outcome.empty = ((), (command.answer files).1) := by
  simp only [answer_singleton, answer_eq command nonempty]
  refine ⟨command.stdout_runFiles files, command.stderr_runFiles files, ?_, ?_, ?_⟩
  · intro file member
    rcases command.runFile_cases file.1 file.2 with ⟨accepts, succeeds⟩ |
      ⟨notAccepts, failed, nothing⟩
    · simp [accepts, succeeds]
    · simp [notAccepts, failed, nothing]
  · have someFails : (command.runFiles files).failed = true ↔ ∃ file ∈ files,
        (if (command.runFile file.1 file.2).failed then 1 else 0) = 1 := by
      simp [failed_runFiles]
    simp only [someFails]
  · rw [adds_printFiles, Outcome.empty_append]

/-- A good file stands before and behind two bad ones, and is printed twice. -/
theorem answer_eq_join_repeated :
    let files : List (String × Except FileError String) :=
      [("a.j", .ok "1+2"), ("b.j", .ok "3 4 )"), ("c.j", .error .missing), ("a.j", .ok "1+2")]
    files ≠ [] ∧
      (format.answer files).1.stdout = "1 + 2\n1 + 2\n" ∧ (format.answer files).2 = 1 := by
  intro files
  have nonempty : files ≠ [] := List.cons_ne_nil _ _
  have ⟨stdout, _, _, code, _⟩ := answer_eq_join format nonempty
  refine ⟨nonempty, stdout.trans ?_, code.trans ?_⟩
  · decide +kernel
  · decide +kernel

end Command

end JassExpr
