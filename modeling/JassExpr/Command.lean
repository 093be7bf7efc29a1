import JassExpr.Document.Basic
import JassExpr.Expr.Sexpr
import JassExpr.Phrase.Layout
import JassExpr.Phrase.NodeTable

/-!
# The command line

A command is carried out on one file after another. What a run prints and how it ends is one
value, so that running a command does nothing but read the files beforehand and print that value
afterwards. A file that fails prints to standard error only.
-/

namespace JassExpr

/-- The commands that read files. -/
inductive Command where
  /-- Prints one token per line. -/
  | tokens
  /-- Prints each expression as a list. -/
  | tree
  /-- Prints each expression in canonical form. -/
  | format
  /-- Checks that every expression can be read. -/
  | validate
deriving DecidableEq

/-- What a run prints and whether something failed. -/
structure Outcome where
  stdout : String
  stderr : String
  failed : Bool
deriving DecidableEq

namespace Outcome

def empty : Outcome :=
  ⟨"", "", false⟩

/-- The outcome of one run and then another. -/
def append (first second : Outcome) : Outcome :=
  ⟨first.stdout ++ second.stdout, first.stderr ++ second.stderr, first.failed || second.failed⟩

end Outcome

/-- The reasons why a file has no text. -/
inductive FileError where
  /-- The bytes of the file are not the UTF-8 form of a text. -/
  | notText
  /-- The system refused to read the file. -/
  | system (description : String) (code : Nat)
deriving DecidableEq

namespace FileError

def missing : FileError :=
  system "No such file or directory" 2

def message : FileError → String
  | notText => "stream did not contain valid UTF-8"
  | system description code => description ++ " (os error " ++ toString code ++ ")"

end FileError

/-- Lines of text, each with its end. -/
def unlines (lines : List String) : String :=
  String.join (lines.map (· ++ "\n"))

namespace Command

def ofName? (name : String) : Option Command :=
  if name = "tokens" then some tokens
  else if name = "tree" then some tree
  else if name = "fmt" then some format
  else if name = "validate" then some validate
  else none

/-- What validating a source with these phrases reports. -/
def summary (phrases : List (Phrase Token)) : String :=
  "valid (" ++ toString phrases.length ++ " expression(s), " ++
    toString (Phrase.sizeOfAll phrases) ++ " node(s))"

def runSource (command : Command) (source : String) : Except SourceError Outcome :=
  match command with
  | tokens =>
      match tokenize source with
      | .error error => .error (.lexical error)
      | .ok found => .ok ⟨unlines (found.map Token.dumpLine), "", false⟩
  | tree =>
      (parseSource source).map fun phrases =>
        ⟨unlines (phrases.map fun phrase => phrase.expr.sexpr), "", false⟩
  | format =>
      (parseSource source).map fun phrases =>
        ⟨unlines (phrases.map fun phrase => phrase.expr.format), "", false⟩
  | validate =>
      (parseSource source).map fun phrases => ⟨"", unlines [summary phrases], false⟩

/-- What a command prints for a file. An error is reported behind the path of the file, and an
error in its text behind the line and column as well. -/
def runFile (command : Command) (path : String) (content : Except FileError String) :
    Outcome :=
  match content with
  | .error error => ⟨"", unlines [path ++ ": " ++ error.message], true⟩
  | .ok source =>
      match command.runSource source with
      | .error error =>
          ⟨"", unlines [path ++ ":" ++ (error.position source).display ++ ": " ++ error.message],
            true⟩
      | .ok outcome => outcome

/-- What a command prints for some files, one after another. -/
def runFiles (command : Command) : List (String × Except FileError String) → Outcome
  | [] => Outcome.empty
  | (path, content) :: rest => (command.runFile path content).append (command.runFiles rest)

end Command

/-- What the arguments of the program ask for. -/
inductive Request where
  | help
  | unknownCommand (name : String)
  | noFiles
  | run (command : Command) (paths : List String)
deriving DecidableEq

namespace Request

def ofArguments : List String → Request
  | [] => help
  | name :: paths =>
      if name = "--help" ∨ name = "-h" then help
      else
        match Command.ofName? name with
        | none => unknownCommand name
        | some command => if paths = [] then noFiles else run command paths

def usage : String :=
  unlines [
    "Usage: jass <command> [files...]",
    "",
    "Commands:",
    "  tokens    Print one token per line",
    "  tree      Print each expression as an s-expression",
    "  fmt       Print each expression in canonical form",
    "  validate  Check that every expression parses",
    "",
    "Examples:",
    "  jass tokens script.j",
    "  jass tree exprs.txt"]

def paths : Request → List String
  | run _ paths => paths
  | _ => []

/-- What a request prints, given its files, and the code with which the program ends: two for
arguments that ask for no run, one for a run in which a file failed, and else zero. -/
def answer (request : Request) (files : List (String × Except FileError String)) :
    Outcome × Nat :=
  match request with
  | help => (⟨"", usage, true⟩, 2)
  | unknownCommand name => (⟨"", unlines ["Unknown command: " ++ name] ++ usage, true⟩, 2)
  | noFiles => (⟨"", unlines ["Error: no files specified"], true⟩, 2)
  | run command _ =>
      let outcome := command.runFiles files
      (outcome, if outcome.failed then 1 else 0)

end Request

end JassExpr
