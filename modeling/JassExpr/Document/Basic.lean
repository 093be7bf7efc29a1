import JassExpr.Phrase.Reading
import JassExpr.Token.Scan

/-!
# Reading a source

A source is read in two steps: it is cut into tokens, and the tokens without the comments are
read as expressions. Either step can fail, and its error tells at which offset.
-/

namespace JassExpr

inductive SourceError where
  | lexical (error : LexError)
  | syntactic (error : SyntaxError)
deriving DecidableEq

namespace SourceError

def offset : SourceError → Nat
  | lexical error => error.offset
  | syntactic error => error.span.start

def message : SourceError → String
  | lexical error => error.message
  | syntactic error => error.message

/-- The line and column at which an error points in its source. -/
def position (source : String) (error : SourceError) : Position :=
  (LineMap.ofSource source).position error.offset

end SourceError

/-- All the expressions of a source, or its first error. -/
def parseSource (source : String) : Except SourceError (List (Phrase Token)) :=
  match tokenize source with
  | .error error => .error (.lexical error)
  | .ok tokens =>
      match parse (Token.stripComments tokens) with
      | .error error => .error (.syntactic error)
      | .ok phrases => .ok phrases

end JassExpr
