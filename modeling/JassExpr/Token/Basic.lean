import JassExpr.Source.Span
import JassExpr.Token.Kind

/-!
# Lexemes and tokens

A lexeme says what was written: a kind, and a value for the kinds that need one. A token is a
lexeme with the place where it stands. Tokens may be made by hand, so the kind and the value of
one need not fit each other.
-/

namespace JassExpr

/-- What one token says, apart from its place. -/
structure Lexeme where
  kind : TokenKind
  value : Option String
deriving DecidableEq

namespace Lexeme

/-- The lexeme of a kind that is always written the same way. -/
def fixed (kind : TokenKind) : Lexeme :=
  ⟨kind, none⟩

def valued (kind : TokenKind) (value : String) : Lexeme :=
  ⟨kind, some value⟩

/-- The value of a lexeme, or else the spelling of its kind. -/
def text (lexeme : Lexeme) : String :=
  (lexeme.value <|> lexeme.kind.spelling?).getD ""

@[simp]
theorem text_valued (kind : TokenKind) (value : String) : (valued kind value).text = value :=
  rfl

/-- The plainest way to write a lexeme. The value leaves out the mark of a radix and the quotes
of a literal, so these are put back. -/
def spell (lexeme : Lexeme) : String :=
  match lexeme.kind with
  | .hexInteger => "0x" ++ lexeme.text
  | .octalInteger => "0" ++ lexeme.text
  | .quotedInteger => "'" ++ lexeme.text ++ "'"
  | .string => "\"" ++ lexeme.text ++ "\""
  | _ => lexeme.text

/-- A lexeme as messages show it: its value in quotes, double ones for a string, or else what
its kind is shown as. -/
def display (lexeme : Lexeme) : String :=
  match lexeme.value with
  | some value =>
      if lexeme.kind = .string then "\"" ++ value ++ "\"" else "'" ++ value ++ "'"
  | none => lexeme.kind.display

end Lexeme

structure Token extends Lexeme where
  span : Span
deriving DecidableEq

namespace Token

/-- The span from the first to the last of some tokens, which is at the origin when there
are none. -/
def extent (tokens : List Token) : Span :=
  match tokens.head?, tokens.getLast? with
  | some first, some last => first.span.cover last.span
  | _, _ => Span.origin

/-- The empty span just after the last of some tokens, which is at the origin when there
are none. -/
def endOf (tokens : List Token) : Span :=
  match tokens.getLast? with
  | some last => Span.point last.span.stop
  | none => Span.origin

def stripComments (tokens : List Token) : List Token :=
  tokens.filter fun token => token.kind != .comment

/-- One line of a token dump: the span, the name of the kind and the value if there is one, with
tabs between them. -/
def dumpLine (token : Token) : String :=
  let place := token.span.display ++ "\t" ++ token.kind.name
  match token.value with
  | some value => place ++ "\t" ++ value
  | none => place

end Token

end JassExpr
