import JassExpr.Source.LineMap
import JassExpr.Text.Quoted

/-!
# Lexical errors

There are six ways in which a text can fail to be a sequence of lexemes. An error has the byte
offset of its cause, and the line and column of that offset for its message.
-/

namespace JassExpr

/-- The reasons why no lexeme can be cut from a text. -/
inductive LexErrorKind where
  /-- A string literal that is never closed. -/
  | unterminatedString
  /-- A backslash in a string literal before a character that makes no escape. -/
  | invalidEscape (character : Char)
  /-- A quoted integer that is never closed. -/
  | unterminatedQuotedInteger
  /-- Something else than an ASCII letter or digit in a quoted integer. -/
  | invalidQuotedCharacter (character : Char)
  /-- A block comment that is never closed. -/
  | unterminatedBlockComment
  /-- The mark of a hexadecimal integer without a digit after it. -/
  | emptyHexLiteral
deriving DecidableEq

def LexErrorKind.message : LexErrorKind → String
  | unterminatedString => "unterminated string literal"
  | invalidEscape character => "invalid escape sequence: \\" ++ String.singleton character
  | unterminatedQuotedInteger => "unterminated quoted integer"
  | invalidQuotedCharacter character =>
      "invalid character in quoted integer: " ++ Text.quoted character
  | unterminatedBlockComment => "unterminated block comment"
  | emptyHexLiteral => "hex literal has no digits"

structure LexError where
  kind : LexErrorKind
  offset : Nat
  position : Position
deriving DecidableEq

namespace LexError

/-- The error of a kind at an offset of a source. -/
def inSource (source : String) (kind : LexErrorKind) (offset : Nat) : LexError :=
  ⟨kind, offset, (LineMap.ofSource source).position offset⟩

/-- The wording of an error: its reason and where it is. -/
def message (error : LexError) : String :=
  error.kind.message ++ " at line " ++ toString error.position.line ++ ", column " ++
    toString error.position.column

end LexError

end JassExpr
