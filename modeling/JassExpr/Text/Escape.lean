/-!
# Escapes in string literals

Inside a string literal a backslash and one of seven letters stand for one character. Both the
check of a literal and its meaning go through the one table of those letters.
-/

namespace JassExpr

namespace Text

/-- The character that a letter stands for after a backslash. -/
def escapeMeaning? : Char → Option Char
  | 'n' => some '\n'
  | 't' => some '\t'
  | 'r' => some '\r'
  | 'b' => some '\x08'
  | 'f' => some '\x0c'
  | '\x22' => some '\x22'
  | '\\' => some '\\'
  | _ => none

/-- The text that the inside of a string literal stands for. A backslash that begins no escape
stands for itself. -/
def unescape : List Char → List Char
  | [] => []
  | ['\\'] => ['\\']
  | '\\' :: letter :: rest =>
      match escapeMeaning? letter with
      | some meaning => meaning :: unescape rest
      | none => '\\' :: letter :: unescape rest
  | character :: rest => character :: unescape rest

end Text

end JassExpr
