import JassExpr.Text.GraphemeExtend
import JassExpr.Text.Unprintable

/-!
# Characters in messages

A message shows a character between single quotes. What could not be seen there, or would be
mistaken for something else, is written as an escape.
-/

namespace JassExpr

namespace Text

/-- The characters that have an escape of their own. -/
def namedEscape? (character : Char) : Option String :=
  if character = '\x00' then some "\\0"
  else if character = '\t' then some "\\t"
  else if character = '\r' then some "\\r"
  else if character = '\n' then some "\\n"
  else if character = '\x27' then some "\\'"
  else if character = '\\' then some "\\\\"
  else none

/-- The escape of a character by its code point, in lower-case hexadecimal digits. -/
def codeEscape (character : Char) : String :=
  "\\u\x7b" ++ String.ofList (Nat.toDigits 16 character.toNat) ++ "\x7d"

/-- A character as it stands between quotes. -/
def visible (character : Char) : String :=
  match namedEscape? character with
  | some escape => escape
  | none =>
      if isCombining character || isUnprintable character then
        codeEscape character
      else
        String.singleton character

def quoted (character : Char) : String :=
  "'" ++ visible character ++ "'"

end Text

end JassExpr
