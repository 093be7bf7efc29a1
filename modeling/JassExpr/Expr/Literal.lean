import JassExpr.Number.Binary64
import JassExpr.Text.Escape
import JassExpr.Token.Basic

/-!
# Literals

A literal keeps the text it was written with next to the value it stands for. It is read off one
lexeme, and there is a lexeme for each literal that reads as that literal again.
-/

namespace JassExpr

inductive Literal where
  /-- An integer in a radix, whose digits leave out the mark of the radix. -/
  | integer (radix : Radix) (digits : String) (value : Int)
  /-- A real number with the double-precision number nearest to it. -/
  | real (digits : String) (value : Binary64)
  | boolean (value : Bool)
  /-- A text as written between its quotes, and with its escapes resolved. -/
  | string (raw value : String)
  /-- An integer given by the characters of its bytes. -/
  | quotedInteger (code : String)
  | null
deriving DecidableEq

namespace Literal

/-- The integer literal of a text, if its value is in range. -/
def ofDigits? (radix : Radix) (digits : String) : Option Literal :=
  (radix.readInteger? digits.toList).map (integer radix digits)

/-- The literal that a lexeme of a literal kind stands for, if its text has a value. -/
def ofLexeme? (lexeme : Lexeme) : Option Literal :=
  match lexeme.kind with
  | .integer => ofDigits? .decimal lexeme.text
  | .octalInteger => ofDigits? .octal lexeme.text
  | .hexInteger => ofDigits? .hexadecimal lexeme.text
  | .real => (Binary64.read? lexeme.text.toList).map (real lexeme.text)
  | .string => some (string lexeme.text (String.ofList (Text.unescape lexeme.text.toList)))
  | .quotedInteger => some (quotedInteger lexeme.text)
  | _ => none

def ofWord? (word : String) : Option Literal :=
  if word = "true" then some (boolean true)
  else if word = "false" then some (boolean false)
  else if word = "null" then some null
  else none

/-- The kind of the lexemes for integers in a radix. -/
def integerKind : Radix → TokenKind
  | .octal => .octalInteger
  | .decimal => .integer
  | .hexadecimal => .hexInteger

def lexeme : Literal → Lexeme
  | integer radix digits _ => Lexeme.valued (integerKind radix) digits
  | real digits _ => Lexeme.valued .real digits
  | boolean true => Lexeme.valued .identifier "true"
  | boolean false => Lexeme.valued .identifier "false"
  | string raw _ => Lexeme.valued .string raw
  | quotedInteger code => Lexeme.valued .quotedInteger code
  | null => Lexeme.valued .identifier "null"

def spell (literal : Literal) : String :=
  literal.lexeme.spell

/-- The bytes of a text in its UTF-8 form. -/
def codeBytes (code : String) : List UInt8 :=
  code.toList.flatMap String.utf8EncodeChar

/-- The integer that a quoted integer stands for: its bytes from the highest to the lowest, of
which there may be at most four. Other literals have none. -/
def quotedValue? : Literal → Option UInt32
  | quotedInteger code =>
      if (codeBytes code).length ≤ 4 then
        some ((codeBytes code).foldl (fun value byte => value <<< 8 ||| byte.toUInt32) 0)
      else
        none
  | _ => none

/-- A literal that was read off a lexeme stands for the text of that lexeme. -/
theorem lexeme_of_ofLexeme? {lexeme : Lexeme} {literal : Literal}
    (found : ofLexeme? lexeme = some literal) :
    literal.lexeme = Lexeme.valued lexeme.kind lexeme.text := by
  obtain ⟨kind, value⟩ := lexeme
  cases kind with
  | integer =>
      obtain ⟨_, _, rfl⟩ := Option.map_eq_some_iff.mp found
      rfl
  | octalInteger =>
      obtain ⟨_, _, rfl⟩ := Option.map_eq_some_iff.mp found
      rfl
  | hexInteger =>
      obtain ⟨_, _, rfl⟩ := Option.map_eq_some_iff.mp found
      rfl
  | real =>
      obtain ⟨_, _, rfl⟩ := Option.map_eq_some_iff.mp found
      rfl
  | string =>
      cases found
      rfl
  | quotedInteger =>
      cases found
      rfl
  | _ => simp [ofLexeme?] at found

/-- Literals are read off lexemes of the literal kinds and of no others. -/
theorem isLiteral_of_ofLexeme? {lexeme : Lexeme} {literal : Literal}
    (found : ofLexeme? lexeme = some literal) :
    lexeme.kind.isLiteral = true := by
  obtain ⟨kind, value⟩ := lexeme
  cases kind <;> simp_all [ofLexeme?, TokenKind.isLiteral]

end Literal

end JassExpr
