import JassExpr.Number.Radix
import JassExpr.Text.Escape
import JassExpr.Token.Basic
import JassExpr.Token.Error

/-!
# Cutting one lexeme from a text

A cut takes the longest lexeme off the front of a text. It keeps the characters that were taken,
so that they and the rest always make up the text again, and it always takes at least one.
-/

namespace JassExpr

/-- A lexeme taken off the front of a text, the characters it was written with, and what is
left of the text. -/
structure Cut where
  lexeme : Lexeme
  written : List Char
  rest : List Char

/-- The reason why no lexeme can be taken off a text, and the characters in front of the place
at which that shows. -/
structure CutFault where
  kind : LexErrorKind
  passed : List Char

namespace Cut

/-- The cut of a lexeme whose value stands between two marks. -/
def enclosing (kind : TokenKind) (opening value closing rest : List Char) : Cut :=
  ⟨Lexeme.valued kind (String.ofList value), opening ++ value ++ closing, rest⟩

/-- The cut of a lexeme whose value is all that was written. -/
def plain (kind : TokenKind) (written rest : List Char) : Cut :=
  ⟨Lexeme.valued kind (String.ofList written), written, rest⟩

/-- The cut of a lexeme that has no value. -/
def bare (kind : TokenKind) (written rest : List Char) : Cut :=
  ⟨Lexeme.fixed kind, written, rest⟩

def startsWord (character : Char) : Bool :=
  character.isAlpha || character == '_'

def continuesWord (character : Char) : Bool :=
  character.isAlphanum || character == '_'

def wordOperator? : List Char → Option TokenKind
  | ['a', 'n', 'd'] => some .and
  | ['o', 'r'] => some .or
  | ['n', 'o', 't'] => some .not
  | _ => none

def word (text : List Char) : Cut :=
  let written := text.takeWhile continuesWord
  let rest := text.dropWhile continuesWord
  match wordOperator? written with
  | some kind => bare kind written rest
  | none => plain .identifier written rest

/-- Cuts the digits of a radix after a mark that announces them. -/
def radixDigits (kind : TokenKind) (radix : Radix) (mark text : List Char) : Cut :=
  enclosing kind mark (text.takeWhile radix.isDigit) [] (text.dropWhile radix.isDigit)

/-- Cuts decimal digits, and a point with the digits after it if there are any. -/
def decimal (text : List Char) : Cut :=
  let whole := text.takeWhile Char.isDigit
  match text.dropWhile Char.isDigit with
  | '.' :: digit :: rest =>
      if digit.isDigit then
        plain .real (whole ++ '.' :: digit :: rest.takeWhile Char.isDigit)
          (rest.dropWhile Char.isDigit)
      else
        plain .integer whole ('.' :: digit :: rest)
  | rest => plain .integer whole rest

/-- Cuts the digits of a hexadecimal integer after its mark, of which there must be one. -/
def markedHexadecimal (mark text : List Char) : Except CutFault Cut :=
  match text with
  | [] => .error ⟨.emptyHexLiteral, []⟩
  | digit :: _ =>
      if Radix.hexadecimal.isDigit digit then
        .ok (radixDigits .hexInteger .hexadecimal mark text)
      else
        .error ⟨.emptyHexLiteral, []⟩

/-- Cuts a number. A zero before an octal digit announces octal digits, and a zero before the
letter x hexadecimal ones. -/
def number (text : List Char) : Except CutFault Cut :=
  match text with
  | '0' :: second :: rest =>
      if second = 'x' ∨ second = 'X' then
        markedHexadecimal ['0', second] rest
      else if Radix.octal.isDigit second then
        .ok (radixDigits .octalInteger .octal ['0'] (second :: rest))
      else
        .ok (decimal text)
  | _ => .ok (decimal text)

/-- What follows an opening quote: a body with its closing quote and the rest of the text, the
end of the text, or a character that the body must not have, with what stands before it. -/
inductive Body where
  | closed (body rest : List Char)
  | unclosed
  | refused (before : List Char) (character : Char)

def Body.after (front : List Char) : Body → Body
  | closed body rest => closed (front ++ body) rest
  | unclosed => unclosed
  | refused before character => refused (front ++ before) character

/-- Reads the inside of a string literal, in which a backslash must begin an escape. -/
def stringBody : List Char → Body
  | [] => .unclosed
  | ['\\'] => .unclosed
  | '\\' :: letter :: rest =>
      match Text.escapeMeaning? letter with
      | some _ => (stringBody rest).after ['\\', letter]
      | none => .refused [] letter
  | character :: rest =>
      if character = '\x22' then .closed [] rest else (stringBody rest).after [character]

def string (text : List Char) : Except CutFault Cut :=
  match stringBody text with
  | .closed body rest => .ok (enclosing .string ['\x22'] body ['\x22'] rest)
  | .unclosed => .error ⟨.unterminatedString, []⟩
  | .refused before character => .error ⟨.invalidEscape character, '\x22' :: before⟩

/-- Reads the inside of a quoted integer, which is ASCII letters and digits. -/
def quotedBody : List Char → Body
  | [] => .unclosed
  | character :: rest =>
      if character = '\x27' then .closed [] rest
      else if character.isAlphanum then (quotedBody rest).after [character]
      else .refused [] character

def quotedInteger (text : List Char) : Except CutFault Cut :=
  match quotedBody text with
  | .closed body rest => .ok (enclosing .quotedInteger ['\x27'] body ['\x27'] rest)
  | .unclosed => .error ⟨.unterminatedQuotedInteger, []⟩
  | .refused before character => .error ⟨.invalidQuotedCharacter character, '\x27' :: before⟩

def continuesLine (character : Char) : Bool :=
  character != '\n' && character != '\r'

def lineComment (text : List Char) : Cut :=
  plain .comment (text.takeWhile continuesLine) (text.dropWhile continuesLine)

/-- The text up to and with the first end of a block comment, and what follows it. -/
def splitBlock? : List Char → Option (List Char × List Char)
  | [] => none
  | '*' :: '/' :: rest => some (['*', '/'], rest)
  | character :: rest =>
      (splitBlock? rest).map fun (block, rest) => (character :: block, rest)

/-- Cuts a block comment after its opening mark. -/
def blockComment (text : List Char) : Except CutFault Cut :=
  match splitBlock? text with
  | some (block, rest) => .ok (plain .comment ('/' :: '*' :: block) rest)
  | none => .error ⟨.unterminatedBlockComment, []⟩

def doubleSymbol? : Char → Char → Option TokenKind
  | '>', '=' => some .greaterEqual
  | '<', '=' => some .lessEqual
  | '=', '=' => some .equal
  | '!', '=' => some .notEqual
  | _, _ => none

def singleSymbol? : Char → Option TokenKind
  | '+' => some .plus
  | '-' => some .minus
  | '*' => some .star
  | '/' => some .slash
  | '(' => some .leftParenthesis
  | ')' => some .rightParenthesis
  | '[' => some .leftBracket
  | ']' => some .rightBracket
  | '#' => some .hash
  | ',' => some .comma
  | '=' => some .assign
  | '>' => some .greater
  | '<' => some .less
  | _ => none

/-- Cuts a symbol of one character, or a character that begins nothing else. -/
def single (first : Char) (rest : List Char) : Cut :=
  match singleSymbol? first with
  | some kind => bare kind [first] rest
  | none => plain .other [first] rest

/-- Cuts a symbol of two characters where there is one, and else a single one. -/
def symbol (first : Char) (rest : List Char) : Cut :=
  match rest with
  | [] => single first []
  | second :: after =>
      match doubleSymbol? first second with
      | some kind => bare kind [first, second] after
      | none => single first (second :: after)

/-- Cuts hexadecimal digits after a dollar sign, which stands for itself without one. -/
def dollar (rest : List Char) : Cut :=
  match rest with
  | [] => single '$' []
  | digit :: after =>
      if Radix.hexadecimal.isDigit digit then
        radixDigits .hexInteger .hexadecimal ['$'] (digit :: after)
      else
        single '$' (digit :: after)

/-- Cuts what begins with a slash: a comment or the slash itself. -/
def slash (rest : List Char) : Except CutFault Cut :=
  match rest with
  | '/' :: after => .ok (lineComment ('/' :: '/' :: after))
  | '*' :: after => blockComment after
  | _ => .ok (symbol '/' rest)

/-- Cuts the lexeme with which a text begins, given its first character and the others. -/
def front (first : Char) (rest : List Char) : Except CutFault Cut :=
  if startsWord first then .ok (word (first :: rest))
  else if first.isDigit then number (first :: rest)
  else if first = '\x22' then string rest
  else if first = '\x27' then quotedInteger rest
  else if first = '$' then .ok (dollar rest)
  else if first = '/' then slash rest
  else .ok (symbol first rest)

end Cut

end JassExpr
