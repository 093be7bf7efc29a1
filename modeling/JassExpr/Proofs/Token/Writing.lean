import JassExpr.Token.Scan

/-!
# The ways to write a lexeme

Which texts write which lexeme is said here without a scanner, one rule for each class of
lexemes. A text of a class has to end somewhere, and some characters right after it would make
it longer or turn it into something else. The classes and these characters together say all that
a scanner has to know.
-/

namespace JassExpr

/-- A decimal integer: a zero alone, digits of which the first is no zero, or a zero and digits
of which the next is too large for an octal one. -/
inductive IsDecimal : List Char → Prop
  | zero : IsDecimal ['0']
  | leading {first : Char} {rest : List Char} (digit : first.isDigit = true)
      (nonzero : first ≠ '0') (digits : ∀ other ∈ rest, other.isDigit = true) :
      IsDecimal (first :: rest)
  | padded {second : Char} {rest : List Char} (large : second = '8' ∨ second = '9')
      (digits : ∀ other ∈ rest, other.isDigit = true) :
      IsDecimal ('0' :: second :: rest)

/-- The letters that may follow a backslash in a string literal. -/
def escapeLetters : List Char :=
  ['n', 't', 'r', 'b', 'f', '\x22', '\\']

/-- The inside of a string literal: characters other than a quote or a backslash, and escapes. -/
inductive IsStringBody : List Char → Prop
  | empty : IsStringBody []
  | character {first : Char} {rest : List Char} (notQuote : first ≠ '\x22')
      (notBackslash : first ≠ '\\') (others : IsStringBody rest) :
      IsStringBody (first :: rest)
  | escape {letter : Char} {rest : List Char} (known : letter ∈ escapeLetters)
      (others : IsStringBody rest) :
      IsStringBody ('\\' :: letter :: rest)

/-- The marks that announce hexadecimal digits. -/
def hexadecimalMarks : List (List Char) :=
  [['0', 'x'], ['0', 'X'], ['$']]

/-- The characters that begin no other lexeme: no blank, no letter, underscore or digit, neither
quote, and no spelling of a kind. -/
def IsOther (character : Char) : Prop :=
  isBlank character = false ∧ Cut.startsWord character = false ∧ character.isDigit = false ∧
    character ≠ '\x22' ∧ character ≠ '\x27' ∧
      ∀ kind : TokenKind, kind.spelling? ≠ some (String.singleton character)

/-- The texts that write a lexeme. -/
inductive Lexeme.Written : Lexeme → List Char → Prop
  | fixed {kind : TokenKind} {text : List Char}
      (spelled : kind.spelling? = some (String.ofList text)) :
      Written (Lexeme.fixed kind) text
  | identifier {first : Char} {rest : List Char} (starts : Cut.startsWord first = true)
      (continues : ∀ other ∈ rest, Cut.continuesWord other = true)
      (notOperator : Cut.wordOperator? (first :: rest) = none) :
      Written (Lexeme.valued .identifier (String.ofList (first :: rest))) (first :: rest)
  | integer {digits : List Char} (decimal : IsDecimal digits) :
      Written (Lexeme.valued .integer (String.ofList digits)) digits
  | real {whole places : List Char} (decimal : IsDecimal whole) (nonempty : places ≠ [])
      (digits : ∀ place ∈ places, place.isDigit = true) :
      Written (Lexeme.valued .real (String.ofList (whole ++ '.' :: places)))
        (whole ++ '.' :: places)
  | octal {digits : List Char} (nonempty : digits ≠ [])
      (octal : ∀ digit ∈ digits, Radix.octal.isDigit digit = true) :
      Written (Lexeme.valued .octalInteger (String.ofList digits)) ('0' :: digits)
  | hexadecimal {mark digits : List Char} (marked : mark ∈ hexadecimalMarks)
      (nonempty : digits ≠ [])
      (hexadecimal : ∀ digit ∈ digits, Radix.hexadecimal.isDigit digit = true) :
      Written (Lexeme.valued .hexInteger (String.ofList digits)) (mark ++ digits)
  | quotedInteger {code : List Char}
      (alphanumeric : ∀ character ∈ code, character.isAlphanum = true) :
      Written (Lexeme.valued .quotedInteger (String.ofList code)) ('\x27' :: (code ++ ['\x27']))
  | string {body : List Char} (escaped : IsStringBody body) :
      Written (Lexeme.valued .string (String.ofList body)) ('\x22' :: (body ++ ['\x22']))
  | lineComment {line : List Char}
      (oneLine : ∀ character ∈ line, character ≠ '\n' ∧ character ≠ '\r') :
      Written (Lexeme.valued .comment (String.ofList ('/' :: '/' :: line))) ('/' :: '/' :: line)
  | blockComment {body : List Char} (unclosed : ¬ ['*', '/'] <:+: body) :
      Written (Lexeme.valued .comment (String.ofList ('/' :: '*' :: (body ++ ['*', '/']))))
        ('/' :: '*' :: (body ++ ['*', '/']))
  | other {character : Char} (unclaimed : IsOther character) :
      Written (Lexeme.valued .other (String.singleton character)) [character]

namespace TokenKind

/-- Whether a text is that of a line comment, given that it is that of a comment. -/
def isLine (text : List Char) : Bool :=
  text.take 2 == ['/', '/']

/-- Whether a character right after the text of a kind would belong to that text, or would make
something else of it. -/
def attracts (kind : TokenKind) (text : List Char) (next : Char) : Bool :=
  match kind with
  | .identifier | .and | .or | .not => Cut.continuesWord next
  | .integer => next.isDigit || (text == ['0'] && (next == 'x' || next == 'X'))
  | .real => next.isDigit
  | .octalInteger => Radix.octal.isDigit next
  | .hexInteger => Radix.hexadecimal.isDigit next
  | .comment => isLine text && Cut.continuesLine next
  | .slash => next == '/' || next == '*'
  | .greater | .less | .assign => next == '='
  | .other =>
      (text == ['!'] && next == '=') || (text == ['$'] && Radix.hexadecimal.isDigit next)
  | _ => false

/-- What follows a text of a kind lets it end there. A point after an integer does unless a digit
follows the point. -/
structure Ends (kind : TokenKind) (text rest : List Char) : Prop where
  apart : ∀ next ∈ rest.head?, kind.attracts text next = false
  noPlaces : kind = .integer → ∀ digit after, rest = '.' :: digit :: after →
    digit.isDigit = false

end TokenKind

end JassExpr
