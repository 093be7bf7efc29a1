import JassExpr.Proofs.Source.Advance
import JassExpr.Proofs.Text.Bytewise

/-!
# Scanning with a cursor

The tokens of a source can be found by moving a cursor over its bytes, one turn after the other, and
by slicing the source where something begins or ends. A slice must not begin or end inside of a
character. Yet the cursor steps from byte to byte, also through characters of several bytes, so that
it has to be on a boundary whenever a slice is taken. Here, every turn keeps the spans of the slices
that it takes.
-/

namespace JassExpr

/-- A result with the spans of all slices of a source that were taken on the way to it. -/
structure Sliced (α : Type) where
  result : α
  spans : List Span

namespace Sliced

instance : Monad Sliced where
  pure result := ⟨result, []⟩
  bind first next :=
    ⟨(next first.result).result, first.spans ++ (next first.result).spans⟩

/-- The slice of a source at a span. A span that is none of the source has no slice, and the empty
text stands in for it. -/
def slice (source : String) (span : Span) : Sliced String :=
  ⟨(span.slice? source).getD "", [span]⟩

end Sliced

/-- What a turn of the cursor comes to: there is nothing left, the cursor moves on and may have
passed a token, or there is an error. -/
inductive Turn where
  | finished
  | onwards (token? : Option Token) (next : Nat)
  | failed (error : LexError)

namespace Cursor

variable (source : String)

def bytesFrom (offset : Nat) : List UInt8 :=
  source.toUTF8.data.toList.drop offset

/-- The byte at an offset, taken for a character of its own. -/
def byteAt? (offset : Nat) : Option Char :=
  (bytesFrom source offset).head?.map UInt8.toChar

/-- The offset behind all the next bytes that pass a test. -/
def pass (test : Char → Bool) (offset : Nat) : Nat :=
  offset + ((bytesFrom source offset).takeWhile fun byte => test byte.toChar).length

/-- The character at an offset. -/
def characterAt (offset : Nat) : Sliced Char := do
  let rest ← Sliced.slice source ⟨offset, source.utf8ByteSize⟩
  return rest.toList.headD '\x00'

/-- The position of an offset, of which the column counts the characters of a slice. -/
def positionOf (offset : Nat) : Sliced Position :=
  let lines := LineMap.ofSource source
  let place := lines.clamp offset
  let line := lines.lineBetween place 0 lines.lineCount
  do
    let before ← Sliced.slice source ⟨lines.startOf line, place⟩
    return ⟨line + 1, before.toList.length + 1⟩

def fail (kind : LexErrorKind) (offset : Nat) : Sliced Turn := do
  let position ← positionOf source offset
  return .failed ⟨kind, offset, position⟩

/-- Passes a token of which the value is a slice. -/
def valued (kind : TokenKind) (start : Nat) (value : Span) (stop : Nat) : Sliced Turn := do
  let text ← Sliced.slice source value
  return .onwards (some ⟨.valued kind text, ⟨start, stop⟩⟩) stop

def fixed (kind : TokenKind) (start stop : Nat) : Sliced Turn :=
  pure (.onwards (some ⟨.fixed kind, ⟨start, stop⟩⟩) stop)

def other (start : Nat) : Sliced Turn := do
  let character ← characterAt source start
  valued source .other start ⟨start, start + character.utf8Size⟩ (start + character.utf8Size)

def word (start : Nat) : Sliced Turn := do
  let stop := pass source Cut.continuesWord start
  let text ← Sliced.slice source ⟨start, stop⟩
  match Cut.wordOperator? text.toList with
  | some kind => fixed kind start stop
  | none => valued source .identifier start ⟨start, stop⟩ stop

/-- Passes digits that begin at `digits`, behind a mark. -/
def radixDigits (kind : TokenKind) (radix : Radix) (start digits : Nat) : Sliced Turn :=
  let stop := pass source radix.isDigit digits
  valued source kind start ⟨digits, stop⟩ stop

def decimal (start : Nat) : Sliced Turn :=
  let whole := pass source Char.isDigit start
  if byteAt? source whole = some '.' ∧ (byteAt? source (whole + 1)).any Char.isDigit then
    let stop := pass source Char.isDigit (whole + 1)
    valued source .real start ⟨start, stop⟩ stop
  else
    valued source .integer start ⟨start, whole⟩ whole

def markedHexadecimal (start : Nat) : Sliced Turn :=
  if pass source Radix.hexadecimal.isDigit (start + 2) = start + 2 then
    fail source .emptyHexLiteral start
  else
    radixDigits source .hexInteger .hexadecimal start (start + 2)

def number (start : Nat) : Sliced Turn :=
  if byteAt? source start = some '0' then
    match byteAt? source (start + 1) with
    | some second =>
        if second = 'x' ∨ second = 'X' then markedHexadecimal source start
        else if Radix.octal.isDigit second then
          radixDigits source .octalInteger .octal start (start + 1)
        else decimal source start
    | none => decimal source start
  else
    decimal source start

/-- Where the inside of a literal comes to an end: at its closing quote, with the text, or at a byte
that it must not have. -/
inductive Exit where
  | closed (offset : Nat)
  | unclosed
  | refused (offset : Nat)

/-- Steps through the inside of a string literal that goes on at an offset. -/
def stringExit (offset : Nat) : List UInt8 → Exit
  | [] => .unclosed
  | byte :: rest =>
      if byte.toChar = '\\' then
        match rest with
        | [] => .unclosed
        | letter :: rest =>
            if letter.toChar ∈ escapeLetters then stringExit (offset + 2) rest
            else .refused offset
      else if byte.toChar = '\x22' then .closed offset
      else stringExit (offset + 1) rest

def string (start : Nat) : Sliced Turn :=
  match stringExit (start + 1) (bytesFrom source (start + 1)) with
  | .closed stop => valued source .string start ⟨start + 1, stop⟩ (stop + 1)
  | .unclosed => fail source .unterminatedString start
  | .refused offset => do
      let letter ← characterAt source (offset + 1)
      fail source (.invalidEscape letter) offset

/-- Steps through the inside of a quoted integer that goes on at an offset. -/
def quotedExit (offset : Nat) : List UInt8 → Exit
  | [] => .unclosed
  | byte :: rest =>
      if byte.toChar = '\x27' then .closed offset
      else if byte.toChar.isAlphanum then quotedExit (offset + 1) rest
      else .refused offset

def quotedInteger (start : Nat) : Sliced Turn :=
  match quotedExit (start + 1) (bytesFrom source (start + 1)) with
  | .closed stop => valued source .quotedInteger start ⟨start + 1, stop⟩ (stop + 1)
  | .unclosed => fail source .unterminatedQuotedInteger start
  | .refused offset => do
      let refused ← characterAt source offset
      fail source (.invalidQuotedCharacter refused) offset

def lineComment (start : Nat) : Sliced Turn :=
  let stop := pass source Cut.continuesLine start
  valued source .comment start ⟨start, stop⟩ stop

/-- Searches the end of a block comment in all that follows its opening mark. -/
def blockComment (start : Nat) : Sliced Turn := do
  let text ← Sliced.slice source ⟨start + 2, source.utf8ByteSize⟩
  match Cut.splitBlock? text.toList with
  | some (block, _) =>
      let stop := start + 2 + Source.byteLength block
      valued source .comment start ⟨start, stop⟩ stop
  | none => fail source .unterminatedBlockComment start

/-- Passes a symbol that begins with a byte, or the character to which the byte belongs. -/
def symbol (first : Char) (start : Nat) : Sliced Turn :=
  match (byteAt? source (start + 1)).bind (Cut.doubleSymbol? first) with
  | some kind => fixed kind start (start + 2)
  | none =>
      match Cut.singleSymbol? first with
      | some kind => fixed kind start (start + 1)
      | none => other source start

/-- One turn of the cursor: a blank or a token is passed. -/
def turn (cursor : Nat) : Sliced Turn :=
  match byteAt? source cursor with
  | none => pure .finished
  | some first =>
      if isBlank first then pure (.onwards none (cursor + 1))
      else if Cut.startsWord first then word source cursor
      else if first.isDigit then number source cursor
      else if first = '\x22' then string source cursor
      else if first = '\x27' then quotedInteger source cursor
      else if first = '$' ∧ (byteAt? source (cursor + 1)).any Radix.hexadecimal.isDigit then
        radixDigits source .hexInteger .hexadecimal cursor (cursor + 1)
      else if first = '/' ∧ byteAt? source (cursor + 1) = some '/' then
        lineComment source cursor
      else if first = '/' ∧ byteAt? source (cursor + 1) = some '*' then
        blockComment source cursor
      else symbol source first cursor

/-- The places to which the cursor comes, from behind the mark in front. -/
inductive Reaches : Nat → Prop
  | start : Reaches (Source.textStart source.toList)
  | next {cursor next : Nat} {token? : Option Token} (reached : Reaches cursor)
      (moves : (turn source cursor).result = .onwards token? next) : Reaches next

/-- What comes of all turns from a place on. -/
inductive Yields : Nat → Except LexError (List Token) → Prop
  | finished {cursor : Nat} (ends : (turn source cursor).result = .finished) :
      Yields cursor (.ok [])
  | onwards {cursor next : Nat} {token? : Option Token} {rest : Except LexError (List Token)}
      (moves : (turn source cursor).result = .onwards token? next) (others : Yields next rest) :
      Yields cursor (rest.map (token?.toList ++ ·))
  | failed {cursor : Nat} {error : LexError} (fails : (turn source cursor).result = .failed error) :
      Yields cursor (.error error)

end Cursor

end JassExpr
