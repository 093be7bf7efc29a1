import JassExpr.Source.Extent
import JassExpr.Source.Mark

/-!
# Lines and columns

A line map holds the offsets at which the lines of a text start, so that the line of an offset is
found by halving. A line ends with a line feed and with nothing else. Columns count characters,
and a byte-order mark in front of the text is not a column.
-/

namespace JassExpr

/-- A place as a reader counts it: lines and columns start at one. -/
structure Position where
  line : Nat
  column : Nat
deriving DecidableEq

/-- A position is displayed as its line and its column with a colon between them. -/
def Position.display (position : Position) : String :=
  toString position.line ++ ":" ++ toString position.column

namespace Source

/-- The offsets just after the line feeds of a text that begins at the given offset. -/
def offsetsAfterLineFeeds (offset : Nat) : List Char → List Nat
  | [] => []
  | character :: rest =>
      if character = '\n' then
        (offset + 1) :: offsetsAfterLineFeeds (offset + 1) rest
      else
        offsetsAfterLineFeeds (offset + character.utf8Size) rest

/-- The number of characters, in a text that begins at the given offset, whose first byte lies
from `start` on and before `stop`. -/
def charactersWithin (start stop offset : Nat) : List Char → Nat
  | [] => 0
  | character :: rest =>
      (if start ≤ offset ∧ offset < stop then 1 else 0) +
        charactersWithin start stop (offset + character.utf8Size) rest

end Source

/-- A text with the offsets at which its lines start. -/
structure LineMap where
  text : List Char
  starts : Array Nat

namespace LineMap

/-- The line map of a source. The first line starts after a leading byte-order mark, every other
one just after a line feed. -/
def ofSource (source : String) : LineMap where
  text := source.toList
  starts :=
    (Source.byteLength (Source.splitMark source.toList).1 ::
      Source.offsetsAfterLineFeeds 0 source.toList).toArray

/-- Number of lines. An empty text has one line. -/
def lineCount (lines : LineMap) : Nat :=
  lines.starts.size

/-- The offset at which a line starts, where lines are counted from zero. -/
def startOf (lines : LineMap) (line : Nat) : Nat :=
  lines.starts.getD line 0

/-- The last line, from `low` on and before `high`, that does not start after an offset, provided
that line `low` does not. The range is halved until one line is left. -/
def lineBetween (lines : LineMap) (offset low high : Nat) : Nat :=
  if low + 1 < high then
    if lines.startOf ((low + high) / 2) ≤ offset then
      lines.lineBetween offset ((low + high) / 2) high
    else
      lines.lineBetween offset low ((low + high) / 2)
  else
    low
termination_by high - low

/-- The nearest offset that lies inside the text and not inside a leading byte-order mark. -/
def clamp (lines : LineMap) (offset : Nat) : Nat :=
  max (lines.startOf 0) (min offset (Source.byteLength lines.text))

/-- The line and column of an offset. Offsets outside the text count as its nearest end, and an
offset inside a character counts that character as already passed. -/
def position (lines : LineMap) (offset : Nat) : Position :=
  let line := lines.lineBetween (lines.clamp offset) 0 lines.lineCount
  { line := line + 1
    column := Source.charactersWithin (lines.startOf line) (lines.clamp offset) 0 lines.text + 1 }

end LineMap

end JassExpr
