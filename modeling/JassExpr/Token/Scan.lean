import JassExpr.Source.Mark
import JassExpr.Token.Consumption

/-!
# Scanning a whole text

A scan cuts lexeme after lexeme, passing over blanks, and puts each at its place. It ends with
the text or with the first fault, and in either case has all the tokens in front of that point.
-/

namespace JassExpr

/-- The blanks that may stand between lexemes. -/
def isBlank (character : Char) : Bool :=
  character == ' ' || character == '\t' || character == '\r' || character == '\n'

/-- The tokens of a text as far as it can be read, and, if that is not to its end, what is wrong
and at which offset. -/
structure Scan where
  tokens : List Token
  fault? : Option (LexErrorKind × Nat)

namespace Scan

def after (token : Token) (scan : Scan) : Scan :=
  { scan with tokens := token :: scan.tokens }

/-- The token of a cut that begins at an offset. -/
def tokenOf (offset : Nat) (cut : Cut) : Token :=
  ⟨cut.lexeme, ⟨offset, offset + Source.byteLength cut.written⟩⟩

/-- Scans a text that begins at an offset. -/
def textFrom (offset : Nat) (text : List Char) : Scan :=
  match text with
  | [] => ⟨[], none⟩
  | first :: rest =>
      if isBlank first then
        textFrom (offset + 1) rest
      else
        match _found : Cut.front first rest with
        | .ok cut =>
            (textFrom (offset + Source.byteLength cut.written) cut.rest).after (tokenOf offset cut)
        | .error fault =>
            ⟨[], some (fault.kind, offset + Source.byteLength fault.passed)⟩
termination_by text.length
decreasing_by
  · simp
  · exact (Cut.front_consumes _found).rest_length_lt

@[simp]
theorem textFrom_nil (offset : Nat) : textFrom offset [] = ⟨[], none⟩ := by
  rw [textFrom]

theorem textFrom_blank {offset : Nat} {first : Char} {rest : List Char}
    (blank : isBlank first = true) :
    textFrom offset (first :: rest) = textFrom (offset + 1) rest := by
  rw [textFrom]
  simp [blank]

theorem textFrom_cut {offset : Nat} {first : Char} {rest : List Char} {cut : Cut}
    (notBlank : isBlank first = false) (found : Cut.front first rest = .ok cut) :
    textFrom offset (first :: rest) =
      (textFrom (offset + Source.byteLength cut.written) cut.rest).after (tokenOf offset cut) := by
  rw [textFrom]
  simp only [notBlank, Bool.false_eq_true, if_false]
  split
  · rename_i other found'
    rw [found] at found'
    cases found'
    rfl
  · rename_i fault found'
    rw [found] at found'
    cases found'

theorem textFrom_fault {offset : Nat} {first : Char} {rest : List Char} {fault : CutFault}
    (notBlank : isBlank first = false) (found : Cut.front first rest = .error fault) :
    textFrom offset (first :: rest) =
      ⟨[], some (fault.kind, offset + Source.byteLength fault.passed)⟩ := by
  rw [textFrom]
  simp only [notBlank, Bool.false_eq_true, if_false]
  split
  · rename_i other found'
    rw [found] at found'
    cases found'
  · rename_i other found'
    rw [found] at found'
    cases found'
    rfl

/-- Scans a source, passing over a byte-order mark in front of it. -/
def ofSource (source : String) : Scan :=
  let (mark, text) := Source.splitMark source.toList
  textFrom (Source.byteLength mark) text

end Scan

/-- The tokens of a source, comments included, or its first lexical error. -/
def tokenize (source : String) : Except LexError (List Token) :=
  let scan := Scan.ofSource source
  match scan.fault? with
  | some (kind, offset) => .error (LexError.inSource source kind offset)
  | none => .ok scan.tokens

end JassExpr
