import JassExpr.Proofs.Source.Advance
import JassExpr.Proofs.Token.Faults
import JassExpr.Proofs.Token.Lines

/-!
# Lexical errors and what is written after them

A text that is still being written may show an error that goes away. A literal or a comment that is
not closed can be closed, and digits can follow the mark of a hexadecimal integer at the very end.
All other errors persist, whatever is written after them: the scan has seen all of their cause.
-/

namespace JassExpr

/-- What lets a text end still does when more follows, unless all that followed it was a point. -/
theorem TokenKind.Ends.append_right {kind : TokenKind} {text rest : List Char}
    (ends : kind.Ends text rest) (nonempty : rest ≠ []) (notPoint : rest ≠ ['.'])
    (more : List Char) : kind.Ends text (rest ++ more) where
  apart := by
    rw [List.head?_append_of_ne_nil _ nonempty]
    exact ends.apart
  noPlaces := by
    intro isInteger digit after begins
    obtain ⟨first, others, rfl⟩ := List.exists_cons_of_ne_nil nonempty
    obtain ⟨rfl, behind⟩ := List.cons.inj begins
    cases others with
    | nil => exact absurd rfl notPoint
    | cons second others =>
        obtain ⟨rfl, -⟩ := List.cons.inj behind
        exact ends.noPlaces isInteger second others rfl

theorem IsStringBody.append {first second : List Char} (escaped : IsStringBody first)
    (escapedSecond : IsStringBody second) : IsStringBody (first ++ second) := by
  induction escaped with
  | empty => exact escapedSecond
  | character notQuote notBackslash others ih => exact .character notQuote notBackslash ih
  | escape known others ih => exact .escape known ih

namespace CutFault.ShownBy

variable {fault : CutFault} {text : List Char}

theorem ne_nil (shown : fault.ShownBy text) : text ≠ [] := by
  cases shown <;> exact List.cons_ne_nil _ _

/-- A text that shows a fault begins with what stands in front of the cause. -/
theorem exists_append (shown : fault.ShownBy text) : ∃ rest, text = fault.passed ++ rest := by
  cases shown <;> exact ⟨_, rfl⟩

/-- What is left to write after a text that shows a fault: something that makes a lexeme of it, or
nothing that takes the fault away. -/
theorem outlook (shown : fault.ShownBy text) :
    match fault.kind with
    | .unterminatedString | .unterminatedQuotedInteger | .unterminatedBlockComment =>
        ∃ (more : List Char) (lexeme : Lexeme), lexeme.Written (text ++ more)
    | .invalidEscape letter =>
        (∃ rest, text = fault.passed ++ '\\' :: letter :: rest) ∧
          ∀ more, fault.ShownBy (text ++ more)
    | .invalidQuotedCharacter refused =>
        (∃ rest, text = fault.passed ++ refused :: rest) ∧
          ∀ more, fault.ShownBy (text ++ more)
    | .emptyHexLiteral =>
        fault.passed = [] ∧ ∃ mark ∈ [['0', 'x'], ['0', 'X']], ∃ rest, text = mark ++ rest ∧
          (rest = [] → ∃ (more : List Char) (lexeme : Lexeme), lexeme.Written (text ++ more)) ∧
            (rest ≠ [] → ∀ more, fault.ShownBy (text ++ more)) := by
  cases shown with
  | openString escaped => exact ⟨['\x22'], _, .string escaped⟩
  | @openEscape body escaped =>
      -- The backslash is left to escape a quote.
      have quoted : IsStringBody (body ++ ['\\', '\x22']) :=
        escaped.append (.escape (by decide) .empty)
      have written := Lexeme.Written.string quoted
      refine ⟨['\x22', '\x22'], .valued .string (String.ofList (body ++ ['\\', '\x22'])), ?_⟩
      simpa using written
  | @wrongEscape body rest letter escaped unknown =>
      refine ⟨⟨rest, rfl⟩, fun more => ?_⟩
      have shown := @wrongEscape body (rest ++ more) letter escaped unknown
      simpa using shown
  | openQuotedInteger alphanumeric => exact ⟨['\x27'], _, .quotedInteger alphanumeric⟩
  | @wrongCharacter code rest refused alphanumeric notAlphanumeric notQuote =>
      refine ⟨⟨rest, rfl⟩, fun more => ?_⟩
      have shown :=
        @wrongCharacter code (rest ++ more) refused alphanumeric notAlphanumeric notQuote
      simpa using shown
  | openComment unclosed => exact ⟨['*', '/'], _, .blockComment unclosed⟩
  | @bareMark letter rest isMark noDigit =>
      have isListed : ['0', letter] ∈ [['0', 'x'], ['0', 'X']] := by simpa using isMark
      refine ⟨rfl, ['0', letter], isListed, rest, rfl, ?_, ?_⟩
      · rintro rfl
        have marked : ['0', letter] ∈ hexadecimalMarks := List.mem_append_left [['$']] isListed
        have digits : ∀ digit ∈ ['0'], Radix.hexadecimal.isDigit digit = true :=
          List.forall_mem_singleton.mpr rfl
        exact ⟨['0'], .valued .hexInteger (String.ofList ['0']),
          .hexadecimal marked (List.cons_ne_nil _ _) digits⟩
      · intro nonempty more
        have stops : ∀ next ∈ (rest ++ more).head?, Radix.hexadecimal.isDigit next = false := by
          rwa [List.head?_append_of_ne_nil _ nonempty]
        exact .bareMark isMark stops

end CutFault.ShownBy

namespace Scan

/-- A point is a lexeme of its own. -/
theorem fault?_textFrom_point (offset : Nat) : (textFrom offset ['.']).fault? = none := by
  have found : Cut.front '.' [] = .ok (Cut.plain .other ['.'] []) := rfl
  rw [textFrom_cut rfl found]
  rw [Cut.plain, textFrom_nil]
  rfl

theorem ofSource_eq (source : String) :
    ofSource source =
      textFrom (Source.textStart source.toList) (Source.splitMark source.toList).2 :=
  rfl

/-- A scan that ends with a fault has come to a text that shows it, and has found what it will find
whatever is written after that text. -/
theorem exists_shownBy {offset : Nat} {text : List Char} {kind : LexErrorKind} {place : Nat}
    (faulty : (textFrom offset text).fault? = some (kind, place)) :
    ∃ (front back : List Char) (fault : CutFault), text = front ++ back ∧ fault.ShownBy back ∧
      kind = fault.kind ∧
        place = offset + Source.byteLength front + Source.byteLength fault.passed ∧
          ∀ more, textFrom offset (text ++ more) =
            (textFrom (offset + Source.byteLength front) (back ++ more)).behind
              (textFrom offset text).tokens := by
  fun_induction textFrom offset text with
  | case1 => cases faulty
  | case2 offset first rest blank ih =>
      obtain ⟨front, back, fault, rfl, shown, sameKind, samePlace, same⟩ := ih faulty
      have length : offset + Source.byteLength (first :: front) =
          offset + 1 + Source.byteLength front := by
        rw [Source.byteLength_cons, utf8Size_blank blank, Nat.add_assoc]
      refine ⟨first :: front, back, fault, rfl, shown, sameKind, ?_, fun more => ?_⟩
      · rw [length, samePlace]
      · rw [List.cons_append, textFrom_blank blank, same, length]
  | case3 offset first rest notBlank cut found ih =>
      have recognised := Cut.front_recognised (by simpa using notBlank) found
      have whole := (Cut.front_consumes found).1
      obtain ⟨front, back, fault, rest, shown, sameKind, samePlace, same⟩ := ih faulty
      have nonempty : cut.rest ≠ [] := by
        rw [rest]
        exact List.append_ne_nil_of_right_ne_nil _ shown.ne_nil
      have notPoint : cut.rest ≠ ['.'] := by
        intro isPoint
        have faulty' : (textFrom (offset + Source.byteLength cut.written) cut.rest).fault? =
          some (kind, place) := faulty
        rw [isPoint, fault?_textFrom_point] at faulty'
        cases faulty'
      have length : offset + Source.byteLength (cut.written ++ front) =
          offset + Source.byteLength cut.written + Source.byteLength front := by
        rw [Source.byteLength_append, Nat.add_assoc]
      refine ⟨cut.written ++ front, back, fault, ?_, shown, sameKind, ?_, fun more => ?_⟩
      · rw [← whole, rest, List.append_assoc]
      · rw [length, samePlace]
      · have ends := recognised.ends.append_right nonempty notPoint more
        rw [← whole, List.append_assoc, textFrom_of_written recognised.written ends, same, length]
        rfl
  | case4 offset first rest notBlank fault found =>
      cases faulty
      exact ⟨[], first :: rest, fault, rfl, Cut.shownBy_of_front found, rfl, rfl, fun more => rfl⟩

end Scan

namespace Source

/-- What comes behind a text that is not empty makes no difference to the mark in front. -/
theorem splitMark_append_of_ne_nil {text : List Char} (nonempty : text ≠ []) (more : List Char) :
    splitMark (text ++ more) = ((splitMark text).1, (splitMark text).2 ++ more) := by
  obtain ⟨first, rest, rfl⟩ := List.exists_cons_of_ne_nil nonempty
  rw [List.cons_append, splitMark, splitMark]
  split <;> rfl

/-- A text stands at an offset of a source. -/
def StandsAt (source : String) (offset : Nat) (text : List Char) : Prop :=
  (Span.mk offset (offset + byteLength text)).slice? source = some (String.ofList text)

theorem standsAt_of_append {source : String} {front text rest : List Char} {offset : Nat}
    (whole : source.toList = front ++ text ++ rest) (places : offset = byteLength front) :
    StandsAt source offset text := by
  rw [StandsAt, places, ← byteLength_append]
  exact Span.slice?_of_append whole

end Source

/-- Something can be written after a source so that it is tokens. -/
def CanBeCompleted (source : String) : Prop :=
  ∃ (more : String) (tokens : List Token), tokenize (source ++ more) = .ok tokens

/-- A source has an error whatever is written after it. -/
def LexError.PersistsIn (error : LexError) (source : String) : Prop :=
  ∀ more, tokenize (source ++ more) = .error error

section

variable {source : String} {front back : List Char} {fault : CutFault}

/-- The position of an error does not depend on what is written after its cause. -/
theorem LexError.inSource_append (whole : (Source.splitMark source.toList).2 = front ++ back)
    (nonempty : source.toList ≠ []) (kind : LexErrorKind) (more : String) :
    inSource (source ++ more) kind (Source.textStart source.toList + Source.byteLength front) =
      inSource source kind (Source.textStart source.toList + Source.byteLength front) := by
  have split := Source.splitMark_append_of_ne_nil nonempty more.toList
  rw [← String.toList_append] at split
  have wholeMore : (Source.splitMark (source ++ more).toList).2 =
      front ++ (back ++ more.toList) := by
    rw [split, whole, List.append_assoc]
  have sameStart : Source.textStart source.toList = Source.textStart (source ++ more).toList := by
    rw [Source.textStart, Source.textStart, split]
  have position := LineMap.position_eq_advance wholeMore
  rw [← sameStart] at position
  rw [inSource, inSource, position, LineMap.position_eq_advance whole]

/-- Where a source has an error, the rest of it shows a fault. If something makes a lexeme of that
rest, then it completes the source, and if nothing takes away the fault, then the error persists. -/
theorem exists_shownBy_of_tokenize {error : LexError} (failed : tokenize source = .error error) :
    ∃ (front back : List Char) (fault : CutFault),
      (Source.splitMark source.toList).2 = front ++ back ∧ fault.ShownBy back ∧
        error.kind = fault.kind ∧
          error.offset =
              Source.textStart source.toList + Source.byteLength (front ++ fault.passed) ∧
            ((∃ (more : List Char) (lexeme : Lexeme), lexeme.Written (back ++ more)) →
              CanBeCompleted source) ∧
              ((∀ more, fault.ShownBy (back ++ more)) → error.PersistsIn source) := by
  rw [tokenize] at failed
  cases faulty : (Scan.ofSource source).fault? with
  | none =>
      rw [faulty] at failed
      cases failed
  | some found =>
      obtain ⟨kind, offset⟩ := found
      rw [faulty] at failed
      obtain rfl : LexError.inSource source kind offset = error := by simpa using failed
      rw [Scan.ofSource_eq] at faulty
      obtain ⟨front, back, fault, whole, shown, rfl, place, scan⟩ := Scan.exists_shownBy faulty
      have nonempty : source.toList ≠ [] := by
        intro isEmpty
        rw [isEmpty] at whole
        exact shown.ne_nil (List.append_eq_nil_iff.mp whole.symm).2
      have scanMore : ∀ more : String, Scan.ofSource (source ++ more) =
          (Scan.textFrom (Source.textStart source.toList + Source.byteLength front)
            (back ++ more.toList)).behind (Scan.ofSource source).tokens := by
        intro more
        have split := Source.splitMark_append_of_ne_nil nonempty more.toList
        rw [← String.toList_append] at split
        rw [Scan.ofSource_eq, Scan.ofSource_eq, ← scan more.toList, Source.textStart, split]
        rfl
      have placed : offset =
          Source.textStart source.toList + Source.byteLength (front ++ fault.passed) := by
        rw [place, Source.byteLength_append, Nat.add_assoc]
      refine ⟨front, back, fault, whole, shown, rfl, placed, ?_, ?_⟩
      · rintro ⟨more, lexeme, written⟩
        have ends : lexeme.kind.Ends (back ++ more) [] := ⟨by simp, by simp⟩
        have faultless : (Scan.ofSource (source ++ String.ofList more)).fault? = none := by
          rw [scanMore, String.toList_ofList, ← List.append_nil (back ++ more),
            Scan.textFrom_of_written written ends, Scan.textFrom_nil]
          rfl
        exact ⟨String.ofList more, _, by rw [tokenize, faultless]⟩
      · intro persists more
        obtain ⟨first, rest, begins, notBlank, found⟩ :=
          Cut.front_of_shownBy (persists more.toList)
        obtain ⟨others, passed⟩ := shown.exists_append
        have wholePassed : (Source.splitMark source.toList).2 =
            front ++ fault.passed ++ others := by
          rw [whole, passed, List.append_assoc]
        have samePosition := LexError.inSource_append wholePassed nonempty fault.kind more
        rw [← placed] at samePosition
        have sameOffset : Source.textStart source.toList + Source.byteLength front +
            Source.byteLength fault.passed = offset := by
          rw [placed, Source.byteLength_append, Nat.add_assoc]
        rw [tokenize, scanMore, begins, Scan.textFrom_fault notBlank found]
        simp only [Scan.behind, sameOffset, samePosition]

end

/-- What becomes of a lexical error when more is written after the source depends on its kind. What
is not closed can be closed. A wrong escape stands with its letter at the offset of the error, as a
wrong character does, and nothing takes such an error away. The mark of a hexadecimal integer can
get digits only if the source ends with it. -/
theorem tokenize_error_outlook {source : String} {error : LexError}
    (failed : tokenize source = .error error) :
    match error.kind with
    | .unterminatedString | .unterminatedQuotedInteger | .unterminatedBlockComment =>
        CanBeCompleted source
    | .invalidEscape letter =>
        Source.StandsAt source error.offset ['\\', letter] ∧ error.PersistsIn source
    | .invalidQuotedCharacter refused =>
        Source.StandsAt source error.offset [refused] ∧ error.PersistsIn source
    | .emptyHexLiteral =>
        (∃ mark ∈ [['0', 'x'], ['0', 'X']], Source.StandsAt source error.offset mark) ∧
          (error.offset + 2 = source.utf8ByteSize → CanBeCompleted source) ∧
            (error.offset + 2 ≠ source.utf8ByteSize → error.PersistsIn source) := by
  obtain ⟨front, back, fault, whole, shown, sameKind, place, completes, persists⟩ :=
    exists_shownBy_of_tokenize failed
  have outlook := shown.outlook
  have parts : source.toList = (Source.splitMark source.toList).1 ++ (front ++ back) := by
    rw [← whole, Source.splitMark_append]
  have atCause : ∀ text rest, back = fault.passed ++ text ++ rest →
      Source.StandsAt source error.offset text := by
    intro text rest begins
    have split : source.toList =
        ((Source.splitMark source.toList).1 ++ (front ++ fault.passed)) ++ text ++ rest := by
      rw [begins] at parts
      simpa using parts
    apply Source.standsAt_of_append split
    rw [place, Source.byteLength_append (Source.splitMark source.toList).1, Source.textStart]
  rw [sameKind]
  cases kind : fault.kind with
  | unterminatedString | unterminatedQuotedInteger | unterminatedBlockComment =>
      rw [kind] at outlook
      exact completes outlook
  | invalidEscape letter =>
      rw [kind] at outlook
      obtain ⟨⟨rest, begins⟩, remains⟩ := outlook
      exact ⟨atCause _ rest (by simpa using begins), persists remains⟩
  | invalidQuotedCharacter refused =>
      rw [kind] at outlook
      obtain ⟨⟨rest, begins⟩, remains⟩ := outlook
      exact ⟨atCause _ rest (by simpa using begins), persists remains⟩
  | emptyHexLiteral =>
      rw [kind] at outlook
      obtain ⟨noPassed, mark, isListed, rest, begins, atEnd, notAtEnd⟩ := outlook
      have length : source.utf8ByteSize = error.offset + 2 + Source.byteLength rest := by
        have markLength : Source.byteLength mark = 2 := by
          rcases List.mem_pair.mp isListed with rfl | rfl <;> rfl
        have total := congrArg Source.byteLength parts
        rw [begins, Source.byteLength_append, Source.byteLength_append, Source.byteLength_append,
          markLength] at total
        rw [Source.utf8ByteSize_eq, total, place, noPassed, List.append_nil, Source.textStart]
        omega
      refine ⟨⟨mark, isListed, atCause mark rest (by rw [noPassed, begins]; rfl)⟩, ?_, ?_⟩
      · intro ends
        apply completes
        apply atEnd
        rw [← Source.byteLength_eq_zero_iff]
        omega
      · intro goesOn
        apply persists
        apply notAtEnd
        rintro rfl
        rw [Source.byteLength_nil] at length
        omega

/-- A wrong escape behind a mark stays one, a comment that is opened by a slash and a star and is
not closed by a slash can be closed, and the mark of a hexadecimal integer can get digits at the
end but not in front of a blank. -/
theorem tokenize_error_outlook_cases :
    LexError.PersistsIn ⟨.invalidEscape 'q', 4, ⟨1, 2⟩⟩ "\ufeff\"\\q" ∧
      CanBeCompleted "/*/" ∧ CanBeCompleted "a 0x" ∧
        LexError.PersistsIn ⟨.emptyHexLiteral, 2, ⟨1, 3⟩⟩ "a 0x " := by
  have escape : tokenize "\ufeff\"\\q" = .error ⟨.invalidEscape 'q', 4, ⟨1, 2⟩⟩ := by cbv
  have comment : tokenize "/*/" = .error ⟨.unterminatedBlockComment, 0, ⟨1, 1⟩⟩ := by cbv
  have atEnd : tokenize "a 0x" = .error ⟨.emptyHexLiteral, 2, ⟨1, 3⟩⟩ := by cbv
  have notAtEnd : tokenize "a 0x " = .error ⟨.emptyHexLiteral, 2, ⟨1, 3⟩⟩ := by cbv
  exact ⟨(tokenize_error_outlook escape).2, tokenize_error_outlook comment,
    (tokenize_error_outlook atEnd).2.1 rfl, (tokenize_error_outlook notAtEnd).2.2 (by decide)⟩

end JassExpr
