import JassExpr.Proofs.Source.LineMap
import JassExpr.Proofs.Text.Bytewise
import JassExpr.Proofs.Token.Excerpt

/-!
# Lines of tokens

The lines of a text are scanned one after the other. What complete lines in front add to the tokens
of a text is their own tokens, and where the text has a lexical error, it has the same error behind
those lines, moved by their length.
-/

namespace JassExpr

/-- The scan of a text behind complete lines is that of the text alone, moved, with the tokens of
the lines in front. -/
theorem Scan.ofSource_append_line {first second : String} {tokens : List Token}
    (scanned : tokenize first = .ok tokens)
    (noMark : second.toList.head? ≠ some Source.byteOrderMark) :
    Scan.ofSource (first ++ "\n" ++ second) =
      ((Scan.ofSource second).relocate (· + (Source.byteLength first.toList + 1))).behind
        tokens := by
  have laid := tokenize_eq_ok_iff.mp scanned
  have characters : (first ++ "\n" ++ second).toList = first.toList ++ '\n' :: second.toList := by
    simp
  have length : Source.byteLength (Source.splitMark first.toList).1 +
      Source.byteLength (Source.splitMark first.toList).2 + 1 =
        0 + (Source.byteLength first.toList + 1) := by
    have whole := congrArg Source.byteLength (Source.splitMark_append first.toList)
    rw [Source.byteLength_append] at whole
    omega
  simp only [ofSource, characters, Source.splitMark_append_line,
    Source.splitMark_of_head?_ne noMark]
  rw [textFrom_append_line laid, length, textFrom_add]
  rfl

/-- Tokens are found line by line. Behind complete lines, the tokens of a text come after those of
the lines, moved by the length of these. An error of the text is the same one there, moved as far,
and has the same column in a line that is further on by the number of those in front. -/
theorem tokenize_append_line {first second : String} {tokens : List Token}
    (scanned : tokenize first = .ok tokens)
    (noMark : second.toList.head? ≠ some Source.byteOrderMark) :
    (∀ others, tokenize second = .ok others →
      tokenize (first ++ "\n" ++ second) =
        .ok (tokens ++ others.map (Token.relocate (· + (first.utf8ByteSize + 1))))) ∧
    ∀ error, tokenize second = .error error →
      tokenize (first ++ "\n" ++ second) =
        .error ⟨error.kind, error.offset + (first.utf8ByteSize + 1),
          ⟨error.position.line + (1 + first.toUTF8.data.toList.count 0x0a),
            error.position.column⟩⟩ := by
  have whole := Scan.ofSource_append_line scanned noMark
  have lineFeeds : first.toUTF8.data.toList.count 0x0a = first.toList.count '\n' := by
    rw [Source.bytes_toList, Source.count_bytes_lineFeed]
  rw [Source.utf8ByteSize_eq, lineFeeds, tokenize, tokenize, whole]
  cases faulty : (Scan.ofSource second).fault? with
  | none =>
      simp only [Scan.behind, Scan.relocate, faulty]
      refine ⟨?_, by simp⟩
      rintro others ⟨⟩
      rfl
  | some fault =>
      obtain ⟨kind, offset⟩ := fault
      simp only [Scan.behind, Scan.relocate, faulty]
      refine ⟨by simp, ?_⟩
      rintro error ⟨⟩
      simp only [Option.map_some, LexError.inSource, LineMap.position_append_line noMark]
      rw [Nat.add_comm 1]

/-- Behind a mark, two lines and a comment that ends with its line, a name is the next token. A
wrong escape in the second line there is in the fourth of all. -/
theorem tokenize_append_line_comment :
    let first := "\ufeffx\n//é"
    let tokens : List Token := [⟨.valued .identifier "x", ⟨3, 4⟩⟩, ⟨.valued .comment "//é", ⟨5, 9⟩⟩]
    tokenize first = .ok tokens ∧
      tokenize "y" = .ok [⟨.valued .identifier "y", ⟨0, 1⟩⟩] ∧
      tokenize (first ++ "\n" ++ "y") = .ok (tokens ++ [⟨.valued .identifier "y", ⟨10, 11⟩⟩]) ∧
      tokenize "\n\"é\\q" = .error ⟨.invalidEscape 'q', 4, ⟨2, 3⟩⟩ ∧
      tokenize (first ++ "\n" ++ "\n\"é\\q") = .error ⟨.invalidEscape 'q', 14, ⟨4, 3⟩⟩ := by
  intro first tokens
  have scanned : tokenize first = .ok tokens := by cbv
  have scannedName : tokenize "y" = .ok [⟨.valued .identifier "y", ⟨0, 1⟩⟩] := by cbv
  have failed : tokenize "\n\"é\\q" = .error ⟨.invalidEscape 'q', 4, ⟨2, 3⟩⟩ := by cbv
  have size : first.utf8ByteSize = 9 := by cbv
  have lineFeeds : first.toUTF8.data.toList.count 0x0a = 1 := by cbv
  have withName := (tokenize_append_line scanned (by decide)).1 _ scannedName
  have withError := (tokenize_append_line scanned (by decide)).2 _ failed
  rw [size] at withName withError
  rw [lineFeeds] at withError
  exact ⟨scanned, scannedName, withName, failed, withError⟩

end JassExpr
