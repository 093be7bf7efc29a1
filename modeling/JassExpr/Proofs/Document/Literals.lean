import JassExpr.Proofs.Document.Formatting
import JassExpr.Proofs.Phrase.Reasons

/-!
# Sources that are one literal

A text that writes one lexeme is scanned as one token. If the lexeme is that of a literal, the token
is read as that literal, and a token of a literal kind that has no value is refused.
-/

namespace JassExpr

theorem parseSource_eq_lexical_iff {source : String} {error : LexError} :
    parseSource source = .error (.lexical error) ↔ tokenize source = .error error := by
  unfold parseSource
  split
  · simp_all
  · split <;> simp_all

theorem parseSource_eq_syntactic_iff {source : String} {error : SyntaxError} :
    parseSource source = .error (.syntactic error) ↔
      ∃ tokens, tokenize source = .ok tokens ∧
        parseWith defaultLimit (Token.stripComments tokens) = .error error := by
  unfold parseSource parse
  split
  · simp_all
  · split <;> simp_all

namespace Lexeme

variable {lexeme : Lexeme} {text : List Char}

/-- The token of a lexeme whose text is all of a source. -/
def alone (lexeme : Lexeme) (text : List Char) : Token :=
  ⟨lexeme, ⟨0, Source.byteLength text⟩⟩

/-- The text of a literal is scanned as one token, which is no comment. -/
theorem Written.tokenize_eq (written : lexeme.Written text)
    (isLiteral : lexeme.kind.isLiteral = true) :
    tokenize (String.ofList text) = .ok [lexeme.alone text] ∧
      Token.stripComments [lexeme.alone text] = [lexeme.alone text] := by
  have known : lexeme.kind ≠ .other := TokenKind.ne_of_isLiteral isLiteral rfl
  have noComment : lexeme.kind ≠ .comment := TokenKind.ne_of_isLiteral isLiteral rfl
  have ends : lexeme.kind.Ends text [] := ⟨by simp, by simp⟩
  have laid : Laid 0 (text ++ []) [⟨lexeme, ⟨0, 0 + Source.byteLength text⟩⟩] :=
    .token written ends .empty
  rw [List.append_nil, Nat.zero_add] at laid
  constructor
  · rw [tokenize_eq_ok_iff, String.toList_ofList,
      Source.splitMark_of_head?_ne (written.head?_ne_mark known)]
    exact laid
  · simpa [Token.stripComments, alone] using noComment

/-- The text of a literal is read as that literal and nothing else. -/
theorem Written.parseSource_eq (written : lexeme.Written text) {value : Literal}
    (reads : Literal.ofLexeme? lexeme = some value) :
    parseSource (String.ofList text) = .ok [.literal (lexeme.alone text) value] := by
  obtain ⟨scanned, noComment⟩ := written.tokenize_eq (Literal.isLiteral_of_ofLexeme? reads)
  refine parseSource_eq_ok_iff.mpr ⟨_, scanned, ?_⟩
  rw [noComment]
  exact parseWith_tokens (.literal reads) (Nat.zero_le _)

/-- The text of a literal without a value is refused. -/
theorem Written.parseSource_invalid (written : lexeme.Written text)
    (isLiteral : lexeme.kind.isLiteral = true) (invalid : Literal.ofLexeme? lexeme = none) :
    parseSource (String.ofList text) = .error (.syntactic
      ⟨.invalidLiteral lexeme.text, some (lexeme.alone text), (lexeme.alone text).span⟩) := by
  obtain ⟨scanned, noComment⟩ := written.tokenize_eq isLiteral
  refine parseSource_eq_syntactic_iff.mpr ⟨_, scanned, ?_⟩
  rw [noComment]
  exact parseWith_invalid isLiteral invalid

end Lexeme

end JassExpr
