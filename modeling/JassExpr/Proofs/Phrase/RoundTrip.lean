import Mathlib
import JassExpr.Proofs.Phrase.Accepts
import JassExpr.Proofs.Phrase.Layout
import JassExpr.Proofs.Phrase.Shape

/-!
# Reading what was formatted

The canonical text of an expression that was read is scanned as the tokens of its canonical
phrase, and these are read as that phrase, within the same limit. So formatting loses nothing of an
expression but the places of its nodes, and formatting again changes nothing.
-/

namespace JassExpr

/-- A lexeme that is written somehow has nothing but what its kind needs. -/
theorem Lexeme.Written.plain_eq {lexeme : Lexeme} {text : List Char}
    (written : lexeme.Written text) : lexeme.plain = lexeme := by
  cases spelled : lexeme.kind.spelling? with
  | none => rw [plain_of_unspelled rfl spelled, written.valued_text spelled]
  | some spelling =>
      cases written with
      | fixed => exact plain_of_spelled rfl spelled
      | _ => cases spelled

/-- The tokens of a canonical phrase are written as they are spelled, given that the tokens from
which the expression was read are written in some way. -/
theorem Phrase.Grammatical.written_of_mem_canonical {phrase : Phrase Token}
    (grammatical : phrase.Grammatical Token.toLexeme)
    (written : ∀ token ∈ phrase.tokens, ∃ text, token.toLexeme.Written text)
    (noComment : ∀ token ∈ phrase.tokens, token.kind ≠ .comment) :
    ∀ word ∈ phrase.expr.canonical.tokens,
      word.Written word.spell.toList ∧ word.kind ≠ .comment := by
  intro word inside
  obtain ⟨token, member, rfl⟩ := grammatical.exists_plain_eq inside
  obtain ⟨text, writtenText⟩ := written token member
  rw [writtenText.plain_eq]
  exact ⟨writtenText.spell, noComment token member⟩

/-- The canonical text of an expression is laid out as the tokens of its canonical phrase, given
that the tokens from which it was read are written in some way. -/
theorem Phrase.Grammatical.exists_laid_format {phrase : Phrase Token}
    (grammatical : phrase.Grammatical Token.toLexeme)
    (written : ∀ token ∈ phrase.tokens, ∃ text, token.toLexeme.Written text)
    (noComment : ∀ token ∈ phrase.tokens, token.kind ≠ .comment) (offset : Nat) :
    ∃ formatted, Laid offset phrase.expr.format.toList formatted ∧
      formatted.map Token.toLexeme = phrase.expr.canonical.tokens := by
  have each := grammatical.written_of_mem_canonical written noComment
  have separate := separable_canonical phrase.expr [] trivial trivial
  rw [List.append_nil] at separate
  rw [← tokens_pieces phrase.expr.canonical] at each ⊢
  rw [Expr.toList_format]
  exact Piece.exists_laid (fun word inside => (each word inside).1)
    (fun word inside => (each word inside).2) separate offset

/-- No phrase begins with what could be a byte-order mark. -/
theorem Phrase.Grammatical.kind_ne_other {τ : Type} {lexeme : τ → Lexeme} {phrase : Phrase τ}
    (grammatical : phrase.Grammatical lexeme) {token : τ} (begins : token ∈ phrase.tokens.head?) :
    (lexeme token).kind ≠ .other := by
  rw [head?_tokens] at begins
  cases begins
  intro isOther
  have beginsPhrase := grammatical.beginsPhrase
  rw [isOther] at beginsPhrase
  cases beginsPhrase

/-- The canonical text of an expression is scanned as the tokens of its canonical phrase. -/
theorem Phrase.Grammatical.exists_tokenize_format {phrase : Phrase Token}
    (grammatical : phrase.Grammatical Token.toLexeme)
    (written : ∀ token ∈ phrase.tokens, ∃ text, token.toLexeme.Written text)
    (noComment : ∀ token ∈ phrase.tokens, token.kind ≠ .comment) :
    ∃ formatted, tokenize phrase.expr.format = .ok formatted ∧
      formatted.map Token.toLexeme = phrase.expr.canonical.tokens := by
  obtain ⟨formatted, laid, same⟩ := grammatical.exists_laid_format written noComment 0
  have known : ∀ token ∈ formatted.head?, token.kind ≠ .other := by
    intro token member
    have begins : token.toLexeme ∈ phrase.expr.canonical.tokens.head? := by
      rw [← same, List.head?_map, member]
      rfl
    exact grammatical.canonical.kind_ne_other begins
  refine ⟨formatted, ?_, same⟩
  rw [tokenize_eq_ok_iff, Source.splitMark_of_head?_ne (laid.head?_ne_mark known)]
  exact laid

/-- Tokens that carry the canonical phrase of an expression are read as that expression, in every
limit in which it could be read before. -/
theorem Phrase.Grammatical.exists_parseWith_canonical {phrase : Phrase Token} {limit : Nat}
    (grammatical : phrase.Grammatical Token.toLexeme) (shallow : phrase.depth ≤ limit)
    {formatted : List Token}
    (same : formatted.map Token.toLexeme = phrase.expr.canonical.tokens) :
    ∃ again, parseWith limit formatted = .ok [again] ∧ again.expr = phrase.expr := by
  obtain ⟨again, rfl, isCanonical, sameExpr, noDeeper⟩ := grammatical.exists_isCanonical same
  exact ⟨again, parseWith_tokens isCanonical.grammatical (Nat.le_trans noDeeper shallow), sameExpr⟩

/-- An expression that was read from a source is formatted to a text that is scanned and read, in
the same limit, as one expression. That one is the same apart from the places of its nodes, and it
is formatted to the same text. -/
theorem parseWith_tokenize_format {source : String} {limit : Nat} {tokens : List Token}
    {phrases : List (Phrase Token)} {phrase : Phrase Token}
    (scanned : tokenize source = .ok tokens)
    (parsed : parseWith limit (Token.stripComments tokens) = .ok phrases)
    (member : phrase ∈ phrases) :
    ∃ formatted again, tokenize phrase.expr.format = .ok formatted ∧
      parseWith limit formatted = .ok [again] ∧ again.expr = phrase.expr ∧
        again.table.shape = phrase.table.shape ∧ again.expr.format = phrase.expr.format := by
  obtain ⟨whole, each⟩ := parseWith_sound parsed
  obtain ⟨grammatical, shallow⟩ := each phrase member
  have stripped : ∀ token ∈ phrase.tokens, token ∈ tokens ∧ token.kind ≠ .comment := by
    intro token inPhrase
    have inAll : token ∈ Token.stripComments tokens := by
      rw [← whole]
      exact List.mem_flatMap_of_mem member inPhrase
    simpa [Token.stripComments] using inAll
  have laid := tokenize_eq_ok_iff.mp scanned
  obtain ⟨formatted, scannedAgain, same⟩ := grammatical.exists_tokenize_format
    (fun token inPhrase => laid.exists_written token (stripped token inPhrase).1)
    (fun token inPhrase => (stripped token inPhrase).2)
  obtain ⟨again, parsedAgain, sameExpr⟩ := grammatical.exists_parseWith_canonical shallow same
  refine ⟨formatted, again, scannedAgain, parsedAgain, sameExpr, ?_, ?_⟩
  · rw [again.shape_table, phrase.shape_table, sameExpr]
  · rw [sameExpr]

/-- A group that is not needed, a hexadecimal integer with a dollar sign and a comment. -/
theorem parseWith_tokenize_format_group :
    let opening : Token := ⟨.fixed .leftParenthesis, ⟨0, 1⟩⟩
    let name : Token := ⟨.valued .identifier "a", ⟨1, 2⟩⟩
    let closing : Token := ⟨.fixed .rightParenthesis, ⟨2, 3⟩⟩
    let minus : Token := ⟨.fixed .minus, ⟨3, 4⟩⟩
    let integer : Token := ⟨.valued .hexInteger "F", ⟨4, 6⟩⟩
    let comment : Token := ⟨.valued .comment "//x", ⟨6, 9⟩⟩
    let tokens := [opening, name, closing, minus, integer, comment]
    let phrase : Phrase Token := .binary .subtract (.group opening (.name name "a") closing) minus
      (.literal integer (.integer .hexadecimal "F" 15))
    tokenize "(a)-$F//x" = .ok tokens ∧ parseWith 1 (Token.stripComments tokens) = .ok [phrase] ∧
      phrase.expr.format = "a - 0xF" ∧ ∃ formatted again,
        tokenize phrase.expr.format = .ok formatted ∧ parseWith 1 formatted = .ok [again] ∧
          again.expr = phrase.expr ∧ again.table.shape = phrase.table.shape ∧
            again.expr.format = phrase.expr.format := by
  intro opening name closing minus integer comment tokens phrase
  have scanned : tokenize "(a)-$F//x" = .ok tokens := by cbv
  have reads : Literal.ofLexeme? integer.toLexeme = some (.integer .hexadecimal "F" 15) := by cbv
  have grammatical : phrase.Grammatical Token.toLexeme :=
    .binary rfl (by decide) (by decide) (.group rfl rfl (.name rfl (by decide) rfl))
      (.literal reads)
  have parsed : parseWith 1 (Token.stripComments tokens) = .ok [phrase] :=
    parseWith_tokens grammatical (by decide)
  exact ⟨scanned, parsed, by cbv,
    parseWith_tokenize_format scanned parsed (List.mem_singleton_self phrase)⟩

end JassExpr
