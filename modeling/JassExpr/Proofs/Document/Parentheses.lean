import JassExpr.Proofs.Document.Formatting
import JassExpr.Proofs.Phrase.Groups

/-!
# Formatting and parentheses

What an expression is formatted to has the tokens from which the expression was read, in the same
order, without the parentheses of some groups. No other text of the same expression has fewer
parentheses.
-/

namespace JassExpr

variable {source : String} {phrases : List (Phrase Token)}

theorem Phrase.IsScanned.map_plain {phrase : Phrase Token} (isScanned : phrase.IsScanned) :
    phrase.tokens.map (fun token => token.toLexeme.plain) = phrase.tokens.map Token.toLexeme := by
  apply List.map_congr_left
  intro token member
  obtain ⟨text, written⟩ := isScanned.written token member
  exact written.plain_eq

/-- Formatting an expression only leaves out the parentheses of some groups. The canonical text is
scanned as the lexemes from which the expression was read, without those at the positions of these
pairs of parentheses, each of which stands around a part of the expression. -/
theorem tokenize_format_omits_groups (parsed : parseSource source = .ok phrases) :
    ∀ phrase ∈ phrases, ∃ formatted pairs, tokenize phrase.expr.format = .ok formatted ∧
      pairs.Sublist phrase.groups ∧
      (∀ pair ∈ pairs, ∃ inner : Phrase Token, inner.IsPart phrase ∧
        Phrase.EnclosedAt Token.toLexeme inner 0 phrase.tokens pair) ∧
      formatted.map Token.toLexeme =
        omitFrom (pairPositions pairs) 0 (phrase.tokens.map Token.toLexeme) := by
  intro phrase member
  have isScanned := (isScanned_of_parseSource parsed phrase member).1
  have grammatical := isScanned.grammatical
  obtain ⟨formatted, scanned, carried⟩ :=
    grammatical.exists_tokenize_format isScanned.written isScanned.noComment
  obtain ⟨pairs, sublist, omits⟩ :=
    grammatical.canonicalPlainer.alone.exists_omits grammatical.map_plain 0
  have amongGroups : pairs.Sublist phrase.groups := by
    rwa [Phrase.plain, Phrase.groupsFrom_map] at sublist
  refine ⟨formatted, pairs, scanned, amongGroups, ?_, ?_⟩
  · intro pair isOmitted
    exact grammatical.exists_enclosedAt 0 pair (amongGroups.subset isOmitted)
  · rw [carried, omits.same, Phrase.plain, Phrase.tokens_map, isScanned.map_plain]

/-- The groups around one name are left out. The one around a sum that is a factor stays, and so do
the parentheses of the call. -/
theorem tokenize_format_omits_groups_product :
    let source := "((a)+b)*f((c))"
    ∃ phrase, parseSource source = .ok [phrase] ∧ phrase.expr.format = "(a + b) * f(c)" ∧
      phrase.groups = [(0, 6), (1, 3), (10, 12)] ∧
        ∃ formatted pairs, tokenize "(a + b) * f(c)" = .ok formatted ∧
          pairs.Sublist [(0, 6), (1, 3), (10, 12)] ∧
          (∀ pair ∈ pairs, ∃ inner : Phrase Token, inner.IsPart phrase ∧
            Phrase.EnclosedAt Token.toLexeme inner 0 phrase.tokens pair) ∧
          formatted.map Token.toLexeme =
            omitFrom (pairPositions pairs) 0 (phrase.tokens.map Token.toLexeme) := by
  intro source
  let opening (start : Nat) : Token := ⟨.fixed .leftParenthesis, ⟨start, start + 1⟩⟩
  let closing (start : Nat) : Token := ⟨.fixed .rightParenthesis, ⟨start, start + 1⟩⟩
  let word (text : String) (start : Nat) : Token := ⟨.valued .identifier text, ⟨start, start + 1⟩⟩
  let sum : Phrase Token := .binary .add
    (.group (opening 1) (.name (word "a" 2) "a") (closing 3)) ⟨.fixed .plus, ⟨4, 5⟩⟩
    (.name (word "b" 5) "b")
  let value : Phrase Token := .call (word "f" 8) "f" (opening 9)
    [.group (opening 10) (.name (word "c" 11) "c") (closing 12)] [] (closing 13)
  let phrase : Phrase Token := .binary .multiply (.group (opening 0) sum (closing 6))
    ⟨.fixed .star, ⟨7, 8⟩⟩ value
  have isSum : sum.Grammatical Token.toLexeme :=
    .binary rfl (by decide) (by decide) (.group rfl rfl (.name rfl (by decide) rfl))
      (.name rfl (by decide) rfl)
  have isValue : value.Grammatical Token.toLexeme :=
    .call rfl (by decide) rfl rfl rfl (by simp) rfl
      (List.forall_mem_singleton.mpr (.group rfl rfl (.name rfl (by decide) rfl)))
  have isPhrase : phrase.Grammatical Token.toLexeme :=
    .binary rfl (by decide) (by decide) (.group rfl rfl isSum) isValue
  have scanned : tokenize source = .ok phrase.tokens := by cbv
  have parsed : parseSource source = .ok [phrase] :=
    parseSource_eq_ok_iff.mpr ⟨_, scanned, parseWith_tokens isPhrase (by decide)⟩
  have formats : phrase.expr.format = "(a + b) * f(c)" := by cbv
  have positions : phrase.groups = [(0, 6), (1, 3), (10, 12)] := by decide
  obtain ⟨formatted, pairs, scannedAgain, among, enclose, same⟩ :=
    tokenize_format_omits_groups parsed phrase (List.mem_singleton_self _)
  rw [formats] at scannedAgain
  rw [positions] at among
  exact ⟨phrase, parsed, formats, positions, formatted, pairs, scannedAgain, among, enclose, same⟩

/-- No tokens that are read as the same expression have fewer opening parentheses than the text to
which the expression is formatted. -/
theorem count_leftParenthesis_format_le (parsed : parseSource source = .ok phrases) :
    ∀ phrase ∈ phrases, ∃ formatted, tokenize phrase.expr.format = .ok formatted ∧
      ∀ tokens other, parseExpression tokens = .ok other →
        other.table.shape = phrase.table.shape →
          (formatted.map (·.kind)).count .leftParenthesis ≤
            (tokens.map (·.kind)).count .leftParenthesis := by
  intro phrase member
  have isScanned := (isScanned_of_parseSource parsed phrase member).1
  obtain ⟨formatted, scanned, carried⟩ :=
    isScanned.grammatical.exists_tokenize_format isScanned.written isScanned.noComment
  refine ⟨formatted, scanned, fun tokens other parsedOther sameShape => ?_⟩
  obtain ⟨rfl, grammatical, -⟩ := parseExpression_eq_ok_iff.mp parsedOther
  have sameExpr : other.expr = phrase.expr := Phrase.shape_table_eq_iff.mp sameShape
  have sublist := grammatical.tokens_canonical_sublist.map Lexeme.kind
  rw [sameExpr, ← carried, List.map_map, List.map_map] at sublist
  have kinds : (Lexeme.kind ∘ fun token : Token => token.toLexeme.plain) =
      fun token => token.kind :=
    funext fun token => Lexeme.kind_plain _
  rw [kinds] at sublist
  exact sublist.count_le _

/-- A sum that is subtracted is printed with one pair of parentheses, which it cannot do
without. -/
theorem count_leftParenthesis_format_le_difference :
    let source := "(a)-(b+c)"
    ∃ phrase, parseSource source = .ok [phrase] ∧ phrase.expr.format = "a - (b + c)" ∧
      ∃ formatted, tokenize "a - (b + c)" = .ok formatted ∧
        ∀ tokens other, parseExpression tokens = .ok other →
          other.table.shape = phrase.table.shape →
            (formatted.map (·.kind)).count .leftParenthesis ≤
              (tokens.map (·.kind)).count .leftParenthesis := by
  intro source
  let opening (start : Nat) : Token := ⟨.fixed .leftParenthesis, ⟨start, start + 1⟩⟩
  let closing (start : Nat) : Token := ⟨.fixed .rightParenthesis, ⟨start, start + 1⟩⟩
  let name (text : String) (start : Nat) : Phrase Token :=
    .name ⟨.valued .identifier text, ⟨start, start + 1⟩⟩ text
  let sum : Phrase Token := .binary .add (name "b" 5) ⟨.fixed .plus, ⟨6, 7⟩⟩ (name "c" 7)
  let phrase : Phrase Token := .binary .subtract (.group (opening 0) (name "a" 1) (closing 2))
    ⟨.fixed .minus, ⟨3, 4⟩⟩ (.group (opening 4) sum (closing 8))
  have isSum : sum.Grammatical Token.toLexeme :=
    .binary rfl (by decide) (by decide) (.name rfl (by decide) rfl) (.name rfl (by decide) rfl)
  have isPhrase : phrase.Grammatical Token.toLexeme :=
    .binary rfl (by decide) (by decide) (.group rfl rfl (.name rfl (by decide) rfl))
      (.group rfl rfl isSum)
  have scanned : tokenize source = .ok phrase.tokens := by cbv
  have parsed : parseSource source = .ok [phrase] :=
    parseSource_eq_ok_iff.mpr ⟨_, scanned, parseWith_tokens isPhrase (by decide)⟩
  have formats : phrase.expr.format = "a - (b + c)" := by cbv
  obtain ⟨formatted, scannedAgain, fewest⟩ :=
    count_leftParenthesis_format_le parsed phrase (List.mem_singleton_self _)
  rw [formats] at scannedAgain
  exact ⟨phrase, parsed, formats, formatted, scannedAgain, fewest⟩

end JassExpr
