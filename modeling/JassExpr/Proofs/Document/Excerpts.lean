import JassExpr.Proofs.Document.Formatting
import JassExpr.Proofs.Phrase.Relocation
import JassExpr.Proofs.Phrase.Subtrees

/-!
# Every part is written by its own text

The span of an expression, and that of each node in it, is all that the expression or the node was
read from. Taken out of the source, that text is read as one expression, which is the one it was
taken for, whatever stands around it and whatever comments and blanks are inside.
-/

namespace JassExpr

variable {source : String} {phrases : List (Phrase Token)} {phrase part : Phrase Token}

/-- A part of what is read from a source is read again from its own text alone. -/
theorem exists_parseSource_of_isPart (parsed : parseSource source = .ok phrases)
    (member : phrase ∈ phrases) (isPart : part.IsPart phrase) :
    ∃ text again, part.span.slice? source = some text ∧ parseSource text = .ok [again] ∧
      again.map (Token.relocate (· + part.span.start)) = part := by
  obtain ⟨tokens, scanned, parsedTokens⟩ := parseSource_eq_ok_iff.mp parsed
  obtain ⟨whole, each⟩ := parseWith_sound parsedTokens
  obtain ⟨grammatical, shallow⟩ := each phrase member
  have isGrammatical := isPart.grammatical grammatical
  have isInfix : part.tokens <:+: Token.stripComments tokens := by
    rw [← whole, List.flatMap_def]
    exact isPart.tokens_isInfix.trans (List.infix_of_mem_flatten (List.mem_map_of_mem member))
  obtain ⟨within, isWithin, stripped, begins, ends⟩ :=
    exists_infix_of_infix_filter isInfix part.tokens_ne_nil
  have extent : Token.extent within = part.span := by
    rw [part.span_eq_extent, Token.extent, Token.extent, begins, ends]
  have nonempty : within ≠ [] := by
    rintro rfl
    exact part.tokens_ne_nil stripped.symm
  obtain ⟨text, moved, sliced, scannedText, same⟩ :=
    exists_tokenize_slice scanned isWithin nonempty fun token isFirst =>
      isGrammatical.kind_ne_other (begins ▸ isFirst)
  rw [extent] at sliced same
  have sameTokens : (Token.stripComments moved).map (Token.relocate (· + part.span.start)) =
      part.tokens := by
    rw [← Token.stripComments_map_relocate, same]
    exact stripped
  -- The scanned tokens carry the same phrase, so it is grammatical over them as well.
  obtain ⟨again, samePhrase, tokensAgain⟩ := isGrammatical.exists_map_eq sameTokens
  refine ⟨text, again, sliced, ?_, samePhrase⟩
  rw [parseSource_eq_ok_iff]
  refine ⟨moved, scannedText, ?_⟩
  rw [← tokensAgain]
  apply parseWith_tokens
  · rw [← samePhrase] at isGrammatical
    exact isGrammatical.of_map
  · rw [← again.depth_map (Token.relocate (· + part.span.start)), samePhrase]
    exact isPart.depth_le.trans shallow

/-- The text of each expression that is read from a source is read as this expression alone. Moved
to where the text begins in the source, it has the same tokens and the same table. -/
theorem parseSource_sourceText (parsed : parseSource source = .ok phrases) :
    ∀ phrase ∈ phrases, ∃ text again,
      phrase.sourceText? source = some text ∧ parseSource text = .ok [again] ∧
        again.tokens.map (Token.relocate (· + phrase.span.start)) = phrase.tokens ∧
          again.table.relocate (· + phrase.span.start) = phrase.table := by
  intro phrase member
  obtain ⟨text, again, sliced, parsedText, same⟩ :=
    exists_parseSource_of_isPart parsed member .whole
  refine ⟨text, again, sliced, parsedText, ?_, ?_⟩
  · rw [← Phrase.tokens_map, same]
  · rw [← Phrase.table_map_relocate (add_left_mono), same]

/-- A group with a comment in it, behind a number. -/
theorem parseSource_sourceText_group :
    let source := "1 (b/**/)"
    let group : Phrase Token := .group ⟨.fixed .leftParenthesis, ⟨2, 3⟩⟩
      (.name ⟨.valued .identifier "b", ⟨3, 4⟩⟩ "b") ⟨.fixed .rightParenthesis, ⟨8, 9⟩⟩
    ∃ phrases, parseSource source = .ok phrases ∧ group ∈ phrases ∧
      group.sourceText? source = some "(b/**/)" ∧
        ∃ again, parseSource "(b/**/)" = .ok [again] ∧
          again.tokens.map (Token.relocate (· + 2)) = group.tokens ∧
            again.table.relocate (· + 2) = group.table := by
  intro source group
  let one : Phrase Token := .literal ⟨.valued .integer "1", ⟨0, 1⟩⟩ (.integer .decimal "1" 1)
  let comment : Token := ⟨.valued .comment "/**/", ⟨4, 8⟩⟩
  have isOne : one.Grammatical Token.toLexeme := .literal (by cbv)
  have isGroup : group.Grammatical Token.toLexeme :=
    .group rfl rfl (.name rfl (by decide) rfl)
  have row : Phrase.InRow defaultLimit [one, group] :=
    .cons ⟨isOne, by decide, by decide, .of_notOperator rfl (by simp [one, Phrase.endsInName])⟩
      (.cons ⟨isGroup, by decide, by decide, .nil⟩ .nil)
  have scanned : tokenize source =
      .ok (one.tokens ++ group.tokens.take 2 ++ comment :: group.tokens.drop 2) := by cbv
  have parsed : parseSource source = .ok [one, group] :=
    parseSource_eq_ok_iff.mpr ⟨_, scanned, parseWith_eq_ok_iff.mpr ⟨by decide, row⟩⟩
  have inRow : group ∈ [one, group] := by simp
  have isText : group.sourceText? source = some "(b/**/)" := by cbv
  obtain ⟨text, again, sliced, parsedText, same⟩ := parseSource_sourceText parsed group inRow
  rw [isText] at sliced
  cases sliced
  exact ⟨_, parsed, inRow, isText, again, parsedText, same⟩

/-- The span of each node names a text of the source that is read as one expression, whose table,
moved to where the text begins, is what there is at the node and below it. -/
theorem parseSource_slice_node (parsed : parseSource source = .ok phrases) :
    ∀ phrase ∈ phrases, ∀ number node, phrase.table.node? number = some node →
      ∃ (text : String) (again : Phrase Token) (base : Nat),
        node.span.slice? source = some text ∧ parseSource text = .ok [again] ∧
          base + again.table.root = number ∧
            (again.table.relocate (· + node.span.start)).IsSubtree phrase.table base := by
  intro phrase member number node found
  obtain ⟨part, base, isPart, span, isRoot, isSubtree⟩ := NodeTable.exists_isPart_of_node? found
  obtain ⟨text, again, sliced, parsedText, same⟩ :=
    exists_parseSource_of_isPart parsed member isPart
  rw [span] at sliced same
  have sameTable : again.table.relocate (· + node.span.start) = part.table := by
    rw [← Phrase.table_map_relocate (add_left_mono), same]
  refine ⟨text, again, base, sliced, parsedText, ?_, ?_⟩
  · rw [← isRoot, ← sameTable]
    simp [NodeTable.root, NodeTable.size, NodeTable.relocate]
  · rwa [sameTable]

/-- The product in a group that a sum adds, with a comment in it. -/
theorem parseSource_slice_node_product :
    let source := "x + (-b/*é*/ * 2)"
    let product : Node := ⟨.binary .multiply 2 3, ⟨5, 17⟩, some 5⟩
    ∃ phrase, parseSource source = .ok [phrase] ∧ phrase.table.node? 4 = some product ∧
      product.span.slice? source = some "-b/*é*/ * 2" ∧
        ∃ (again : Phrase Token) (base : Nat), parseSource "-b/*é*/ * 2" = .ok [again] ∧
          base + again.table.root = 4 ∧
            (again.table.relocate (· + 5)).IsSubtree phrase.table base := by
  intro source product
  let negation : Phrase Token := .unary .minus ⟨.fixed .minus, ⟨5, 6⟩⟩
    (.name ⟨.valued .identifier "b", ⟨6, 7⟩⟩ "b")
  let two : Phrase Token := .literal ⟨.valued .integer "2", ⟨16, 17⟩⟩ (.integer .decimal "2" 2)
  let phrase : Phrase Token := .binary .add (.name ⟨.valued .identifier "x", ⟨0, 1⟩⟩ "x")
    ⟨.fixed .plus, ⟨2, 3⟩⟩ (.group ⟨.fixed .leftParenthesis, ⟨4, 5⟩⟩
      (.binary .multiply negation ⟨.fixed .star, ⟨14, 15⟩⟩ two)
        ⟨.fixed .rightParenthesis, ⟨17, 18⟩⟩)
  let comment : Token := ⟨.valued .comment "/*é*/", ⟨7, 13⟩⟩
  have isNegation : negation.Grammatical Token.toLexeme :=
    .unary rfl (by decide) (.name rfl (by decide) rfl)
  have isTwo : two.Grammatical Token.toLexeme := .literal (by cbv)
  have isPhrase : phrase.Grammatical Token.toLexeme :=
    .binary rfl (by decide) (by decide) (.name rfl (by decide) rfl)
      (.group rfl rfl (.binary rfl (by decide) (by decide) isNegation isTwo))
  have scanned : tokenize source =
      .ok (phrase.tokens.take 5 ++ comment :: phrase.tokens.drop 5) := by cbv
  have parsed : parseSource source = .ok [phrase] :=
    parseSource_eq_ok_iff.mpr ⟨_, scanned, parseWith_tokens isPhrase (by decide)⟩
  have found : phrase.table.node? 4 = some product := by decide
  have isText : product.span.slice? source = some "-b/*é*/ * 2" := by cbv
  obtain ⟨text, again, base, sliced, parsedText, same⟩ :=
    parseSource_slice_node parsed phrase (List.mem_singleton_self _) 4 product found
  rw [isText] at sliced
  cases sliced
  exact ⟨phrase, parsed, found, isText, again, base, parsedText, same⟩

end JassExpr
