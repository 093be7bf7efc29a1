import JassExpr.Proofs.Phrase.Relocation
import JassExpr.Proofs.Phrase.Simulation

/-!
# Reading tokens at other places

Reading looks at what tokens say and never at where they stand. Spans are only taken over from
tokens: the first and the last of a phrase give its span, and an error has that of the token where
it shows, or the end of the last one. Moving the tokens therefore moves what is read from them, or
the error, and changes nothing else.
-/

namespace JassExpr

variable {move : Nat → Nat} {tokens : List Token}

/-- An error at the place to which its tokens are moved. -/
def SyntaxError.relocate (move : Nat → Nat) (error : SyntaxError) : SyntaxError :=
  ⟨error.kind, error.token.map (Token.relocate move), error.span.relocate move⟩

theorem Token.endOf_map_relocate (nonempty : tokens ≠ []) :
    endOf (tokens.map (relocate move)) = (endOf tokens).relocate move := by
  have isLast := List.getLast?_eq_some_getLast nonempty
  rw [endOf, endOf, List.getLast?_map, isLast]
  rfl

/-- Where reading stops within moved tokens is where it stops within the tokens, moved. -/
theorem Stop.error_map_relocate (nonempty : tokens ≠ []) (kind : SyntaxErrorKind)
    (rest : List Token) :
    Stop.error (tokens.map (Token.relocate move)) ⟨kind, rest.map (Token.relocate move)⟩ =
      (Stop.error tokens ⟨kind, rest⟩).relocate move := by
  cases rest with
  | nil =>
      rw [List.map_nil, Stop.error, Token.endOf_map_relocate nonempty]
      rfl
  | cons token rest => rfl

/-- Tokens whose bounds are all moved by a function that keeps their order are read as the same
expressions with every span moved, in the tokens as in the nodes, or refused for the same error at
the moved token and span. -/
theorem parseWith_map_relocate (monotone : Monotone move) (limit : Nat) (tokens : List Token) :
    (∀ phrases, parseWith limit tokens = .ok phrases →
      parseWith limit (tokens.map (Token.relocate move)) =
          .ok (phrases.map (Phrase.map (Token.relocate move))) ∧
        ∀ phrase ∈ phrases,
          (phrase.map (Token.relocate move)).tokens = phrase.tokens.map (Token.relocate move) ∧
            (phrase.map (Token.relocate move)).table = phrase.table.relocate move) ∧
    ∀ error, parseWith limit tokens = .error error →
      parseWith limit (tokens.map (Token.relocate move)) = .error (error.relocate move) := by
  have expressions : Production.FollowsReads (fun _ => False) (Token.relocate move)
      (Production.expression limit) (Production.expression limit) :=
    Production.follows_expression Token.toLexeme_relocate (.inl rfl)
  have follows := Reading.follows_result expressions tokens
  have nonempty : ∀ stop, (Reading.ofTokens (Production.expression limit) tokens).result =
      .error stop → tokens ≠ [] := by
    rintro stop refused rfl
    rw [Reading.ofTokens_nil] at refused
    cases refused
  rw [parseWith_eq_result, parseWith_eq_result]
  generalize (Reading.ofTokens (Production.expression limit) tokens).result = earlier
    at follows nonempty ⊢
  generalize (Reading.ofTokens (Production.expression limit)
    (tokens.map (Token.relocate move))).result = later at follows ⊢
  cases follows with
  | read phrases =>
      constructor
      · rintro _ ⟨⟩
        exact ⟨rfl, fun phrase _ =>
          ⟨phrase.tokens_map _, phrase.table_map_relocate monotone⟩⟩
      · rintro _ ⟨⟩
  | refused kind rest =>
      constructor
      · rintro _ ⟨⟩
      · rintro _ ⟨⟩
        exact congrArg Except.error (Stop.error_map_relocate (nonempty _ rfl) kind rest)
  | excused isExcused => exact isExcused.elim

/-- A negation whose operator has a backwards span and stands behind the operand, and the operator
alone, with every offset halved. -/
theorem parseWith_map_relocate_negation :
    let minus : Token := ⟨.fixed .minus, ⟨7, 3⟩⟩
    let word : Token := ⟨.valued .identifier "x", ⟨1, 9⟩⟩
    let negation : Phrase Token := .unary .minus minus (.name word "x")
    let halved : List Token := [⟨.fixed .minus, ⟨3, 1⟩⟩, ⟨.valued .identifier "x", ⟨0, 4⟩⟩]
    Monotone (· / 2 : Nat → Nat) ∧
      parseWith 1 [minus, word] = .ok [negation] ∧
      parseWith 1 halved = .ok [negation.map (Token.relocate (· / 2))] ∧
      (negation.map (Token.relocate (· / 2))).table =
        ⟨#[⟨.name "x", ⟨0, 4⟩, some 1⟩, ⟨.unary .minus 0, ⟨0, 4⟩, none⟩]⟩ ∧
      parseWith 1 [minus] = .error ⟨.expectedExpression, none, ⟨3, 3⟩⟩ ∧
      parseWith 1 [⟨.fixed .minus, ⟨3, 1⟩⟩] = .error ⟨.expectedExpression, none, ⟨1, 1⟩⟩ := by
  intro minus word negation halved
  have monotone : Monotone (· / 2 : Nat → Nat) := fun _ _ => Nat.div_le_div_right
  have isNegation : negation.Grammatical Token.toLexeme :=
    .unary rfl (by decide) (.name rfl (by decide) rfl)
  have read : parseWith 1 [minus, word] = .ok [negation] :=
    parseWith_tokens isNegation (by decide)
  have stopped : (Production.expression 1).read [minus] = .error ⟨.expectedExpression, []⟩ := rfl
  have refused : parseWith 1 [minus] = .error ⟨.expectedExpression, none, ⟨3, 3⟩⟩ := by
    rw [parseWith_eq_result, Reading.result_of_error (by simp) stopped]
    rfl
  have isHalved : [minus, word].map (Token.relocate (· / 2)) = halved := by decide
  have isHalvedAlone : [minus].map (Token.relocate (· / 2)) = [⟨.fixed .minus, ⟨3, 1⟩⟩] := by decide
  have isHalvedEnd : (⟨3, 3⟩ : Span).relocate (· / 2) = ⟨1, 1⟩ := by decide
  have isTable : negation.table.relocate (· / 2) =
      ⟨#[⟨.name "x", ⟨0, 4⟩, some 1⟩, ⟨.unary .minus 0, ⟨0, 4⟩, none⟩]⟩ := by cbv
  obtain ⟨readHalved, moved⟩ := (parseWith_map_relocate monotone 1 [minus, word]).1 _ read
  have table := (moved negation (List.mem_singleton_self _)).2.trans isTable
  have refusedHalved := (parseWith_map_relocate monotone 1 [minus]).2 _ refused
  rw [isHalved] at readHalved
  rw [isHalvedAlone, SyntaxError.relocate, isHalvedEnd] at refusedHalved
  exact ⟨monotone, read, readHalved, table, refused, refusedHalved⟩

end JassExpr
