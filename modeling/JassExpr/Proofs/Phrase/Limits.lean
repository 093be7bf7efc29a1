import JassExpr.Proofs.Phrase.Simulation

/-!
# Raising the limit

All that a limit on the nesting can do is to refuse one level too many. As long as it does not come
to that, no larger limit makes a difference: neither to what is read nor to where and why something
is refused.
-/

namespace JassExpr

/-- What is read under a limit, or refused for anything but its nesting, is the same under every
larger limit. -/
theorem parseWith_of_le {limit larger : Nat} {tokens : List Token} (noLess : limit ≤ larger)
    (known : ∀ error, parseWith limit tokens = .error error →
      error.kind ≠ .nestingTooDeep limit) :
    parseWith larger tokens = parseWith limit tokens := by
  have expressions : Production.FollowsReads (· = .nestingTooDeep limit) id
      (Production.expression larger) (Production.expression limit) :=
    Production.follows_expression (fun _ => rfl) (.inr ⟨rfl, noLess⟩)
  have follows := Reading.follows_result expressions tokens
  rw [List.map_id] at follows
  rw [parseWith_eq_result] at known ⊢
  rw [parseWith_eq_result]
  generalize (Reading.ofTokens (Production.expression larger) tokens).result = later at follows ⊢
  generalize (Reading.ofTokens (Production.expression limit) tokens).result = earlier
    at follows known ⊢
  cases follows with
  | read phrases =>
      have unchanged : phrases.map (Phrase.map id) = phrases :=
        (List.map_congr_left fun phrase _ => phrase.map_id).trans (List.map_id phrases)
      rw [unchanged]
  | refused kind rest => rw [List.map_id]
  | @excused _ stop isExcused =>
      have tooDeep := known (stop.error tokens) rfl
      rw [Stop.kind_error] at tooDeep
      exact absurd isExcused tooDeep

/-- A parenthesis with nothing to close after a group, which is one level deep. -/
theorem parseWith_of_le_closing :
    let opening : Token := ⟨.fixed .leftParenthesis, ⟨0, 1⟩⟩
    let word : Token := ⟨.valued .identifier "f", ⟨1, 2⟩⟩
    let closing (start : Nat) : Token := ⟨.fixed .rightParenthesis, ⟨start, start + 1⟩⟩
    let tokens := [opening, word, closing 2, closing 3]
    let error : SyntaxError := ⟨.expectedExpression, some (closing 3), ⟨3, 4⟩⟩
    parseWith 1 tokens = .error error ∧ 1 ≤ 2 ∧ parseWith 2 tokens = parseWith 1 tokens := by
  intro opening word closing tokens error
  let group : Phrase Token := .group opening (.name word "f") (closing 2)
  have stands : group.Stands BinaryOp.or.precedence 2 [closing 3] :=
    ⟨.group rfl rfl (.name rfl (by decide) rfl), by decide, by decide,
      .of_notOperator rfl (by simp [group, Phrase.endsInName])⟩
  have reading : (Production.expression 1).read tokens = .ok (group, [closing 3]) :=
    (Production.reads_expression 1).complete [closing 3] stands
  have stopped : (Production.expression 1).read [closing 3] =
      .error ⟨.expectedExpression, [closing 3]⟩ := rfl
  have refused : parseWith 1 tokens = .error error := by
    rw [parseWith_eq_result, Reading.result_of_ok reading
      (Reading.result_of_error (by simp) stopped)]
    rfl
  refine ⟨refused, by decide, parseWith_of_le (by decide) ?_⟩
  intro other found
  rw [refused] at found
  cases found
  decide

end JassExpr
