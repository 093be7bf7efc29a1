import JassExpr.Proofs.Phrase.Grammatical

/-!
# Phrases over other tokens

Nothing in a phrase depends on what its tokens are. Replacing each token keeps the tree, its depth
and how tightly it binds, and a grammatical phrase can be put over any tokens that carry its own.
-/

namespace JassExpr

namespace Phrase

variable {τ σ : Type}

mutual

/-- A phrase with each token replaced. -/
def map (function : τ → σ) : Phrase τ → Phrase σ
  | literal token value => .literal (function token) value
  | name token identifier => .name (function token) identifier
  | group opening inner closing =>
      .group (function opening) (inner.map function) (function closing)
  | unary operator token operand => .unary operator (function token) (operand.map function)
  | binary operator left token right =>
      .binary operator (left.map function) (function token) (right.map function)
  | call callee identifier opening arguments commas closing =>
      .call (function callee) identifier (function opening) (mapEach function arguments)
        (commas.map function) (function closing)
  | index array identifier opening subscript closing =>
      .index (function array) identifier (function opening) (subscript.map function)
        (function closing)

def mapEach (function : τ → σ) : List (Phrase τ) → List (Phrase σ)
  | [] => []
  | first :: rest => first.map function :: mapEach function rest

end

theorem mapEach_eq_map (function : τ → σ) (phrases : List (Phrase τ)) :
    mapEach function phrases = phrases.map (map function) := by
  induction phrases with
  | nil => rfl
  | cons first rest ih => simp [mapEach, ih]

@[simp]
theorem map_id (phrase : Phrase τ) : phrase.map id = phrase := by
  induction phrase with
  | literal token value => rfl
  | name token name => rfl
  | group opening inner closing ih => simp [map, ih]
  | unary operator token operand ih => simp [map, ih]
  | binary operator left token right ihLeft ihRight => simp [map, ihLeft, ihRight]
  | call callee name opening arguments commas closing ih =>
      have each : mapEach id arguments = arguments := by
        rw [mapEach_eq_map]
        exact (List.map_congr_left ih).trans (List.map_id arguments)
      simp [map, each]
  | index array name opening subscript closing ih => simp [map, ih]

@[simp]
theorem level_map (function : τ → σ) (phrase : Phrase τ) :
    (phrase.map function).level = phrase.level := by
  cases phrase <;> rfl

@[simp]
theorem tokens_map (function : τ → σ) (phrase : Phrase τ) :
    (phrase.map function).tokens = phrase.tokens.map function := by
  induction phrase with
  | literal token value => rfl
  | name token name => rfl
  | group opening inner closing ih => simp [map, tokens, ih]
  | unary operator token operand ih => simp [map, tokens, ih]
  | binary operator left token right ihLeft ihRight => simp [map, tokens, ihLeft, ihRight]
  | call callee name opening arguments commas closing ih =>
      have each : tokensOfEach (mapEach function arguments) =
          (tokensOfEach arguments).map (List.map function) := by
        rw [tokensOfEach_eq_map, tokensOfEach_eq_map, mapEach_eq_map, List.map_map, List.map_map]
        exact List.map_congr_left ih
      simp [map, tokens, each, map_weave, Function.comp_def]
  | index array name opening subscript closing ih => simp [map, tokens, ih]

@[simp]
theorem expr_map (function : τ → σ) (phrase : Phrase τ) :
    (phrase.map function).expr = phrase.expr := by
  induction phrase with
  | literal token value => rfl
  | name token name => rfl
  | group opening inner closing ih => simp [map, expr, ih]
  | unary operator token operand ih => simp [map, expr, ih]
  | binary operator left token right ihLeft ihRight => simp [map, expr, ihLeft, ihRight]
  | call callee name opening arguments commas closing ih =>
      have each : exprOfEach (mapEach function arguments) = exprOfEach arguments := by
        rw [exprOfEach_eq_map, exprOfEach_eq_map, mapEach_eq_map, List.map_map]
        exact List.map_congr_left ih
      simp [map, expr, each]
  | index array name opening subscript closing ih => simp [map, expr, ih]

theorem depthOfEach_mapEach {function : τ → σ} {phrases : List (Phrase τ)}
    (each : ∀ phrase ∈ phrases, (phrase.map function).depth = phrase.depth) :
    depthOfEach (mapEach function phrases) = depthOfEach phrases := by
  induction phrases with
  | nil => rfl
  | cons first rest ih =>
      obtain ⟨same, sameRest⟩ := List.forall_mem_cons.mp each
      simp [mapEach, depthOfEach, same, ih sameRest]

@[simp]
theorem depth_map (function : τ → σ) (phrase : Phrase τ) :
    (phrase.map function).depth = phrase.depth := by
  induction phrase with
  | literal token value => rfl
  | name token name => rfl
  | group opening inner closing ih => simp [map, depth, ih]
  | unary operator token operand ih => simp [map, depth, ih]
  | binary operator left token right ihLeft ihRight => simp [map, depth, ihLeft, ihRight]
  | call callee name opening arguments commas closing ih =>
      simp [map, depth, depthOfEach_mapEach ih]
  | index array name opening subscript closing ih => simp [map, depth, ih]

@[simp]
theorem first_map (function : τ → σ) (phrase : Phrase τ) :
    (phrase.map function).first = function phrase.first := by
  induction phrase with
  | binary operator left token right ihLeft ihRight => exact ihLeft
  | _ => rfl

@[simp]
theorem endsInName_map (function : τ → σ) (phrase : Phrase τ) :
    (phrase.map function).endsInName = phrase.endsInName := by
  induction phrase with
  | unary operator token operand ih => exact ih
  | binary operator left token right ihLeft ihRight => exact ihRight
  | _ => rfl

/-- A phrase is grammatical when it is so once its tokens are replaced by what they carry. -/
theorem Grammatical.of_map {function : τ → σ} {lexeme : σ → Lexeme} {phrase : Phrase τ}
    (grammatical : (phrase.map function).Grammatical lexeme) :
    phrase.Grammatical fun token => lexeme (function token) := by
  induction phrase with
  | literal token value =>
      cases grammatical with
      | literal reads => exact .literal reads
      | constant word reads => exact .constant word reads
  | name token name =>
      cases grammatical with
      | name word free same => exact .name word free same
  | group opening inner closing ih =>
      cases grammatical with
      | group opens closes inside => exact .group opens closes (ih inside)
  | unary operator token operand ih =>
      cases grammatical with
      | unary writes tight inside => exact .unary writes (by simpa using tight) (ih inside)
  | binary operator left token right ihLeft ihRight =>
      cases grammatical with
      | binary writes tightLeft tightRight onLeft onRight =>
          exact .binary writes (by simpa using tightLeft) (by simpa using tightRight)
            (ihLeft onLeft) (ihRight onRight)
  | call callee name opening arguments commas closing ih =>
      cases grammatical with
      | call word free same opens closes separate count inside =>
          rw [mapEach_eq_map] at count inside
          refine .call word free same opens closes ?_ (by simpa using count) ?_
          · exact List.forall_mem_map.mp separate
          · intro argument member
            exact ih argument member (List.forall_mem_map.mp inside argument member)
  | index array name opening subscript closing ih =>
      cases grammatical with
      | index word free same opens closes inside =>
          exact .index word free same opens closes (ih inside)

theorem exists_mapEach_eq {function : τ → σ} {phrases : List (Phrase σ)} {commas : List σ}
    {tokens : List τ}
    (each : ∀ phrase ∈ phrases, ∀ tokens : List τ, tokens.map function = phrase.tokens →
      ∃ original : Phrase τ, original.map function = phrase ∧ original.tokens = tokens)
    (count : commas.length = phrases.length - 1)
    (same : tokens.map function = weave (tokensOfEach phrases) (commas.map ([·]))) :
    ∃ (originals : List (Phrase τ)) (separators : List τ),
      mapEach function originals = phrases ∧ separators.map function = commas ∧
        weave (tokensOfEach originals) (separators.map ([·])) = tokens := by
  have alternating := Alternating.of_length count
  clear count
  induction alternating generalizing tokens with
  | nil =>
      obtain rfl : tokens = [] := List.map_eq_nil_iff.mp same
      exact ⟨[], [], rfl, rfl, rfl⟩
  | singleton phrase =>
      obtain ⟨original, rfl, rfl⟩ :=
        each phrase (by simp) tokens (by simpa [tokensOfEach, weave] using same)
      exact ⟨[original], [], rfl, rfl, by simp [tokensOfEach, weave]⟩
  | @cons phrase comma phrases commas some others ih =>
      obtain ⟨eachFirst, eachRest⟩ := List.forall_mem_cons.mp each
      rw [tokensOfEach, List.map_cons, weave, List.append_assoc, List.singleton_append] at same
      obtain ⟨front, back, rfl, sameFront, sameBack⟩ := List.map_eq_append_iff.mp same
      obtain ⟨separator, others, rfl, rfl, sameOthers⟩ := List.map_eq_cons_iff.mp sameBack
      obtain ⟨original, rfl, rfl⟩ := eachFirst front sameFront
      obtain ⟨originals, separators, rfl, rfl, rfl⟩ := ih eachRest sameOthers
      exact ⟨original :: originals, separator :: separators, rfl, rfl,
        by simp [tokensOfEach, weave]⟩

/-- A grammatical phrase can be put over any tokens that carry what its own tokens are. -/
theorem Grammatical.exists_map_eq {lexeme : σ → Lexeme} {phrase : Phrase σ}
    (grammatical : phrase.Grammatical lexeme) {function : τ → σ} {tokens : List τ}
    (same : tokens.map function = phrase.tokens) :
    ∃ original : Phrase τ, original.map function = phrase ∧ original.tokens = tokens := by
  induction grammatical generalizing tokens with
  | @literal token value reads =>
      obtain ⟨original, rfl, rfl⟩ := List.map_eq_singleton_iff.mp same
      exact ⟨.literal original value, rfl, rfl⟩
  | @constant token value word reads =>
      obtain ⟨original, rfl, rfl⟩ := List.map_eq_singleton_iff.mp same
      exact ⟨.literal original value, rfl, rfl⟩
  | @name token identifier word free sameName =>
      obtain ⟨original, rfl, rfl⟩ := List.map_eq_singleton_iff.mp same
      exact ⟨.name original identifier, rfl, rfl⟩
  | @group opening closing inner opens closes inside ih =>
      obtain ⟨first, others, rfl, rfl, sameOthers⟩ := List.map_eq_cons_iff.mp same
      obtain ⟨front, back, rfl, sameFront, sameBack⟩ := List.map_eq_append_iff.mp sameOthers
      obtain ⟨last, rfl, rfl⟩ := List.map_eq_singleton_iff.mp sameBack
      obtain ⟨original, rfl, rfl⟩ := ih sameFront
      exact ⟨.group first original last, rfl, rfl⟩
  | @unary operator token operand writes tight inside ih =>
      obtain ⟨first, others, rfl, rfl, sameOthers⟩ := List.map_eq_cons_iff.mp same
      obtain ⟨original, rfl, rfl⟩ := ih sameOthers
      exact ⟨.unary operator first original, rfl, rfl⟩
  | @binary operator token left right writes tightLeft tightRight onLeft onRight ihLeft ihRight =>
      obtain ⟨front, back, rfl, sameFront, sameBack⟩ := List.map_eq_append_iff.mp same
      obtain ⟨middle, others, rfl, rfl, sameOthers⟩ := List.map_eq_cons_iff.mp sameBack
      obtain ⟨originalLeft, rfl, rfl⟩ := ihLeft sameFront
      obtain ⟨originalRight, rfl, rfl⟩ := ihRight sameOthers
      exact ⟨.binary operator originalLeft middle originalRight, rfl, rfl⟩
  | @call callee opening closing identifier arguments commas word free sameName opens closes
      separate count inside ih =>
      obtain ⟨first, others, rfl, rfl, sameOthers⟩ := List.map_eq_cons_iff.mp same
      obtain ⟨second, others, rfl, rfl, sameInside⟩ := List.map_eq_cons_iff.mp sameOthers
      obtain ⟨front, back, rfl, sameFront, sameBack⟩ := List.map_eq_append_iff.mp sameInside
      obtain ⟨last, rfl, rfl⟩ := List.map_eq_singleton_iff.mp sameBack
      obtain ⟨originals, separators, rfl, rfl, rfl⟩ :=
        exists_mapEach_eq (fun argument member tokens => ih argument member) count sameFront
      exact ⟨.call first identifier second originals separators last, rfl, rfl⟩
  | @index array opening closing identifier subscript word free sameName opens closes inside ih =>
      obtain ⟨first, others, rfl, rfl, sameOthers⟩ := List.map_eq_cons_iff.mp same
      obtain ⟨second, others, rfl, rfl, sameInside⟩ := List.map_eq_cons_iff.mp sameOthers
      obtain ⟨front, back, rfl, sameFront, sameBack⟩ := List.map_eq_append_iff.mp sameInside
      obtain ⟨last, rfl, rfl⟩ := List.map_eq_singleton_iff.mp sameBack
      obtain ⟨original, rfl, rfl⟩ := ih sameFront
      exact ⟨.index first identifier second original last, rfl, rfl⟩

end Phrase

end JassExpr
