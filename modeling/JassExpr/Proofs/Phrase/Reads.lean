import JassExpr.Proofs.Phrase.Grammatical

/-!
# Productions read the grammar

A production for a level reads just the grammatical phrases of that level, each as far as it
goes. How a phrase is read depends on what follows it, so both directions speak of the tokens
left over: what was read can end before them, and every phrase that can is read.
-/

namespace JassExpr

namespace Production

variable {production operand : Production} {bound precedence : Nat}

/-- A production reads the grammatical phrases of a level that are nested less than a bound. -/
structure Reads (production : Production) (level bound : Nat) : Prop where
  sound : ∀ {tokens rest : List Token} {phrase : Phrase Token},
    production.read tokens = .ok (phrase, rest) → phrase.Stands level bound rest
  complete : ∀ (rest : List Token) {phrase : Phrase Token},
    phrase.Stands level bound rest → production.read (phrase.tokens ++ rest) = .ok (phrase, rest)

/-- What a production reads is the phrases of its level, whatever tokens it is given. -/
theorem Reads.read_eq_ok_iff {level : Nat} (reads : production.Reads level bound)
    {tokens rest : List Token} {phrase : Phrase Token} :
    production.read tokens = .ok (phrase, rest) ↔
      phrase.tokens ++ rest = tokens ∧ phrase.Stands level bound rest := by
  constructor
  · intro found
    exact ⟨production.read_tokens found, reads.sound found⟩
  · rintro ⟨rfl, stands⟩
    exact reads.complete rest stands

/-! ## Chains -/

theorem chainFrom_stop {left : Phrase Token} {rest : List Token}
    (stops : ∀ token ∈ rest.head?, BinaryOp.atPrecedence? precedence token.kind = none) :
    chainFrom precedence operand left rest = .ok (left, rest) := by
  cases rest with
  | nil => rw [chainFrom]
  | cons token after => rw [chainFrom, stops token rfl]

theorem chainFrom_step {left right : Phrase Token} {token : Token} {after rest : List Token}
    {operator : BinaryOp}
    (isOperator : BinaryOp.atPrecedence? precedence token.kind = some operator)
    (reading : operand.read after = .ok (right, rest)) :
    chainFrom precedence operand left (token :: after) =
      chainFrom precedence operand (.binary operator left token right) rest := by
  rw [chainFrom, isOperator]
  dsimp only
  split
  · rename_i stop stopped
    rw [reading] at stopped
    cases stopped
  · rename_i right' rest' reading'
    rw [reading] at reading'
    cases reading'
    rfl

/-- Reading on after a left operand keeps to the grammar, as the operand does by itself. -/
theorem chainFrom_sound (reads : operand.Reads (precedence + 1) bound)
    (groups : precedence ≠ BinaryOp.comparisonPrecedence)
    {left phrase : Phrase Token} {tokens rest : List Token}
    (grammatical : left.Grammatical Token.toLexeme) (tight : precedence ≤ left.level)
    (shallow : left.depth < bound) (ends : left.EndsBefore (precedence + 1) tokens)
    (found : chainFrom precedence operand left tokens = .ok (phrase, rest)) :
    phrase.Stands precedence bound rest := by
  fun_induction chainFrom precedence operand left tokens with
  | case1 left =>
      cases found
      exact ⟨grammatical, tight, shallow, .nil⟩
  | case2 left token after notOperator =>
      cases found
      refine ⟨grammatical, tight, shallow, ends.lower ?_⟩
      rintro _ ⟨⟩
      exact notOperator
  | case3 left token after operator isOperator stop stopped => cases found
  | case4 left token after operator isOperator right others reading ih =>
      obtain ⟨writes, rfl⟩ := BinaryOp.atPrecedence?_eq_some_iff.mp isOperator
      have stands := reads.sound reading
      -- The longer left operand is of the level of the chain and ends where its right one does.
      refine ih ?_ Nat.le.refl ?_ (Phrase.endsBefore_binary_iff.mpr stands.ends) found
      · refine .binary writes.symm ?_ stands.tight grammatical stands.grammatical
        rwa [BinaryOp.leftPrecedence_of_ne groups]
      · exact Nat.max_lt.mpr ⟨shallow, stands.shallow⟩

/-- Reading a phrase off the front of longer tokens comes to the point where all of it is the left
operand, and then reads on. -/
theorem read_chain_append (reads : operand.Reads (precedence + 1) bound)
    (groups : precedence ≠ BinaryOp.comparisonPrecedence)
    (below : precedence < BinaryOp.operandPrecedence)
    {phrase : Phrase Token} {rest : List Token}
    (grammatical : phrase.Grammatical Token.toLexeme) (tight : precedence ≤ phrase.level)
    (shallow : phrase.depth < bound) (ends : phrase.EndsBefore (precedence + 1) rest) :
    (chain precedence operand).read (phrase.tokens ++ rest) =
      chainFrom precedence operand phrase rest := by
  have whole : ∀ {phrase : Phrase Token} {rest : List Token},
      phrase.Stands (precedence + 1) bound rest →
        (chain precedence operand).read (phrase.tokens ++ rest) =
          chainFrom precedence operand phrase rest := by
    intro phrase rest stands
    simp only [chain, reads.complete rest stands]
  induction phrase generalizing rest with
  | binary operator left token right ihLeft ihRight =>
      cases grammatical with
      | binary writes tightLeft tightRight onLeft onRight =>
          obtain ⟨shallowLeft, shallowRight⟩ := Nat.max_lt.mp shallow
          rcases Nat.lt_or_eq_of_le tight with tighter | same
          · exact whole ⟨.binary writes tightLeft tightRight onLeft onRight, tighter,
              shallow, ends⟩
          · -- The operator is one of the chain: everything up to it was read as a left operand.
            obtain rfl : precedence = operator.precedence := same
            rw [BinaryOp.leftPrecedence_of_ne groups] at tightLeft
            rw [Phrase.tokens, List.append_assoc, List.cons_append,
              ihLeft onLeft tightLeft shallowLeft (.of_operator writes (Nat.lt_succ_self _))]
            refine chainFrom_step ?_ (reads.complete rest ⟨onRight, tightRight, shallowRight, ?_⟩)
            · exact BinaryOp.atPrecedence?_eq_some_iff.mpr ⟨writes.symm, rfl⟩
            · exact Phrase.endsBefore_binary_iff.mp ends
  | _ => exact whole ⟨grammatical, Nat.lt_of_lt_of_le below (by simp [Phrase.level]), shallow, ends⟩

/-- Operands with operators of one precedence between them are read grouped to the left. -/
theorem Reads.chain (reads : operand.Reads (precedence + 1) bound)
    (groups : precedence ≠ BinaryOp.comparisonPrecedence)
    (below : precedence < BinaryOp.operandPrecedence) :
    (chain precedence operand).Reads precedence bound where
  sound {tokens rest phrase} found := by
    simp only [Production.chain] at found
    split at found
    · cases found
    · rename_i left after reading
      have stands := reads.sound reading
      exact chainFrom_sound reads groups stands.grammatical
        (Nat.le_of_succ_le stands.tight) stands.shallow stands.ends found
  complete rest phrase stands := by
    rw [read_chain_append reads groups below stands.grammatical stands.tight stands.shallow
      stands.ends.raise]
    exact chainFrom_stop stands.ends.atPrecedence?_eq_none

/-! ## Comparisons -/

theorem comparison?_eq_none_iff {tokens : List Token} :
    comparison? tokens = none ↔
      ∀ token ∈ tokens.head?,
        BinaryOp.atPrecedence? BinaryOp.comparisonPrecedence token.kind = none := by
  cases tokens <;> simp [comparison?]

/-- Two operands with no more than one comparison between them are read without grouping. -/
theorem Reads.comparison
    (reads : operand.Reads (BinaryOp.comparisonPrecedence + 1) bound) :
    (comparison operand).Reads BinaryOp.comparisonPrecedence bound where
  sound {tokens rest phrase} found := by
    simp only [Production.comparison] at found
    split at found
    · cases found
    · rename_i left reading
      cases found
      have stands := reads.sound reading
      exact ⟨stands.grammatical, Nat.le_of_succ_le stands.tight, stands.shallow, .nil⟩
    · rename_i left token after reading
      have onLeft := reads.sound reading
      split at found
      · rename_i notOperator
        cases found
        exact ⟨onLeft.grammatical, Nat.le_of_succ_le onLeft.tight, onLeft.shallow,
          onLeft.ends.lower (comparison?_eq_none_iff.mp notOperator)⟩
      · rename_i operator isOperator
        obtain ⟨writes, compares⟩ := BinaryOp.atPrecedence?_eq_some_iff.mp isOperator
        split at found
        · cases found
        · rename_i right rest' readingRight
          have onRight := reads.sound readingRight
          split at found
          · rename_i notOperator
            cases found
            have tightLeft : operator.leftPrecedence ≤ left.level := by
              rw [BinaryOp.leftPrecedence_of_eq compares, compares]
              exact onLeft.tight
            have tightRight : operator.rightPrecedence ≤ right.level := by
              rw [BinaryOp.rightPrecedence, compares]
              exact onRight.tight
            have ends : right.EndsBefore BinaryOp.comparisonPrecedence rest :=
              onRight.ends.lower (comparison?_eq_none_iff.mp notOperator)
            refine ⟨?_, ?_, ?_, Phrase.endsBefore_binary_iff.mpr ends⟩
            · exact .binary writes.symm tightLeft tightRight onLeft.grammatical onRight.grammatical
            · exact Nat.le_of_eq compares.symm
            · exact Nat.max_lt.mpr ⟨onLeft.shallow, onRight.shallow⟩
          · cases found
  complete rest phrase stands := by
    have noMore : comparison? rest = none :=
      comparison?_eq_none_iff.mpr stands.ends.atPrecedence?_eq_none
    rcases Nat.lt_or_eq_of_le stands.tight with tighter | same
    · have reading := reads.complete rest ⟨stands.grammatical, tighter, stands.shallow,
        stands.ends.raise⟩
      cases rest with
      | nil => simp only [Production.comparison, reading]
      | cons token after => simp only [Production.comparison, reading, noMore]
    · obtain ⟨operator, left, token, right, rfl⟩ := Phrase.exists_binary_of_level_lt
        (same ▸ (by decide : BinaryOp.comparisonPrecedence < BinaryOp.operandPrecedence))
      cases stands.grammatical with
      | binary writes tightLeft tightRight onLeft onRight =>
          have compares : operator.precedence = BinaryOp.comparisonPrecedence := same.symm
          obtain ⟨shallowLeft, shallowRight⟩ := Nat.max_lt.mp stands.shallow
          rw [BinaryOp.leftPrecedence_of_eq compares, compares] at tightLeft
          rw [BinaryOp.rightPrecedence, compares] at tightRight
          have readingLeft := reads.complete (token :: (right.tokens ++ rest))
            ⟨onLeft, tightLeft, shallowLeft, .of_operator writes (by omega)⟩
          have readingRight := reads.complete rest ⟨onRight, tightRight, shallowRight,
            Phrase.endsBefore_binary_iff.mp stands.ends.raise⟩
          have isOperator : comparison? (token :: (right.tokens ++ rest)) = some operator :=
            BinaryOp.atPrecedence?_eq_some_iff.mpr ⟨writes.symm, compares⟩
          simp only [Production.comparison, Phrase.tokens, List.append_assoc,
            List.cons_append, readingLeft, isOperator, readingRight, noMore]

end Production

end JassExpr
