import JassExpr.Proofs.Phrase.Partition

/-!
# Where reading stops

A production stops at the first token after which nothing can be right any more. Up to there the
tokens begin some phrase of its level, so that other tokens in place of the rest would have been
read. From there on it makes no difference what follows: reading stops at the same token for the
same reason. The refusal of a level that is too deep is apart, since there it is not the token that
is wrong.
-/

namespace JassExpr

/-- Some tokens begin a phrase of a level that is nested less than a bound. -/
def Phrase.Begun (level bound : Nat) (front : List Token) : Prop :=
  ∃ phrase : Phrase Token, front <+: phrase.tokens ∧ phrase.Grammatical Token.toLexeme ∧
    level ≤ phrase.level ∧ phrase.depth < bound

namespace Production

variable {α β : Type} {completable begun : List Token → Prop}

/-- A stop behind some front tokens is where it has to be: the front can be completed, and no token
behind the refused one makes a difference. -/
structure StopsAt (read : List Token → Except Stop α) (completable : List Token → Prop)
    (tokens : List Token) (stop : Stop) (front : List Token) : Prop where
  whole : front ++ stop.rest = tokens
  completes : (∀ limit, stop.kind ≠ .nestingTooDeep limit) → completable front
  refused : ∀ token ∈ stop.rest.head?, ∀ others,
    read (front ++ token :: others) = .error ⟨stop.kind, token :: others⟩

/-- Reading stops only where it has to. -/
def Refuses (read : List Token → Except Stop α) (completable : List Token → Prop) : Prop :=
  ∀ ⦃tokens : List Token⦄ ⦃stop : Stop⦄, read tokens = .error stop →
    ∃ front, StopsAt read completable tokens stop front

section

variable {inner : List Token → Except Stop α} {outer : List Token → Except Stop β}
  {tokens front : List Token} {stop : Stop}

/-- A stop of a part is a stop of the whole when what was read before is read again in front of
whatever begins like the tokens of the part. -/
theorem StopsAt.after (used : List Token) (stops : StopsAt inner begun tokens stop front)
    (completes : begun front → completable (used ++ front))
    (passes : ∀ later stop, (∀ token ∈ later.head?, token ∈ tokens.head?) →
      inner later = .error stop → outer (used ++ later) = .error stop) :
    StopsAt outer completable (used ++ tokens) stop (used ++ front) where
  whole := by rw [List.append_assoc, stops.whole]
  completes known := completes (stops.completes known)
  refused token member others := by
    rw [List.append_assoc]
    refine passes _ _ ?_ (stops.refused token member others)
    rw [← stops.whole, List.head?_append, List.head?_append]
    cases front with
    | nil =>
        rintro _ ⟨⟩
        exact member
    | cons first front => exact fun _ same => same

/-- A stop of a part that nothing stands in front of is a stop of the whole. -/
theorem StopsAt.within (stops : StopsAt inner begun tokens stop front)
    (completes : begun front → completable front)
    (passes : ∀ later stop, (∀ token ∈ later.head?, token ∈ tokens.head?) →
      inner later = .error stop → outer later = .error stop) :
    StopsAt outer completable tokens stop front :=
  stops.after [] completes passes

/-- What fails on its first token stops there. -/
theorem StopsAt.here {kind : SyntaxErrorKind}
    (completes : (∀ limit, kind ≠ .nestingTooDeep limit) → completable [])
    (refused : ∀ token ∈ tokens.head?, ∀ others,
      outer (token :: others) = .error ⟨kind, token :: others⟩) :
    StopsAt outer completable tokens ⟨kind, tokens⟩ [] :=
  ⟨rfl, completes, refused⟩

end

end Production

namespace Phrase.Begun

variable {level bound : Nat} {front : List Token}

theorem lower (begun : Begun (level + 1) bound front) : Begun level bound front := by
  obtain ⟨phrase, isPrefix, grammatical, tight, shallow⟩ := begun
  exact ⟨phrase, isPrefix, grammatical, Nat.le_of_succ_le tight, shallow⟩

/-- Every expression can begin with a constant. -/
theorem nil (bounded : level ≤ BinaryOp.operandPrecedence + 1) : Begun level (bound + 1) [] := by
  let word : Token := ⟨.valued .identifier "null", Span.origin⟩
  exact ⟨.literal word .null, List.nil_prefix, .constant rfl rfl, bounded, Nat.succ_pos _⟩

theorem of_stands {phrase : Phrase Token} {rest : List Token}
    (stands : phrase.Stands level bound rest) : Begun level bound phrase.tokens :=
  ⟨phrase, List.prefix_rfl, stands.grammatical, stands.tight, stands.shallow⟩

theorem binary {operator : BinaryOp} {left : Phrase Token} {token : Token}
    (writes : token.kind = operator.kind) (tight : operator.leftPrecedence ≤ left.level)
    (grammatical : left.Grammatical Token.toLexeme) (shallow : left.depth < bound)
    (begun : Begun operator.rightPrecedence bound front) :
    Begun operator.precedence bound (left.tokens ++ token :: front) := by
  obtain ⟨right, isPrefix, onRight, tightRight, shallowRight⟩ := begun
  refine ⟨.binary operator left token right, ?_,
    .binary writes tight tightRight grammatical onRight, Nat.le.refl,
    Nat.max_lt.mpr ⟨shallow, shallowRight⟩⟩
  exact (List.prefix_append_right_inj _).mpr ((List.prefix_cons_inj _).mpr isPrefix)

theorem unary {operator : UnaryOp} {token : Token} (writes : token.kind = operator.kind)
    (begun : Begun BinaryOp.operandPrecedence bound front) :
    Begun BinaryOp.operandPrecedence (bound + 1) (token :: front) := by
  obtain ⟨operand, isPrefix, inside, tight, shallow⟩ := begun
  exact ⟨.unary operator token operand, (List.prefix_cons_inj _).mpr isPrefix,
    .unary writes tight inside, Nat.le.refl, Nat.succ_lt_succ shallow⟩

theorem group {opening : Token} (opens : opening.kind = .leftParenthesis)
    (begun : Begun BinaryOp.or.precedence bound front) :
    Begun (BinaryOp.operandPrecedence + 1) (bound + 1) (opening :: front) := by
  obtain ⟨phrase, isPrefix, inside, tight, shallow⟩ := begun
  let closing : Token := ⟨.fixed .rightParenthesis, Span.origin⟩
  refine ⟨.group opening phrase closing, ?_, .group opens rfl inside, Nat.le.refl,
    Nat.succ_lt_succ shallow⟩
  exact (List.prefix_cons_inj _).mpr (isPrefix.trans (List.prefix_append _ _))

theorem index {array opening : Token} (word : array.kind = .identifier)
    (free : Literal.ofWord? array.text = none) (opens : opening.kind = .leftBracket)
    (begun : Begun BinaryOp.or.precedence bound front) :
    Begun (BinaryOp.operandPrecedence + 1) (bound + 1) (array :: opening :: front) := by
  obtain ⟨subscript, isPrefix, inside, tight, shallow⟩ := begun
  let closing : Token := ⟨.fixed .rightBracket, Span.origin⟩
  refine ⟨.index array array.text opening subscript closing, ?_,
    .index word free rfl opens rfl inside, Nat.le.refl, Nat.succ_lt_succ shallow⟩
  exact (List.prefix_cons_inj _).mpr
    ((List.prefix_cons_inj _).mpr (isPrefix.trans (List.prefix_append _ _)))

end Phrase.Begun

namespace Production

open Phrase (Begun)

variable {operand argument : Production} {precedence bound : Nat}

/-- What was read is read again before whatever begins like what followed it. -/
theorem Reads.read_again {production : Production} {level : Nat}
    (reads : production.Reads level bound) {tokens rest later : List Token} {phrase : Phrase Token}
    (found : production.read tokens = .ok (phrase, rest))
    (begins : ∀ token ∈ later.head?, token ∈ rest.head?) :
    production.read (phrase.tokens ++ later) = .ok (phrase, later) :=
  reads.complete later ((reads.sound found).of_head begins)

/-! ## Chains -/

theorem chainFrom_error {left : Phrase Token} {token : Token} {after : List Token}
    {operator : BinaryOp} {stop : Stop}
    (isOperator : BinaryOp.atPrecedence? precedence token.kind = some operator)
    (stopped : operand.read after = .error stop) :
    chainFrom precedence operand left (token :: after) = .error stop := by
  rw [chainFrom, isOperator]
  dsimp only
  split
  · rename_i stop' stopped'
    rw [stopped] at stopped'
    cases stopped'
    rfl
  · rename_i right rest reading
    rw [stopped] at reading
    cases reading

theorem refuses_chainFrom (reads : operand.Reads (precedence + 1) bound)
    (refuses : Refuses operand.read (Begun (precedence + 1) bound))
    (groups : precedence ≠ BinaryOp.comparisonPrecedence) {left : Phrase Token}
    (grammatical : left.Grammatical Token.toLexeme) (tight : precedence ≤ left.level)
    (shallow : left.depth < bound) :
    Refuses (chainFrom precedence operand left)
      fun front => Begun precedence bound (left.tokens ++ front) := by
  intro tokens stop stopped
  fun_induction chainFrom precedence operand left tokens with
  | case1 left => cases stopped
  | case2 left token after notOperator => cases stopped
  | case3 left token after operator isOperator stop' stopped' =>
      cases stopped
      obtain ⟨front, stops⟩ := refuses stopped'
      obtain ⟨writes, rfl⟩ := BinaryOp.atPrecedence?_eq_some_iff.mp isOperator
      rw [← BinaryOp.leftPrecedence_of_ne groups] at tight
      exact ⟨_, stops.after [token] (.binary writes.symm tight grammatical shallow)
        fun later stop begins => chainFrom_error isOperator⟩
  | case4 left token after operator isOperator right rest reading ih =>
      obtain ⟨writes, rfl⟩ := BinaryOp.atPrecedence?_eq_some_iff.mp isOperator
      have stands := reads.sound reading
      rw [← BinaryOp.leftPrecedence_of_ne groups] at tight
      obtain ⟨front, stops⟩ := ih (.binary writes.symm tight stands.tight grammatical
        stands.grammatical) Nat.le.refl (Nat.max_lt.mpr ⟨shallow, stands.shallow⟩) stopped
      rw [← operand.read_tokens reading]
      refine ⟨_, stops.after (token :: right.tokens) ?_ ?_⟩
      · simp [Phrase.tokens]
      · intro later stop begins stopped
        rw [List.cons_append, chainFrom_step isOperator (reads.read_again reading begins)]
        exact stopped

theorem refuses_chain (reads : operand.Reads (precedence + 1) bound)
    (refuses : Refuses operand.read (Begun (precedence + 1) bound))
    (groups : precedence ≠ BinaryOp.comparisonPrecedence) :
    Refuses (chain precedence operand).read (Begun precedence bound) := by
  intro tokens stop stopped
  simp only [chain] at stopped
  split at stopped
  · rename_i stop' stopped'
    cases stopped
    obtain ⟨front, stops⟩ := refuses stopped'
    refine ⟨front, stops.within .lower ?_⟩
    intro later stop begins stopped
    simp only [chain, stopped]
  · rename_i left rest reading
    have stands := reads.sound reading
    obtain ⟨front, stops⟩ := refuses_chainFrom reads refuses groups stands.grammatical
      (Nat.le_of_succ_le stands.tight) stands.shallow stopped
    rw [← operand.read_tokens reading]
    refine ⟨_, stops.after left.tokens (fun begun => begun) ?_⟩
    intro later stop begins stopped
    simp only [chain, reads.read_again reading begins, stopped]

/-! ## Comparisons -/

theorem comparison?_cons_of_head {tokens : List Token} {token : Token}
    (member : token ∈ tokens.head?) (others : List Token) :
    comparison? (token :: others) = comparison? tokens := by
  obtain ⟨rest, rfl⟩ := List.head?_eq_some_iff.mp member
  rfl

theorem comparison_error {tokens after : List Token} {left : Phrase Token} {token : Token}
    {operator : BinaryOp} {stop : Stop} (reading : operand.read tokens = .ok (left, token :: after))
    (isOperator : comparison? (token :: after) = some operator)
    (stopped : operand.read after = .error stop) :
    (comparison operand).read tokens = .error stop := by
  simp only [comparison, reading, isOperator, stopped]

theorem comparison_chained {tokens after rest : List Token} {left right : Phrase Token}
    {token : Token} {operator second : BinaryOp}
    (reading : operand.read tokens = .ok (left, token :: after))
    (isOperator : comparison? (token :: after) = some operator)
    (readingRight : operand.read after = .ok (right, rest))
    (isSecond : comparison? rest = some second) :
    (comparison operand).read tokens = .error ⟨.chainedComparison, rest⟩ := by
  simp only [comparison, reading, isOperator, readingRight, isSecond]

/-- Where the right operand stops, so does the comparison, and a complete comparison stops at a
second operator. -/
theorem refuses_comparison_right
    (reads : operand.Reads (BinaryOp.comparisonPrecedence + 1) bound)
    (refuses : Refuses operand.read (Begun (BinaryOp.comparisonPrecedence + 1) bound))
    {tokens after : List Token} {left : Phrase Token} {token : Token} {operator : BinaryOp}
    {stop : Stop} (reading : operand.read tokens = .ok (left, token :: after))
    (isOperator : comparison? (token :: after) = some operator)
    (stopped : (comparison operand).read tokens = .error stop) :
    ∃ front, StopsAt (comparison operand).read (Begun BinaryOp.comparisonPrecedence bound)
      tokens stop front := by
  have stands := reads.sound reading
  obtain ⟨writes, compares⟩ := BinaryOp.atPrecedence?_eq_some_iff.mp isOperator
  have tight := stands.tight
  rw [← compares, ← BinaryOp.leftPrecedence_of_eq compares] at tight
  have completes : ∀ front, Begun (BinaryOp.comparisonPrecedence + 1) bound front →
      Begun BinaryOp.comparisonPrecedence bound (left.tokens ++ [token] ++ front) := by
    intro front begun
    rw [← compares] at begun ⊢
    rw [← List.append_cons]
    exact .binary writes.symm tight stands.grammatical stands.shallow begun
  have again : ∀ later, operand.read (left.tokens ++ [token] ++ later) =
      .ok (left, token :: later) := by
    intro later
    rw [← List.append_cons]
    exact reads.read_again reading fun _ same => same
  have isOperatorAgain : ∀ later, comparison? (token :: later) = some operator :=
    fun _ => isOperator
  simp only [comparison, reading, isOperator] at stopped
  rw [← operand.read_tokens reading, List.append_cons]
  split at stopped
  · rename_i stop' stopped'
    cases stopped
    obtain ⟨front, stops⟩ := refuses stopped'
    refine ⟨_, stops.after (left.tokens ++ [token]) (completes front) ?_⟩
    intro later stop begins stopped
    exact comparison_error (again later) (isOperatorAgain later) stopped
  · rename_i right rest readingRight
    split at stopped
    · cases stopped
    · rename_i second isSecond
      cases stopped
      rw [← operand.read_tokens readingRight, ← List.append_assoc]
      refine ⟨_, rfl, fun known => completes _ (.of_stands (reads.sound readingRight)), ?_⟩
      intro next member others
      have begins : ∀ first ∈ (next :: others).head?, first ∈ rest.head? := by
        rintro _ ⟨⟩
        exact member
      have isSecondAgain : comparison? (next :: others) = some second := by
        rw [comparison?_cons_of_head member, isSecond]
      rw [List.append_assoc]
      exact comparison_chained (again _) (isOperatorAgain _)
        (reads.read_again readingRight begins) isSecondAgain

theorem refuses_comparison
    (reads : operand.Reads (BinaryOp.comparisonPrecedence + 1) bound)
    (refuses : Refuses operand.read (Begun (BinaryOp.comparisonPrecedence + 1) bound)) :
    Refuses (comparison operand).read (Begun BinaryOp.comparisonPrecedence bound) := by
  intro tokens stop stopped
  cases reading : operand.read tokens with
  | error stop' =>
      simp only [comparison, reading] at stopped
      cases stopped
      obtain ⟨front, stops⟩ := refuses reading
      refine ⟨front, stops.within .lower ?_⟩
      intro later stop begins stopped
      simp only [comparison, stopped]
  | ok found =>
      obtain ⟨left, rest⟩ := found
      cases isOperator : comparison? rest with
      | none => cases rest <;> simp [comparison, reading, isOperator] at stopped
      | some operator =>
          cases rest with
          | nil => cases isOperator
          | cons token after =>
              exact refuses_comparison_right reads refuses reading isOperator stopped

end Production

end JassExpr
