import Mathlib.Data.List.Chain
import JassExpr.Proofs.Phrase.Canonical
import JassExpr.Proofs.Phrase.Partition

/-!
# Canonical phrases one after another

The parentheses around a whole expression are not part of its canonical phrase, though they may be
what kept it apart from the expression in front of it. Without them a sign goes on with what stands
in front of it, and a parenthesis makes a call of a variable. In all other cases canonical phrases
are read one after another as what they are, and in these cases they never are.
-/

namespace JassExpr

/-- Whether the canonical phrase of one expression, right after that of another, begins with a
token that goes on with it: a sign, or a parenthesis after a variable. -/
def Expr.Fuses (first second : Expr) : Prop :=
  second.canonical.first.kind = .minus ∨ second.canonical.first.kind = .plus ∨
    first.canonical.endsInName = true ∧ second.canonical.first.kind = .leftParenthesis

/-- None of some expressions in order fuses with the next. -/
def Expr.Apart (exprs : List Expr) : Prop :=
  exprs.IsChain fun first second => ¬first.Fuses second

/-- Only signs stand between two operands as well as in front of an expression. -/
theorem BinaryOp.ofKind?_of_beginsPhrase {kind : TokenKind} (begins : kind.beginsPhrase = true) :
    ofKind? kind = none ↔ kind ≠ .minus ∧ kind ≠ .plus := by
  cases kind <;> first | decide | cases begins

namespace Phrase

variable {phrase other : Phrase Token}

theorem IsCanonical.kind_first (isCanonical : phrase.IsCanonical) :
    phrase.expr.canonical.first.kind = phrase.first.kind := by
  rw [← isCanonical.same, first_map]

/-- A canonical phrase can end before another one unless the two fuse. -/
theorem IsCanonical.endsBefore_iff (isCanonical : phrase.IsCanonical)
    (isCanonical' : other.IsCanonical) (rest : List Token) :
    phrase.EndsBefore BinaryOp.or.precedence (other.tokens ++ rest) ↔
      ¬phrase.expr.Fuses other.expr := by
  have begins := isCanonical'.grammatical.beginsPhrase
  obtain ⟨tail, same⟩ := List.head?_eq_some_iff.mp other.head?_tokens
  have endsInName : phrase.expr.canonical.endsInName = phrase.endsInName := by
    rw [← isCanonical.same, endsInName_map]
  rw [same, List.cons_append, Expr.Fuses, isCanonical'.kind_first, endsInName, not_or, not_or,
    not_and, ← and_assoc, ← BinaryOp.ofKind?_of_beginsPhrase begins]
  constructor
  · intro ends
    refine ⟨?_, fun isName => (ends.bracket isName _ rfl).1⟩
    apply Option.eq_none_iff_forall_ne_some.mpr
    intro operator isOperator
    have loose := ends.operator _ rfl operator isOperator
    cases operator <;> exact absurd loose (by decide)
  · rintro ⟨notOperator, notCall⟩
    refine .of_notOperator notOperator fun isName => ⟨notCall isName, ?_⟩
    intro isBracket
    rw [isBracket] at begins
    cases begins

theorem IsCanonical.stands_iff (isCanonical : phrase.IsCanonical) {limit : Nat}
    (shallow : phrase.depth ≤ limit) {rest : List Token} :
    phrase.Stands BinaryOp.or.precedence (limit + 1) rest ↔
      phrase.EndsBefore BinaryOp.or.precedence rest :=
  ⟨fun stands => stands.ends, fun ends =>
    ⟨isCanonical.grammatical, phrase.one_le_level, Nat.lt_succ_of_le shallow, ends⟩⟩

/-- No grammatical phrase of an expression has fewer tokens than a canonical one. -/
theorem IsCanonical.length_tokens_le (isCanonical : phrase.IsCanonical)
    (grammatical : other.Grammatical Token.toLexeme) (sameExpr : other.expr = phrase.expr) :
    phrase.tokens.length ≤ other.tokens.length := by
  have le := grammatical.tokens_canonical_sublist.length_le
  rwa [sameExpr, ← isCanonical.same, tokens_map, List.length_map, List.length_map] at le

/-- Canonical phrases in a row are those that do not fuse with the next. -/
theorem inRow_iff_apart {limit : Nat} {phrases : List (Phrase Token)}
    (each : ∀ phrase ∈ phrases, phrase.IsCanonical ∧ phrase.depth ≤ limit) :
    InRow limit phrases ↔ Expr.Apart (phrases.map expr) := by
  induction phrases with
  | nil => exact ⟨fun _ => .nil, fun _ => .nil⟩
  | cons phrase others ih =>
      obtain ⟨⟨isCanonical, shallow⟩, eachOther⟩ := List.forall_mem_cons.mp each
      rw [inRow_cons_iff, ih eachOther, isCanonical.stands_iff shallow]
      cases others with
      | nil => simp [EndsBefore.nil, Expr.Apart]
      | cons other others =>
          obtain ⟨⟨isCanonical', -⟩, -⟩ := List.forall_mem_cons.mp eachOther
          rw [List.flatMap_cons, isCanonical.endsBefore_iff isCanonical']
          simp only [Expr.Apart, List.map_cons, List.isChain_cons_cons]

theorem length_flatMap_tokens_le {phrases others : List (Phrase Token)}
    (canonical : ∀ phrase ∈ phrases, phrase.IsCanonical)
    (grammatical : ∀ other ∈ others, other.Grammatical Token.toLexeme)
    (sameExprs : others.map expr = phrases.map expr) :
    (phrases.flatMap tokens).length ≤ (others.flatMap tokens).length := by
  induction phrases generalizing others with
  | nil => exact Nat.zero_le _
  | cons phrase phrases ih =>
      obtain ⟨other, others, rfl, sameHere, sameRest⟩ := List.map_eq_cons_iff.mp sameExprs
      obtain ⟨isCanonical, canonicalRest⟩ := List.forall_mem_cons.mp canonical
      obtain ⟨isGrammatical, grammaticalRest⟩ := List.forall_mem_cons.mp grammatical
      have here := isCanonical.length_tokens_le isGrammatical sameHere
      have there := ih canonicalRest grammaticalRest sameRest
      simp only [List.flatMap_cons, List.length_append]
      omega

/-- Phrases of the same expressions over the tokens of canonical phrases are these. -/
theorem eq_of_flatMap_tokens_eq {phrases others : List (Phrase Token)}
    (canonical : ∀ phrase ∈ phrases, phrase.IsCanonical)
    (grammatical : ∀ other ∈ others, other.Grammatical Token.toLexeme)
    (sameTokens : others.flatMap tokens = phrases.flatMap tokens)
    (sameExprs : others.map expr = phrases.map expr) : others = phrases := by
  induction phrases generalizing others with
  | nil => exact List.map_eq_nil_iff.mp sameExprs
  | cons phrase phrases ih =>
      obtain ⟨other, others, rfl, sameHere, sameRest⟩ := List.map_eq_cons_iff.mp sameExprs
      obtain ⟨isCanonical, canonicalRest⟩ := List.forall_mem_cons.mp canonical
      obtain ⟨isGrammatical, grammaticalRest⟩ := List.forall_mem_cons.mp grammatical
      -- Neither the first phrase nor the others have fewer tokens, and together they have as many.
      have here := isCanonical.length_tokens_le isGrammatical sameHere
      have there := length_flatMap_tokens_le canonicalRest grammaticalRest sameRest
      have total := congrArg List.length sameTokens
      simp only [List.flatMap_cons, List.length_append] at sameTokens total
      obtain ⟨tokensHere, tokensRest⟩ := List.append_inj sameTokens (by omega)
      rw [isGrammatical.eq_of_tokens_eq isCanonical.grammatical tokensHere,
        ih canonicalRest grammaticalRest tokensRest sameRest]

end Phrase

/-- The tokens of canonical phrases are read as the expressions of these phrases just when none of
them fuses with the next. -/
theorem parseWith_canonical_iff {limit : Nat} {phrases : List (Phrase Token)}
    (each : ∀ phrase ∈ phrases, phrase.IsCanonical ∧ phrase.depth ≤ limit) :
    (∃ again, parseWith limit (phrases.flatMap Phrase.tokens) = .ok again ∧
      again.map Phrase.expr = phrases.map Phrase.expr) ↔
        Expr.Apart (phrases.map Phrase.expr) := by
  rw [← Phrase.inRow_iff_apart each]
  constructor
  · rintro ⟨again, found, sameExprs⟩
    obtain ⟨sameTokens, row⟩ := parseWith_eq_ok_iff.mp found
    have same := Phrase.eq_of_flatMap_tokens_eq (fun phrase member => (each phrase member).1)
      (fun other member => (row.forall_mem other member).1) sameTokens sameExprs
    rwa [same] at row
  · intro row
    exact ⟨phrases, parseWith_eq_ok_iff.mpr ⟨rfl, row⟩, rfl⟩

end JassExpr
