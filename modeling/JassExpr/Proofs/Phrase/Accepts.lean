import JassExpr.Phrase.Reading
import JassExpr.Proofs.Phrase.Operands

/-!
# What is accepted

Putting the productions together, what is read is exactly what is grammatical and nested no
deeper than the limit, both for one expression and for several in a row.
-/

namespace JassExpr

namespace Production

variable {inner : Construct → Production} {bound : Nat}

theorem Reads.product (reads : ReadsInner inner bound) :
    (product inner).Reads BinaryOp.multiply.precedence (bound + 1) :=
  .chain (.unary reads) (by decide) (by decide)

theorem Reads.sum (reads : ReadsInner inner bound) :
    (sum inner).Reads BinaryOp.add.precedence (bound + 1) :=
  .chain (.product reads) (by decide) (by decide)

theorem Reads.relation (reads : ReadsInner inner bound) :
    (relation inner).Reads BinaryOp.comparisonPrecedence (bound + 1) :=
  .comparison (.sum reads)

theorem Reads.conjunction (reads : ReadsInner inner bound) :
    (conjunction inner).Reads BinaryOp.and.precedence (bound + 1) :=
  .chain (.relation reads) (by decide) (by decide)

/-- An expression whose parts are read by the productions one level deeper is read as the loosest
of all levels. -/
theorem Reads.disjunction (reads : ReadsInner inner bound) :
    (disjunction inner).Reads BinaryOp.or.precedence (bound + 1) :=
  .chain (.conjunction reads) (by decide) (by decide)

/-- With so many levels still allowed, what is nested less than that is read. -/
theorem readsInner_nested (limit allowance : Nat) :
    ReadsInner (nested limit allowance) allowance := by
  induction allowance with
  | zero =>
      have nothing : ∀ level, (refused (.nestingTooDeep limit)).Reads level 0 := fun level =>
        { sound := by
            intro tokens rest phrase found
            cases found
          complete := by
            intro rest phrase stands
            exact absurd stands.shallow (Nat.not_lt_zero _) }
      exact ⟨nothing _, nothing _⟩
  | succ allowance ih => exact ⟨.unary ih, .disjunction ih⟩

/-- With a limit, the grammatical phrases that are nested no deeper are read. -/
theorem reads_expression (limit : Nat) :
    (expression limit).Reads BinaryOp.or.precedence (limit + 1) :=
  .disjunction (readsInner_nested limit limit)

end Production

/-- Tokens are one expression just when they are those of a grammatical phrase that is nested no
deeper than the limit. -/
theorem parseExpression_eq_ok_iff {tokens : List Token} {phrase : Phrase Token} :
    parseExpression tokens = .ok phrase ↔
      phrase.tokens = tokens ∧ phrase.Grammatical Token.toLexeme ∧
        phrase.depth ≤ defaultLimit := by
  have reads := Production.reads_expression defaultLimit
  constructor
  · intro found
    unfold parseExpression at found
    split at found
    · cases found
    · rename_i phrase reading
      cases found
      obtain ⟨whole, stands⟩ := reads.read_eq_ok_iff.mp reading
      rw [List.append_nil] at whole
      exact ⟨whole, stands.grammatical, Nat.le_of_lt_succ stands.shallow⟩
    · cases found
  · rintro ⟨rfl, grammatical, shallow⟩
    have reading := reads.complete []
      ⟨grammatical, phrase.one_le_level, Nat.lt_succ_of_le shallow, .nil⟩
    rw [List.append_nil] at reading
    rw [parseExpression, reading]

namespace Phrase

/-- Phrases that are read one after another: each is grammatical, is nested no deeper than the
limit and can end before all those that follow it. -/
inductive InRow (limit : Nat) : List (Phrase Token) → Prop
  | nil : InRow limit []
  | cons {phrase : Phrase Token} {others : List (Phrase Token)}
      (stands : phrase.Stands BinaryOp.or.precedence (limit + 1) (others.flatMap tokens))
      (row : InRow limit others) :
      InRow limit (phrase :: others)

theorem inRow_cons_iff {limit : Nat} {phrase : Phrase Token} {others : List (Phrase Token)} :
    InRow limit (phrase :: others) ↔
      phrase.Stands BinaryOp.or.precedence (limit + 1) (others.flatMap tokens) ∧
        InRow limit others := by
  constructor
  · rintro (_ | ⟨stands, row⟩)
    exact ⟨stands, row⟩
  · rintro ⟨stands, row⟩
    exact .cons stands row

theorem InRow.forall_mem {limit : Nat} {phrases : List (Phrase Token)}
    (row : InRow limit phrases) :
    ∀ phrase ∈ phrases, phrase.Grammatical Token.toLexeme ∧ phrase.depth ≤ limit := by
  induction row with
  | nil => simp
  | cons stands row ih =>
      exact List.forall_mem_cons.mpr
        ⟨⟨stands.grammatical, Nat.le_of_lt_succ stands.shallow⟩, ih⟩

/-- What is left of a row without its first phrases is a row. -/
theorem InRow.of_append {limit : Nat} {before after : List (Phrase Token)}
    (row : InRow limit (before ++ after)) : InRow limit after := by
  induction before with
  | nil => exact row
  | cons phrase before ih =>
      cases row with
      | cons stands row => exact ih row

end Phrase

namespace Reading

theorem inRow_ofTokens {limit : Nat} {tokens : List Token}
    (complete : (ofTokens (Production.expression limit) tokens).stop? = none) :
    (ofTokens (Production.expression limit) tokens).phrases.flatMap Phrase.tokens = tokens ∧
      Phrase.InRow limit (ofTokens (Production.expression limit) tokens).phrases := by
  fun_induction ofTokens (Production.expression limit) tokens with
  | case1 => exact ⟨rfl, .nil⟩
  | case2 token others stop stopped => cases complete
  | case3 token others phrase rest found ih =>
      obtain ⟨whole, row⟩ := ih complete
      have stands := (Production.reads_expression limit).sound found
      refine ⟨?_, .cons ?_ row⟩
      · rw [after, List.flatMap_cons, whole, Production.read_tokens _ found]
      · rwa [whole]

theorem ofTokens_of_inRow {limit : Nat} {phrases : List (Phrase Token)}
    (row : Phrase.InRow limit phrases) :
    ofTokens (Production.expression limit) (phrases.flatMap Phrase.tokens) = ⟨phrases, none⟩ := by
  induction row with
  | nil => rw [List.flatMap_nil, ofTokens_nil]
  | @cons phrase others stands row ih =>
      have reading := (Production.reads_expression limit).complete _ stands
      obtain ⟨tail, begins⟩ := List.head?_eq_some_iff.mp phrase.head?_tokens
      rw [begins, List.cons_append] at reading
      rw [List.flatMap_cons, begins, List.cons_append, ofTokens_ok reading, ih, after]

end Reading

/-- Tokens are read as some phrases just when they are those of these phrases and the phrases can
stand in a row. -/
theorem parseWith_eq_ok_iff {limit : Nat} {tokens : List Token} {phrases : List (Phrase Token)} :
    parseWith limit tokens = .ok phrases ↔
      phrases.flatMap Phrase.tokens = tokens ∧ Phrase.InRow limit phrases := by
  constructor
  · intro found
    simp only [parseWith] at found
    split at found
    · cases found
    · rename_i complete
      cases found
      exact Reading.inRow_ofTokens complete
  · rintro ⟨rfl, row⟩
    simp only [parseWith, Reading.ofTokens_of_inRow row]

/-- All the tokens that are read as expressions are those of grammatical phrases, each nested no
deeper than the limit. -/
theorem parseWith_sound {limit : Nat} {tokens : List Token} {phrases : List (Phrase Token)}
    (found : parseWith limit tokens = .ok phrases) :
    phrases.flatMap Phrase.tokens = tokens ∧
      ∀ phrase ∈ phrases, phrase.Grammatical Token.toLexeme ∧ phrase.depth ≤ limit := by
  obtain ⟨whole, row⟩ := parseWith_eq_ok_iff.mp found
  exact ⟨whole, row.forall_mem⟩

/-- The tokens of one grammatical phrase that is nested no deeper than the limit are read as that
phrase and no other. -/
theorem parseWith_tokens {limit : Nat} {phrase : Phrase Token}
    (grammatical : phrase.Grammatical Token.toLexeme) (shallow : phrase.depth ≤ limit) :
    parseWith limit phrase.tokens = .ok [phrase] := by
  refine parseWith_eq_ok_iff.mpr ⟨by simp, .cons ?_ .nil⟩
  exact ⟨grammatical, phrase.one_le_level, Nat.lt_succ_of_le shallow, .nil⟩

/-- Grammatical phrases with the same tokens are the same. -/
theorem Phrase.Grammatical.eq_of_tokens_eq {first second : Phrase Token}
    (grammatical : first.Grammatical Token.toLexeme)
    (grammatical' : second.Grammatical Token.toLexeme) (same : first.tokens = second.tokens) :
    first = second := by
  have reading := parseWith_tokens grammatical (Nat.le_max_left first.depth second.depth)
  rw [same, parseWith_tokens grammatical' (Nat.le_max_right first.depth second.depth)] at reading
  exact ((List.cons.inj (Except.ok.inj reading)).1).symm

end JassExpr
