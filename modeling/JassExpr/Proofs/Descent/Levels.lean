import JassExpr.Proofs.Descent.Primaries

/-!
# Levels of a descent

A rule calls rules for what is bound more tightly, down to what a name begins, and from there only
rules one level deeper. That makes eight calls within each other on each level, and no more levels
are entered than are allowed. Each of these calls goes on record as one that keeps the discipline.
-/

namespace JassExpr

namespace Descent

variable {scope : Scope} {inner : Construct → Production}

/-- A call is on record as one that keeps the discipline, given where what it reads begins. -/
theorem Reads.recorded {rule : Rule} {work : Parsing Nat} {cursor : Nat} {nodes : NodeTable}
    {expected : Except Stop (Phrase Token × List Token)}
    (reads : Reads scope work cursor nodes expected)
    (behind : ∀ name start, rule = .named name start → cursor = start + 1)
    (stands : ∀ {phrase rest}, expected = .ok (phrase, rest) →
      phrase.tokens ++ rest = scope.tokens.drop (rule.startFrom cursor)) :
    Reads scope (recorded scope rule work) cursor nodes expected := by
  intro rounds before isAt
  refine yields_recorded ((reads rounds before isAt).imp ?_ ?_)
  · rintro _ after ⟨phrase, place, expects, rfl, isAfter⟩
    have passed := (bounds_of_stands (stands expects) isAfter.cursor_le).2
    exact ⟨phrase, place, expects, rfl, isAfter.withCall (isAt.disciplined isAfter behind
      fun _ => passed)⟩
  · rintro _ after ⟨stop, place, grown, expects, rfl, isAfter⟩
    exact ⟨stop, place, grown, expects, rfl, isAfter.withCall (isAt.disciplined isAfter behind
      nofun)⟩

theorem startFrom_of_ne {rule : Rule} (notName : ∀ name start, rule ≠ .named name start)
    (place : Nat) : rule.startFrom place = place := by
  cases rule with
  | named name start => exact absurd rfl (notName name start)
  | _ => rfl

theorem agrees_call {rule : Rule} {production : Production} {least : Nat}
    (notName : ∀ name start, rule ≠ .named name start)
    (agrees : ∀ fuel, least ≤ fuel → Agrees scope (follow (call fuel) fuel scope rule) production) :
    ∀ fuel, least + 1 ≤ fuel → Agrees scope (call fuel scope rule) production := by
  intro fuel enough cursor nodes
  obtain ⟨fuel, rfl⟩ := Nat.exists_eq_add_of_le' (Nat.le_of_add_left_le enough)
  refine (agrees fuel (by omega) cursor nodes).recorded ?_ ?_
  · intro name start same
    exact absurd same (notName name start)
  · intro phrase rest found
    rw [startFrom_of_ne notName]
    exact production.read_tokens found

/-- With eight calls more than what lies one level deeper needs, each of the rules can call the next
one. -/
theorem agrees_disjunction {least : Nat} (long : scope.tokens.length < least)
    (agreesInner : ∀ fuel, least ≤ fuel → AgreesInner (call fuel) scope inner) :
    (∀ fuel, least + 3 ≤ fuel → Agrees scope (call fuel scope .unary) (.unary inner)) ∧
      ∀ fuel, least + 8 ≤ fuel →
        Agrees scope (call fuel scope .disjunction) (.disjunction inner) := by
  -- This rule comes first, because it calls no others than rules one level deeper.
  have named : ∀ fuel, least + 1 ≤ fuel → ∀ token cursor nodes,
      token :: scope.tokens.drop (cursor + 1) = scope.tokens.drop cursor →
        Reads scope (call fuel scope (.named token.text cursor)) (cursor + 1) nodes
          (Production.named inner token (scope.tokens.drop (cursor + 1))) := by
    intro fuel enough token cursor nodes behind
    obtain ⟨fuel, rfl⟩ := Nat.exists_eq_add_of_le' (Nat.le_of_add_left_le enough)
    have reads : Reads scope (Descent.named (call fuel) fuel scope token.text cursor) (cursor + 1)
        nodes (Production.named inner token (scope.tokens.drop (cursor + 1))) :=
      reads_named (agreesInner fuel (by omega)) (by omega) behind
    refine reads.recorded ?_ ?_
    · rintro _ _ ⟨⟩
      rfl
    · intro phrase rest found
      exact (Production.named_tokens found).trans behind
  have primary : ∀ fuel, least + 2 ≤ fuel →
      Agrees scope (call fuel scope .primary) (.primary inner) :=
    agrees_call nofun fun fuel enough =>
      agrees_primary (agreesInner fuel (by omega)) (named fuel enough)
  have unary : ∀ fuel, least + 3 ≤ fuel → Agrees scope (call fuel scope .unary) (.unary inner) :=
    agrees_call nofun fun fuel enough =>
      agrees_unary (agreesInner fuel (by omega)) (primary fuel enough)
  have product : ∀ fuel, least + 4 ≤ fuel →
      Agrees scope (call fuel scope .product) (.product inner) :=
    agrees_call nofun fun fuel enough => agrees_chain (unary fuel enough) (by omega)
  have sum : ∀ fuel, least + 5 ≤ fuel → Agrees scope (call fuel scope .sum) (.sum inner) :=
    agrees_call nofun fun fuel enough => agrees_chain (product fuel enough) (by omega)
  have relation : ∀ fuel, least + 6 ≤ fuel →
      Agrees scope (call fuel scope .relation) (.relation inner) :=
    agrees_call nofun fun fuel enough => agrees_comparison (sum fuel enough)
  have conjunction : ∀ fuel, least + 7 ≤ fuel →
      Agrees scope (call fuel scope .conjunction) (.conjunction inner) :=
    agrees_call nofun fun fuel enough => agrees_chain (relation fuel enough) (by omega)
  have disjunction : ∀ fuel, least + 8 ≤ fuel →
      Agrees scope (call fuel scope .disjunction) (.disjunction inner) :=
    agrees_call nofun fun fuel enough => agrees_chain (conjunction fuel enough) (by omega)
  exact ⟨unary, disjunction⟩

/-- What lies one level deeper is read as the productions say, also if no level more is allowed. -/
theorem agreesInner_nested {allowance : Nat} (levels : scope.active + allowance = scope.limit) :
    ∀ fuel, 8 * allowance + scope.tokens.length + 1 ≤ fuel →
      AgreesInner (call fuel) scope (Production.nested scope.limit allowance) := by
  induction allowance generalizing scope with
  | zero =>
      intro fuel enough construct cursor nodes rounds before isAt
      -- The count has come to the limit, so this is refused before a rule is called.
      refine .bind (yields_look isAt fun isAt => ?_)
      rw [isAt.depth_eq, if_pos (by omega)]
      exact yields_refuse_refused isAt
  | succ allowance ih =>
      intro fuel enough construct cursor nodes rounds before isAt
      have levelsDeeper : scope.deeper.active + allowance = scope.deeper.limit := by
        change scope.active + 1 + allowance = scope.limit
        omega
      have agreesInner : ∀ fuel, 8 * allowance + scope.tokens.length + 1 ≤ fuel →
          AgreesInner (call fuel) scope.deeper (Production.nested scope.limit allowance) :=
        ih levelsDeeper
      have long : scope.deeper.tokens.length < 8 * allowance + scope.tokens.length + 1 := by
        change scope.tokens.length < _
        omega
      have rules := agrees_disjunction long agreesInner
      have agrees : Agrees scope.deeper (call fuel scope.deeper (ruleOf construct))
          (Production.nested scope.limit (allowance + 1) construct) := by
        cases construct with
        | operand => exact rules.1 fuel (by omega)
        | expression => exact rules.2 fuel (by omega)
      refine .bind (yields_look isAt fun {state} isAt => ?_)
      have allowed : scope.active < scope.limit := by omega
      rw [if_neg (by rw [isAt.depth_eq]; omega)]
      refine .bind (yields_set (yields_leaving ?_))
      refine (agrees cursor nodes rounds _ (isAt.deeper allowed)).imp ?_ ?_
      · rintro _ _ ⟨phrase, place, expects, rfl, isAfter⟩
        exact ⟨isAfter.left.1, phrase, place, expects, rfl, isAfter.left.2⟩
      · rintro _ _ ⟨stop, place, grown, expects, rfl, isAfter⟩
        exact ⟨isAfter.left.1, stop, place, grown, expects, rfl, isAfter.left.2⟩

end Descent

end JassExpr
