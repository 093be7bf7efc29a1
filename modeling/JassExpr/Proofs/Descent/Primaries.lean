import JassExpr.Proofs.Descent.Rules

/-!
# Primaries by descent

What a literal, a parenthesis or a name begins is read as the productions say. The name of a call or
an element has been passed before the rule for what follows it is called, so what that rule reads
begins one token in front of the place where it is called.
-/

namespace JassExpr

namespace Descent

variable {call : Scope → Rule → Parsing Nat} {turns : Nat} {scope : Scope}
  {inner : Construct → Production} {production : Production} {cursor rounds start : Nat}
  {nodes : NodeTable} {before : State} {token : Token} {after : List Token}

theorem yields_literal {value : Literal} {bad : Failure → State → Prop}
    (isAt : At scope cursor nodes rounds before)
    (begins : scope.tokens.drop cursor = token :: after) :
    Yields (literal scope cursor value) before
      (Found scope nodes rounds (.ok (.literal token value, after))) bad := by
  refine .bind (yields_advance isAt begins fun rest isAt => ?_)
  rw [← rest] at begins ⊢
  refine yields_pushFrom_found isAt begins.symm (List.forall_mem_nil _) ?_
  rw [Phrase.addTo, Phrase.span, Phrase.first, Phrase.last, Span.cover_self]

theorem yields_grouped (agreesInner : AgreesInner call scope inner)
    (isAt : At scope cursor nodes rounds before)
    (begins : scope.tokens.drop cursor = token :: after) :
    Yields (grouped call scope) before
      (Found scope nodes rounds (Production.grouped inner token after))
      (Refused scope rounds (Production.grouped inner token after)) := by
  rw [Production.grouped_eq_bind]
  refine .bind (yields_advance isAt begins fun rest isAt => ?_)
  rw [← rest]
  refine (agreesInner .expression _ _).bind isAt fun {phrase place _} found same isAt => ?_
  rw [same]
  refine yields_expect_bind isAt fun {closing _} closes same isAt => ?_
  rw [same]
  exact yields_pure ⟨.group token phrase closing, place + 1, rfl, rfl, isAt⟩

/-! ## Calls and elements -/

/-- All arguments in a list have been read. -/
def FoundEach (scope : Scope) (nodes : NodeTable) (rounds : Nat)
    (expected : Except Stop (List (Phrase Token) × List Token × List Token))
    (numbers : List Nat) (state : State) : Prop :=
  ∃ phrases commas cursor, expected = .ok (phrases, commas, scope.tokens.drop cursor) ∧
    numbers = (Phrase.addEachTo nodes phrases).2 ∧
      At scope cursor (Phrase.addEachTo nodes phrases).1 rounds state

/-- Some arguments have been read with a comma behind each, and the list goes on with what can be
read from there on, with so many tokens ahead. -/
def ArgumentsBefore (scope : Scope) (nodes : NodeTable) (rounds : Nat) (production : Production)
    (expected : Except Stop (List (Phrase Token) × List Token × List Token))
    (ahead : Nat) (numbers : List Nat) (state : State) : Prop :=
  ∃ phrases commas cursor, ahead = scope.tokens.length - cursor ∧
    At scope cursor (Phrase.addEachTo nodes phrases).1 rounds state ∧
      numbers = (Phrase.addEachTo nodes phrases).2 ∧
        expected = (production.argumentsFrom (scope.tokens.drop cursor)).bind fun others =>
          .ok (phrases ++ others.1, commas ++ others.2.1, others.2.2)

theorem argumentsAfter_of_ne {first : Phrase Token} {tokens : List Token}
    (notComma : ∀ token ∈ tokens.head?, token.kind ≠ .comma) :
    production.argumentsAfter first tokens = .ok ([first], [], tokens) := by
  cases tokens with
  | nil => rfl
  | cons token after => rw [Production.argumentsAfter, if_neg (notComma token rfl)]

/-- In each turn an argument is read, which is the last one unless a comma follows. -/
theorem yields_argumentTurn {ahead : Nat} {numbers : List Nat}
    {expected : Except Stop (List (Phrase Token) × List Token × List Token)}
    (agrees : Agrees scope (nested call scope .disjunction) production)
    (holds : ArgumentsBefore scope nodes rounds production expected ahead numbers before) :
    Yields (argumentTurn call scope numbers) before
      (Turned
        (fun next after => ∃ fewer < ahead,
          ArgumentsBefore scope nodes rounds production expected fewer next after)
        (FoundEach scope nodes rounds expected))
      (Refused scope rounds expected) := by
  obtain ⟨phrases, commas, cursor, rfl, isAt, rfl, rfl⟩ := holds
  rw [Production.argumentsFrom_eq_bind, bind_bind]
  refine (agrees _ _).bind isAt fun {phrase place _} found same isAt => ?_
  have wider := (bounds_of_stands (production.read_tokens found) isAt.cursor_le).2
  rw [same]
  refine .bind (yields_eat isAt (fun {_ comma rest} begins isComma others isAt => ?_)
    fun other isAt => ?_)
  · refine yields_pure ⟨_, ?_, phrases ++ [phrase], commas ++ [comma], place + 1, rfl, ?_, ?_, ?_⟩
    · have := isAt.cursor_le
      omega
    · rwa [Phrase.addEachTo_concat]
    · rw [Phrase.addEachTo_concat]
    · simp only [Production.argumentsAfter, begins, if_pos isComma, others, bind_bind]
      simp [Except.bind]
  · refine yields_pure ⟨phrases ++ [phrase], commas, place, ?_, ?_, ?_⟩
    · rw [argumentsAfter_of_ne other]
      simp [Except.bind]
    · rw [Phrase.addEachTo_concat]
    · rwa [Phrase.addEachTo_concat]

theorem argumentList_eq_ite (tokens : List Token) :
    production.argumentList tokens =
      if tokens.head?.any (·.kind = .rightParenthesis) then .ok ([], [], tokens)
      else production.argumentsFrom tokens := by
  cases tokens with
  | nil => rfl
  | cons token after => simp [Production.argumentList]

theorem yields_argumentList (agrees : Agrees scope (nested call scope .disjunction) production)
    (enough : scope.tokens.length < turns) (isAt : At scope cursor nodes rounds before) :
    Yields (argumentList call turns scope) before
      (FoundEach scope nodes rounds (production.argumentList (scope.tokens.drop cursor)))
      (Refused scope rounds (production.argumentList (scope.tokens.drop cursor))) := by
  rw [argumentList_eq_ite]
  refine .bind (yields_begins isAt fun isAt => ?_)
  split
  · exact yields_pure ⟨[], [], cursor, rfl, rfl, isAt⟩
  · refine yields_loop (ArgumentsBefore scope nodes rounds production _)
      (yields_argumentTurn agrees) (Nat.lt_of_le_of_lt (Nat.sub_le _ cursor) enough)
      ⟨[], [], cursor, rfl, isAt, rfl, ?_⟩
    cases production.argumentsFrom (scope.tokens.drop cursor) <;> rfl

theorem yields_application (agreesInner : AgreesInner call scope inner)
    (enough : scope.tokens.length < turns) (isAt : At scope cursor nodes rounds before)
    (behind : token :: scope.tokens.drop cursor = scope.tokens.drop start) {opening : Token}
    (begins : scope.tokens.drop cursor = opening :: after)
    (opens : opening.kind = .leftParenthesis) :
    Yields (application call turns scope token.text start) before
      (Found scope nodes rounds (Production.named inner token (opening :: after)))
      (Refused scope rounds (Production.named inner token (opening :: after))) := by
  rw [Production.named_call_eq_bind opens]
  refine .bind (yields_advance isAt begins fun rest isAt => ?_)
  rw [← rest]
  refine .bind ((yields_argumentList (agreesInner .expression) enough isAt).imp ?_ Refused.bind)
  rintro _ _ ⟨phrases, commas, place, found, rfl, isAt⟩
  rw [found, bind_ok]
  refine yields_expect_bind isAt fun {closing _} closes same isAt => ?_
  rw [same]
  have inside := Production.argumentList_tokens found
  have stands : (Phrase.call token token.text opening phrases commas closing).tokens ++
      scope.tokens.drop (place + 1) = scope.tokens.drop start := by
    rw [← behind, begins, ← rest, ← inside, ← Production.expect_tokens closes, Phrase.tokens]
    simp
  refine yields_pushFrom_found isAt stands ?_ rfl
  exact Phrase.roots_addEachTo_lt phrases nodes

theorem yields_element (agreesInner : AgreesInner call scope inner)
    (isAt : At scope cursor nodes rounds before)
    (behind : token :: scope.tokens.drop cursor = scope.tokens.drop start) {opening : Token}
    (begins : scope.tokens.drop cursor = opening :: after) (opens : opening.kind = .leftBracket) :
    Yields (element call scope token.text start) before
      (Found scope nodes rounds (Production.named inner token (opening :: after)))
      (Refused scope rounds (Production.named inner token (opening :: after))) := by
  rw [Production.named_index_eq_bind opens]
  refine .bind (yields_advance isAt begins fun rest isAt => ?_)
  rw [← rest]
  refine (agreesInner .expression _ _).bind isAt fun {subscript place _} found same isAt => ?_
  rw [same]
  refine yields_expect_bind isAt fun {closing _} closes same isAt => ?_
  rw [same]
  have inside := (inner .expression).read_tokens found
  have stands : (Phrase.index token token.text opening subscript closing).tokens ++
      scope.tokens.drop (place + 1) = scope.tokens.drop start := by
    rw [← behind, begins, ← rest, ← inside, ← Production.expect_tokens closes, Phrase.tokens]
    simp
  refine yields_pushFrom_found isAt stands ?_ rfl
  exact List.forall_mem_singleton.mpr (subscript.root_addTo_lt nodes)

/-- What begins with a name is read as the production says, once the name has been passed. -/
theorem reads_named (agreesInner : AgreesInner call scope inner)
    (enough : scope.tokens.length < turns)
    (behind : token :: scope.tokens.drop cursor = scope.tokens.drop start) :
    Reads scope (named call turns scope token.text start) cursor nodes
      (Production.named inner token (scope.tokens.drop cursor)) := by
  intro rounds before isAt
  refine .bind (yields_peek? isAt fun {state} isAt => ?_)
  have isName {bad : Failure → State → Prop} :
      Yields (scope.pushFrom start (.name token.text)) state
        (Found scope nodes rounds (.ok (.name token token.text, scope.tokens.drop cursor)))
        bad := by
    refine yields_pushFrom_found isAt behind (List.forall_mem_nil _) ?_
    rw [Phrase.addTo, Phrase.span, Phrase.first, Phrase.last, Span.cover_self]
  cases begins : scope.tokens.drop cursor with
  | nil =>
      rw [begins] at isName
      exact isName
  | cons opening after =>
      rw [List.head?_cons, Option.map_some]
      by_cases isCall : opening.kind = .leftParenthesis
      · rw [if_pos (congrArg some isCall)]
        exact yields_application agreesInner enough isAt behind begins isCall
      · rw [if_neg (mt Option.some.inj isCall)]
        by_cases isElement : opening.kind = .leftBracket
        · rw [if_pos (congrArg some isElement)]
          exact yields_element agreesInner isAt behind begins isElement
        · rw [begins] at isName
          rw [if_neg (mt Option.some.inj isElement), Production.named, if_neg isCall,
            if_neg isElement]
          exact isName

theorem agrees_primary (agreesInner : AgreesInner call scope inner)
    (readsNamed : ∀ token cursor nodes,
      token :: scope.tokens.drop (cursor + 1) = scope.tokens.drop cursor →
        Reads scope (call scope (.named token.text cursor)) (cursor + 1) nodes
          (Production.named inner token (scope.tokens.drop (cursor + 1)))) :
    Agrees scope (primary call scope) (.primary inner) := by
  intro cursor nodes rounds before isAt
  refine .bind (yields_peek? isAt fun isAt => ?_)
  cases begins : scope.tokens.drop cursor with
  | nil =>
      have refuses : (Production.primary inner).read [] =
          .error ⟨.expectedExpression, scope.tokens.drop cursor⟩ := by
        rw [begins]
        rfl
      rw [refuses]
      exact yields_refuse_refused isAt
  | cons token after =>
      refine .bind (yields_look isAt fun isAt => ?_)
      simp only [Production.primary, isAt.cursor_eq]
      by_cases isLiteral : token.kind.isLiteral = true
      · simp only [if_pos isLiteral]
        cases Literal.ofLexeme? token.toLexeme with
        | some value => exact yields_literal isAt begins
        | none =>
            rw [← begins]
            exact yields_refuse_refused isAt
      · simp only [if_neg isLiteral]
        by_cases isWord : token.kind = .identifier
        · simp only [if_pos isWord]
          cases Literal.ofWord? token.text with
          | some value => exact yields_literal isAt begins
          | none =>
              refine .bind (yields_advance isAt begins fun rest isAt => ?_)
              rw [← rest] at begins ⊢
              exact readsNamed token cursor nodes begins.symm _ _ isAt
        · simp only [if_neg isWord]
          by_cases opens : token.kind = .leftParenthesis
          · simp only [if_pos opens]
            exact yields_grouped agreesInner isAt begins
          · simp only [if_neg opens]
            rw [← begins]
            exact yields_refuse_refused isAt

end Descent

end JassExpr
