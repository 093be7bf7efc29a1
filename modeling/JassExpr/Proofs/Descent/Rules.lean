import JassExpr.Proofs.Descent.Steps
import JassExpr.Proofs.Phrase.Simulation

/-!
# Rules and productions

A rule reads what the production of the same name reads: it adds the nodes of the same phrase and
leaves the cursor behind it, or it refuses the same token for the same reason. As each production is
one thing after another, so is the rule, and each step of it begins where the one before has ended.
-/

namespace JassExpr

namespace Descent

/-- What is expected has been read: its nodes have been added, and the cursor is behind it. -/
def Found (scope : Scope) (nodes : NodeTable) (rounds : Nat)
    (expected : Except Stop (Phrase Token × List Token)) (number : Nat) (state : State) : Prop :=
  ∃ phrase cursor, expected = .ok (phrase, scope.tokens.drop cursor) ∧
    number = (phrase.addTo nodes).2 ∧ At scope cursor (phrase.addTo nodes).1 rounds state

/-- A refusal is expected, and is what has happened. -/
def Refused {α : Type} (scope : Scope) (rounds : Nat) (expected : Except Stop α)
    (failure : Failure) (state : State) : Prop :=
  ∃ stop cursor nodes, expected = .error stop ∧
    failure = .refused (stop.error scope.tokens) ∧ At scope cursor nodes rounds state

/-- Some work at a place reads what is expected, or refuses as expected. -/
def Reads (scope : Scope) (work : Parsing Nat) (cursor : Nat) (nodes : NodeTable)
    (expected : Except Stop (Phrase Token × List Token)) : Prop :=
  ∀ rounds before, At scope cursor nodes rounds before →
    Yields work before (Found scope nodes rounds expected) (Refused scope rounds expected)

/-- At every place some work reads what a production reads there. -/
def Agrees (scope : Scope) (work : Parsing Nat) (production : Production) : Prop :=
  ∀ cursor nodes, Reads scope work cursor nodes (production.read (scope.tokens.drop cursor))

/-- The rule for a construct that lies one level deeper. -/
def ruleOf : Construct → Rule
  | .operand => .unary
  | .expression => .disjunction

section Steps

variable {scope : Scope} {cursor rounds : Nat} {nodes : NodeTable} {before : State}

theorem bind_ok {α β : Type} (value : α) (next : α → Except Stop β) :
    (Except.ok value).bind next = next value :=
  rfl

theorem bind_bind {α β γ : Type} (first : Except Stop α) (next : α → Except Stop β)
    (last : β → Except Stop γ) :
    (first.bind next).bind last = first.bind fun value => (next value).bind last := by
  cases first <;> rfl

theorem Refused.bind {α β : Type} {expected : Except Stop α} {failure : Failure} {state : State}
    {expectedNext : α → Except Stop β} (refused : Refused scope rounds expected failure state) :
    Refused scope rounds (expected.bind expectedNext) failure state := by
  obtain ⟨stop, place, grown, rfl, same, isAt⟩ := refused
  exact ⟨stop, place, grown, rfl, same, isAt⟩

/-- After what is expected first, the work goes on with what is expected next. -/
theorem Reads.bind {α β : Type} {work : Parsing Nat} {next : Nat → Parsing α}
    {expected : Except Stop (Phrase Token × List Token)}
    {expectedNext : Phrase Token × List Token → Except Stop β} {good : α → State → Prop}
    (reads : Reads scope work cursor nodes expected) (isAt : At scope cursor nodes rounds before)
    (goesOn : ∀ {phrase place state}, expected = .ok (phrase, scope.tokens.drop place) →
      expected.bind expectedNext = expectedNext (phrase, scope.tokens.drop place) →
        At scope place (phrase.addTo nodes).1 rounds state →
          Yields (next (phrase.addTo nodes).2) state good
            (Refused scope rounds (expected.bind expectedNext))) :
    Yields (work >>= next) before good (Refused scope rounds (expected.bind expectedNext)) := by
  refine .bind ((reads rounds before isAt).imp ?_ Refused.bind)
  rintro _ _ ⟨phrase, place, expects, rfl, isAt⟩
  exact goesOn expects (by rw [expects]; rfl) isAt

theorem yields_expect_bind {α β : Type} {kind : TokenKind} {next : PUnit → Parsing α}
    {expectedNext : Token × List Token → Except Stop β} {good : α → State → Prop}
    (isAt : At scope cursor nodes rounds before)
    (goesOn : ∀ {token state},
      Production.expect kind (scope.tokens.drop cursor) =
        .ok (token, scope.tokens.drop (cursor + 1)) →
      (Production.expect kind (scope.tokens.drop cursor)).bind expectedNext =
        expectedNext (token, scope.tokens.drop (cursor + 1)) →
      At scope (cursor + 1) nodes rounds state →
        Yields (next ⟨⟩) state good (Refused scope rounds
          ((Production.expect kind (scope.tokens.drop cursor)).bind expectedNext))) :
    Yields (scope.expect kind >>= next) before good (Refused scope rounds
      ((Production.expect kind (scope.tokens.drop cursor)).bind expectedNext)) := by
  refine .bind (yields_expect isAt (fun found isAt => ?_) fun {_ stop} missed isAt => ?_)
  · exact goesOn found (by rw [found]; rfl) isAt
  · exact ⟨stop, cursor, nodes, by rw [missed]; rfl, rfl, isAt⟩

/-- A phrase has been read when its last node is added. -/
theorem yields_pushFrom_found {phrase : Phrase Token} {grown : NodeTable} {start : Nat}
    {kind : NodeKind} {bad : Failure → State → Prop}
    (isAt : At scope cursor grown rounds before)
    (stands : phrase.tokens ++ scope.tokens.drop cursor = scope.tokens.drop start)
    (operands : ∀ child ∈ kind.children, child < grown.size)
    (added : phrase.addTo nodes = (grown.add kind phrase.span, grown.size)) :
    Yields (scope.pushFrom start kind) before
      (Found scope nodes rounds (.ok (phrase, scope.tokens.drop cursor))) bad :=
  yields_pushFrom isAt stands operands fun isAt =>
    ⟨phrase, cursor, rfl, by rw [added], by rwa [added]⟩

theorem yields_refuse_refused {α β : Type} {kind : SyntaxErrorKind} {good : α → State → Prop}
    (isAt : At scope cursor nodes rounds before) :
    Yields (scope.refuse kind) before good
      (Refused scope rounds (.error ⟨kind, scope.tokens.drop cursor⟩ : Except Stop β)) :=
  yields_refuse isAt fun isAt => ⟨_, cursor, nodes, rfl, rfl, isAt⟩

end Steps

section Rules

variable {call : Scope → Rule → Parsing Nat} {turns : Nat} {scope : Scope}

/-! ## Chains and comparisons -/

/-- The left operand of a chain has been read, and the whole chain is what can be read from there
on, with so many tokens ahead. -/
def LeftOperand (scope : Scope) (nodes : NodeTable) (rounds start precedence : Nat)
    (production : Production) (expected : Except Stop (Phrase Token × List Token))
    (ahead number : Nat) (state : State) : Prop :=
  ∃ phrase cursor, ahead = scope.tokens.length - cursor ∧
    At scope cursor (phrase.addTo nodes).1 rounds state ∧ number = (phrase.addTo nodes).2 ∧
      phrase.tokens ++ scope.tokens.drop cursor = scope.tokens.drop start ∧
        expected = production.chainFrom precedence phrase (scope.tokens.drop cursor)

theorem operands_binary_lt (operator : BinaryOp) (left right : Phrase Token) (table : NodeTable) :
    ∀ child ∈ (NodeKind.binary operator (left.addTo table).2
      (right.addTo (left.addTo table).1).2).children,
      child < (right.addTo (left.addTo table).1).1.size := by
  have leftThere := left.root_addTo_lt table
  have rightThere := right.root_addTo_lt (left.addTo table).1
  rw [NodeKind.children, List.forall_mem_cons, List.forall_mem_singleton]
  refine ⟨Nat.lt_of_lt_of_le leftThere ?_, rightThere⟩
  rw [right.size_addTo]
  exact Nat.le_add_right _ _

theorem stands_binary {tokens after : List Token} (operator : BinaryOp) {token : Token}
    {left right : Phrase Token} {start cursor place : Nat}
    (standsLeft : left.tokens ++ tokens.drop cursor = tokens.drop start)
    (begins : tokens.drop cursor = token :: after)
    (standsRight : right.tokens ++ tokens.drop place = after) :
    (Phrase.binary operator left token right).tokens ++ tokens.drop place =
      tokens.drop start := by
  rw [← standsLeft, begins, ← standsRight, Phrase.tokens, List.append_assoc, List.cons_append]

/-- In each turn a chain comes to its end, or its left operand becomes larger by a right one. -/
theorem yields_chainTurn {precedence start ahead number rounds : Nat} {operand : Rule}
    {nodes : NodeTable} {before : State} {production : Production}
    {expected : Except Stop (Phrase Token × List Token)}
    (agrees : Agrees scope (call scope operand) production)
    (holds : LeftOperand scope nodes rounds start precedence production expected ahead number
      before) :
    Yields (chainTurn call scope precedence operand start number) before
      (Turned
        (fun next after => ∃ fewer < ahead,
          LeftOperand scope nodes rounds start precedence production expected fewer next after)
        (Found scope nodes rounds expected))
      (Refused scope rounds expected) := by
  obtain ⟨phrase, cursor, rfl, isAt, rfl, stands, rfl⟩ := holds
  refine .bind (yields_peekOperator? isAt fun isAt => ?_)
  cases begins : scope.tokens.drop cursor with
  | nil => exact yields_pure ⟨phrase, cursor, by rw [Production.chainFrom, begins], rfl, isAt⟩
  | cons token after =>
      rw [List.head?_cons, Option.bind_some]
      cases isOperator : BinaryOp.atPrecedence? precedence token.kind with
      | none =>
          exact yields_pure
            ⟨phrase, cursor, by rw [Production.chainFrom, isOperator, begins], rfl, isAt⟩
      | some operator =>
          rw [Production.chainFrom_eq_bind isOperator]
          refine .bind (yields_advance isAt begins fun rest isAt => ?_)
          rw [← rest]
          refine (agrees _ _).bind isAt fun {right place _} found same isAt => ?_
          rw [same]
          have standsRight := production.read_tokens found
          have wider := (bounds_of_stands standsRight isAt.cursor_le).2
          have stands := stands_binary operator stands begins (rest ▸ standsRight)
          refine .bind (yields_pushFrom isAt stands (operands_binary_lt operator phrase right nodes)
            fun isAt => yields_pure ⟨_, ?_, .binary operator phrase token right, place, rfl, isAt,
              rfl, stands, rfl⟩)
          -- Less is ahead, as the cursor is behind the right operand now.
          have := isAt.cursor_le
          omega

theorem agrees_chain {precedence : Nat} {operand : Rule} {production : Production}
    (agrees : Agrees scope (call scope operand) production)
    (enough : scope.tokens.length < turns) :
    Agrees scope (chain call turns scope precedence operand) (production.chain precedence) := by
  intro cursor nodes rounds before isAt
  rw [Production.chain_eq_bind]
  refine .bind (yields_look isAt fun isAt => ?_)
  rw [isAt.cursor_eq]
  refine (agrees cursor nodes).bind isAt fun {left place _} found same isAt => ?_
  have stands := production.read_tokens found
  rw [same]
  exact yields_loop (LeftOperand scope nodes rounds cursor precedence production _)
    (yields_chainTurn agrees) (Nat.lt_of_le_of_lt (Nat.sub_le _ place) enough)
    ⟨left, place, rfl, isAt, rfl, stands, rfl⟩

theorem comparison?_eq_bind (tokens : List Token) :
    Production.comparison? tokens = tokens.head?.bind fun token =>
      BinaryOp.atPrecedence? BinaryOp.comparisonPrecedence token.kind := by
  cases tokens <;> rfl

theorem agrees_comparison {operand : Rule} {production : Production}
    (agrees : Agrees scope (call scope operand) production) :
    Agrees scope (comparison call scope operand) production.comparison := by
  intro cursor nodes rounds before isAt
  rw [Production.comparison_eq_bind]
  refine .bind (yields_look isAt fun isAt => ?_)
  rw [isAt.cursor_eq]
  refine (agrees cursor nodes).bind isAt fun {left place _} found same isAt => ?_
  rw [same]
  refine .bind (yields_peekOperator? isAt fun isAt => ?_)
  rw [← comparison?_eq_bind]
  cases begins : scope.tokens.drop place with
  | nil => exact yields_pure ⟨left, place, by rw [begins]; rfl, rfl, isAt⟩
  | cons token after =>
      cases compares : Production.comparison? (token :: after) with
      | none =>
          exact yields_pure
            ⟨left, place, by simp only [Production.comparisonFrom, compares, begins], rfl, isAt⟩
      | some operator =>
          simp only [Production.comparisonFrom, compares]
          refine .bind (yields_advance isAt begins fun rest isAt => ?_)
          rw [← rest]
          refine (agrees _ _).bind isAt fun {right behind _} foundRight same isAt => ?_
          rw [same]
          refine .bind (yields_peekOperator? isAt fun isAt => ?_)
          rw [← comparison?_eq_bind]
          cases Production.comparison? (scope.tokens.drop behind) with
          | some second => exact yields_refuse_refused isAt
          | none =>
              have standsRight := production.read_tokens foundRight
              have stands := stands_binary operator (production.read_tokens found) begins
                (rest ▸ standsRight)
              exact yields_pushFrom_found isAt stands
                (operands_binary_lt operator left right nodes) rfl

/-! ## Operands -/

/-- The constructs one level deeper are read as the productions say. -/
def AgreesInner (call : Scope → Rule → Parsing Nat) (scope : Scope)
    (inner : Construct → Production) : Prop :=
  ∀ construct, Agrees scope (nested call scope (ruleOf construct)) (inner construct)

variable {inner : Construct → Production}

theorem agrees_unary (agreesInner : AgreesInner call scope inner)
    (agrees : Agrees scope (call scope .primary) (.primary inner)) :
    Agrees scope (unary call scope) (.unary inner) := by
  intro cursor nodes rounds before isAt
  refine .bind (yields_peek? isAt fun isAt => ?_)
  cases begins : scope.tokens.drop cursor with
  | nil =>
      have reads := agrees cursor nodes rounds _ isAt
      rwa [begins] at reads
  | cons token after =>
      rw [List.head?_cons, Option.bind_some]
      cases isOperator : UnaryOp.ofKind? token.kind with
      | none =>
          have same : (Production.unary inner).read (token :: after) =
              (Production.primary inner).read (token :: after) := by
            simp only [Production.unary, isOperator]
          rw [same, ← begins]
          exact agrees cursor nodes rounds _ isAt
      | some operator =>
          rw [Production.unary_eq_bind isOperator]
          refine .bind (yields_look isAt fun isAt => ?_)
          rw [isAt.cursor_eq]
          refine .bind (yields_advance isAt begins fun rest isAt => ?_)
          rw [← rest]
          refine (agreesInner .operand _ _).bind isAt fun {operand place _} found same isAt => ?_
          rw [same]
          have stands : (Phrase.unary operator token operand).tokens ++ scope.tokens.drop place =
              scope.tokens.drop cursor := by
            rw [begins, ← rest, ← (inner .operand).read_tokens found]
            rfl
          refine yields_pushFrom_found isAt stands ?_ rfl
          exact List.forall_mem_singleton.mpr (operand.root_addTo_lt nodes)

end Rules

end Descent

end JassExpr
