import JassExpr.Proofs.Descent.Basic

/-!
# Steps of a descent

Between any two steps a rule is at a place: the cursor is within the tokens, the count of levels
is the number of nested calls, and whatever has been put on record is as it should be. Each step
ends at a place again, and finds the tokens and nodes that it needs.
-/

namespace JassExpr

namespace Descent

/-- Some work has a value and ends in a state that are good, or fails in a way that is bad. -/
def Yields {α : Type} (work : Parsing α) (before : State) (good : α → State → Prop)
    (bad : Failure → State → Prop) : Prop :=
  match (work.run.run before : Except Failure α × State) with
  | (.ok value, after) => good value after
  | (.error failure, after) => bad failure after

section Yields

variable {α β : Type} {before : State} {good : α → State → Prop} {bad : Failure → State → Prop}

theorem yields_pure {value : α} (holds : good value before) :
    Yields (pure value) before good bad :=
  holds

theorem yields_throw {failure : Failure} (holds : bad failure before) :
    Yields (throw failure) before good bad :=
  holds

theorem yields_set {after : State} {good : PUnit → State → Prop} (holds : good ⟨⟩ after) :
    Yields (set after) before good bad :=
  holds

theorem yields_modify {change : State → State} {good : PUnit → State → Prop}
    (holds : good ⟨⟩ (change before)) : Yields (modify change) before good bad :=
  holds

theorem Yields.imp {work : Parsing α} {better : α → State → Prop} {worse : Failure → State → Prop}
    (yields : Yields work before good bad)
    (goodBetter : ∀ {value after}, good value after → better value after)
    (badWorse : ∀ {failure after}, bad failure after → worse failure after) :
    Yields work before better worse := by
  unfold Yields at yields ⊢
  split at yields
  · exact goodBetter yields
  · exact badWorse yields

theorem Yields.bind {first : Parsing β} {next : β → Parsing α}
    (yields : Yields first before (fun value middle => Yields (next value) middle good bad) bad) :
    Yields (first >>= next) before good bad := by
  unfold Yields at yields ⊢
  rw [ExceptT.run_bind, StateT.run_bind]
  rcases found : (first.run.run before : Except Failure β × State) with ⟨result, middle⟩
  rw [found] at yields
  cases result with
  | error failure => exact yields
  | ok value => exact yields

theorem yields_recorded {scope : Scope} {rule : Rule} {work : Parsing Nat}
    {good : Nat → State → Prop}
    (yields : Yields work before
      (fun number after => good number (after.withCall ⟨rule, scope.active, before.cursor,
        before.depth, after.cursor, after.depth, true⟩))
      (fun failure after => bad failure (after.withCall ⟨rule, scope.active, before.cursor,
        before.depth, after.cursor, after.depth, false⟩))) :
    Yields (recorded scope rule work) before good bad := by
  unfold Yields at yields ⊢
  have runs : (recorded scope rule work).run.run before =
      ((work.run.run before).1, (work.run.run before).2.withCall ⟨rule, scope.active,
        before.cursor, before.depth, (work.run.run before).2.cursor,
        (work.run.run before).2.depth, (work.run.run before).1.isOk⟩) := rfl
  rw [runs]
  split at yields
  · rename_i value after found
    rw [found]
    exact yields
  · rename_i failure after found
    rw [found]
    exact yields

/-- Counting one level less succeeds if there is one. -/
theorem yields_leaving {work : Parsing Nat} {good : Nat → State → Prop}
    (yields : Yields work before
      (fun number after => 0 < after.depth ∧
        good number { after with depth := after.depth - 1 })
      (fun failure after => 0 < after.depth ∧
        bad failure { after with depth := after.depth - 1 })) :
    Yields (leaving work) before good bad := by
  unfold Yields at yields ⊢
  have runs : (leaving work).run.run before =
      (if (work.run.run before).2.depth = 0 then pure (.error .outOfRange)
      else do
        set { (work.run.run before).2 with depth := (work.run.run before).2.depth - 1 }
        return (work.run.run before).1 : StateM State (Except Failure Nat)).run
          (work.run.run before).2 := rfl
  rw [runs]
  split at yields
  · rename_i value after found
    obtain ⟨entered, holds⟩ := yields
    rw [found, if_neg (Nat.ne_of_gt entered)]
    exact holds
  · rename_i failure after found
    obtain ⟨entered, holds⟩ := yields
    rw [found, if_neg (Nat.ne_of_gt entered)]
    exact holds

/-- What a turn of a loop comes to is good: there is a value for the next turn, or a result. -/
def Turned (goodNext : α → State → Prop) (goodResult : β → State → Prop) :
    α ⊕ β → State → Prop
  | .inl next => goodNext next
  | .inr result => goodResult result

/-- A loop yields what its last turn does. There is one, because each turn has less ahead of it than
the one before. -/
theorem yields_loop {turn : α → Parsing (α ⊕ β)} {goodResult : β → State → Prop}
    (invariant : Nat → α → State → Prop)
    (yields : ∀ {ahead value before}, invariant ahead value before →
      Yields (turn value) before
        (Turned (fun next after => ∃ fewer < ahead, invariant fewer next after) goodResult) bad)
    {turns ahead : Nat} {value : α} (enough : ahead < turns)
    (holds : invariant ahead value before) :
    Yields (loop turn turns value) before goodResult bad := by
  induction turns generalizing ahead value before with
  | zero => exact absurd enough (Nat.not_lt_zero ahead)
  | succ turns ih =>
      refine .bind ?_
      have here := yields holds
      unfold Yields at here ⊢
      split
      · rename_i outcome after found
        rw [found] at here
        cases outcome with
        | inl next =>
            obtain ⟨fewer, less, holdsNext⟩ := here
            exact ih (by omega) holdsNext
        | inr result => exact here
      · rename_i failure after found
        rw [found] at here
        exact here

end Yields

/-! ## Places -/

/-- Whenever a rule looks, the count of levels is the number of nested calls and no more than the
limit, and the cursor is no further than behind the last token. -/
structure Moment.Disciplined (limit length : Nat) (moment : Moment) : Prop where
  depth_eq : moment.depth = moment.active
  depth_le : moment.depth ≤ limit
  cursor_le : moment.cursor ≤ length

/-- A call that keeps the discipline leaves the count of levels as it was, however it ends, and the
cursor is no further than behind the last token. If the call is accepted then the cursor has passed
at least one token of what the rule reads. -/
structure Call.Disciplined (limit length : Nat) (call : Call) : Prop where
  depthBefore_eq : call.depthBefore = call.active
  depthAfter_eq : call.depthAfter = call.depthBefore
  depth_le : call.depthBefore ≤ limit
  /-- A name is all that has been passed of what begins with it. -/
  behind_name : ∀ name start, call.rule = .named name start → call.cursorBefore = start + 1
  start_lt : call.accepted = true → call.rule.startFrom call.cursorBefore < call.cursorAfter
  cursor_le : call.cursorAfter ≤ length

/-- A rule is at a place, with some nodes in the table, and the discipline has been kept. -/
structure At (scope : Scope) (cursor : Nat) (nodes : NodeTable) (rounds : Nat) (state : State) :
    Prop where
  cursor_eq : state.cursor = cursor
  nodes_eq : state.nodes = nodes
  rounds_eq : state.rounds = rounds
  depth_eq : state.depth = scope.active
  active_le : scope.active ≤ scope.limit
  cursor_le : cursor ≤ scope.tokens.length
  calls : ∀ call ∈ state.calls, call.Disciplined scope.limit scope.tokens.length
  moments : ∀ moment ∈ state.moments, moment.Disciplined scope.limit scope.tokens.length

section Steps

variable {scope : Scope} {cursor rounds : Nat} {nodes : NodeTable} {before : State}

theorem At.withMoment (isAt : At scope cursor nodes rounds before) :
    At scope cursor nodes rounds (before.withMoment ⟨scope.active, before.cursor, before.depth⟩) :=
  { isAt with
    moments := List.forall_mem_cons.mpr ⟨⟨isAt.depth_eq, isAt.depth_eq ▸ isAt.active_le,
      isAt.cursor_eq ▸ isAt.cursor_le⟩, isAt.moments⟩ }

theorem At.withCall (isAt : At scope cursor nodes rounds before) {call : Call}
    (disciplined : call.Disciplined scope.limit scope.tokens.length) :
    At scope cursor nodes rounds (before.withCall call) :=
  { isAt with calls := List.forall_mem_cons.mpr ⟨disciplined, isAt.calls⟩ }

theorem At.moveTo (isAt : At scope cursor nodes rounds before) {place : Nat}
    (inside : place ≤ scope.tokens.length) :
    At scope place nodes rounds { before with cursor := place } :=
  { isAt with cursor_eq := rfl, cursor_le := inside }

theorem At.withNodes (isAt : At scope cursor nodes rounds before) (grown : NodeTable) :
    At scope cursor grown rounds { before with nodes := grown } :=
  { isAt with nodes_eq := rfl }

theorem At.nextRound (isAt : At scope cursor nodes rounds before) :
    At scope cursor nodes (rounds + 1) { before with rounds := before.rounds + 1 } :=
  { isAt with rounds_eq := congrArg (· + 1) isAt.rounds_eq }

theorem At.deeper (isAt : At scope cursor nodes rounds before)
    (allowed : scope.active < scope.limit) :
    At scope.deeper cursor nodes rounds { before with depth := before.depth + 1 } :=
  { isAt with
    depth_eq := congrArg (· + 1) isAt.depth_eq
    active_le := allowed }

theorem At.left (isAt : At scope.deeper cursor nodes rounds before) :
    0 < before.depth ∧ At scope cursor nodes rounds { before with depth := before.depth - 1 } := by
  have entered : before.depth = scope.active + 1 := isAt.depth_eq
  refine ⟨by omega, { isAt with depth_eq := ?_, active_le := Nat.le_of_succ_le isAt.active_le }⟩
  rw [entered]
  rfl

theorem At.disciplined {place : Nat} {grown : NodeTable} {after : State} {rule : Rule}
    {accepted : Bool} (isAt : At scope cursor nodes rounds before)
    (isAfter : At scope place grown rounds after)
    (behind : ∀ name start, rule = .named name start → cursor = start + 1)
    (passed : accepted = true → rule.startFrom cursor < place) :
    Call.Disciplined scope.limit scope.tokens.length ⟨rule, scope.active, before.cursor,
      before.depth, after.cursor, after.depth, accepted⟩ where
  depthBefore_eq := isAt.depth_eq
  depthAfter_eq := isAfter.depth_eq.trans isAt.depth_eq.symm
  depth_le := isAt.depth_eq ▸ isAt.active_le
  behind_name name start same := isAt.cursor_eq.trans (behind name start same)
  start_lt isAccepted := by
    simpa only [isAt.cursor_eq, isAfter.cursor_eq] using passed isAccepted
  cursor_le := isAfter.cursor_eq ▸ isAfter.cursor_le

variable {α : Type} {good : State → Prop} {bad : Failure → State → Prop}

theorem yields_look {good : State → State → Prop} (isAt : At scope cursor nodes rounds before)
    (holds : ∀ {state}, At scope cursor nodes rounds state → good state state) :
    Yields scope.look before good bad :=
  holds isAt.withMoment

/-- The token under the cursor is the first of those that are left. -/
theorem yields_peek? {good : Option Token → State → Prop}
    (isAt : At scope cursor nodes rounds before)
    (holds : ∀ {state}, At scope cursor nodes rounds state →
      good (scope.tokens.drop cursor).head? state) :
    Yields scope.peek? before good bad := by
  refine .bind (yields_look isAt fun isAt => yields_pure ?_)
  rw [isAt.cursor_eq, ← List.head?_drop]
  exact holds isAt

theorem yields_peekOperator? {good : Option BinaryOp → State → Prop} {precedence : Nat}
    (isAt : At scope cursor nodes rounds before)
    (holds : ∀ {state}, At scope cursor nodes rounds state →
      good ((scope.tokens.drop cursor).head?.bind fun token =>
        BinaryOp.atPrecedence? precedence token.kind) state) :
    Yields (scope.peekOperator? precedence) before good bad :=
  .bind (yields_peek? isAt fun isAt => yields_pure (holds isAt))

theorem yields_begins {good : Bool → State → Prop} {kind : TokenKind}
    (isAt : At scope cursor nodes rounds before)
    (holds : ∀ {state}, At scope cursor nodes rounds state →
      good ((scope.tokens.drop cursor).head?.any (·.kind = kind)) state) :
    Yields (scope.begins kind) before good bad :=
  .bind (yields_peek? isAt fun isAt => yields_pure (holds isAt))

/-- The refused token is the first of those that are left. -/
theorem yields_refuse {good : α → State → Prop} {kind : SyntaxErrorKind}
    (isAt : At scope cursor nodes rounds before)
    (holds : ∀ {state}, At scope cursor nodes rounds state →
      bad (.refused (Stop.error scope.tokens ⟨kind, scope.tokens.drop cursor⟩)) state) :
    Yields (scope.refuse kind) before good bad := by
  refine .bind (yields_peek? isAt fun isAt => yields_throw ?_)
  have wording := holds isAt
  cases left : scope.tokens.drop cursor <;> rwa [left] at wording

theorem yields_advance {good : PUnit → State → Prop} {token : Token} {rest : List Token}
    (isAt : At scope cursor nodes rounds before)
    (left : scope.tokens.drop cursor = token :: rest)
    (holds : ∀ {state}, scope.tokens.drop (cursor + 1) = rest →
      At scope (cursor + 1) nodes rounds state → good ⟨⟩ state) :
    Yields scope.advance before good bad := by
  have inside : cursor < scope.tokens.length := by
    refine Nat.lt_of_not_le fun beyond => ?_
    rw [List.drop_eq_nil_of_le beyond] at left
    cases left
  refine .bind (yields_look isAt fun isAt => yields_set (holds ?_ ?_))
  · rw [← List.tail_drop, left, List.tail_cons]
  · rw [isAt.cursor_eq]
    exact isAt.moveTo inside

theorem yields_eat {good : Bool → State → Prop} {kind : TokenKind}
    (isAt : At scope cursor nodes rounds before)
    (found : ∀ {state token rest}, scope.tokens.drop cursor = token :: rest → token.kind = kind →
      scope.tokens.drop (cursor + 1) = rest → At scope (cursor + 1) nodes rounds state →
        good true state)
    (missed : ∀ {state}, (∀ token ∈ (scope.tokens.drop cursor).head?, token.kind ≠ kind) →
      At scope cursor nodes rounds state → good false state) :
    Yields (scope.eat kind) before good bad := by
  refine .bind (yields_begins isAt fun isAt => ?_)
  cases left : scope.tokens.drop cursor with
  | nil => exact yields_pure (missed (by simp [left]) isAt)
  | cons token rest =>
      by_cases same : token.kind = kind
      · rw [List.head?_cons, Option.any_some, decide_eq_true same]
        exact .bind (yields_advance isAt left fun others isAt =>
          yields_pure (found left same others isAt))
      · rw [List.head?_cons, Option.any_some, decide_eq_false same]
        exact yields_pure (missed (by simpa [left] using same) isAt)

theorem yields_expect {good : PUnit → State → Prop} {kind : TokenKind}
    (isAt : At scope cursor nodes rounds before)
    (found : ∀ {state token}, Production.expect kind (scope.tokens.drop cursor) =
      .ok (token, scope.tokens.drop (cursor + 1)) →
        At scope (cursor + 1) nodes rounds state → good ⟨⟩ state)
    (missed : ∀ {state stop}, Production.expect kind (scope.tokens.drop cursor) = .error stop →
      At scope cursor nodes rounds state → bad (.refused (stop.error scope.tokens)) state) :
    Yields (scope.expect kind) before good bad := by
  refine .bind (yields_eat isAt (fun {_ token _} left same others isAt => ?_)
    fun other isAt => ?_)
  · have expected : Production.expect kind (scope.tokens.drop cursor) =
        .ok (token, scope.tokens.drop (cursor + 1)) := by
      rw [left, others, Production.expect, if_pos same]
    exact yields_pure (found expected isAt)
  · refine yields_refuse isAt fun isAt => missed ?_ isAt
    cases left : scope.tokens.drop cursor with
    | nil => rfl
    | cons token rest =>
        rw [left] at other
        rw [Production.expect, if_neg (other token rfl)]

/-- What has been passed of some tokens is the phrase that stands there. -/
theorem bounds_of_stands {tokens : List Token} {phrase : Phrase Token} {start : Nat}
    (stands : phrase.tokens ++ tokens.drop cursor = tokens.drop start)
    (inside : cursor ≤ tokens.length) :
    cursor = start + phrase.tokens.length ∧ start < cursor := by
  have positive := List.length_pos_iff.mpr phrase.tokens_ne_nil
  have lengths := congrArg List.length stands
  rw [List.length_append, List.length_drop, List.length_drop] at lengths
  omega

/-- The first and the last token of what has been passed since `start` are there. -/
theorem yields_spanFrom {good : Span → State → Prop} {phrase : Phrase Token} {start : Nat}
    (isAt : At scope cursor nodes rounds before)
    (stands : phrase.tokens ++ scope.tokens.drop cursor = scope.tokens.drop start)
    (holds : ∀ {state}, At scope cursor nodes rounds state → good phrase.span state) :
    Yields (scope.spanFrom start) before good bad := by
  obtain ⟨passed, begun⟩ := bounds_of_stands stands isAt.cursor_le
  have first : scope.tokens[start]? = some phrase.first := by
    rw [← List.head?_drop, ← stands, List.head?_append, phrase.head?_tokens]
    rfl
  have last : scope.tokens[cursor - 1]? = some phrase.last := by
    have behind : cursor - 1 = start + (phrase.tokens.length - 1) := by omega
    rw [behind, ← List.getElem?_drop, ← stands, List.getElem?_append_left (by omega),
      ← List.getLast?_eq_getElem?, phrase.getLast?_tokens]
  refine .bind (yields_look isAt fun isAt => ?_)
  rw [isAt.cursor_eq, if_neg (Nat.ne_of_gt (Nat.zero_lt_of_lt begun)), first, last]
  exact yields_pure (holds isAt)

/-- The operands of a node are there when it is added. -/
theorem yields_pushFrom {good : Nat → State → Prop} {phrase : Phrase Token} {start : Nat}
    {kind : NodeKind} (isAt : At scope cursor nodes rounds before)
    (stands : phrase.tokens ++ scope.tokens.drop cursor = scope.tokens.drop start)
    (operands : ∀ child ∈ kind.children, child < nodes.size)
    (holds : ∀ {state}, At scope cursor (nodes.add kind phrase.span) rounds state →
      good nodes.size state) :
    Yields (scope.pushFrom start kind) before good bad := by
  refine .bind (yields_spanFrom isAt stands fun isAt => .bind (yields_look isAt fun isAt => ?_))
  rw [isAt.nodes_eq, if_pos operands]
  exact .bind (yields_set (yields_pure (holds (isAt.withNodes _))))

theorem yields_slice {good : List Token → State → Prop} {phrase : Phrase Token} {start : Nat}
    (isAt : At scope cursor nodes rounds before)
    (stands : phrase.tokens ++ scope.tokens.drop cursor = scope.tokens.drop start)
    (holds : ∀ {state}, At scope cursor nodes rounds state → good phrase.tokens state) :
    Yields (scope.slice start) before good bad := by
  obtain ⟨passed, begun⟩ := bounds_of_stands stands isAt.cursor_le
  have same : (scope.tokens.take cursor).drop start = phrase.tokens := by
    rw [List.drop_take, ← stands, List.take_left' (by omega)]
  refine .bind (yields_look isAt fun isAt => ?_)
  rw [isAt.cursor_eq, if_pos ⟨Nat.le_of_lt begun, isAt.cursor_le⟩, same]
  exact yields_pure (holds isAt)

end Steps

end Descent

end JassExpr
