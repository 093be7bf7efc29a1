import JassExpr.Proofs.Descent.Levels

/-!
# The discipline of a descent

On any tokens and under any limit, the rules come to what the productions come to. A run calls no
more rules within each other than the limit allows for, and no loop takes more turns than there are
tokens. No token, node or count is ever out of range, for each accepted call has passed a token and
each call leaves the count of levels as it was, also when it ends in an error.
-/

namespace JassExpr

namespace Descent

/-- What is true at the end of a run, and was true of all its calls and of all its moments. -/
structure State.Disciplined (limit length : Nat) (state : State) : Prop where
  depth_eq : state.depth = 0
  rounds_le : state.rounds ≤ length
  calls : ∀ call ∈ state.calls, call.Disciplined limit length
  moments : ∀ moment ∈ state.moments, moment.Disciplined limit length

/-- So many calls within each other, and so many turns of each loop, are enough. -/
def enough (limit : Nat) (tokens : List Token) : Nat :=
  8 * (limit + 1) + tokens.length + 1

section Runs

variable {scope : Scope} {cursor rounds fuel : Nat} {nodes : NodeTable} {before : State}

theorem At.disciplined_state (isAt : At scope cursor nodes rounds before)
    (topmost : scope.active = 0) (few : rounds ≤ scope.tokens.length) :
    before.Disciplined scope.limit scope.tokens.length where
  depth_eq := isAt.depth_eq.trans topmost
  rounds_le := isAt.rounds_eq ▸ few
  calls := isAt.calls
  moments := isAt.moments

theorem yields_expression {good : Tree → State → Prop} {bad : Failure → State → Prop}
    (topmost : scope.active = 0) (isEnough : enough scope.limit scope.tokens ≤ fuel)
    (isAt : At scope cursor nodes rounds before)
    (found : ∀ {phrase place state}, (Production.expression scope.limit).read
      (scope.tokens.drop cursor) = .ok (phrase, scope.tokens.drop place) →
        At scope place .empty rounds state → good (Tree.ofPhrase phrase) state)
    (refused : ∀ {failure state}, Refused scope rounds
      ((Production.expression scope.limit).read (scope.tokens.drop cursor)) failure state →
        bad failure state) :
    Yields (expression fuel scope) before good bad := by
  have agrees : Agrees scope (call fuel scope .disjunction)
      (Production.expression scope.limit) := by
    refine (agrees_disjunction ?_ (agreesInner_nested ?_)).2 fuel ?_
    · omega
    · omega
    · rw [enough] at isEnough
      omega
  refine .bind (yields_modify (.bind ?_))
  refine (agrees cursor .empty rounds _ (isAt.withNodes .empty)).imp ?_ refused
  rintro _ _ ⟨phrase, place, expects, rfl, isAt⟩
  refine .bind (yields_look isAt fun isAt => .bind (yields_set (yields_pure ?_)))
  rw [isAt.nodes_eq, phrase.addTo_empty]
  exact found expects (isAt.withNodes .empty)

/-- Some expressions have been read in no more rounds than there are tokens behind the cursor, and
all of them are these and what can be read from there on, with so many tokens ahead. -/
def ReadBefore (scope : Scope) (expected : Except Stop (List (Phrase Token))) (ahead : Nat)
    (results : List Parsed) (state : State) : Prop :=
  ∃ phrases cursor nodes rounds, ahead = scope.tokens.length - cursor ∧ rounds ≤ cursor ∧
    At scope cursor nodes rounds state ∧ results = phrases.map Parsed.ofPhrase ∧
      expected = (Reading.ofTokens (Production.expression scope.limit)
        (scope.tokens.drop cursor)).result.bind fun others => .ok (phrases ++ others)

/-- A run has the expected result. -/
def Accepted {α β : Type} (scope : Scope) (expected : Except Stop α) (carry : α → β) (result : β)
    (state : State) : Prop :=
  ∃ found, expected = .ok found ∧ result = carry found ∧
    state.Disciplined scope.limit scope.tokens.length

/-- A run ends in the expected refusal. -/
def Rejected {α : Type} (scope : Scope) (expected : Except Stop α) (failure : Failure)
    (state : State) : Prop :=
  ∃ stop, expected = .error stop ∧ failure = .refused (stop.error scope.tokens) ∧
    state.Disciplined scope.limit scope.tokens.length

/-- What a run comes to is what is expected, where it is known whether that is a result. -/
theorem run_eq_of_yields {α β : Type} {work : Parsing β} {expected : Except Stop α}
    {carry : α → β}
    (yields : Yields work State.initial (Accepted scope expected carry) (Rejected scope expected)) :
    (work.run.run State.initial).1 =
        ((expected.mapError (Stop.error scope.tokens)).map carry).mapError .refused ∧
      (work.run.run State.initial).2.Disciplined scope.limit scope.tokens.length := by
  unfold Yields at yields
  split at yields
  · rename_i result after ends
    obtain ⟨found, rfl, rfl, disciplined⟩ := yields
    rw [ends]
    exact ⟨rfl, disciplined⟩
  · rename_i failure after ends
    obtain ⟨stop, rfl, rfl, disciplined⟩ := yields
    rw [ends]
    exact ⟨rfl, disciplined⟩

/-- Each round reads one expression more, which takes at least one token. -/
theorem yields_expressionTurn {expected : Except Stop (List (Phrase Token))} {ahead : Nat}
    {results : List Parsed} (topmost : scope.active = 0)
    (isEnough : enough scope.limit scope.tokens ≤ fuel)
    (holds : ReadBefore scope expected ahead results before) :
    Yields (expressionTurn fuel scope results) before
      (Turned (fun next after => ∃ fewer < ahead, ReadBefore scope expected fewer next after)
        (Accepted scope expected (List.map Parsed.ofPhrase)))
      (Rejected scope expected) := by
  obtain ⟨phrases, cursor, nodes, rounds, rfl, few, isAt, rfl, rfl⟩ := holds
  refine .bind (yields_look isAt fun {state} isAt => ?_)
  obtain rfl : state.cursor = cursor := isAt.cursor_eq
  cases begins : scope.tokens.drop state.cursor with
  | nil =>
      have atEnd := List.drop_eq_nil_iff.mp begins
      rw [if_neg (Nat.not_lt_of_le atEnd), Reading.ofTokens_nil]
      exact yields_pure ⟨phrases, by simp [Reading.result, Except.bind], rfl,
        isAt.disciplined_state topmost (Nat.le_trans few isAt.cursor_le)⟩
  | cons token others =>
      have inside : state.cursor < scope.tokens.length := by
        refine Nat.lt_of_not_le fun atEnd => ?_
        rw [List.drop_eq_nil_of_le atEnd] at begins
        cases begins
      rw [if_pos inside, Reading.result_eq_bind, ← begins, bind_bind]
      refine .bind (yields_set (.bind (yields_expression topmost isEnough isAt.nextRound ?_ ?_)))
      · intro phrase place _ found isAt
        have stands := (Production.expression scope.limit).read_tokens found
        have wider := (bounds_of_stands stands isAt.cursor_le).2
        have further := isAt.cursor_le
        refine .bind (yields_slice isAt stands fun isAt => yields_pure ?_)
        refine ⟨_, ?_, phrases ++ [phrase], place, _, rounds + 1, rfl, ?_, isAt, ?_, ?_⟩
        · omega
        · omega
        · rw [List.map_append]
          rfl
        · rw [found, bind_ok, bind_bind]
          simp [Except.bind]
      · rintro _ _ ⟨stop, place, grown, refused, rfl, isAt⟩
        exact ⟨stop, by rw [refused]; rfl, rfl,
          isAt.disciplined_state topmost (Nat.lt_of_le_of_lt few inside)⟩

/-- No token has been passed at the beginning of a run. -/
theorem at_initial (topmost : scope.active = 0) : At scope 0 .empty 0 State.initial where
  cursor_eq := rfl
  nodes_eq := rfl
  rounds_eq := rfl
  depth_eq := topmost.symm
  active_le := topmost ▸ Nat.zero_le _
  cursor_le := Nat.zero_le _
  calls := List.forall_mem_nil _
  moments := List.forall_mem_nil _

end Runs

theorem bind_append_nil {α : Type} (result : Except Stop (List α)) :
    (result.bind fun others => .ok ([] ++ others)) = result := by
  cases result <;> rfl

theorem yields_readAll {scope : Scope} {fuel : Nat} (topmost : scope.active = 0)
    (isEnough : enough scope.limit scope.tokens ≤ fuel) :
    Yields (readAll fuel scope) State.initial
      (Accepted scope (Reading.ofTokens (Production.expression scope.limit) scope.tokens).result
        (List.map Parsed.ofPhrase))
      (Rejected scope
        (Reading.ofTokens (Production.expression scope.limit) scope.tokens).result) := by
  refine yields_loop (ReadBefore scope _) (yields_expressionTurn topmost isEnough) ?_
    ⟨[], 0, .empty, 0, rfl, Nat.le_refl 0, at_initial topmost, rfl, (bind_append_nil _).symm⟩
  rw [enough] at isEnough
  omega

theorem yields_readSingle {scope : Scope} {fuel : Nat} (topmost : scope.active = 0)
    (isEnough : enough scope.limit scope.tokens ≤ fuel) :
    Yields (readSingle fuel scope) State.initial
      (Accepted scope ((Production.expression scope.limit).alone scope.tokens) Tree.ofPhrase)
      (Rejected scope ((Production.expression scope.limit).alone scope.tokens)) := by
  have few := Nat.zero_le scope.tokens.length
  refine .bind (yields_expression topmost isEnough (at_initial topmost) ?_ ?_)
  · intro phrase place _ found isAt
    rw [List.drop_zero] at found
    refine .bind (yields_peek? isAt fun isAt => ?_)
    cases left : scope.tokens.drop place with
    | nil =>
        rw [left] at found
        exact yields_pure ⟨phrase, by simp only [Production.alone, found], rfl,
          isAt.disciplined_state topmost few⟩
    | cons token rest =>
        refine yields_refuse isAt fun isAt => ⟨_, ?_, rfl, isAt.disciplined_state topmost few⟩
        rw [left] at found ⊢
        simp only [Production.alone, found]
  · rintro _ _ ⟨stop, place, grown, refused, rfl, isAt⟩
    rw [List.drop_zero] at refused
    exact ⟨stop, by simp only [Production.alone, refused], rfl,
      isAt.disciplined_state topmost few⟩

theorem parseWith_eq_mapError (limit : Nat) (tokens : List Token) :
    parseWith limit tokens =
      (Reading.ofTokens (Production.expression limit) tokens).result.mapError
        (Stop.error tokens) := by
  rw [parseWith_eq_result]
  cases (Reading.ofTokens (Production.expression limit) tokens).result <;> rfl

theorem parseExpression_eq_mapError (tokens : List Token) :
    parseExpression tokens =
      ((Production.expression defaultLimit).alone tokens).mapError (Stop.error tokens) := by
  rw [parseExpression_eq_alone]
  cases (Production.expression defaultLimit).alone tokens <;> rfl

/-- Reading by descent is disciplined on all tokens and under every limit, and its result is the
result of reading with productions, whether that is expressions or an error. -/
theorem descent_disciplined (limit more : Nat) (tokens : List Token) :
    ((parseAll (enough limit tokens + more) limit tokens).1 =
        ((parseWith limit tokens).map (List.map Parsed.ofPhrase)).mapError .refused ∧
      (parseAll (enough limit tokens + more) limit tokens).2.Disciplined limit tokens.length) ∧
    (parseSingle (enough defaultLimit tokens + more) tokens).1 =
        ((parseExpression tokens).map Tree.ofPhrase).mapError .refused ∧
      (parseSingle (enough defaultLimit tokens + more) tokens).2.Disciplined defaultLimit
        tokens.length := by
  rw [parseWith_eq_mapError, parseExpression_eq_mapError]
  let scope (limit : Nat) : Scope := ⟨tokens, limit, 0⟩
  have all : Yields (readAll (enough limit tokens + more) (scope limit)) _ _ _ :=
    yields_readAll rfl (Nat.le_add_right _ more)
  have single :
      Yields (readSingle (enough defaultLimit tokens + more) (scope defaultLimit)) _ _ _ :=
    yields_readSingle rfl (Nat.le_add_right _ more)
  exact ⟨run_eq_of_yields all, run_eq_of_yields single⟩

/-- The calls one level deep in a sign with a name, the last to end first. The third call is the one
for what follows the name: it passes nothing more. -/
example :
    let run := parseAll 40 1 [⟨.fixed .minus, ⟨0, 1⟩⟩, ⟨.valued .identifier "a", ⟨1, 2⟩⟩]
    (run.2.calls.filter (·.active = 1)).map (fun call =>
      (call.cursorBefore, call.cursorAfter, call.depthBefore, call.depthAfter)) =
        [(1, 2, 1, 1), (1, 2, 1, 1), (2, 2, 1, 1)] := by
  cbv

end Descent

end JassExpr
