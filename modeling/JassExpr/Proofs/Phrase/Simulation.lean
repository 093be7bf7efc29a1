import JassExpr.Proofs.Phrase.Map
import JassExpr.Proofs.Phrase.Refusal

/-!
# Readings that follow one another

Tokens can be read side by side with other tokens that carry the same lexemes, and under another
limit. The one reading follows the other when it makes the same of its own tokens, or refuses the
token in the same place for the same reason. Some refusals may be excused: where the reading that
is followed ends in one of these, nothing is asked of the other. Since each production only looks
at lexemes, one step of reading after another keeps to this.
-/

namespace JassExpr

/-- One outcome is another over replaced tokens, unless that other is a refusal that is excused. -/
inductive Follows (excused : SyntaxErrorKind → Prop) (move : Token → Token) {α : Type}
    (carry : α → α) : Except Stop α → Except Stop α → Prop
  | read (value : α) : Follows excused move carry (.ok (carry value)) (.ok value)
  | refused (kind : SyntaxErrorKind) (rest : List Token) :
      Follows excused move carry (.error ⟨kind, rest.map move⟩) (.error ⟨kind, rest⟩)
  | excused {outcome : Except Stop α} {stop : Stop} (isExcused : excused stop.kind) :
      Follows excused move carry outcome (.error stop)

variable {excused : SyntaxErrorKind → Prop} {move : Token → Token}

/-- What is done next with a value keeps outcomes following one another. -/
theorem Follows.bind {α β : Type} {carry : α → α} {carryNext : β → β}
    {later earlier : Except Stop α} {nextLater nextEarlier : α → Except Stop β}
    (first : Follows excused move carry later earlier)
    (next : ∀ value, earlier = .ok value →
      Follows excused move carryNext (nextLater (carry value)) (nextEarlier value)) :
    Follows excused move carryNext (later.bind nextLater) (earlier.bind nextEarlier) := by
  cases first with
  | read value => exact next value rfl
  | refused kind rest => exact .refused kind rest
  | excused isExcused => exact .excused isExcused

namespace Production

variable {operand argument follower production : Production}
  {inner followers productions : Construct → Production} {precedence : Nat}

/-! ## Steps of reading as one thing after another -/

theorem chain_eq_bind (tokens : List Token) :
    (chain precedence operand).read tokens =
      (operand.read tokens).bind fun found => chainFrom precedence operand found.1 found.2 := by
  simp only [chain]
  cases operand.read tokens <;> rfl

theorem chainFrom_eq_bind {left : Phrase Token} {token : Token} {after : List Token}
    {operator : BinaryOp}
    (isOperator : BinaryOp.atPrecedence? precedence token.kind = some operator) :
    chainFrom precedence operand left (token :: after) =
      (operand.read after).bind fun found =>
        chainFrom precedence operand (.binary operator left token found.1) found.2 := by
  cases reading : operand.read after with
  | error stop => exact chainFrom_error isOperator reading
  | ok found => exact chainFrom_step isOperator reading

/-- What becomes of the left operand of a comparison. -/
def comparisonFrom (operand : Production) (left : Phrase Token) (tokens : List Token) :
    Except Stop (Phrase Token × List Token) :=
  match tokens with
  | [] => .ok (left, [])
  | token :: after =>
      match comparison? (token :: after) with
      | none => .ok (left, token :: after)
      | some operator =>
          (operand.read after).bind fun found =>
            match comparison? found.2 with
            | none => .ok (.binary operator left token found.1, found.2)
            | some _ => .error ⟨.chainedComparison, found.2⟩

theorem comparison_eq_bind (tokens : List Token) :
    (comparison operand).read tokens =
      (operand.read tokens).bind fun found => comparisonFrom operand found.1 found.2 := by
  simp only [comparison]
  cases operand.read tokens with
  | error stop => rfl
  | ok found =>
      obtain ⟨left, rest⟩ := found
      cases rest with
      | nil => rfl
      | cons token after =>
          simp only [Except.bind, comparisonFrom]
          cases comparison? (token :: after) with
          | none => rfl
          | some operator => cases operand.read after <;> rfl

/-- What becomes of the first of some arguments. -/
def argumentsAfter (argument : Production) (first : Phrase Token) (tokens : List Token) :
    Except Stop (List (Phrase Token) × List Token × List Token) :=
  match tokens with
  | [] => .ok ([first], [], [])
  | token :: after =>
      if token.kind = .comma then
        (argumentsFrom argument after).bind fun others =>
          .ok (first :: others.1, token :: others.2.1, others.2.2)
      else
        .ok ([first], [], token :: after)

theorem argumentsFrom_eq_bind (tokens : List Token) :
    argumentsFrom argument tokens =
      (argument.read tokens).bind fun found => argumentsAfter argument found.1 found.2 := by
  cases reading : argument.read tokens with
  | error stop => exact argumentsFrom_error reading
  | ok found =>
      obtain ⟨first, rest⟩ := found
      simp only [Except.bind]
      cases rest with
      | nil => exact argumentsFrom_last reading (by simp)
      | cons token after =>
          simp only [argumentsAfter]
          split
          · rename_i isComma
            cases others : argumentsFrom argument after with
            | error stop => exact argumentsFrom_comma_error reading isComma others
            | ok found => exact argumentsFrom_comma reading isComma others
          · rename_i notComma
            apply argumentsFrom_last reading
            rintro _ ⟨⟩
            exact notComma

theorem named_call_eq_bind {token opening : Token} {after : List Token}
    (opens : opening.kind = .leftParenthesis) :
    named inner token (opening :: after) =
      (argumentList (inner .expression) after).bind fun found =>
        (expect .rightParenthesis found.2.2).bind fun closed =>
          .ok (.call token token.text opening found.1 found.2.1 closed.1, closed.2) := by
  simp only [named, if_pos opens]
  cases argumentList (inner .expression) after with
  | error stop => rfl
  | ok found =>
      simp only [Except.bind]
      cases expect .rightParenthesis found.2.2 <;> rfl

theorem named_index_eq_bind {token opening : Token} {after : List Token}
    (opens : opening.kind = .leftBracket) :
    named inner token (opening :: after) =
      ((inner .expression).read after).bind fun found =>
        (expect .rightBracket found.2).bind fun closed =>
          .ok (.index token token.text opening found.1 closed.1, closed.2) := by
  have notParenthesis : opening.kind ≠ .leftParenthesis := by
    rw [opens]
    decide
  simp only [named, if_neg notParenthesis, if_pos opens]
  cases (inner .expression).read after with
  | error stop => rfl
  | ok found =>
      simp only [Except.bind]
      cases expect .rightBracket found.2 <;> rfl

theorem grouped_eq_bind (opening : Token) (tokens : List Token) :
    grouped inner opening tokens =
      ((inner .expression).read tokens).bind fun found =>
        (expect .rightParenthesis found.2).bind fun closed =>
          .ok (.group opening found.1 closed.1, closed.2) := by
  unfold grouped
  cases (inner .expression).read tokens with
  | error stop => rfl
  | ok found =>
      simp only [Except.bind]
      cases expect .rightParenthesis found.2 <;> rfl

theorem unary_eq_bind {token : Token} {after : List Token} {operator : UnaryOp}
    (isOperator : UnaryOp.ofKind? token.kind = some operator) :
    (unary inner).read (token :: after) =
      ((inner .operand).read after).bind fun found =>
        .ok (.unary operator token found.1, found.2) := by
  simp only [unary, isOperator]
  cases (inner .operand).read after <;> rfl

/-! ## Following -/

/-- A phrase and the tokens after it, over replaced tokens. -/
def carryRead (move : Token → Token) : Phrase Token × List Token → Phrase Token × List Token :=
  Prod.map (Phrase.map move) (List.map move)

/-- Arguments, their commas and the tokens after them, over replaced tokens. -/
def carryArguments (move : Token → Token) :
    List (Phrase Token) × List Token × List Token →
      List (Phrase Token) × List Token × List Token :=
  Prod.map (List.map (Phrase.map move)) (Prod.map (List.map move) (List.map move))

/-- One production follows another on all tokens and their replacements. -/
def FollowsReads (excused : SyntaxErrorKind → Prop) (move : Token → Token)
    (follower production : Production) : Prop :=
  ∀ tokens, Follows excused move (carryRead move)
    (follower.read (tokens.map move)) (production.read tokens)

section

variable (same : ∀ token, (move token).toLexeme = token.toLexeme)

include same

theorem comparison?_map (tokens : List Token) :
    comparison? (tokens.map move) = comparison? tokens := by
  cases tokens with
  | nil => rfl
  | cons token after => simp only [List.map_cons, comparison?, same]

theorem follows_expect (kind : TokenKind) (tokens : List Token) :
    Follows excused move (Prod.map move (List.map move))
      (expect kind (tokens.map move)) (expect kind tokens) := by
  cases tokens with
  | nil => exact .refused _ []
  | cons token rest =>
      simp only [List.map_cons, expect, same]
      split
      · exact .read (token, rest)
      · exact .refused _ (token :: rest)

theorem follows_chainFrom (follows : FollowsReads excused move follower production)
    (left : Phrase Token) (tokens : List Token) :
    Follows excused move (carryRead move)
      (chainFrom precedence follower (left.map move) (tokens.map move))
      (chainFrom precedence production left tokens) := by
  -- Nothing is known of what an operand leaves but that it is shorter, which the induction is on.
  induction length : tokens.length using Nat.strongRecOn generalizing left tokens with
  | _ count ih =>
      cases tokens with
      | nil =>
          rw [List.map_nil, chainFrom, chainFrom]
          exact .read (left, [])
      | cons token after =>
          cases operation : BinaryOp.atPrecedence? precedence token.kind with
          | none =>
              rw [chainFrom_stop, chainFrom_stop]
              · exact .read (left, token :: after)
              · simpa using operation
              · simpa [same] using operation
          | some operator =>
              have operation' : BinaryOp.atPrecedence? precedence (move token).kind =
                  some operator := by
                rw [same, operation]
              rw [List.map_cons, chainFrom_eq_bind operation, chainFrom_eq_bind operation']
              apply (follows after).bind
              intro found reading
              have shorter := production.rest_length_lt reading
              apply ih found.2.length _ (.binary operator left token found.1) found.2 rfl
              simp only [← length, List.length_cons]
              omega

theorem FollowsReads.chain (follows : FollowsReads excused move follower production) :
    FollowsReads excused move (chain precedence follower) (chain precedence production) := by
  intro tokens
  rw [chain_eq_bind, chain_eq_bind]
  apply (follows tokens).bind
  intro found _
  exact follows_chainFrom same follows found.1 found.2

theorem FollowsReads.comparison (follows : FollowsReads excused move follower production) :
    FollowsReads excused move (comparison follower) (comparison production) := by
  intro tokens
  rw [comparison_eq_bind, comparison_eq_bind]
  apply (follows tokens).bind
  rintro ⟨left, rest⟩ _
  cases rest with
  | nil => exact .read (left, [])
  | cons token after =>
      have comparing : comparison? (move token :: after.map move) =
          comparison? (token :: after) :=
        comparison?_map same (token :: after)
      simp only [carryRead, Prod.map, List.map_cons, comparisonFrom, comparing]
      cases comparison? (token :: after) with
      | none => exact .read (left, token :: after)
      | some operator =>
          apply (follows after).bind
          rintro ⟨right, rest⟩ _
          simp only [carryRead, Prod.map, comparison?_map same rest]
          cases comparison? rest with
          | none => exact .read (Phrase.binary operator left token right, rest)
          | some second => exact .refused .chainedComparison rest

theorem follows_argumentsFrom (follows : FollowsReads excused move follower production)
    (tokens : List Token) :
    Follows excused move (carryArguments move)
      (argumentsFrom follower (tokens.map move)) (argumentsFrom production tokens) := by
  induction length : tokens.length using Nat.strongRecOn generalizing tokens with
  | _ count ih =>
      rw [argumentsFrom_eq_bind, argumentsFrom_eq_bind]
      apply (follows tokens).bind
      rintro ⟨first, rest⟩ reading
      have shorter := production.rest_length_lt reading
      cases rest with
      | nil => exact .read ([first], [], [])
      | cons token after =>
          simp only [carryRead, Prod.map, List.map_cons, argumentsAfter, same]
          split
          · apply (ih after.length _ after rfl).bind
            · intro others _
              exact .read (first :: others.1, token :: others.2.1, others.2.2)
            · rw [List.length_cons] at shorter
              omega
          · exact .read ([first], [], token :: after)

theorem follows_argumentList (follows : FollowsReads excused move follower production)
    (tokens : List Token) :
    Follows excused move (carryArguments move)
      (argumentList follower (tokens.map move)) (argumentList production tokens) := by
  cases tokens with
  | nil => exact follows_argumentsFrom same follows []
  | cons token after =>
      simp only [List.map_cons, argumentList, same]
      split
      · exact .read ([], [], token :: after)
      · exact follows_argumentsFrom same follows (token :: after)

theorem follows_named
    (follows : ∀ construct, FollowsReads excused move (followers construct) (productions construct))
    (token : Token) (tokens : List Token) :
    Follows excused move (carryRead move)
      (named followers (move token) (tokens.map move)) (named productions token tokens) := by
  have sameText : (move token).text = token.text := by rw [same]
  cases tokens with
  | nil =>
      simp only [List.map_nil, named, sameText]
      exact .read (Phrase.name token token.text, [])
  | cons opening after =>
      by_cases parenthesis : opening.kind = .leftParenthesis
      · have parenthesis' : (move opening).kind = .leftParenthesis := by rw [same, parenthesis]
        rw [List.map_cons, named_call_eq_bind parenthesis, named_call_eq_bind parenthesis',
          sameText]
        apply (follows_argumentList same (follows .expression) after).bind
        rintro ⟨arguments, commas, others⟩ _
        apply (follows_expect same .rightParenthesis others).bind
        rintro ⟨closing, rest⟩ _
        have carried : Follows excused move (carryRead move) _ _ :=
          .read (Phrase.call token token.text opening arguments commas closing, rest)
        simpa only [carryRead, carryArguments, Prod.map, Phrase.map, Phrase.mapEach_eq_map]
          using carried
      · by_cases bracket : opening.kind = .leftBracket
        · have bracket' : (move opening).kind = .leftBracket := by rw [same, bracket]
          rw [List.map_cons, named_index_eq_bind bracket, named_index_eq_bind bracket', sameText]
          apply (follows .expression after).bind
          rintro ⟨subscript, others⟩ _
          apply (follows_expect same .rightBracket others).bind
          rintro ⟨closing, rest⟩ _
          exact .read (Phrase.index token token.text opening subscript closing, rest)
        · simp only [List.map_cons, named, same, if_neg parenthesis, if_neg bracket]
          exact .read (Phrase.name token token.text, opening :: after)

theorem follows_grouped
    (follows : ∀ construct, FollowsReads excused move (followers construct) (productions construct))
    (opening : Token) (tokens : List Token) :
    Follows excused move (carryRead move)
      (grouped followers (move opening) (tokens.map move))
      (grouped productions opening tokens) := by
  rw [grouped_eq_bind, grouped_eq_bind]
  apply (follows .expression tokens).bind
  rintro ⟨phrase, others⟩ _
  apply (follows_expect same .rightParenthesis others).bind
  rintro ⟨closing, rest⟩ _
  exact .read (Phrase.group opening phrase closing, rest)

theorem FollowsReads.primary
    (follows : ∀ construct,
      FollowsReads excused move (followers construct) (productions construct)) :
    FollowsReads excused move (primary followers) (primary productions) := by
  intro tokens
  cases tokens with
  | nil => exact .refused .expectedExpression []
  | cons token after =>
      simp only [Production.primary, List.map_cons, same]
      split
      · cases Literal.ofLexeme? token.toLexeme with
        | none => exact .refused _ (token :: after)
        | some value => exact .read (Phrase.literal token value, after)
      · split
        · cases Literal.ofWord? token.text with
          | none => exact follows_named same follows token after
          | some value => exact .read (Phrase.literal token value, after)
        · split
          · exact follows_grouped same follows token after
          · exact .refused _ (token :: after)

theorem FollowsReads.unary
    (follows : ∀ construct,
      FollowsReads excused move (followers construct) (productions construct)) :
    FollowsReads excused move (unary followers) (unary productions) := by
  intro tokens
  cases tokens with
  | nil => exact FollowsReads.primary same follows []
  | cons token after =>
      cases operation : UnaryOp.ofKind? token.kind with
      | none =>
          have primary := FollowsReads.primary same follows (token :: after)
          rw [read_unary_of_not, read_unary_of_not]
          · exact primary
          · simpa using operation
          · simpa [same] using operation
      | some operator =>
          have operation' : UnaryOp.ofKind? (move token).kind = some operator := by
            rw [same, operation]
          rw [List.map_cons, unary_eq_bind operation, unary_eq_bind operation']
          apply (follows .operand after).bind
          rintro ⟨operand, rest⟩ _
          exact .read (Phrase.unary operator token operand, rest)

theorem FollowsReads.disjunction
    (follows : ∀ construct,
      FollowsReads excused move (followers construct) (productions construct)) :
    FollowsReads excused move (disjunction followers) (disjunction productions) :=
  .chain same (.chain same (.comparison same (.chain same (.chain same (.unary same follows)))))

/-- Productions for nested constructs follow one another when they have the same allowance, or a
larger one if the refusal of one level too many is excused. -/
theorem follows_nested {limit larger allowance more : Nat}
    (allows : limit = larger ∧ allowance = more ∨
      excused (.nestingTooDeep limit) ∧ allowance ≤ more) (construct : Construct) :
    FollowsReads excused move (nested larger more construct)
      (nested limit allowance construct) := by
  induction allowance generalizing more construct with
  | zero =>
      intro tokens
      rcases allows with ⟨rfl, rfl⟩ | ⟨isExcused, -⟩
      · exact .refused _ tokens
      · exact .excused isExcused
  | succ allowance ih =>
      obtain ⟨least, rfl⟩ : ∃ least, more = least + 1 := by
        apply Nat.exists_eq_add_one_of_ne_zero
        omega
      have fewer : limit = larger ∧ allowance = least ∨
          excused (.nestingTooDeep limit) ∧ allowance ≤ least := by
        rcases allows with ⟨sameLimit, sameAllowance⟩ | ⟨isExcused, noLess⟩
        · exact .inl ⟨sameLimit, by omega⟩
        · exact .inr ⟨isExcused, by omega⟩
      have follows := fun construct => ih fewer construct
      cases construct with
      | operand => exact .unary same follows
      | expression => exact .disjunction same follows

theorem follows_expression {limit larger : Nat}
    (allows : limit = larger ∨ excused (.nestingTooDeep limit) ∧ limit ≤ larger) :
    FollowsReads excused move (expression larger) (expression limit) := by
  apply FollowsReads.disjunction same
  apply follows_nested same
  rcases allows with sameLimit | excuses
  · exact .inl ⟨sameLimit, sameLimit⟩
  · exact .inr excuses

end

end Production

namespace Reading

theorem result_after (reading : Reading) (phrase : Phrase Token) :
    (reading.after phrase).result = reading.result.bind fun phrases => .ok (phrase :: phrases) := by
  unfold result after
  cases reading.stop? <;> rfl

theorem result_eq_bind (production : Production) (token : Token) (others : List Token) :
    (ofTokens production (token :: others)).result =
      (production.read (token :: others)).bind fun found =>
        (ofTokens production found.2).result.bind fun phrases => .ok (found.1 :: phrases) := by
  cases reading : production.read (token :: others) with
  | error stop => exact result_of_error (by simp) reading
  | ok found => rw [ofTokens_ok reading, result_after, Except.bind]

/-- Readings of one expression after another follow one another when those of each do. -/
theorem follows_result {follower production : Production}
    (follows : Production.FollowsReads excused move follower production) (tokens : List Token) :
    Follows excused move (List.map (Phrase.map move))
      (ofTokens follower (tokens.map move)).result (ofTokens production tokens).result := by
  induction length : tokens.length using Nat.strongRecOn generalizing tokens with
  | _ count ih =>
      cases tokens with
      | nil =>
          rw [List.map_nil, ofTokens_nil, ofTokens_nil]
          exact .read []
      | cons token others =>
          rw [List.map_cons, result_eq_bind, result_eq_bind]
          apply (follows (token :: others)).bind
          rintro ⟨phrase, rest⟩ reading
          have shorter := production.rest_length_lt reading
          apply (ih rest.length (by omega) rest rfl).bind
          intro phrases _
          exact .read (phrase :: phrases)

end Reading

end JassExpr
