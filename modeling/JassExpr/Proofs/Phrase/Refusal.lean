import JassExpr.Proofs.Phrase.OperandStops

/-!
# Where tokens are refused

An error names the first token that cannot be right, whatever is said about why. The tokens before
it can be completed to something that is accepted, and nothing that goes on from it ever is. Without
such a token the tokens are only too few, and the error shows at their end.
-/

namespace JassExpr

namespace SyntaxError

/-- The place in some tokens at which an error shows: one of them, or their end. -/
inductive ShowsAt (error : SyntaxError) (tokens : List Token) : Nat → Prop
  | token {index : Nat} {token : Token} (here : tokens[index]? = some token)
      (found : error.token = some token) (place : error.span = token.span) :
      ShowsAt error tokens index
  | atEnd (nothing : error.token = none)
      (afterLast : ∀ last ∈ tokens.getLast?, error.span = Span.point last.span.stop)
      (empty : tokens = [] → error.span = Span.origin) :
      ShowsAt error tokens tokens.length

/-- An error shows at a place that decides on what is accepted. -/
structure Decides (error : SyntaxError) (accepted : List Token → Prop) (tokens : List Token)
    (index : Nat) : Prop where
  shows : error.ShowsAt tokens index
  completable : ∃ others, accepted (tokens.take index ++ others)
  hopeless : index < tokens.length → ∀ others, ¬accepted (tokens.take (index + 1) ++ others)

end SyntaxError

theorem Stop.kind_error (tokens : List Token) (stop : Stop) :
    (stop.error tokens).kind = stop.kind := by
  unfold Stop.error
  split <;> rfl

theorem Stop.showsAt_error {kind : SyntaxErrorKind} {front rest : List Token} :
    (Stop.error (front ++ rest) ⟨kind, rest⟩).ShowsAt (front ++ rest) front.length := by
  cases rest with
  | nil =>
      have place : (front ++ []).length = front.length := by rw [List.append_nil]
      rw [← place]
      refine .atEnd rfl ?_ ?_
      · intro last member
        rw [Option.mem_def] at member
        simp only [Stop.error, Token.endOf, member]
      · intro none
        simp [Stop.error, Token.endOf, none]
  | cons token after => exact .token (by simp) rfl rfl

namespace Production

open Phrase (Begun InRow)

/-- The error of a stop decides on what is accepted when only what is read is accepted. -/
theorem StopsAt.decides {α : Type} {read : List Token → Except Stop α}
    {accepted : List Token → Prop} {tokens front : List Token} {stop : Stop}
    (stops : StopsAt read (fun front => ∃ others, accepted (front ++ others)) tokens stop front)
    (known : ∀ limit, stop.kind ≠ .nestingTooDeep limit)
    (onlyRead : ∀ tokens, accepted tokens → ∃ value, read tokens = .ok value) :
    (stop.error tokens).Decides accepted tokens front.length := by
  obtain ⟨kind, rest⟩ := stop
  obtain rfl := stops.whole
  refine ⟨Stop.showsAt_error, ?_, ?_⟩
  · rw [List.take_left]
    exact stops.completes known
  · intro inside others isAccepted
    cases rest with
    | nil => simp at inside
    | cons token after =>
        obtain ⟨value, found⟩ := onlyRead _ isAccepted
        have upTo : (front ++ token :: after).take (front.length + 1) = front ++ [token] := by
          rw [List.append_cons]
          exact List.take_left' (by simp)
        rw [upTo, ← List.append_cons, stops.refused token rfl others] at found
        cases found

/-! ## One expression -/

/-- One phrase and nothing after it. -/
def alone (production : Production) (tokens : List Token) : Except Stop (Phrase Token) :=
  match production.read tokens with
  | .error stop => .error stop
  | .ok (phrase, []) => .ok phrase
  | .ok (_, token :: rest) => .error ⟨.trailingInput, token :: rest⟩

theorem alone_complete {production : Production} {level bound : Nat}
    (reads : production.Reads level bound) {phrase : Phrase Token}
    (grammatical : phrase.Grammatical Token.toLexeme) (tight : level ≤ phrase.level)
    (shallow : phrase.depth < bound) : production.alone phrase.tokens = .ok phrase := by
  have reading := reads.complete [] ⟨grammatical, tight, shallow, .nil⟩
  rw [List.append_nil] at reading
  simp only [alone, reading]

/-- Where one phrase is over, whatever else follows is refused. -/
theorem refuses_alone {production : Production} {level bound : Nat}
    (reads : production.Reads level bound) (refuses : Refuses production.read (Begun level bound)) :
    Refuses production.alone
      fun front => ∃ others phrase, production.alone (front ++ others) = .ok phrase := by
  intro tokens stop stopped
  simp only [alone] at stopped
  split at stopped
  · rename_i stop' stopped'
    cases stopped
    obtain ⟨front, stops⟩ := refuses stopped'
    refine ⟨front, stops.within ?_ ?_⟩
    · rintro ⟨phrase, ⟨others, whole⟩, grammatical, tight, shallow⟩
      refine ⟨others, phrase, ?_⟩
      rw [whole, alone_complete reads grammatical tight shallow]
    · intro later stop begins stopped
      simp only [alone, stopped]
  · cases stopped
  · rename_i phrase token rest reading
    cases stopped
    have stands := reads.sound reading
    rw [← production.read_tokens reading]
    refine ⟨phrase.tokens, rfl, fun known => ⟨[], phrase, ?_⟩, ?_⟩
    · rw [List.append_nil, alone_complete reads stands.grammatical stands.tight stands.shallow]
    · rintro _ ⟨⟩ others
      have again : production.read (phrase.tokens ++ token :: others) =
          .ok (phrase, token :: others) := reads.read_again reading fun _ same => same
      simp only [alone, again]

end Production

theorem parseExpression_eq_alone (tokens : List Token) :
    parseExpression tokens =
      match (Production.expression defaultLimit).alone tokens with
      | .error stop => .error (stop.error tokens)
      | .ok phrase => .ok phrase := by
  unfold parseExpression Production.alone
  split <;> simp_all

/-! ## Several expressions -/

/-- Some tokens begin expressions that stand in a row. No tokens begin only the empty row. -/
def RowBegun (limit : Nat) (front : List Token) : Prop :=
  ∃ phrases, Phrase.InRow limit phrases ∧ front <+: phrases.flatMap Phrase.tokens ∧
    (front = [] → phrases = [])

theorem RowBegun.of_begun {limit : Nat} {front : List Token}
    (begun : Phrase.Begun BinaryOp.or.precedence (limit + 1) front) : RowBegun limit front := by
  by_cases none : front = []
  · exact ⟨[], .nil, by rw [none]; exact List.nil_prefix, fun _ => rfl⟩
  · obtain ⟨phrase, isPrefix, grammatical, tight, shallow⟩ := begun
    refine ⟨[phrase], .cons ⟨grammatical, tight, shallow, .nil⟩ .nil, ?_, ?_⟩
    · rwa [List.flatMap_singleton]
    · exact fun empty => absurd empty none

/-- An expression in front of begun expressions is still read as it was. -/
theorem RowBegun.cons {limit : Nat} {phrase : Phrase Token} {rest front : List Token}
    (stands : phrase.Stands BinaryOp.or.precedence (limit + 1) rest)
    (begins : ∀ token ∈ front.head?, token ∈ rest.head?) (begun : RowBegun limit front) :
    RowBegun limit (phrase.tokens ++ front) := by
  obtain ⟨phrases, row, isPrefix, nothing⟩ := begun
  have beginsRow : ∀ token ∈ (phrases.flatMap Phrase.tokens).head?, token ∈ rest.head? := by
    cases front with
    | nil => simp [nothing rfl]
    | cons first front =>
        obtain ⟨back, whole⟩ := isPrefix
        rw [← whole]
        exact begins
  refine ⟨phrase :: phrases, .cons (stands.of_head beginsRow) row, ?_, ?_⟩
  · rw [List.flatMap_cons]
    exact (List.prefix_append_right_inj _).mpr isPrefix
  · intro empty
    exact absurd (List.append_eq_nil_iff.mp empty).1 phrase.tokens_ne_nil

namespace Reading

/-- The phrases of a reading that came to the end, or where it stopped. -/
def result (reading : Reading) : Except Stop (List (Phrase Token)) :=
  match reading.stop? with
  | some stop => .error stop
  | none => .ok reading.phrases

theorem result_eq_error_iff {reading : Reading} {stop : Stop} :
    reading.result = .error stop ↔ reading.stop? = some stop := by
  unfold result
  split <;> simp_all

theorem result_after_eq_error_iff {reading : Reading} {phrase : Phrase Token} {stop : Stop} :
    (reading.after phrase).result = .error stop ↔ reading.result = .error stop := by
  rw [result_eq_error_iff, result_eq_error_iff, after]

theorem result_of_error {production : Production} {tokens : List Token} {stop : Stop}
    (nonempty : tokens ≠ []) (stopped : production.read tokens = .error stop) :
    (ofTokens production tokens).result = .error stop := by
  cases tokens with
  | nil => exact absurd rfl nonempty
  | cons token others => rw [ofTokens_error stopped, result]

theorem result_of_ok {production : Production} {tokens rest : List Token} {phrase : Phrase Token}
    {stop : Stop} (found : production.read tokens = .ok (phrase, rest))
    (stopped : (ofTokens production rest).result = .error stop) :
    (ofTokens production tokens).result = .error stop := by
  cases tokens with
  | nil => exact absurd (production.rest_length_lt found) (Nat.not_lt_zero _)
  | cons token others =>
      rw [ofTokens_ok found]
      exact result_after_eq_error_iff.mpr stopped

/-- Reading expressions one after another stops where reading one of them does. -/
theorem refuses_result (limit : Nat) :
    Production.Refuses (fun tokens => (ofTokens (Production.expression limit) tokens).result)
      (RowBegun limit) := by
  have reads := Production.reads_expression limit
  intro tokens stop stopped
  change (ofTokens (Production.expression limit) tokens).result = .error stop at stopped
  fun_induction ofTokens (Production.expression limit) tokens with
  | case1 => cases stopped
  | case2 token others stop' stopped' =>
      cases stopped
      obtain ⟨front, stops⟩ := Production.refuses_expression limit stopped'
      exact ⟨front, stops.whole, fun known => .of_begun (stops.completes known),
        fun token member others => result_of_error (by simp) (stops.refused token member others)⟩
  | case3 token others phrase rest found ih =>
      obtain ⟨front, stops⟩ := ih (result_after_eq_error_iff.mp stopped)
      have begins : ∀ first ∈ front.head?, first ∈ rest.head? :=
        mem_head?_of_prefix ⟨stop.rest, stops.whole⟩
      rw [← Production.read_tokens _ found]
      refine ⟨_, stops.after phrase.tokens (.cons (reads.sound found) begins) ?_⟩
      intro later stop begins stopped
      exact result_of_ok (reads.read_again found begins) stopped

end Reading

theorem parseWith_eq_result (limit : Nat) (tokens : List Token) :
    parseWith limit tokens =
      match (Reading.ofTokens (Production.expression limit) tokens).result with
      | .error stop => .error (stop.error tokens)
      | .ok phrases => .ok phrases := by
  simp only [parseWith, Reading.result]
  cases (Reading.ofTokens (Production.expression limit) tokens).stop? <;> rfl

theorem RowBegun.exists_parseWith {limit : Nat} {front : List Token}
    (begun : RowBegun limit front) :
    ∃ others phrases, parseWith limit (front ++ others) = .ok phrases := by
  obtain ⟨phrases, row, ⟨others, whole⟩, -⟩ := begun
  exact ⟨others, phrases, parseWith_eq_ok_iff.mpr ⟨whole.symm, row⟩⟩

theorem decides_of_parseWith {limit : Nat} {tokens : List Token} {error : SyntaxError}
    (failed : parseWith limit tokens = .error error)
    (known : ∀ levels, error.kind ≠ .nestingTooDeep levels) :
    ∃ index, error.Decides (fun tokens => ∃ phrases, parseWith limit tokens = .ok phrases)
      tokens index := by
  rw [parseWith_eq_result] at failed
  split at failed
  · rename_i stop stopped
    cases failed
    obtain ⟨front, stops⟩ := Reading.refuses_result limit stopped
    refine ⟨front.length, (stops.within RowBegun.exists_parseWith fun _ _ _ => id).decides ?_ ?_⟩
    · rwa [Stop.kind_error] at known
    · rintro tokens ⟨phrases, found⟩
      rw [parseWith_eq_result] at found
      split at found
      · cases found
      · rename_i value read
        exact ⟨value, read⟩
  · cases failed

theorem decides_of_parseExpression {tokens : List Token} {error : SyntaxError}
    (failed : parseExpression tokens = .error error)
    (known : ∀ levels, error.kind ≠ .nestingTooDeep levels) :
    ∃ index, error.Decides (fun tokens => ∃ phrase, parseExpression tokens = .ok phrase)
      tokens index := by
  rw [parseExpression_eq_alone] at failed
  split at failed
  · rename_i stop stopped
    cases failed
    obtain ⟨front, stops⟩ := Production.refuses_alone (Production.reads_expression defaultLimit)
      (Production.refuses_expression defaultLimit) stopped
    refine ⟨front.length, (stops.within ?_ fun _ _ _ => id).decides ?_ ?_⟩
    · rintro ⟨others, phrase, found⟩
      refine ⟨others, phrase, ?_⟩
      rw [parseExpression_eq_alone, found]
    · rwa [Stop.kind_error] at known
    · rintro tokens ⟨phrase, found⟩
      rw [parseExpression_eq_alone] at found
      split at found
      · cases found
      · rename_i value read
        exact ⟨value, read⟩
  · cases failed

/-- An error in expressions, unless it is about a level that is too deep, shows at the first token
with which nothing can be right any more, or at the end of tokens that can be completed, and so
does an error in one expression. -/
theorem decides_of_parse_error :
    (∀ limit tokens error, parseWith limit tokens = .error error →
      (∀ levels, error.kind ≠ .nestingTooDeep levels) →
        ∃ index, error.Decides (fun tokens => ∃ phrases, parseWith limit tokens = .ok phrases)
          tokens index) ∧
      ∀ tokens error, parseExpression tokens = .error error →
        (∀ levels, error.kind ≠ .nestingTooDeep levels) →
          ∃ index, error.Decides (fun tokens => ∃ phrase, parseExpression tokens = .ok phrase)
            tokens index :=
  ⟨fun _ _ _ => decides_of_parseWith, fun _ _ => decides_of_parseExpression⟩

/-- A parenthesis with nothing to close is refused as the beginning of a second expression, or
because there is a second one. -/
theorem decides_of_parse_error_closing :
    let word : Token := ⟨.valued .identifier "f", ⟨0, 1⟩⟩
    let closing : Token := ⟨.fixed .rightParenthesis, ⟨1, 2⟩⟩
    let tokens := [word, closing]
    let unexpected : SyntaxError := ⟨.expectedExpression, some closing, ⟨1, 2⟩⟩
    let trailing : SyntaxError := ⟨.trailingInput, some closing, ⟨1, 2⟩⟩
    (parseWith 1 tokens = .error unexpected ∧
      ∃ index, unexpected.Decides (fun tokens => ∃ phrases, parseWith 1 tokens = .ok phrases)
        tokens index) ∧
      parseExpression tokens = .error trailing ∧
        ∃ index, trailing.Decides (fun tokens => ∃ phrase, parseExpression tokens = .ok phrase)
          tokens index := by
  intro word closing tokens unexpected trailing
  let name : Phrase Token := .name word "f"
  have reading : ∀ limit, (Production.expression limit).read tokens = .ok (name, [closing]) := by
    intro limit
    refine (Production.reads_expression limit).complete [closing]
      ⟨.name rfl (by decide) rfl, by decide, Nat.succ_pos _, .of_notOperator rfl ?_⟩
    exact fun _ => ⟨by decide, by decide⟩
  have stopped : (Production.expression 1).read [closing] =
      .error ⟨.expectedExpression, [closing]⟩ := rfl
  have failed : parseWith 1 tokens = .error unexpected := by
    rw [parseWith_eq_result, Reading.result_of_ok (reading 1)
      (Reading.result_of_error (by simp) stopped)]
    rfl
  have failedAlone : parseExpression tokens = .error trailing := by
    rw [parseExpression, reading]
    rfl
  refine ⟨⟨failed, ?_⟩, failedAlone, ?_⟩
  · exact decides_of_parse_error.1 1 tokens unexpected failed (by simp [unexpected])
  · exact decides_of_parse_error.2 tokens trailing failedAlone (by simp [trailing])

end JassExpr
