import JassExpr.Phrase.Grammar

/-!
# Reading expressions

Tokens are read as one expression after another until none is left, or as one expression and
nothing else. Each expression takes as many tokens as it can.
-/

namespace JassExpr

/-- The phrases of some tokens as far as they can be read, and, if that is not to their end,
where and why reading stops. -/
structure Reading where
  phrases : List (Phrase Token)
  stop? : Option Stop

namespace Reading

def after (phrase : Phrase Token) (reading : Reading) : Reading :=
  { reading with phrases := phrase :: reading.phrases }

def ofTokens (production : Production) (tokens : List Token) : Reading :=
  match tokens with
  | [] => ⟨[], none⟩
  | token :: others =>
      match _found : production.read (token :: others) with
      | .error stop => ⟨[], some stop⟩
      | .ok (phrase, rest) => (ofTokens production rest).after phrase
termination_by tokens.length
decreasing_by
  exact production.rest_length_lt _found

@[simp]
theorem ofTokens_nil (production : Production) : ofTokens production [] = ⟨[], none⟩ := by
  rw [ofTokens]

theorem ofTokens_ok {production : Production} {token : Token} {others rest : List Token}
    {phrase : Phrase Token} (found : production.read (token :: others) = .ok (phrase, rest)) :
    ofTokens production (token :: others) = (ofTokens production rest).after phrase := by
  rw [ofTokens]
  split
  · rename_i stop stopped
    rw [found] at stopped
    cases stopped
  · rename_i phrase' rest' found'
    rw [found] at found'
    cases found'
    rfl

theorem ofTokens_error {production : Production} {token : Token} {others : List Token}
    {stop : Stop} (stopped : production.read (token :: others) = .error stop) :
    ofTokens production (token :: others) = ⟨[], some stop⟩ := by
  rw [ofTokens]
  split
  · rename_i stop' stopped'
    rw [stopped] at stopped'
    cases stopped'
    rfl
  · rename_i phrase rest found
    rw [stopped] at found
    cases found

end Reading

/-- The number of levels that are allowed unless another number is asked for. -/
def defaultLimit : Nat :=
  64

/-- All the expressions of some tokens in which so many levels may be entered, or the first
error. -/
def parseWith (limit : Nat) (tokens : List Token) :
    Except SyntaxError (List (Phrase Token)) :=
  let reading := Reading.ofTokens (Production.expression limit) tokens
  match reading.stop? with
  | some stop => .error (stop.error tokens)
  | none => .ok reading.phrases

/-- All the expressions of some tokens, or the first error. -/
def parse (tokens : List Token) : Except SyntaxError (List (Phrase Token)) :=
  parseWith defaultLimit tokens

/-- The one expression that some tokens are, or the first error. -/
def parseExpression (tokens : List Token) : Except SyntaxError (Phrase Token) :=
  match (Production.expression defaultLimit).read tokens with
  | .error stop => .error (stop.error tokens)
  | .ok (phrase, []) => .ok phrase
  | .ok (_, token :: rest) => .error (Stop.error tokens ⟨.trailingInput, token :: rest⟩)

end JassExpr
