import JassExpr.Token.Basic

/-!
# Syntax errors

A sequence of tokens that is not an expression is refused at one token, or at its end. An error
has the reason, that token if there is one, and its span.
-/

namespace JassExpr

/-- The reasons why tokens are not an expression. -/
inductive SyntaxErrorKind where
  /-- No expression begins here. -/
  | expectedExpression
  /-- One particular kind of token has to stand here. -/
  | expected (kind : TokenKind)
  /-- A comparison is followed by another comparison operator. -/
  | chainedComparison
  /-- A literal has no value. -/
  | invalidLiteral (text : String)
  /-- One level more than allowed would be entered here. -/
  | nestingTooDeep (limit : Nat)
  /-- Something follows the one expression. -/
  | trailingInput
deriving DecidableEq

def SyntaxErrorKind.message : SyntaxErrorKind → String
  | expectedExpression => "expected expression"
  | expected kind => "expected " ++ kind.display
  | chainedComparison => "comparison operators cannot be chained"
  | invalidLiteral text => "invalid literal '" ++ text ++ "'"
  | nestingTooDeep limit => "expression nested deeper than " ++ toString limit ++ " levels"
  | trailingInput => "unexpected token after expression"

/-- A syntax error, the token at which it shows and its place. Without a token it shows at the
end of the tokens. -/
structure SyntaxError where
  kind : SyntaxErrorKind
  token : Option Token
  span : Span
deriving DecidableEq

namespace SyntaxError

def atEnd (error : SyntaxError) : Bool :=
  error.token.isNone

/-- The wording of an error: its reason, what was found instead and where. -/
def message (error : SyntaxError) : String :=
  let found :=
    match error.token with
    | some token => token.display
    | none => "end of input"
  error.kind.message ++ ", found " ++ found ++ " at " ++ error.span.display

end SyntaxError

/-- Where and why reading tokens stops: the reason and the tokens from the refused one on. -/
structure Stop where
  kind : SyntaxErrorKind
  rest : List Token

/-- The error of a stop within some tokens. -/
def Stop.error (tokens : List Token) (stop : Stop) : SyntaxError :=
  match stop.rest with
  | token :: _ => ⟨stop.kind, some token, token.span⟩
  | [] => ⟨stop.kind, none, Token.endOf tokens⟩

end JassExpr
