import JassExpr.Phrase.Canonical

/-!
# Laying out phrases

A phrase is laid out on one line: blanks around each operator between two operands, after the
word in front of one, and after each comma, and nowhere else.
-/

namespace JassExpr

/-- A part of a line: a token, or the blank between two of them. -/
inductive Piece (τ : Type) where
  | blank
  | written (token : τ)
deriving DecidableEq

def Piece.spell : Piece Lexeme → String
  | blank => " "
  | written lexeme => lexeme.spell

def Piece.tokens {τ : Type} : List (Piece τ) → List τ
  | [] => []
  | blank :: rest => tokens rest
  | written token :: rest => token :: tokens rest

/-- The blank after an operator in front of its operand, which only a word needs. -/
def UnaryOp.spacing {τ : Type} : UnaryOp → List (Piece τ)
  | not => [.blank]
  | minus => []
  | plus => []

namespace Phrase

variable {τ : Type}

mutual

/-- The line on which a phrase is laid out. -/
def pieces : Phrase τ → List (Piece τ)
  | literal token _ => [.written token]
  | name token _ => [.written token]
  | group opening inner closing => .written opening :: (inner.pieces ++ [.written closing])
  | unary operator token operand => .written token :: (operator.spacing ++ operand.pieces)
  | binary _ left token right =>
      left.pieces ++ .blank :: .written token :: .blank :: right.pieces
  | call callee _ opening arguments commas closing =>
      .written callee :: .written opening ::
        (weave (piecesOfEach arguments) (commas.map ([.written ·, .blank])) ++ [.written closing])
  | index array _ opening subscript closing =>
      .written array :: .written opening :: (subscript.pieces ++ [.written closing])

def piecesOfEach : List (Phrase τ) → List (List (Piece τ))
  | [] => []
  | first :: rest => first.pieces :: piecesOfEach rest

end

end Phrase

/-- The canonical text of an expression. -/
def Expr.format (expr : Expr) : String :=
  String.join (expr.canonical.pieces.map Piece.spell)

namespace Piece

variable {τ : Type}

@[simp]
theorem tokens_append (first second : List (Piece τ)) :
    tokens (first ++ second) = tokens first ++ tokens second := by
  induction first with
  | nil => rfl
  | cons piece rest ih => cases piece <;> simp [tokens, ih]

theorem tokens_weave (parts : List (List (Piece τ))) (commas : List τ) :
    tokens (weave parts (commas.map ([.written ·, .blank]))) =
      weave (parts.map tokens) (commas.map ([·])) := by
  have flat : ∀ parts : List (List (Piece τ)),
      tokens parts.flatten = (parts.map tokens).flatten := by
    intro parts
    induction parts with
    | nil => rfl
    | cons first rest ih => simp [ih]
  induction parts generalizing commas with
  | nil => cases commas <;> rfl
  | cons first rest ih =>
      cases commas with
      | nil => simp [weave, flat]
      | cons comma commas => simp [weave, tokens, ih]

end Piece

/-- Laying out a phrase adds blanks only. -/
theorem Phrase.tokens_pieces {τ : Type} (phrase : Phrase τ) :
    Piece.tokens phrase.pieces = phrase.tokens := by
  induction phrase with
  | literal token value => rfl
  | name token name => rfl
  | group opening inner closing ih => simp [pieces, Phrase.tokens, Piece.tokens, ih]
  | unary operator token operand ih =>
      cases operator <;> simp [pieces, Phrase.tokens, UnaryOp.spacing, Piece.tokens, ih]
  | binary operator left token right ihLeft ihRight =>
      simp [pieces, Phrase.tokens, Piece.tokens, ihLeft, ihRight]
  | call callee name opening arguments commas closing ih =>
      have each : (piecesOfEach arguments).map Piece.tokens = tokensOfEach arguments := by
        induction arguments with
        | nil => rfl
        | cons first rest ihRest =>
            simp [piecesOfEach, tokensOfEach, ih first (by simp),
              ihRest fun argument member => ih argument (List.mem_cons_of_mem _ member)]
      simp [pieces, Phrase.tokens, Piece.tokens, Piece.tokens_weave, each]
  | index array name opening subscript closing ih =>
      simp [pieces, Phrase.tokens, Piece.tokens, ih]

end JassExpr
