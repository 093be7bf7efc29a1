import JassExpr.Phrase.Basic

/-!
# Derivations

The grammar by itself, without a way of reading. A derivation is a tree of the nonterminals and
tokens by which some tokens are derived, and it has every step that the grammar takes: an
expression that is one literal alone is still a disjunction of one conjunction of one comparison,
and so on. Two ways of deriving the same tokens are two trees.
-/

namespace JassExpr

/-- The nonterminals of the grammar, from the loosest to the tightest. -/
inductive Nonterminal where
  | disjunction
  | conjunction
  | relation
  | sum
  | product
  | unary
  | primary
deriving DecidableEq

namespace Nonterminal

/-- Of what a nonterminal is a chain, if it is a chain of operands with operators between them. -/
def operand? : Nonterminal → Option Nonterminal
  | disjunction => some conjunction
  | conjunction => some relation
  | relation => some sum
  | sum => some product
  | product => some unary
  | unary => none
  | primary => none

/-- The operators between the operands of a chain. -/
def operators : Nonterminal → List BinaryOp
  | disjunction => [.or]
  | conjunction => [.and]
  | relation => [.equal, .notEqual, .less, .lessEqual, .greater, .greaterEqual]
  | sum => [.add, .subtract]
  | product => [.multiply, .divide]
  | unary => []
  | primary => []

/-- Whether a chain may go on with so many operands after the first. A comparison goes on with one
at most. -/
def Allows : Nonterminal → Nat → Prop
  | relation, count => count ≤ 1
  | _, _ => True

end Nonterminal

/-- An operator with the operand after it, which continue a chain. -/
structure Link (α : Type) where
  operator : BinaryOp
  token : Token
  operand : α

/-- A tree of derivation steps down to the tokens. -/
inductive Derivation where
  /-- A literal or a constant, with the value of its token. -/
  | literal (token : Token) (value : Literal)
  | name (token : Token)
  | group (opening : Token) (inner : Derivation) (closing : Token)
  | call (callee opening : Token) (arguments : List Derivation) (commas : List Token)
      (closing : Token)
  | index (array opening : Token) (subscript : Derivation) (closing : Token)
  /-- An operator in front of an operand. -/
  | applied (operator : UnaryOp) (token : Token) (operand : Derivation)
  /-- One operand and any number of further ones, each after an operator. -/
  | chain (first : Derivation) (others : List (Link Derivation))

/-- The derivations of each nonterminal. -/
inductive Derives : Nonterminal → Derivation → Prop
  | chain {outer inner : Nonterminal} {first : Derivation} {others : List (Link Derivation)}
      (chains : outer.operand? = some inner) (count : outer.Allows others.length)
      (operators : ∀ link ∈ others, link.operator ∈ outer.operators)
      (writes : ∀ link ∈ others, link.token.kind = link.operator.kind)
      (head : Derives inner first) (operands : ∀ link ∈ others, Derives inner link.operand) :
      Derives outer (.chain first others)
  | applied {operator : UnaryOp} {token : Token} {operand : Derivation}
      (writes : token.kind = operator.kind) (inside : Derives .unary operand) :
      Derives .unary (.applied operator token operand)
  | primary {derivation : Derivation} (inside : Derives .primary derivation) :
      Derives .unary derivation
  | literal {token : Token} {value : Literal}
      (reads : Literal.ofLexeme? token.toLexeme = some value) :
      Derives .primary (.literal token value)
  | constant {token : Token} {value : Literal} (word : token.kind = .identifier)
      (reads : Literal.ofWord? token.text = some value) :
      Derives .primary (.literal token value)
  | group {opening closing : Token} {inner : Derivation}
      (opens : opening.kind = .leftParenthesis) (closes : closing.kind = .rightParenthesis)
      (inside : Derives .disjunction inner) :
      Derives .primary (.group opening inner closing)
  | call {callee opening closing : Token} {arguments : List Derivation} {commas : List Token}
      (word : callee.kind = .identifier) (free : Literal.ofWord? callee.text = none)
      (opens : opening.kind = .leftParenthesis) (closes : closing.kind = .rightParenthesis)
      (separate : ∀ comma ∈ commas, comma.kind = .comma)
      (count : commas.length = arguments.length - 1)
      (inside : ∀ argument ∈ arguments, Derives .disjunction argument) :
      Derives .primary (.call callee opening arguments commas closing)
  | index {array opening closing : Token} {subscript : Derivation}
      (word : array.kind = .identifier) (free : Literal.ofWord? array.text = none)
      (opens : opening.kind = .leftBracket) (closes : closing.kind = .rightBracket)
      (inside : Derives .disjunction subscript) :
      Derives .primary (.index array opening subscript closing)
  | name {token : Token} (word : token.kind = .identifier)
      (free : Literal.ofWord? token.text = none) :
      Derives .primary (.name token)

namespace Derivation

section Induction

variable {motive : Derivation → Prop}
  (literal : ∀ token value, motive (.literal token value))
  (name : ∀ token, motive (.name token))
  (group : ∀ opening inner closing, motive inner → motive (.group opening inner closing))
  (call : ∀ callee opening arguments commas closing, (∀ argument ∈ arguments, motive argument) →
    motive (.call callee opening arguments commas closing))
  (index : ∀ array opening subscript closing, motive subscript →
    motive (.index array opening subscript closing))
  (applied : ∀ operator token operand, motive operand → motive (.applied operator token operand))
  (chain : ∀ first others, motive first → (∀ link ∈ others, motive link.operand) →
    motive (.chain first others))

include literal name group call index applied chain

/-- What holds of a derivation when it holds of those below it holds of them all. -/
theorem induction : ∀ derivation, motive derivation
  | .literal token value => literal token value
  | .name token => name token
  | .group opening inner closing => group opening inner closing (induction inner)
  | .call callee opening arguments commas closing =>
      call callee opening arguments commas closing fun argument _ => induction argument
  | .index array opening subscript closing =>
      index array opening subscript closing (induction subscript)
  | .applied operator token operand => applied operator token operand (induction operand)
  | .chain first others =>
      chain first others (induction first) fun link _ => induction link.operand
decreasing_by
  all_goals try decreasing_tactic
  rename_i member
  have below := List.sizeOf_lt_of_mem member
  cases link
  simp only [Derivation.chain.sizeOf_spec, Link.mk.sizeOf_spec] at below ⊢
  omega

end Induction

attribute [induction_eliminator] induction

mutual

/-- The tokens that are derived. -/
def tokens : Derivation → List Token
  | literal token _ => [token]
  | name token => [token]
  | group opening inner closing => opening :: (inner.tokens ++ [closing])
  | call callee opening arguments commas closing =>
      callee :: opening :: (weave (tokensOfEach arguments) (commas.map ([·])) ++ [closing])
  | index array opening subscript closing =>
      array :: opening :: (subscript.tokens ++ [closing])
  | applied _ token operand => token :: operand.tokens
  | chain first others => first.tokens ++ tokensOfLinks others

def tokensOfEach : List Derivation → List (List Token)
  | [] => []
  | first :: rest => first.tokens :: tokensOfEach rest

def tokensOfLinks : List (Link Derivation) → List Token
  | [] => []
  | ⟨_, token, operand⟩ :: rest => token :: (operand.tokens ++ tokensOfLinks rest)

end

mutual

/-- How many steps to an operand of a unary operator, into parentheses, to an argument or to a
subscript are taken at most on a path down from the root. -/
def depth : Derivation → Nat
  | literal _ _ => 0
  | name _ => 0
  | group _ inner _ => inner.depth + 1
  | call _ _ arguments _ _ => depthOfEach arguments
  | index _ _ subscript _ => subscript.depth + 1
  | applied _ _ operand => operand.depth + 1
  | chain first others => max first.depth (depthOfLinks others)

def depthOfEach : List Derivation → Nat
  | [] => 0
  | first :: rest => max (first.depth + 1) (depthOfEach rest)

def depthOfLinks : List (Link Derivation) → Nat
  | [] => 0
  | ⟨_, _, operand⟩ :: rest => max operand.depth (depthOfLinks rest)

end

mutual

/-- The tree of a derivation, with chains grouped to the left and parentheses dropped. -/
def expr : Derivation → Expr
  | literal _ value => .literal value
  | name token => .name token.text
  | group _ inner _ => inner.expr
  | call callee _ arguments _ _ => .call callee.text (exprOfEach arguments)
  | index array _ subscript _ => .index array.text subscript.expr
  | applied operator _ operand => .unary operator operand.expr
  | chain first others =>
      (exprOfLinks others).foldl (fun left link => .binary link.operator left link.operand)
        first.expr

def exprOfEach : List Derivation → List Expr
  | [] => []
  | first :: rest => first.expr :: exprOfEach rest

def exprOfLinks : List (Link Derivation) → List (Link Expr)
  | [] => []
  | ⟨operator, token, operand⟩ :: rest => ⟨operator, token, operand.expr⟩ :: exprOfLinks rest

end

end Derivation

end JassExpr
