import JassExpr.Phrase.Reading
import JassExpr.Proofs.Phrase.Building

/-!
# Reading by descent

Expressions can be read by rules that call each other. They share a cursor that moves over the
tokens, a count of the levels that have been entered, and a table that grows node by node. Nothing
in the rules themselves tells that calls and loops come to an end, that the cursor has passed a
token whenever the one behind it is looked up, or that the count goes back when a rule gives up
early. Here a run is cut off when its calls or its loops go on for too long; that is a failure of
its own, as are a token or a node that is not there and a count below zero. All calls of rules are
put on record, and so are the cursor and the count whenever a rule looks at them.
-/

namespace JassExpr

namespace Descent

/-- The rules, each of which reads a part of an expression. -/
inductive Rule where
  | disjunction
  | conjunction
  | relation
  | sum
  | product
  | unary
  | primary
  /-- Goes on with what begins with a name, which has been passed already and is at `start`. -/
  | named (name : String) (start : Nat)

/-- The place at which something begins that a rule reads, if the rule is called at a place. -/
def Rule.startFrom (place : Nat) : Rule → Nat
  | named _ start => start
  | _ => place

/-- A call of a rule, with the cursor and the count of levels before and after. -/
structure Call where
  rule : Rule
  /-- The number of nested calls in which this one is made. -/
  active : Nat
  cursorBefore : Nat
  depthBefore : Nat
  cursorAfter : Nat
  depthAfter : Nat
  accepted : Bool

/-- The cursor and the count of levels when a rule looks at them. -/
structure Moment where
  /-- The number of nested calls in which the rule is called. -/
  active : Nat
  cursor : Nat
  depth : Nat

structure State where
  cursor : Nat
  depth : Nat
  nodes : NodeTable
  /-- The number of expressions that have been begun. -/
  rounds : Nat
  calls : List Call
  moments : List Moment

namespace State

def initial : State :=
  ⟨0, 0, .empty, 0, [], []⟩

def withCall (call : Call) (state : State) : State :=
  { state with calls := call :: state.calls }

def withMoment (moment : Moment) (state : State) : State :=
  { state with moments := moment :: state.moments }

end State

inductive Failure where
  | refused (error : SyntaxError)
  /-- A token or a node is not there, or a count would go below zero. -/
  | outOfRange
  /-- The run is cut off. -/
  | exhausted

/-- Work on a state that may fail. -/
abbrev Parsing :=
  ExceptT Failure (StateM State)

/-- Takes turns until one of them has a result, but no more than so many. -/
def loop {α β : Type} (turn : α → Parsing (α ⊕ β)) : Nat → α → Parsing β
  | 0, _ => throw .exhausted
  | turns + 1, value => do
      match ← turn value with
      | .inl next => loop turn turns next
      | .inr result => return result

/-- What stays the same while a rule reads. -/
structure Scope where
  tokens : List Token
  limit : Nat
  /-- The number of nested calls in which the rule is called. -/
  active : Nat

namespace Scope

variable (scope : Scope)

def deeper : Scope :=
  { scope with active := scope.active + 1 }

/-- Looks at the state. -/
def look : Parsing State := do
  let state ← get
  let seen := state.withMoment ⟨scope.active, state.cursor, state.depth⟩
  set seen
  return seen

def peek? : Parsing (Option Token) := do
  let state ← scope.look
  return scope.tokens[state.cursor]?

def peekOperator? (precedence : Nat) : Parsing (Option BinaryOp) := do
  let token? ← scope.peek?
  return token?.bind fun token => BinaryOp.atPrecedence? precedence token.kind

def begins (kind : TokenKind) : Parsing Bool := do
  let token? ← scope.peek?
  return token?.any (·.kind = kind)

def advance : Parsing Unit := do
  let state ← scope.look
  set { state with cursor := state.cursor + 1 }

/-- Fails at the token under the cursor, or behind the last one. -/
def refuse {α : Type} (kind : SyntaxErrorKind) : Parsing α := do
  let token? ← scope.peek?
  throw (.refused ⟨kind, token?, token?.elim (Token.endOf scope.tokens) Token.span⟩)

/-- Passes the token under the cursor if it is of a kind. -/
def eat (kind : TokenKind) : Parsing Bool := do
  let found ← scope.begins kind
  if found then
    scope.advance
    return true
  else
    return false

def expect (kind : TokenKind) : Parsing Unit := do
  let found ← scope.eat kind
  if found then return () else scope.refuse (.expected kind)

/-- The span from the token at `start` to the one behind the cursor. -/
def spanFrom (start : Nat) : Parsing Span := do
  let state ← scope.look
  if state.cursor = 0 then
    throw .outOfRange
  else
    match scope.tokens[start]?, scope.tokens[state.cursor - 1]? with
    | some first, some last => return first.span.cover last.span
    | _, _ => throw .outOfRange

/-- Adds a node, of which all operands have to be there, and links these to it. -/
def push (kind : NodeKind) (span : Span) : Parsing Nat := do
  let state ← scope.look
  if ∀ child ∈ kind.children, child < state.nodes.size then
    set { state with nodes := state.nodes.add kind span }
    return state.nodes.size
  else
    throw .outOfRange

def pushFrom (start : Nat) (kind : NodeKind) : Parsing Nat := do
  let span ← scope.spanFrom start
  scope.push kind span

/-- The tokens from `start` up to the cursor. -/
def slice (start : Nat) : Parsing (List Token) := do
  let state ← scope.look
  if start ≤ state.cursor ∧ state.cursor ≤ scope.tokens.length then
    return (scope.tokens.take state.cursor).drop start
  else
    throw .outOfRange

end Scope

/-- Does some work for a rule and puts that on record as a call of the rule. -/
def recorded (scope : Scope) (rule : Rule) (work : Parsing Nat) : Parsing Nat :=
  ExceptT.mk do
    let before ← get
    let result ← work.run
    modify fun after => after.withCall ⟨rule, scope.active, before.cursor, before.depth,
      after.cursor, after.depth, result.isOk⟩
    return result

/-- Does some work and then counts one level less, whatever came of the work. -/
def leaving (work : Parsing Nat) : Parsing Nat :=
  ExceptT.mk do
    let result ← work.run
    let state ← get
    if state.depth = 0 then
      return .error .outOfRange
    else
      set { state with depth := state.depth - 1 }
      return result

section Rules

/-! The rules, given how they call each other and how many turns a loop may take. -/

variable (call : Scope → Rule → Parsing Nat) (turns : Nat) (scope : Scope)

/-- Calls a rule one level deeper, if one level more is allowed. -/
def nested (rule : Rule) : Parsing Nat := do
  let state ← scope.look
  if scope.limit ≤ state.depth then
    scope.refuse (.nestingTooDeep scope.limit)
  else
    set { state with depth := state.depth + 1 }
    leaving (call scope.deeper rule)

/-- Goes on behind a left operand with one operator and its right operand, if there is one. -/
def chainTurn (precedence : Nat) (operand : Rule) (start left : Nat) : Parsing (Nat ⊕ Nat) := do
  match ← scope.peekOperator? precedence with
  | none => return .inr left
  | some operator =>
      scope.advance
      let right ← call scope operand
      let joined ← scope.pushFrom start (.binary operator left right)
      return .inl joined

def chain (precedence : Nat) (operand : Rule) : Parsing Nat := do
  let state ← scope.look
  let left ← call scope operand
  loop (chainTurn call scope precedence operand state.cursor) turns left

def comparison (operand : Rule) : Parsing Nat := do
  let state ← scope.look
  let left ← call scope operand
  match ← scope.peekOperator? BinaryOp.comparisonPrecedence with
  | none => return left
  | some operator =>
      scope.advance
      let right ← call scope operand
      match ← scope.peekOperator? BinaryOp.comparisonPrecedence with
      | some _ => scope.refuse .chainedComparison
      | none => scope.pushFrom state.cursor (.binary operator left right)

def unary : Parsing Nat := do
  let token? ← scope.peek?
  match token?.bind fun token => UnaryOp.ofKind? token.kind with
  | none => call scope .primary
  | some operator =>
      let state ← scope.look
      scope.advance
      let operand ← nested call scope .unary
      scope.pushFrom state.cursor (.unary operator operand)

def literal (start : Nat) (value : Literal) : Parsing Nat := do
  scope.advance
  scope.pushFrom start (.literal value)

def grouped : Parsing Nat := do
  scope.advance
  let inner ← nested call scope .disjunction
  scope.expect .rightParenthesis
  return inner

def primary : Parsing Nat := do
  match ← scope.peek? with
  | none => scope.refuse .expectedExpression
  | some token =>
      let state ← scope.look
      if token.kind.isLiteral then
        match Literal.ofLexeme? token.toLexeme with
        | some value => literal scope state.cursor value
        | none => scope.refuse (.invalidLiteral token.text)
      else if token.kind = .identifier then
        match Literal.ofWord? token.text with
        | some value => literal scope state.cursor value
        | none =>
            scope.advance
            call scope (.named token.text state.cursor)
      else if token.kind = .leftParenthesis then
        grouped call scope
      else
        scope.refuse .expectedExpression

/-- Reads one argument more, and goes on if there is a comma behind it. -/
def argumentTurn (others : List Nat) : Parsing (List Nat ⊕ List Nat) := do
  let argument ← nested call scope .disjunction
  let goesOn ← scope.eat .comma
  if goesOn then return .inl (others ++ [argument]) else return .inr (others ++ [argument])

def argumentList : Parsing (List Nat) := do
  let isEmpty ← scope.begins .rightParenthesis
  if isEmpty then return [] else loop (argumentTurn call scope) turns []

/-- What begins with a name and an opening parenthesis. -/
def application (name : String) (start : Nat) : Parsing Nat := do
  scope.advance
  let arguments ← argumentList call turns scope
  scope.expect .rightParenthesis
  scope.pushFrom start (.call name arguments)

/-- What begins with a name and an opening bracket. -/
def element (name : String) (start : Nat) : Parsing Nat := do
  scope.advance
  let subscript ← nested call scope .disjunction
  scope.expect .rightBracket
  scope.pushFrom start (.index name subscript)

def named (name : String) (start : Nat) : Parsing Nat := do
  let token? ← scope.peek?
  let kind? := token?.map (·.kind)
  if kind? = some .leftParenthesis then
    application call turns scope name start
  else if kind? = some .leftBracket then
    element call scope name start
  else
    scope.pushFrom start (.name name)

def follow : Rule → Parsing Nat
  | .disjunction => chain call turns scope BinaryOp.or.precedence .conjunction
  | .conjunction => chain call turns scope BinaryOp.and.precedence .relation
  | .relation => comparison call scope .sum
  | .sum => chain call turns scope BinaryOp.add.precedence .product
  | .product => chain call turns scope BinaryOp.multiply.precedence .unary
  | .unary => unary call scope
  | .primary => primary call scope
  | .named name start => named call turns scope name start

end Rules

/-- Calls a rule, which may call others, but only so many within each other. Neither may a loop take
more turns. -/
def call : Nat → Scope → Rule → Parsing Nat
  | 0, _, _ => throw .exhausted
  | fuel + 1, scope, rule => recorded scope rule (follow (call fuel) fuel scope rule)

/-- A table of nodes and its root. -/
structure Tree where
  nodes : NodeTable
  root : Nat

/-- The tokens and the tree of one expression. -/
structure Parsed where
  tokens : List Token
  tree : Tree

def Tree.ofPhrase (phrase : Phrase Token) : Tree :=
  ⟨phrase.table, phrase.table.root⟩

def Parsed.ofPhrase (phrase : Phrase Token) : Parsed :=
  ⟨phrase.tokens, .ofPhrase phrase⟩

/-- Reads one expression into a table of its own. -/
def expression (fuel : Nat) (scope : Scope) : Parsing Tree := do
  modify fun state => { state with nodes := .empty }
  let root ← call fuel scope .disjunction
  let state ← scope.look
  set { state with nodes := .empty }
  return ⟨state.nodes, root⟩

/-- Reads one expression more unless the cursor is behind the last token. -/
def expressionTurn (fuel : Nat) (scope : Scope) (others : List Parsed) :
    Parsing (List Parsed ⊕ List Parsed) := do
  let state ← scope.look
  if state.cursor < scope.tokens.length then
    set { state with rounds := state.rounds + 1 }
    let tree ← expression fuel scope
    let tokens ← scope.slice state.cursor
    return .inl (others ++ [⟨tokens, tree⟩])
  else
    return .inr others

def readAll (fuel : Nat) (scope : Scope) : Parsing (List Parsed) :=
  loop (expressionTurn fuel scope) fuel []

/-- Reads one expression that has to be all there is. -/
def readSingle (fuel : Nat) (scope : Scope) : Parsing Tree := do
  let tree ← expression fuel scope
  let token? ← scope.peek?
  if token?.isSome then scope.refuse .trailingInput else return tree

/-- The result of reading one expression after another, and the state at the end of it. -/
def parseAll (fuel limit : Nat) (tokens : List Token) : Except Failure (List Parsed) × State :=
  (readAll fuel ⟨tokens, limit, 0⟩).run.run State.initial

/-- The result of reading a single expression, and the state at the end of it. -/
def parseSingle (fuel : Nat) (tokens : List Token) : Except Failure Tree × State :=
  (readSingle fuel ⟨tokens, defaultLimit, 0⟩).run.run State.initial

end Descent

end JassExpr
