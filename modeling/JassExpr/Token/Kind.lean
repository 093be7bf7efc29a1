/-!
# Kinds of tokens

Operators, brackets and the three word operators are always written the same way. All other
kinds stand for a class of texts and need a value to say which one it is.
-/

namespace JassExpr

inductive TokenKind where
  | identifier
  | plus
  | minus
  | star
  | slash
  | leftParenthesis
  | rightParenthesis
  | leftBracket
  | rightBracket
  | hash
  | comma
  | assign
  | equal
  | notEqual
  | greater
  | greaterEqual
  | less
  | lessEqual
  | integer
  | hexInteger
  | octalInteger
  | real
  | quotedInteger
  | string
  | and
  | or
  | not
  | comment
  | other
deriving DecidableEq

namespace TokenKind

/-- The one text of a kind that is always written the same way. -/
def spelling? : TokenKind → Option String
  | plus => some "+"
  | minus => some "-"
  | star => some "*"
  | slash => some "/"
  | leftParenthesis => some "("
  | rightParenthesis => some ")"
  | leftBracket => some "["
  | rightBracket => some "]"
  | hash => some "#"
  | comma => some ","
  | assign => some "="
  | equal => some "=="
  | notEqual => some "!="
  | greater => some ">"
  | greaterEqual => some ">="
  | less => some "<"
  | lessEqual => some "<="
  | and => some "and"
  | or => some "or"
  | not => some "not"
  | identifier | integer | hexInteger | octalInteger | real | quotedInteger | string
  | comment | other => none

/-- The kinds whose tokens stand for a value. -/
def isLiteral : TokenKind → Bool
  | integer | hexInteger | octalInteger | real | quotedInteger | string => true
  | _ => false

/-- The name of a kind in token dumps. -/
def name : TokenKind → String
  | identifier => "Identifier"
  | plus => "Plus"
  | minus => "Minus"
  | star => "Star"
  | slash => "Slash"
  | leftParenthesis => "LParen"
  | rightParenthesis => "RParen"
  | leftBracket => "LBracket"
  | rightBracket => "RBracket"
  | hash => "Hash"
  | comma => "Comma"
  | assign => "Assign"
  | equal => "Eq"
  | notEqual => "Ne"
  | greater => "Gt"
  | greaterEqual => "Ge"
  | less => "Lt"
  | lessEqual => "Le"
  | integer => "Int"
  | hexInteger => "HexInt"
  | octalInteger => "OctalInt"
  | real => "Real"
  | quotedInteger => "QuotedInt"
  | string => "String"
  | and => "And"
  | or => "Or"
  | not => "Not"
  | comment => "Comment"
  | other => "Other"

/-- What a message calls a kind that has no spelling of its own. -/
def description : TokenKind → String
  | identifier => "identifier"
  | integer => "integer"
  | hexInteger => "hex integer"
  | octalInteger => "octal integer"
  | real => "real"
  | quotedInteger => "quoted integer"
  | string => "string"
  | comment => "comment"
  | _ => "character"

/-- A kind as messages show it: its spelling in quotes, or else its description. -/
def display (kind : TokenKind) : String :=
  match kind.spelling? with
  | some spelling => "'" ++ spelling ++ "'"
  | none => kind.description

end TokenKind

end JassExpr
