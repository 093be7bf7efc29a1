import JassExpr.Document.Basic
import JassExpr.Phrase.NodeTable

/-!
# Events while reading a source

Reading a source can be followed step by step: each token that is cut, the end of the scan or the
error that ends it, each expression that is read, and the error that ends the reading.
-/

namespace JassExpr

/-- The steps of reading that can be followed. -/
inductive Event where
  /-- A token was cut. -/
  | cut (token : Token)
  /-- So many bytes were cut into so many tokens. -/
  | scanned (bytes tokens : Nat)
  /-- The scan ended with a fault at an offset. -/
  | lexicalError (kind : LexErrorKind) (offset : Nat)
  /-- The expression of an index was read; it has a place and a number of nodes. -/
  | expression (index : Nat) (span : Span) (nodes : Nat)
  /-- Reading ended with an error at a place. -/
  | syntacticError (kind : SyntaxErrorKind) (span : Span)
deriving DecidableEq

/-- The two steps in which a source is read. -/
inductive Stage where
  | scanning
  | reading
deriving DecidableEq

/-- How much is told: every token, or only the outcome of each step. -/
inductive Detail where
  | fine
  | coarse
deriving DecidableEq

namespace Event

def stage : Event → Stage
  | cut _ | scanned _ _ | lexicalError _ _ => .scanning
  | expression _ _ _ | syntacticError _ _ => .reading

def detail : Event → Detail
  | cut _ => .fine
  | _ => .coarse

def message : Event → String
  | cut token => "token " ++ token.kind.name ++ " at " ++ token.span.display
  | scanned bytes tokens =>
      "tokenized " ++ toString bytes ++ " bytes into " ++ toString tokens ++ " tokens"
  | lexicalError kind offset =>
      "lex error at offset " ++ toString offset ++ ": " ++ kind.message
  | expression index span nodes =>
      "parsed expression " ++ toString index ++ " at " ++ span.display ++ " (" ++
        toString nodes ++ " nodes)"
  | syntacticError kind span =>
      "syntax error at " ++ span.display ++ ": " ++ kind.message

/-- The events of reading phrases of which the first has the given index. -/
def ofPhrases (index : Nat) : List (Phrase Token) → List Event
  | [] => []
  | phrase :: rest =>
      expression index phrase.span phrase.size :: ofPhrases (index + 1) rest

def ofTokens (tokens : List Token) : List Event :=
  let reading := Reading.ofTokens (Production.expression defaultLimit) tokens
  ofPhrases 0 reading.phrases ++
    match reading.stop? with
    | some stop =>
        let error := stop.error tokens
        [syntacticError error.kind error.span]
    | none => []

def ofSource (source : String) : List Event :=
  let scan := Scan.ofSource source
  scan.tokens.map cut ++
    match scan.fault? with
    | some (kind, offset) => [lexicalError kind offset]
    | none =>
        scanned (Source.byteLength source.toList) scan.tokens.length ::
          ofTokens (Token.stripComments scan.tokens)

end Event

end JassExpr
