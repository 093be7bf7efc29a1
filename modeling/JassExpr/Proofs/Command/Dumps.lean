import JassExpr.Proofs.Document.ListForms
import JassExpr.Proofs.Phrase.StringTexts
import JassExpr.Proofs.Text.Lines
import JassExpr.Proofs.Token.LineEnds

/-!
# Lines of a dump

A dump ends each of its items with a line feed. Only a string literal or a block comment brings more
of them: every other token, and everything that is printed around the tokens, stays on one line. As
comments are dropped before expressions are read, a dump of expressions has a line for each
expression and one more for each line feed in a string literal of the source.
-/

namespace JassExpr

open Text (lines lineFeeds)

/-- Items take a line each, and one more for each line feed in them. -/
theorem length_lines_unlines (items : List String) :
    (lines (unlines items).toList).length = items.length + lineFeeds items := by
  induction items with
  | nil => rfl
  | cons item items ih =>
      rw [toList_unlines_cons, Text.length_lines_append_feed, ih, List.length_cons,
        Text.lineFeeds_cons]
      omega

theorem lines_unlines {items : List String} (oneLine : ∀ item ∈ items, '\n' ∉ item.toList) :
    lines (unlines items).toList = items.map String.toList := by
  induction items with
  | nil => rfl
  | cons item items ih =>
      obtain ⟨oneLineHere, oneLineRest⟩ := List.forall_mem_cons.mp oneLine
      rw [toList_unlines_cons, Text.lines_append_feed oneLineHere, ih oneLineRest, List.map_cons]

/-! ## Tokens -/

theorem TokenKind.feed_notMem_spelling (kind : TokenKind) :
    '\n' ∉ (kind.spelling?.getD "").toList := by
  cases kind <;> simp [spelling?]

theorem TokenKind.feed_notMem_name (kind : TokenKind) : '\n' ∉ kind.name.toList := by
  cases kind <;> simp [name]

theorem Span.feed_notMem_display (span : Span) : '\n' ∉ span.display.toList := by
  have digits : ∀ number : Nat, '\n' ∉ Nat.toDigits 10 number := fun number member =>
    absurd (Nat.isDigit_of_mem_toDigits (by decide) (by decide) member) (by decide)
  simp [display, digits]

/-- Only a string literal or a block comment has a line feed in it. -/
theorem Lexeme.Written.kind_of_feed {lexeme : Lexeme} {text : List Char}
    (written : lexeme.Written text) (feed : '\n' ∈ lexeme.text.toList) :
    lexeme.kind = .string ∨ lexeme.kind = .comment ∧ ['/', '*'] <+: lexeme.text.toList := by
  rcases written.notMem_or (.inl rfl) with ⟨-, noFeed⟩ | ⟨body, -, -, rfl⟩ | ⟨body, -, rfl, rfl⟩
  · obtain ⟨kind, value⟩ := lexeme
    cases value with
    | none => exact absurd feed kind.feed_notMem_spelling
    | some value => exact absurd feed (noFeed value rfl)
  · exact .inl rfl
  · refine .inr ⟨rfl, body ++ ['*', '/'], ?_⟩
    rw [text_valued, String.toList_ofList]
    rfl

namespace Token

/-- What a dump says about a token before its value. -/
def dumpHead (token : Token) : String :=
  token.span.display ++ "\t" ++ token.kind.name

theorem feed_notMem_dumpHead (token : Token) : '\n' ∉ token.dumpHead.toList := by
  simp [dumpHead, token.span.feed_notMem_display, token.kind.feed_notMem_name]

theorem dumpHead_prefix_dumpLine (token : Token) :
    token.dumpHead.toList <+: token.dumpLine.toList := by
  unfold dumpLine
  split
  · rw [String.toList_append, String.toList_append, List.append_assoc]
    exact List.prefix_append _ _
  · exact List.prefix_rfl

theorem feed_notMem_dumpLine {token : Token} (oneLine : '\n' ∉ token.text.toList) :
    '\n' ∉ token.dumpLine.toList := by
  have noFeed := token.feed_notMem_dumpHead
  unfold dumpLine
  split
  · rename_i value found
    have same : token.text = value := by simp [Lexeme.text, found]
    rw [same] at oneLine
    rw [dumpHead] at noFeed
    simp_all
  · exact noFeed

end Token

/-! ## Expressions -/

/-- However often a line ends within a lexeme, it ends within a string literal. -/
theorem Lexeme.count_spell {lexeme : Lexeme} (written : lexeme.Written lexeme.spell.toList)
    (noComment : lexeme.kind ≠ .comment) :
    lexeme.spell.toList.count '\n' = lineFeeds (stringTexts [lexeme]) := by
  by_cases isString : lexeme.kind = .string
  · rw [stringTexts_of_eq isString, Text.lineFeeds_cons, Text.lineFeeds_nil]
    simp [spell, isString]
  · rw [stringTexts_of_ne isString, Text.lineFeeds_nil, List.count_eq_zero]
    rcases written.notMem_or (.inl rfl) with ⟨noFeed, -⟩ | ⟨body, -, -, same⟩ |
      ⟨body, -, -, same⟩
    · exact noFeed
    · exact absurd (congrArg kind same) isString
    · exact absurd (congrArg kind same) noComment

theorem Piece.count_text {pieces : List (Piece Lexeme)}
    (each : ∀ lexeme ∈ tokens pieces,
      lexeme.Written lexeme.spell.toList ∧ lexeme.kind ≠ .comment) :
    (text pieces).count '\n' = lineFeeds (Lexeme.stringTexts (tokens pieces)) := by
  induction pieces with
  | nil => rfl
  | cons piece rest ih =>
      rw [text, List.flatMap_cons, List.count_append, ← text]
      cases piece with
      | blank =>
          rw [ih each]
          exact Nat.zero_add _
      | written lexeme =>
          obtain ⟨⟨written, noComment⟩, eachRest⟩ := List.forall_mem_cons.mp each
          rw [ih eachRest, tokens, spell, lexeme.count_spell written noComment,
            ← Text.lineFeeds_append, ← Lexeme.stringTexts_append]
          rfl

namespace Expr

theorem kind_head_ne {expr : Expr} (isList : expr.isAtom = false) : expr.head.kind ≠ .string := by
  cases expr with
  | literal value => cases isList
  | unary operator operand => cases operator <;> exact nofun
  | binary operator left right => cases operator <;> exact nofun
  | _ => exact nofun

theorem stringTexts_of_isList {expr : Expr} (isList : expr.isAtom = false) :
    expr.stringTexts = expr.items.flatMap stringTexts := by
  cases expr with
  | literal value => cases isList
  | name name => cases isList
  | call function arguments => rw [stringTexts, stringTextsOfEach_eq_flatMap]; rfl
  | _ => simp [stringTexts, items, operands]

/-- The string literals of an expression are in its list form. -/
theorem stringTexts_listLexemes (expr : Expr) :
    Lexeme.stringTexts expr.listLexemes = expr.stringTexts := by
  induction expr using induction_items with
  | step expr ih =>
      cases isAtom : expr.isAtom with
      | true =>
          rw [listLexemes_of_isAtom isAtom]
          cases expr with
          | literal value => rfl
          | name name => rfl
          | _ => cases isAtom
      | false =>
          have silent : (Lexeme.fixed .leftParenthesis).kind ≠ .string := nofun
          rw [listLexemes_of_isList isAtom, Lexeme.stringTexts_cons_of_ne silent,
            Lexeme.stringTexts_cons_of_ne (kind_head_ne isAtom), Lexeme.stringTexts_append,
            Lexeme.stringTexts_flatMap, stringTexts_of_isList isAtom, List.flatMap_congr ih]
          exact List.append_nil _

end Expr

namespace Phrase

variable {phrase : Phrase Token}

theorem IsScanned.count_format (isScanned : phrase.IsScanned) :
    phrase.expr.format.toList.count '\n' =
      lineFeeds (Lexeme.stringTexts (phrase.tokens.map Token.toLexeme)) := by
  have each := isScanned.grammatical.written_of_mem_canonical isScanned.written
    isScanned.noComment
  rw [← tokens_pieces phrase.expr.canonical] at each
  rw [Expr.toList_format, Piece.count_text each, tokens_pieces,
    isScanned.grammatical.stringTexts_canonical, isScanned.grammatical.stringTexts_tokens]

theorem IsScanned.count_sexpr (isScanned : phrase.IsScanned) :
    phrase.expr.sexpr.toList.count '\n' =
      lineFeeds (Lexeme.stringTexts (phrase.tokens.map Token.toLexeme)) := by
  rw [Expr.toList_sexpr, Piece.count_text isScanned.listed.written_of_mem, ← Expr.listLexemes,
    Expr.stringTexts_listLexemes, isScanned.grammatical.stringTexts_tokens]

end Phrase

/-- No comment is a string literal. -/
theorem stringTexts_stripComments (tokens : List Token) :
    Lexeme.stringTexts ((Token.stripComments tokens).map Token.toLexeme) =
      Lexeme.stringTexts (tokens.map Token.toLexeme) := by
  have both : ∀ kind : TokenKind,
      (decide (kind = .string) && kind != .comment) = decide (kind = .string) := by
    intro kind
    cases kind <;> rfl
  simp [Lexeme.stringTexts, Token.stripComments, List.filter_map, Function.comp_def, both]

/-- Expressions take a line each, and one more for each line feed in a string literal, if that is
what each of them brings. -/
theorem length_lines_expressions {source : String} {found : List Token}
    {phrases : List (Phrase Token)} (scanned : tokenize source = .ok found)
    (parsed : parseSource source = .ok phrases) {print : Expr → String}
    (each : ∀ phrase : Phrase Token, phrase.IsScanned → (print phrase.expr).toList.count '\n' =
      lineFeeds (Lexeme.stringTexts (phrase.tokens.map Token.toLexeme))) :
    (lines (unlines (phrases.map fun phrase => print phrase.expr)).toList).length =
      phrases.length + lineFeeds (Lexeme.stringTexts (found.map Token.toLexeme)) := by
  have isScanned := isScanned_of_parseSource parsed
  obtain ⟨tokens, scannedAgain, accepted⟩ := parseSource_eq_ok_iff.mp parsed
  rw [scanned] at scannedAgain
  obtain rfl := Except.ok.inj scannedAgain
  rw [length_lines_unlines, List.length_map, ← stringTexts_stripComments,
    ← (parseWith_sound accepted).1]
  congr 1
  clear accepted parsed
  induction phrases with
  | nil => rfl
  | cons phrase phrases ih =>
      obtain ⟨⟨isScannedHere, -⟩, isScannedRest⟩ := List.forall_mem_cons.mp isScanned
      rw [List.map_cons, Text.lineFeeds_cons, each phrase isScannedHere, ih isScannedRest,
        List.flatMap_cons, List.map_append, Lexeme.stringTexts_append, Text.lineFeeds_append]

/-! ## Commands -/

theorem runSource_tokens_eq_ok_iff {source : String} {outcome : Outcome} :
    Command.tokens.runSource source = .ok outcome ↔
      ∃ found, tokenize source = .ok found ∧
        outcome = ⟨unlines (found.map Token.dumpLine), "", false⟩ := by
  rw [Command.runSource]
  cases tokenize source with
  | error error => simp
  | ok found => simp [eq_comm]

theorem runSource_tree_eq_ok_iff {source : String} {outcome : Outcome} :
    Command.tree.runSource source = .ok outcome ↔
      ∃ phrases, parseSource source = .ok phrases ∧
        outcome = ⟨unlines (phrases.map fun phrase => phrase.expr.sexpr), "", false⟩ := by
  rw [Command.runSource]
  cases parseSource source with
  | error error => simp [Except.map]
  | ok phrases => simp [Except.map, eq_comm]

/-- The heads of the lines of a token dump, if each token stays on its line. -/
theorem forall₂_lines_dumpLine {found : List Token}
    (oneLine : ∀ token ∈ found, '\n' ∉ token.text.toList) :
    List.Forall₂ (fun line token => token.dumpHead.toList <+: line)
      (lines (unlines (found.map Token.dumpLine)).toList) found := by
  have eachLine : ∀ item ∈ found.map Token.dumpLine, '\n' ∉ item.toList :=
    List.forall_mem_map.mpr fun token member => token.feed_notMem_dumpLine (oneLine token member)
  rw [lines_unlines eachLine, List.map_map, List.forall₂_map_left_iff, List.forall₂_same]
  exact fun token _ => token.dumpHead_prefix_dumpLine

/-- A string literal is printed with the line feed in it. -/
theorem runSource_format_feed :
    ∃ literal : Phrase Token,
      tokenize "\"a\nb\"" = .ok [⟨.valued .string "a\nb", ⟨0, 5⟩⟩] ∧
        parseSource "\"a\nb\"" = .ok [literal] ∧
          Command.format.runSource "\"a\nb\"" = .ok ⟨"\"a\nb\"\n", "", false⟩ := by
  let literal : Phrase Token :=
    .literal ⟨.valued .string "a\nb", ⟨0, 5⟩⟩ (.string "a\nb" "a\nb")
  have scanned : tokenize "\"a\nb\"" = .ok literal.tokens := by cbv
  have parsed : parseSource "\"a\nb\"" = .ok [literal] :=
    parseSource_eq_ok_iff.mpr ⟨_, scanned, parseWith_tokens (.literal (by cbv)) (by decide)⟩
  exact ⟨literal, scanned, parsed, runSource_format_eq_ok_iff.mpr ⟨_, parsed, by cbv⟩⟩

/-- A dump of the tokens of an accepted source has a line for each token, in their order, if no
string literal and no comment has a line feed in it. A dump of its expressions, as lists or in
canonical form, has a line for each expression and one more for each line feed in the string
literals of the source. -/
theorem lines_runSource {command : Command} {source : String} {outcome : Outcome}
    (accepted : command.runSource source = .ok outcome) :
    ∃ found, tokenize source = .ok found ∧
      (command = .tokens →
        (∀ token ∈ found, token.kind = .string ∨ token.kind = .comment →
          '\n' ∉ token.text.toList) →
        List.Forall₂ (fun line token => token.dumpHead.toList <+: line)
          (lines outcome.stdout.toList) found) ∧
      (command = .tree ∨ command = .format →
        ∃ phrases, parseSource source = .ok phrases ∧
          (lines outcome.stdout.toList).length =
            phrases.length + lineFeeds (Lexeme.stringTexts (found.map Token.toLexeme))) := by
  have scannedOf : ∀ {phrases}, parseSource source = .ok phrases →
      ∃ found, tokenize source = .ok found := fun parsed =>
    (parseSource_eq_ok_iff.mp parsed).imp fun _ => And.left
  cases command with
  | tokens =>
      obtain ⟨found, scanned, rfl⟩ := runSource_tokens_eq_ok_iff.mp accepted
      refine ⟨found, scanned, fun _ oneLine => forall₂_lines_dumpLine ?_, by simp⟩
      intro token member feed
      obtain ⟨text, written⟩ := (tokenize_eq_ok_iff.mp scanned).exists_written token member
      exact oneLine token member ((written.kind_of_feed feed).imp_right And.left) feed
  | tree =>
      obtain ⟨phrases, parsed, rfl⟩ := runSource_tree_eq_ok_iff.mp accepted
      obtain ⟨found, scanned⟩ := scannedOf parsed
      exact ⟨found, scanned, by simp, fun _ => ⟨phrases, parsed,
        length_lines_expressions scanned parsed fun phrase => Phrase.IsScanned.count_sexpr⟩⟩
  | format =>
      obtain ⟨phrases, parsed, rfl⟩ := runSource_format_eq_ok_iff.mp accepted
      obtain ⟨found, scanned⟩ := scannedOf parsed
      exact ⟨found, scanned, by simp, fun _ => ⟨phrases, parsed,
        length_lines_expressions scanned parsed fun phrase => Phrase.IsScanned.count_format⟩⟩
  | validate =>
      cases parsed : parseSource source with
      | error error => simp [Command.runSource, parsed, Except.map] at accepted
      | ok phrases =>
          obtain ⟨found, scanned⟩ := scannedOf parsed
          exact ⟨found, scanned, by simp, by simp⟩

/-- Two tokens on a line of their own, and a string literal that makes two lines of one
expression. -/
theorem lines_runSource_string :
    (Command.tokens.runSource "a // b" =
        .ok ⟨"0..1\tIdentifier\ta\n2..6\tComment\t// b\n", "", false⟩ ∧
      List.Forall₂ (fun line (token : Token) => token.dumpHead.toList <+: line)
        (lines "0..1\tIdentifier\ta\n2..6\tComment\t// b\n".toList)
        [⟨.valued .identifier "a", ⟨0, 1⟩⟩, ⟨.valued .comment "// b", ⟨2, 6⟩⟩]) ∧
    Command.format.runSource "\"a\nb\"" = .ok ⟨"\"a\nb\"\n", "", false⟩ ∧
      ∃ phrases, parseSource "\"a\nb\"" = .ok phrases ∧
        (lines "\"a\nb\"\n".toList).length =
          phrases.length + lineFeeds (Lexeme.stringTexts [.valued .string "a\nb"]) := by
  obtain ⟨literal, scanned, parsed, formatted⟩ := runSource_format_feed
  have scannedTwo : tokenize "a // b" =
      .ok [⟨.valued .identifier "a", ⟨0, 1⟩⟩, ⟨.valued .comment "// b", ⟨2, 6⟩⟩] := by cbv
  have dumped : Command.tokens.runSource "a // b" =
      .ok ⟨"0..1\tIdentifier\ta\n2..6\tComment\t// b\n", "", false⟩ :=
    runSource_tokens_eq_ok_iff.mpr ⟨_, scannedTwo, by cbv⟩
  refine ⟨⟨dumped, ?_⟩, formatted, ?_⟩
  · obtain ⟨found, scannedAgain, heads, -⟩ := lines_runSource dumped
    rw [scannedTwo] at scannedAgain
    obtain rfl := Except.ok.inj scannedAgain
    exact heads rfl (by decide)
  · obtain ⟨found, scannedAgain, -, count⟩ := lines_runSource formatted
    rw [scanned] at scannedAgain
    obtain rfl := Except.ok.inj scannedAgain
    exact count (.inr rfl)

/-- A string literal that goes over two lines does so in a dump of its expression as well. -/
theorem not_lines_runSource :
    ¬∀ (command : Command) (source : String) (outcome : Outcome),
      command.runSource source = .ok outcome →
      ∃ found, tokenize source = .ok found ∧
        (command = .tokens →
          List.Forall₂ (fun line token => token.dumpHead.toList <+: line)
            (lines outcome.stdout.toList) found) ∧
        (command = .tree ∨ command = .format →
          ∃ phrases, parseSource source = .ok phrases ∧
            (lines outcome.stdout.toList).length = phrases.length) := by
  intro eachOnItsLine
  obtain ⟨literal, -, parsed, formatted⟩ := runSource_format_feed
  obtain ⟨-, -, -, count⟩ := eachOnItsLine _ _ _ formatted
  obtain ⟨phrases, parsedAgain, same⟩ := count (.inr rfl)
  rw [parsed] at parsedAgain
  obtain rfl := Except.ok.inj parsedAgain
  rw [List.length_singleton] at same
  exact absurd same (by decide)

end JassExpr
