import JassExpr.Command
import JassExpr.Proofs.Phrase.Adjacent
import JassExpr.Proofs.Phrase.RoundTrip

/-!
# Formatting a file

Each expression of a file is formatted by itself, on a line of its own. The breaks between the lines
are blanks like any others, so what was printed has the same expressions just when no line goes on
with the one before it. If none does, formatting what was printed changes nothing.
-/

namespace JassExpr

theorem parseSource_eq_ok_iff {source : String} {phrases : List (Phrase Token)} :
    parseSource source = .ok phrases ↔
      ∃ tokens, tokenize source = .ok tokens ∧
        parseWith defaultLimit (Token.stripComments tokens) = .ok phrases := by
  unfold parseSource parse
  split
  · simp_all
  · split <;> simp_all

/-- A phrase of tokens as which some text is scanned, without comments among them. -/
structure Phrase.IsScanned (phrase : Phrase Token) : Prop where
  grammatical : phrase.Grammatical Token.toLexeme
  written : ∀ token ∈ phrase.tokens, ∃ text, token.toLexeme.Written text
  noComment : ∀ token ∈ phrase.tokens, token.kind ≠ .comment

theorem isScanned_of_parseSource {source : String} {phrases : List (Phrase Token)}
    (found : parseSource source = .ok phrases) :
    ∀ phrase ∈ phrases, phrase.IsScanned ∧ phrase.depth ≤ defaultLimit := by
  obtain ⟨tokens, scanned, parsed⟩ := parseSource_eq_ok_iff.mp found
  obtain ⟨whole, each⟩ := parseWith_sound parsed
  intro phrase member
  have stripped : ∀ token ∈ phrase.tokens, token ∈ tokens ∧ token.kind ≠ .comment := by
    intro token inPhrase
    have inAll : token ∈ Token.stripComments tokens := by
      rw [← whole]
      exact List.mem_flatMap_of_mem member inPhrase
    simpa [Token.stripComments] using inAll
  obtain ⟨grammatical, shallow⟩ := each phrase member
  refine ⟨⟨grammatical, ?_, fun token inPhrase => (stripped token inPhrase).2⟩, shallow⟩
  intro token inPhrase
  exact (tokenize_eq_ok_iff.mp scanned).exists_written token (stripped token inPhrase).1

theorem toList_unlines_cons (line : String) (lines : List String) :
    (unlines (line :: lines)).toList = line.toList ++ '\n' :: (unlines lines).toList := by
  simp [unlines]

/-- The lines on which expressions are printed. -/
def formattedLines (phrases : List (Phrase Token)) : String :=
  unlines (phrases.map fun phrase => phrase.expr.format)

/-- Expressions on lines of their own are laid out as the tokens of their canonical phrases. -/
theorem exists_laid_formattedLines {phrases : List (Phrase Token)} {limit : Nat}
    (each : ∀ phrase ∈ phrases, phrase.IsScanned ∧ phrase.depth ≤ limit) (offset : Nat) :
    ∃ again : List (Phrase Token),
      Laid offset (formattedLines phrases).toList (again.flatMap Phrase.tokens) ∧
        again.map Phrase.expr = phrases.map Phrase.expr ∧
          ∀ line ∈ again, (line.IsCanonical ∧ line.depth ≤ limit) ∧
            ∀ token ∈ line.tokens, token.kind ≠ .comment := by
  induction phrases generalizing offset with
  | nil => exact ⟨[], .empty, rfl, by simp⟩
  | cons phrase phrases ih =>
      obtain ⟨⟨isScanned, shallow⟩, eachRest⟩ := List.forall_mem_cons.mp each
      obtain ⟨formatted, laid, carried⟩ := isScanned.grammatical.exists_laid_format
        isScanned.written isScanned.noComment offset
      obtain ⟨line, rfl, isCanonical, sameExpr, noDeeper⟩ :=
        isScanned.grammatical.exists_isCanonical carried
      obtain ⟨lines, laidRest, sameRest, eachLine⟩ :=
        ih eachRest (offset + Source.byteLength phrase.expr.format.toList + 1)
      refine ⟨line :: lines, ?_, by simp [sameExpr, sameRest], ?_⟩
      · rw [formattedLines, List.map_cons, toList_unlines_cons, List.flatMap_cons]
        exact laid.append_line laidRest
      · refine List.forall_mem_cons.mpr
          ⟨⟨⟨isCanonical, Nat.le_trans noDeeper shallow⟩, ?_⟩, eachLine⟩
        intro token inLine
        have inCanonical : token.toLexeme ∈ phrase.expr.canonical.tokens := by
          rw [← carried]
          exact List.mem_map_of_mem inLine
        obtain ⟨original, member, same⟩ := isScanned.grammatical.exists_plain_eq inCanonical
        rw [← same, Lexeme.kind_plain]
        exact isScanned.noComment original member

/-- What was printed is scanned as the tokens of the canonical phrases. -/
theorem exists_tokenize_formattedLines {phrases : List (Phrase Token)} {limit : Nat}
    (each : ∀ phrase ∈ phrases, phrase.IsScanned ∧ phrase.depth ≤ limit) :
    ∃ again : List (Phrase Token),
      tokenize (formattedLines phrases) = .ok (again.flatMap Phrase.tokens) ∧
        Token.stripComments (again.flatMap Phrase.tokens) = again.flatMap Phrase.tokens ∧
          again.map Phrase.expr = phrases.map Phrase.expr ∧
            ∀ line ∈ again, line.IsCanonical ∧ line.depth ≤ limit := by
  obtain ⟨again, laid, sameExprs, eachLine⟩ := exists_laid_formattedLines each 0
  have known : ∀ token ∈ (again.flatMap Phrase.tokens).head?, token.kind ≠ .other := by
    intro token member
    cases again with
    | nil => cases member
    | cons line lines =>
        have isCanonical := (eachLine line List.mem_cons_self).1.1
        refine isCanonical.grammatical.kind_ne_other ?_
        rw [List.flatMap_cons, List.head?_append, line.head?_tokens] at member
        rw [line.head?_tokens]
        exact member
  refine ⟨again, ?_, ?_, sameExprs, fun line member => (eachLine line member).1⟩
  · rw [tokenize_eq_ok_iff, Source.splitMark_of_head?_ne (laid.head?_ne_mark known)]
    exact laid
  · rw [Token.stripComments, List.filter_eq_self]
    intro token member
    obtain ⟨line, inLines, inLine⟩ := List.mem_flatMap.mp member
    simpa using (eachLine line inLines).2 token inLine

/-- What was printed is read as the expressions that were printed just when no line goes on with
the one before it. -/
theorem parseSource_formattedLines_iff {source : String} {phrases : List (Phrase Token)}
    (found : parseSource source = .ok phrases) :
    (∃ again, parseSource (formattedLines phrases) = .ok again ∧
      again.map Phrase.expr = phrases.map Phrase.expr) ↔
        Expr.Apart (phrases.map Phrase.expr) := by
  obtain ⟨lines, scanned, noComments, sameExprs, each⟩ :=
    exists_tokenize_formattedLines (isScanned_of_parseSource found)
  rw [← sameExprs, ← parseWith_canonical_iff each]
  refine exists_congr fun again => and_congr_left fun _ => ?_
  rw [parseSource_eq_ok_iff]
  constructor
  · rintro ⟨tokens, scannedAgain, parsed⟩
    rw [scanned] at scannedAgain
    cases scannedAgain
    rwa [noComments] at parsed
  · intro parsed
    exact ⟨_, scanned, by rwa [noComments]⟩

theorem runSource_format_eq_ok_iff {source : String} {outcome : Outcome} :
    Command.format.runSource source = .ok outcome ↔
      ∃ phrases, parseSource source = .ok phrases ∧
        outcome = ⟨formattedLines phrases, "", false⟩ := by
  rw [Command.runSource]
  cases parseSource source with
  | error error => simp [Except.map]
  | ok phrases => simp [Except.map, formattedLines, eq_comm]

/-- What is printed for a file is read as the expressions of that file just when none of them fuses
with the next. Their trees are then the same but for places, and formatting again prints the
same. -/
theorem runSource_format {source : String} {outcome : Outcome}
    (accepted : Command.format.runSource source = .ok outcome) :
    ∃ phrases, parseSource source = .ok phrases ∧
      ((∃ again, parseSource outcome.stdout = .ok again ∧
        again.map Phrase.expr = phrases.map Phrase.expr) ↔
          Expr.Apart (phrases.map Phrase.expr)) ∧
      (Expr.Apart (phrases.map Phrase.expr) →
        ∃ again, parseSource outcome.stdout = .ok again ∧
          again.map (fun phrase => phrase.table.shape) =
            phrases.map (fun phrase => phrase.table.shape) ∧
          Command.format.runSource outcome.stdout = .ok outcome) := by
  obtain ⟨phrases, found, rfl⟩ := runSource_format_eq_ok_iff.mp accepted
  have again_iff := parseSource_formattedLines_iff found
  refine ⟨phrases, found, again_iff, fun apart => ?_⟩
  obtain ⟨again, foundAgain, sameExprs⟩ := again_iff.mpr apart
  refine ⟨again, foundAgain, ?_, ?_⟩
  · have shapes := congrArg (List.map (Expr.shapeFrom 0 none)) sameExprs
    simpa [Function.comp_def, Phrase.shape_table] using shapes
  · have sameLines : formattedLines again = formattedLines phrases := by
      have formats := congrArg (List.map Expr.format) sameExprs
      rw [List.map_map, List.map_map] at formats
      exact congrArg unlines formats
    exact runSource_format_eq_ok_iff.mpr ⟨again, foundAgain, by rw [sameLines]⟩

theorem parseSource_of_inRow {source : String} {phrases : List (Phrase Token)}
    (scanned : tokenize source = .ok (phrases.flatMap Phrase.tokens))
    (noComments : Token.stripComments (phrases.flatMap Phrase.tokens) =
      phrases.flatMap Phrase.tokens)
    (row : Phrase.InRow defaultLimit phrases) : parseSource source = .ok phrases :=
  parseSource_eq_ok_iff.mpr ⟨_, scanned, parseWith_eq_ok_iff.mpr ⟨noComments.symm, row⟩⟩

/-- A group that is not needed, in front of a variable. -/
theorem runSource_format_group :
    Command.format.runSource "(a) b" = .ok ⟨"a\nb\n", "", false⟩ ∧
      ∃ phrases, parseSource "(a) b" = .ok phrases ∧
        ((∃ again, parseSource "a\nb\n" = .ok again ∧
          again.map Phrase.expr = phrases.map Phrase.expr) ↔
            Expr.Apart (phrases.map Phrase.expr)) ∧
        (Expr.Apart (phrases.map Phrase.expr) →
          ∃ again, parseSource "a\nb\n" = .ok again ∧
            again.map (fun phrase => phrase.table.shape) =
              phrases.map (fun phrase => phrase.table.shape) ∧
            Command.format.runSource "a\nb\n" = .ok ⟨"a\nb\n", "", false⟩) := by
  let inner : Phrase Token := .name ⟨.valued .identifier "a", ⟨1, 2⟩⟩ "a"
  let group : Phrase Token :=
    .group ⟨.fixed .leftParenthesis, ⟨0, 1⟩⟩ inner ⟨.fixed .rightParenthesis, ⟨2, 3⟩⟩
  let name : Phrase Token := .name ⟨.valued .identifier "b", ⟨4, 5⟩⟩ "b"
  have isName : name.Grammatical Token.toLexeme := .name rfl (by decide) rfl
  have isGroup : group.Grammatical Token.toLexeme :=
    .group rfl rfl (.name rfl (by decide) rfl)
  have row : Phrase.InRow defaultLimit [group, name] :=
    .cons ⟨isGroup, by decide, by decide, .of_notOperator rfl (by simp [group, Phrase.endsInName])⟩
      (.cons ⟨isName, by decide, by decide, .nil⟩ .nil)
  have found : parseSource "(a) b" = .ok [group, name] :=
    parseSource_of_inRow (by cbv) (by cbv) row
  have accepted : Command.format.runSource "(a) b" = .ok ⟨"a\nb\n", "", false⟩ :=
    runSource_format_eq_ok_iff.mpr ⟨_, found, by cbv⟩
  exact ⟨accepted, runSource_format accepted⟩

/-- A negative number in parentheses is printed without them, and becomes the operand of a
subtraction: what is printed has one expression instead of two. -/
theorem not_runSource_format_preserves :
    ¬∀ source outcome, Command.format.runSource source = .ok outcome →
      ∃ phrases again, parseSource source = .ok phrases ∧ parseSource outcome.stdout = .ok again ∧
        again.map (fun phrase => phrase.table.shape) =
          phrases.map (fun phrase => phrase.table.shape) ∧
        Command.format.runSource outcome.stdout = .ok outcome := by
  intro preserves
  let one : Phrase Token := .literal ⟨.valued .integer "1", ⟨0, 1⟩⟩ (.integer .decimal "1" 1)
  let two (start : Nat) : Phrase Token :=
    .literal ⟨.valued .integer "2", ⟨start, start + 1⟩⟩ (.integer .decimal "2" 2)
  let minus (start : Nat) : Token := ⟨.fixed .minus, ⟨start, start + 1⟩⟩
  let group : Phrase Token := .group ⟨.fixed .leftParenthesis, ⟨2, 3⟩⟩
    (.unary .minus (minus 3) (two 4)) ⟨.fixed .rightParenthesis, ⟨5, 6⟩⟩
  let difference : Phrase Token := .binary .subtract one (minus 2) (two 3)
  have isOne : one.Grammatical Token.toLexeme := .literal (by cbv)
  have isTwo : ∀ start, (two start).Grammatical Token.toLexeme := fun start => .literal (by cbv)
  have isGroup : group.Grammatical Token.toLexeme :=
    .group rfl rfl (.unary rfl (by decide) (isTwo 4))
  have isDifference : difference.Grammatical Token.toLexeme :=
    .binary rfl (by decide) (by decide) isOne (isTwo 3)
  have row : Phrase.InRow defaultLimit [one, group] :=
    .cons ⟨isOne, by decide, by decide, .of_notOperator rfl (by simp [one, Phrase.endsInName])⟩
      (.cons ⟨isGroup, by decide, by decide, .nil⟩ .nil)
  have found : parseSource "1 (-2)" = .ok [one, group] :=
    parseSource_of_inRow (by cbv) (by cbv) row
  have foundAgain : parseSource "1\n-2\n" = .ok [difference] :=
    parseSource_of_inRow (by cbv) (by cbv)
      (.cons ⟨isDifference, by decide, by decide, .nil⟩ .nil)
  have accepted : Command.format.runSource "1 (-2)" = .ok ⟨"1\n-2\n", "", false⟩ :=
    runSource_format_eq_ok_iff.mpr ⟨_, found, by cbv⟩
  obtain ⟨phrases, again, isFound, isFoundAgain, same, -⟩ := preserves _ _ accepted
  rw [found] at isFound
  rw [foundAgain] at isFoundAgain
  cases isFound
  cases isFoundAgain
  cases congrArg List.length same

end JassExpr
