import JassExpr.Phrase.Layout
import JassExpr.Proofs.Phrase.Canonical
import JassExpr.Proofs.Token.Laid

/-!
# The canonical text is laid out as its tokens

Written side by side, some lexemes would become one. The pieces of a canonical phrase keep them
apart: between a word, a number or an operator and what follows it there is a blank, a bracket, a
comma or a sign, and none of these is taken for more of what stands in front of it.
-/

namespace JassExpr

/-- The kinds that attract nothing that follows them and are attracted by nothing. -/
def TokenKind.isSolid : TokenKind → Bool
  | .leftParenthesis | .rightParenthesis | .leftBracket | .rightBracket | .comma | .plus
  | .minus => true
  | _ => false

theorem TokenKind.Ends.of_isSolid {kind : TokenKind} {text rest : List Char}
    (solid : kind.isSolid = true) : kind.Ends text rest := by
  refine .of_apart ?_ ?_
  · rintro rfl
    cases solid
  · intro next _
    cases kind <;> first | rfl | cases solid

namespace Lexeme

theorem spell_fixed {kind : TokenKind} {spelling : String}
    (spelled : kind.spelling? = some spelling) : (fixed kind).spell = spelling := by
  cases kind <;> cases spelled <;> rfl

theorem kind_valued (kind : TokenKind) (value : String) : (valued kind value).kind = kind :=
  rfl

/-- A lexeme that some text writes is written by its plainest spelling as well. -/
theorem Written.spell {lexeme : Lexeme} {text : List Char} (written : lexeme.Written text) :
    lexeme.Written lexeme.spell.toList := by
  cases written with
  | fixed spelled =>
      rw [spell_fixed spelled, String.toList_ofList]
      exact .fixed spelled
  | hexadecimal marked nonempty hexadecimal =>
      have announced : ['0', 'x'] ∈ hexadecimalMarks := List.mem_cons_self
      simpa [Lexeme.spell, kind_valued] using Written.hexadecimal announced nonempty hexadecimal
  | octal nonempty octal =>
      simpa [Lexeme.spell, kind_valued] using Written.octal nonempty octal
  | quotedInteger alphanumeric =>
      simpa [Lexeme.spell, kind_valued] using Written.quotedInteger alphanumeric
  | string escaped => simpa [Lexeme.spell, kind_valued] using Written.string escaped
  | identifier starts continues notOperator =>
      rw [Lexeme.spell, kind_valued, text_valued, String.toList_ofList]
      exact .identifier starts continues notOperator
  | integer decimal =>
      rw [Lexeme.spell, kind_valued, text_valued, String.toList_ofList]
      exact .integer decimal
  | real decimal nonempty digits =>
      rw [Lexeme.spell, kind_valued, text_valued, String.toList_ofList]
      exact .real decimal nonempty digits
  | lineComment oneLine =>
      rw [Lexeme.spell, kind_valued, text_valued, String.toList_ofList]
      exact .lineComment oneLine
  | blockComment unclosed =>
      rw [Lexeme.spell, kind_valued, text_valued, String.toList_ofList]
      exact .blockComment unclosed
  | other unclaimed =>
      rw [Lexeme.spell, kind_valued, text_valued, String.toList_singleton]
      exact .other unclaimed

/-- A lexeme that is written and has no fixed spelling has its text as value. -/
theorem Written.valued_text {lexeme : Lexeme} {text : List Char} (written : lexeme.Written text)
    (unspelled : lexeme.kind.spelling? = none) :
    valued lexeme.kind lexeme.text = lexeme := by
  cases written with
  | fixed spelled => exact absurd (spelled.symm.trans unspelled) (by simp)
  | _ => rfl

/-- What writes a solid lexeme begins with something that no lexeme in front of it attracts. -/
theorem Written.head_of_isSolid {lexeme : Lexeme} {text : List Char}
    (written : lexeme.Written text) (solid : lexeme.kind.isSolid = true) :
    ∃ first rest, text = first :: rest ∧ Cut.continuesWord first = false ∧ first ≠ '=' ∧
      first ≠ '/' ∧ first ≠ '*' ∧ first ≠ '.' := by
  cases written with
  | @fixed kind text spelled =>
      have letters : kind.spelling?.map String.toList = some text := by simp [spelled]
      change kind.isSolid = true at solid
      cases kind <;> cases solid <;> cases letters <;> exact ⟨_, _, rfl, by decide⟩
  | _ => cases solid

end Lexeme

namespace Piece

/-- The text that some pieces make. -/
def text (pieces : List (Piece Lexeme)) : List Char :=
  pieces.flatMap fun piece => piece.spell.toList

/-- Whether some pieces begin with none that would be taken for more of what stands in front. -/
def Delimited : List (Piece Lexeme) → Prop
  | .written lexeme :: _ => lexeme.kind.isSolid = true
  | _ => True

/-- Of any two lexemes that stand side by side one is solid. -/
def Separate : List (Piece Lexeme) → Prop
  | [] => True
  | .blank :: rest => Separate rest
  | .written lexeme :: rest =>
      (lexeme.kind.isSolid = true ∨ Delimited rest) ∧ Separate rest

/-- Pieces that keep their lexemes apart are laid out as these lexemes. -/
theorem exists_laid {pieces : List (Piece Lexeme)}
    (written : ∀ lexeme ∈ tokens pieces, lexeme.Written lexeme.spell.toList)
    (noComment : ∀ lexeme ∈ tokens pieces, lexeme.kind ≠ .comment) (separate : Separate pieces)
    (offset : Nat) :
    ∃ laid, Laid offset (text pieces) laid ∧ laid.map Token.toLexeme = tokens pieces := by
  induction pieces generalizing offset with
  | nil => exact ⟨[], .empty, rfl⟩
  | cons piece rest ih =>
      cases piece with
      | blank =>
          obtain ⟨laid, isLaid, same⟩ := ih written noComment separate (offset + 1)
          exact ⟨laid, .blank rfl isLaid, same⟩
      | written lexeme =>
          obtain ⟨writtenHere, writtenRest⟩ := List.forall_mem_cons.mp written
          obtain ⟨noCommentHere, noCommentRest⟩ := List.forall_mem_cons.mp noComment
          obtain ⟨apart, separateRest⟩ := separate
          obtain ⟨laid, isLaid, same⟩ := ih writtenRest noCommentRest separateRest
            (offset + Source.byteLength lexeme.spell.toList)
          refine ⟨_ :: laid, .token writtenHere ?_ isLaid, congrArg (lexeme :: ·) same⟩
          rcases apart with solid | delimited
          · exact .of_isSolid solid
          -- Only the first character of what follows counts, and it depends on the next piece.
          refine .of_delimiter ?_ fun isComment => absurd isComment noCommentHere
          intro next member
          match rest, delimited, writtenRest with
          | [], _, _ => cases member
          | .blank :: _, _, _ =>
              obtain rfl : ' ' = next := Option.some.inj member
              decide
          | .written other :: _, solid, writtenRest =>
              obtain ⟨first, tail, begins, delimits⟩ :=
                (writtenRest other List.mem_cons_self).head_of_isSolid solid
              change next ∈ (other.spell.toList ++ _).head? at member
              rw [begins] at member
              obtain rfl : first = next := Option.some.inj member
              exact delimits

end Piece

theorem Expr.toList_format (expr : Expr) :
    expr.format.toList = Piece.text expr.canonical.pieces := by
  rw [format, String.toList_join, List.flatMap_map, Piece.text]

namespace Phrase

open Piece

/-- The pieces of a phrase keep its lexemes apart, also from what follows, if that is delimited. -/
def Separable (phrase : Phrase Lexeme) : Prop :=
  ∀ tail, Separate tail → Delimited tail → Separate (phrase.pieces ++ tail)

theorem Separable.groupBelow {phrase : Phrase Lexeme} (separable : phrase.Separable)
    (needed : Nat) (expr : Expr) : (groupBelow needed expr phrase).Separable := by
  unfold Phrase.groupBelow
  split
  · intro tail separate delimited
    rw [pieces, List.cons_append, List.append_assoc]
    exact ⟨.inl rfl, separable _ ⟨.inl rfl, separate⟩ rfl⟩
  · exact separable

theorem separate_arguments {phrases : List (Phrase Lexeme)} {commas : List Lexeme}
    (each : ∀ phrase ∈ phrases, phrase.Separable)
    (solid : ∀ comma ∈ commas, comma.kind.isSolid = true)
    (count : commas.length = phrases.length - 1) {tail : List (Piece Lexeme)}
    (separate : Separate tail) (delimited : Delimited tail) :
    Separate (weave (piecesOfEach phrases) (commas.map ([.written ·, .blank])) ++ tail) := by
  have alternating := Alternating.of_length count
  clear count
  induction alternating with
  | nil => exact separate
  | singleton phrase =>
      have alone := each phrase (by simp) tail separate delimited
      simpa [piecesOfEach, weave] using alone
  | cons phrase comma some others ih =>
      obtain ⟨separable, eachRest⟩ := List.forall_mem_cons.mp each
      obtain ⟨solidHere, solidRest⟩ := List.forall_mem_cons.mp solid
      rw [piecesOfEach, List.map_cons, weave, List.append_assoc, List.append_assoc]
      exact separable _ ⟨.inl solidHere, ih eachRest solidRest⟩ solidHere

/-- The canonical phrase of every expression keeps its lexemes apart. -/
theorem separable_canonical (expr : Expr) : expr.canonical.Separable := by
  induction expr with
  | literal value => exact fun tail separate delimited => ⟨.inr delimited, separate⟩
  | name name => exact fun tail separate delimited => ⟨.inr delimited, separate⟩
  | unary operator operand ih =>
      intro tail separate delimited
      have inside := ih.groupBelow BinaryOp.operandPrecedence operand tail separate delimited
      rw [Expr.canonical, pieces, List.cons_append, List.append_assoc]
      cases operator with
      | not => exact ⟨.inr trivial, inside⟩
      | minus => exact ⟨.inl rfl, inside⟩
      | plus => exact ⟨.inl rfl, inside⟩
  | binary operator left right ihLeft ihRight =>
      intro tail separate delimited
      have onRight := ihRight.groupBelow operator.rightPrecedence right tail separate delimited
      rw [Expr.canonical, pieces, List.append_assoc]
      exact ihLeft.groupBelow _ _ _ ⟨.inr trivial, onRight⟩ trivial
  | call function arguments ih =>
      intro tail separate delimited
      rw [Expr.canonical, pieces, List.cons_append, List.cons_append, List.append_assoc]
      refine ⟨.inr rfl, .inl rfl, separate_arguments ?_ ?_ ?_ ⟨.inl rfl, separate⟩ rfl⟩
      · rw [Expr.canonicalOfEach_eq_map]
        exact List.forall_mem_map.mpr ih
      · intro comma member
        rw [List.eq_of_mem_replicate member]
        rfl
      · rw [Expr.canonicalOfEach_eq_map, List.length_map, List.length_replicate]
  | index array subscript ih =>
      intro tail separate delimited
      rw [Expr.canonical, pieces, List.cons_append, List.cons_append, List.append_assoc]
      exact ⟨.inr rfl, .inl rfl, ih _ ⟨.inl rfl, separate⟩ rfl⟩

end Phrase

end JassExpr
