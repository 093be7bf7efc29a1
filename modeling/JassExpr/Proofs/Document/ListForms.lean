import JassExpr.Expr.Sexpr
import JassExpr.Proofs.Document.Formatting
import JassExpr.Proofs.Phrase.Parts

/-!
# The list form tells the tree

The list form of an expression is laid out as lexemes, whatever its strings contain, so two forms
with the same text have the same lexemes. These are read back without looking ahead: a form is one
lexeme or begins with a parenthesis, and the number of items up to the closing one tells apart the
operators that are spelled alike.
-/

namespace JassExpr

/-- The lexeme of a word. -/
def Lexeme.word (text : String) : Lexeme :=
  .valued .identifier text

theorem UnaryOp.kind_injective : Function.Injective UnaryOp.kind := by
  intro first second same
  have found := ofKind?_eq_some_iff.mpr same
  rw [ofKind?_eq_some_iff.mpr rfl] at found
  exact (Option.some.inj found).symm

theorem BinaryOp.kind_injective : Function.Injective BinaryOp.kind := by
  intro first second same
  have found := ofKind?_eq_some_iff.mpr same
  rw [ofKind?_eq_some_iff.mpr rfl] at found
  exact (Option.some.inj found).symm

theorem Lexeme.spell_word (text : String) : (word text).spell = text :=
  rfl

namespace Expr

/-- Whether the list form of an expression is one lexeme. -/
def isAtom : Expr → Bool
  | literal _ | name _ => true
  | _ => false

/-- The lexeme that an atom is, or the one behind the parenthesis of a list. -/
def head : Expr → Lexeme
  | literal value => value.lexeme
  | name identifier => .word identifier
  | unary operator _ => .fixed operator.kind
  | binary operator _ _ => .fixed operator.kind
  | call _ _ => .word "call"
  | index _ _ => .word "index"

/-- What follows the head of a list. The name of a function or an array is an item of its own. -/
def items : Expr → List Expr
  | call function arguments => name function :: arguments
  | index array subscript => [name array, subscript]
  | expr => expr.operands

/-- The pieces of a list in parentheses. -/
def enclose (head : Lexeme) (items : List (Piece Lexeme)) : List (Piece Lexeme) :=
  .written (.fixed .leftParenthesis) :: .written head ::
    (items ++ [.written (.fixed .rightParenthesis)])

mutual

/-- The list form of an expression, piece by piece. -/
def listPieces : Expr → List (Piece Lexeme)
  | literal value => [.written value.lexeme]
  | name identifier => [.written (.word identifier)]
  | unary operator operand => enclose (.fixed operator.kind) (.blank :: operand.listPieces)
  | binary operator left right =>
      enclose (.fixed operator.kind) (.blank :: left.listPieces ++ .blank :: right.listPieces)
  | call function arguments =>
      enclose (.word "call")
        (.blank :: .written (.word function) :: listPiecesOfEach arguments)
  | index array subscript =>
      enclose (.word "index")
        (.blank :: .written (.word array) :: .blank :: subscript.listPieces)

def listPiecesOfEach : List Expr → List (Piece Lexeme)
  | [] => []
  | first :: rest => .blank :: first.listPieces ++ listPiecesOfEach rest

end

/-- The lexemes of the list form of an expression. -/
def listLexemes (expr : Expr) : List Lexeme :=
  Piece.tokens expr.listPieces

theorem listPiecesOfEach_eq_flatMap (exprs : List Expr) :
    listPiecesOfEach exprs = exprs.flatMap fun expr => .blank :: expr.listPieces := by
  induction exprs with
  | nil => rfl
  | cons first rest ih => simp [listPiecesOfEach, ih]

theorem listPieces_of_isAtom {expr : Expr} (isAtom : expr.isAtom = true) :
    expr.listPieces = [.written expr.head] := by
  cases expr <;> first | rfl | cases isAtom

theorem listPieces_of_isList {expr : Expr} (isList : expr.isAtom = false) :
    expr.listPieces =
      enclose expr.head (expr.items.flatMap fun item => .blank :: item.listPieces) := by
  cases expr with
  | literal value => cases isList
  | name name => cases isList
  | call function arguments =>
      simp [listPieces, items, head, listPiecesOfEach_eq_flatMap]
  | unary operator operand => simp [listPieces, items, head, operands]
  | binary operator left right => simp [listPieces, items, head, operands]
  | index array subscript => simp [listPieces, items, head]

theorem listLexemes_of_isAtom {expr : Expr} (isAtom : expr.isAtom = true) :
    expr.listLexemes = [expr.head] := by
  rw [listLexemes, listPieces_of_isAtom isAtom]
  rfl

theorem listLexemes_of_isList {expr : Expr} (isList : expr.isAtom = false) :
    expr.listLexemes = .fixed .leftParenthesis :: expr.head ::
      (expr.items.flatMap listLexemes ++ [.fixed .rightParenthesis]) := by
  have each : ∀ exprs : List Expr,
      Piece.tokens (exprs.flatMap fun item => .blank :: item.listPieces) =
        exprs.flatMap listLexemes := by
    intro exprs
    induction exprs with
    | nil => rfl
    | cons first rest ih =>
        rw [List.flatMap_cons, Piece.tokens_append, ih]
        rfl
  rw [listLexemes, listPieces_of_isList isList, enclose]
  simp [Piece.tokens, each]

theorem listLexemes_append {expr : Expr} (isList : expr.isAtom = false) (rest : List Lexeme) :
    expr.listLexemes ++ rest = .fixed .leftParenthesis :: expr.head ::
      (expr.items.flatMap listLexemes ++ .fixed .rightParenthesis :: rest) := by
  rw [listLexemes_of_isList isList, List.cons_append, List.cons_append, List.append_assoc]
  rfl

/-- What holds of an expression when it holds of the items of its list form holds of every
expression. -/
theorem induction_items {motive : Expr → Prop}
    (step : ∀ expr, (∀ item ∈ expr.items, motive item) → motive expr)
    (expr : Expr) : motive expr := by
  have named : ∀ identifier, motive (name identifier) :=
    fun identifier => step _ (List.forall_mem_nil _)
  induction expr using induction_operands with
  | step expr ih =>
      apply step
      cases expr with
      | call function arguments => exact List.forall_mem_cons.mpr ⟨named function, ih⟩
      | index array subscript => exact List.forall_mem_cons.mpr ⟨named array, ih⟩
      | _ => exact ih

theorem text_enclose (head : Lexeme) (items : List (Piece Lexeme)) :
    Piece.text (enclose head items) =
      '(' :: (head.spell.toList ++ (Piece.text items ++ [')'])) := by
  simp [enclose, Piece.text, Piece.spell, Lexeme.spell, Lexeme.text, Lexeme.fixed,
    TokenKind.spelling?]

theorem text_listPiecesOfEach {exprs : List Expr}
    (each : ∀ expr ∈ exprs, expr.sexpr.toList = Piece.text expr.listPieces) :
    (sexprAll exprs).toList = Piece.text (listPiecesOfEach exprs) := by
  induction exprs with
  | nil => rfl
  | cons first rest ih =>
      obtain ⟨same, others⟩ := List.forall_mem_cons.mp each
      have sameRest := ih others
      simp only [Piece.text] at same sameRest ⊢
      simp [sexprAll, listPiecesOfEach, Piece.spell, same, sameRest]

/-- The list form of an expression is the text of its pieces. -/
theorem toList_sexpr (expr : Expr) : expr.sexpr.toList = Piece.text expr.listPieces := by
  induction expr with
  | literal value => simp [sexpr, listPieces, Piece.text, Piece.spell, Literal.spell]
  | name name => simp [sexpr, listPieces, Piece.text, Piece.spell, Lexeme.spell_word]
  | unary operator operand ih =>
      rw [listPieces, text_enclose, Lexeme.spell_fixed operator.spelling?_kind]
      simp only [Piece.text] at ih ⊢
      simp [sexpr, Piece.spell, ih]
  | binary operator left right ihLeft ihRight =>
      rw [listPieces, text_enclose, Lexeme.spell_fixed operator.spelling?_kind]
      simp only [Piece.text] at ihLeft ihRight ⊢
      simp [sexpr, Piece.spell, ihLeft, ihRight]
  | call function arguments ih =>
      have each := text_listPiecesOfEach ih
      rw [listPieces, text_enclose]
      simp only [Piece.text] at each ⊢
      simp [sexpr, Piece.spell, Lexeme.spell_word, each]
  | index array subscript ih =>
      rw [listPieces, text_enclose]
      simp only [Piece.text] at ih ⊢
      simp [sexpr, Piece.spell, Lexeme.spell_word, ih]

/-! ## Layout -/

open Piece (Separate Delimited)

theorem separate_items {items : List Expr}
    (each : ∀ item ∈ items, ∀ tail, Separate tail → Delimited tail →
      Separate (item.listPieces ++ tail))
    {tail : List (Piece Lexeme)} (separate : Separate tail) (delimited : Delimited tail) :
    Separate (items.flatMap (fun item => .blank :: item.listPieces) ++ tail) ∧
      Delimited (items.flatMap (fun item => .blank :: item.listPieces) ++ tail) := by
  induction items with
  | nil => exact ⟨separate, delimited⟩
  | cons item items ih =>
      obtain ⟨here, others⟩ := List.forall_mem_cons.mp each
      obtain ⟨separateRest, delimitedRest⟩ := ih others
      rw [List.flatMap_cons, List.append_assoc]
      exact ⟨here _ separateRest delimitedRest, trivial⟩

/-- The list form of an expression keeps its lexemes apart. -/
theorem separate_listPieces (expr : Expr) :
    ∀ tail, Separate tail → Delimited tail → Separate (expr.listPieces ++ tail) := by
  induction expr using induction_items with
  | step expr ih =>
      intro tail separate delimited
      cases shape : expr.isAtom with
      | true =>
          rw [listPieces_of_isAtom shape]
          exact ⟨.inr delimited, separate⟩
      | false =>
          have closed : Separate (.written (.fixed .rightParenthesis) :: tail) :=
            ⟨.inl rfl, separate⟩
          obtain ⟨inside, begins⟩ := separate_items ih closed rfl
          rw [listPieces_of_isList shape, enclose, List.cons_append, List.cons_append,
            List.append_assoc]
          exact ⟨.inl rfl, .inr begins, inside⟩

/-- The atom that a lexeme stands for. -/
def atom? (lexeme : Lexeme) : Option Expr :=
  if lexeme.kind = .identifier then
    match Literal.ofWord? lexeme.text with
    | some value => some (.literal value)
    | none => some (.name lexeme.text)
  else
    (Literal.ofLexeme? lexeme).map literal

/-- Every atom of an expression is written in some way and can be told from its lexeme. -/
inductive Listed : Expr → Prop
  | atom {expr : Expr} (isAtom : expr.isAtom = true)
      (written : expr.head.Written expr.head.spell.toList) (reads : atom? expr.head = some expr) :
      Listed expr
  | list {expr : Expr} (isList : expr.isAtom = false) (each : ∀ item ∈ expr.items, Listed item) :
      Listed expr

theorem kind_of_atom? {lexeme : Lexeme} {expr : Expr} (reads : atom? lexeme = some expr) :
    lexeme.kind = .identifier ∨ lexeme.kind.isLiteral = true := by
  unfold atom? at reads
  split at reads
  · rename_i isWord
    exact .inl isWord
  · obtain ⟨value, found, -⟩ := Option.map_eq_some_iff.mp reads
    exact .inr (Literal.isLiteral_of_ofLexeme? found)

theorem written_fixed (kind : TokenKind) {spelling : String}
    (spelled : kind.spelling? = some spelling) :
    (Lexeme.fixed kind).Written (Lexeme.fixed kind).spell.toList := by
  rw [Lexeme.spell_fixed spelled]
  exact .fixed (by rwa [String.ofList_toList])

theorem written_word (text : String) {first : Char} {rest : List Char}
    (letters : text.toList = first :: rest) (starts : Cut.startsWord first = true)
    (continues : rest.all Cut.continuesWord = true)
    (notOperator : Cut.wordOperator? (first :: rest) = none) :
    (Lexeme.word text).Written (Lexeme.word text).spell.toList := by
  have same : text = String.ofList (first :: rest) := by
    rw [← letters, String.ofList_toList]
  rw [Lexeme.spell_word, letters, same]
  exact .identifier starts (List.all_eq_true.mp continues) notOperator

/-- The head of a list is an operator or a word, and is written as it is spelled. -/
theorem written_head {expr : Expr} (isList : expr.isAtom = false) :
    expr.head.Written expr.head.spell.toList ∧ expr.head.kind ≠ .comment := by
  cases expr with
  | literal value => cases isList
  | name name => cases isList
  | unary operator operand =>
      exact ⟨written_fixed _ operator.spelling?_kind, by cases operator <;> exact nofun⟩
  | binary operator left right =>
      exact ⟨written_fixed _ operator.spelling?_kind, by cases operator <;> exact nofun⟩
  | call function arguments =>
      exact ⟨written_word "call" (by cbv) rfl rfl rfl, nofun⟩
  | index array subscript =>
      exact ⟨written_word "index" (by cbv) rfl rfl rfl, nofun⟩

namespace Listed

variable {expr first second : Expr}

theorem written_of_mem (listed : expr.Listed) :
    ∀ lexeme ∈ expr.listLexemes,
      lexeme.Written lexeme.spell.toList ∧ lexeme.kind ≠ .comment := by
  induction listed with
  | @atom expr isAtom written reads =>
      rw [listLexemes_of_isAtom isAtom, List.forall_mem_singleton]
      refine ⟨written, fun isComment => ?_⟩
      rcases kind_of_atom? reads with isWord | isLiteral
      · rw [isWord] at isComment
        cases isComment
      · exact TokenKind.ne_of_isLiteral isLiteral rfl isComment
  | @list expr isList each ih =>
      rw [listLexemes_of_isList isList]
      refine List.forall_mem_cons.mpr ⟨⟨written_fixed .leftParenthesis rfl, nofun⟩,
        List.forall_mem_cons.mpr ⟨written_head isList, List.forall_mem_append.mpr ⟨?_, ?_⟩⟩⟩
      · intro lexeme member
        obtain ⟨item, inItems, inItem⟩ := List.mem_flatMap.mp member
        exact ih item inItems lexeme inItem
      · exact List.forall_mem_singleton.mpr
          ⟨written_fixed .rightParenthesis rfl, nofun⟩

theorem atom?_head (listed : expr.Listed) (isAtom : expr.isAtom = true) :
    atom? expr.head = some expr := by
  cases listed with
  | atom isAtom written reads => exact reads
  | list isList each =>
      rw [isAtom] at isList
      cases isList

theorem of_mem_items (listed : expr.Listed) (isList : expr.isAtom = false) :
    ∀ item ∈ expr.items, item.Listed := by
  cases listed with
  | atom isAtom written reads =>
      rw [isList] at isAtom
      cases isAtom
  | list isList each => exact each

/-- The list form is laid out as its lexemes. -/
theorem exists_laid (listed : expr.Listed) :
    ∃ laid, Laid 0 expr.sexpr.toList laid ∧ laid.map Token.toLexeme = expr.listLexemes := by
  have separate := expr.separate_listPieces [] trivial trivial
  rw [List.append_nil] at separate
  rw [toList_sexpr]
  exact Piece.exists_laid (fun lexeme member => (listed.written_of_mem lexeme member).1)
    (fun lexeme member => (listed.written_of_mem lexeme member).2) separate 0

/-- List forms with the same text have the same lexemes, for scanning finds them both. -/
theorem listLexemes_eq (listed : first.Listed) (listed' : second.Listed)
    (same : first.sexpr = second.sexpr) : first.listLexemes = second.listLexemes := by
  obtain ⟨laid, isLaid, lexemes⟩ := listed.exists_laid
  obtain ⟨laid', isLaid', lexemes'⟩ := listed'.exists_laid
  rw [same] at isLaid
  have scanned := Scan.textFrom_of_laid isLaid
  rw [Scan.textFrom_of_laid isLaid'] at scanned
  cases scanned
  rw [← lexemes, ← lexemes']

/-! ## Reading back -/

theorem head_ne (listed : expr.Listed) (isAtom : expr.isAtom = true) {kind : TokenKind}
    (notWord : kind ≠ .identifier) (notLiteral : kind.isLiteral = false) :
    expr.head ≠ .fixed kind := by
  intro same
  have reads := listed.atom?_head isAtom
  rw [same] at reads
  rcases kind_of_atom? reads with isWord | isLiteral
  · exact notWord isWord
  · exact TokenKind.ne_of_isLiteral isLiteral notLiteral rfl

/-- No list form begins with the parenthesis that closes one. -/
theorem exists_first (listed : expr.Listed) :
    ∃ lexeme lexemes, expr.listLexemes = lexeme :: lexemes ∧
      lexeme ≠ .fixed .rightParenthesis := by
  cases shape : expr.isAtom with
  | true => exact ⟨_, _, listLexemes_of_isAtom shape, listed.head_ne shape nofun rfl⟩
  | false => exact ⟨_, _, listLexemes_of_isList shape, nofun⟩

theorem ne_closing (listed : expr.Listed) (rest others : List Lexeme) :
    .fixed .rightParenthesis :: rest ≠ expr.listLexemes ++ others := by
  obtain ⟨lexeme, lexemes, begins, notClosing⟩ := listed.exists_first
  rw [begins, List.cons_append]
  intro same
  exact notClosing (List.cons.inj same).1.symm

/-- Atoms with the same lexeme are the same. -/
theorem eq_of_head_eq (listed : first.Listed) (listed' : second.Listed)
    (isAtom : first.isAtom = true) (isAtom' : second.isAtom = true)
    (same : first.head = second.head) : first = second := by
  have reads := listed.atom?_head isAtom
  rw [same, listed'.atom?_head isAtom'] at reads
  exact (Option.some.inj reads).symm

end Listed

/-- What a list form begins can be told without its end. -/
def UniquelyRead (expr : Expr) : Prop :=
  ∀ {other : Expr} {rest rest' : List Lexeme}, other.Listed →
    expr.listLexemes ++ rest = other.listLexemes ++ rest' → expr = other ∧ rest = rest'

/-- The items of a list end at the parenthesis that closes it. -/
theorem eq_of_items_append_eq {items others : List Expr} {rest rest' : List Lexeme}
    (listed : ∀ item ∈ items, item.Listed) (each : ∀ item ∈ items, item.UniquelyRead)
    (listed' : ∀ item ∈ others, item.Listed)
    (same : items.flatMap listLexemes ++ .fixed .rightParenthesis :: rest =
      others.flatMap listLexemes ++ .fixed .rightParenthesis :: rest') :
    items = others ∧ rest = rest' := by
  induction items generalizing others with
  | nil =>
      cases others with
      | nil => exact ⟨rfl, (List.cons.inj same).2⟩
      | cons other others =>
          rw [List.flatMap_cons, List.append_assoc] at same
          exact absurd same ((listed' other List.mem_cons_self).ne_closing _ _)
  | cons item items ih =>
      obtain ⟨listedHere, listedRest⟩ := List.forall_mem_cons.mp listed
      obtain ⟨here, there⟩ := List.forall_mem_cons.mp each
      rw [List.flatMap_cons, List.append_assoc] at same
      cases others with
      | nil => exact absurd same.symm (listedHere.ne_closing _ _)
      | cons other others =>
          obtain ⟨listedOther, listedOthers⟩ := List.forall_mem_cons.mp listed'
          rw [List.flatMap_cons, List.append_assoc] at same
          obtain ⟨rfl, sameRest⟩ := here listedOther same
          obtain ⟨rfl, rfl⟩ := ih listedRest there listedOthers sameRest
          exact ⟨rfl, rfl⟩

/-- The head and the items of a list are all that there is to it. How many items there are tells
apart an operator in front of one operand from one between two. -/
theorem eq_of_items_eq {first second : Expr} (isList : first.isAtom = false)
    (isList' : second.isAtom = false) (sameHead : first.head = second.head)
    (same : first.items = second.items) : first = second := by
  cases first <;> cases second <;>
    simp_all [isAtom, head, items, operands, Lexeme.word, Lexeme.fixed, Lexeme.valued]
  case unary.unary => exact UnaryOp.kind_injective sameHead
  case binary.binary => exact BinaryOp.kind_injective sameHead

/-- Reading a list form from its front finds the expression and where it ends. -/
theorem Listed.uniquelyRead {expr : Expr} (listed : expr.Listed) : expr.UniquelyRead := by
  induction expr using induction_items with
  | step expr ih =>
      intro other rest rest' listedOther same
      cases shape : expr.isAtom with
      | true =>
          rw [listLexemes_of_isAtom shape] at same
          cases shape' : other.isAtom with
          | true =>
              rw [listLexemes_of_isAtom shape'] at same
              obtain ⟨sameHead, sameRest⟩ := List.cons.inj same
              exact ⟨listed.eq_of_head_eq listedOther shape shape' sameHead, sameRest⟩
          | false =>
              rw [listLexemes_append shape'] at same
              exact absurd (List.cons.inj same).1 (listed.head_ne shape nofun rfl)
      | false =>
          rw [listLexemes_append shape] at same
          cases shape' : other.isAtom with
          | true =>
              rw [listLexemes_of_isAtom shape'] at same
              exact absurd (List.cons.inj same).1.symm (listedOther.head_ne shape' nofun rfl)
          | false =>
              rw [listLexemes_append shape'] at same
              obtain ⟨sameHead, sameItems⟩ := List.cons.inj (List.cons.inj same).2
              have each := listed.of_mem_items shape
              obtain ⟨items, sameRest⟩ := eq_of_items_append_eq each
                (fun item member => ih item member (each item member))
                (listedOther.of_mem_items shape') sameItems
              exact ⟨eq_of_items_eq shape shape' sameHead items, sameRest⟩

/-- List forms that have the same text are those of the same expression. -/
theorem Listed.eq_of_sexpr_eq {first second : Expr} (listed : first.Listed)
    (listed' : second.Listed) (same : first.sexpr = second.sexpr) : first = second := by
  have lexemes := listed.listLexemes_eq listed' same
  exact (listed.uniquelyRead listed' (congrArg (· ++ []) lexemes)).1

end Expr

namespace Phrase

variable {phrase : Phrase Token}

theorem IsScanned.of_mem_parts (isScanned : phrase.IsScanned) :
    ∀ part ∈ phrase.parts, part.IsScanned := by
  intro part member
  have among := (tokens_isInfix_of_mem_parts member).subset
  exact ⟨isScanned.grammatical.of_mem_parts part member,
    fun token inPart => isScanned.written token (among inPart),
    fun token inPart => isScanned.noComment token (among inPart)⟩

theorem listed_name {token : Token} {text : List Char} (written : token.toLexeme.Written text)
    (word : token.kind = .identifier) (free : Literal.ofWord? token.text = none) :
    (Expr.name token.text).Listed := by
  have same : token.toLexeme = .word token.text := by
    rw [Lexeme.word, ← word, written.valued_text (by rw [word]; rfl)]
  have spelled := written.spell
  rw [same] at spelled
  refine .atom rfl spelled ?_
  simp [Expr.atom?, Expr.head, Lexeme.word, Lexeme.kind_valued, free]

theorem listed_literal {token : Token} {text : List Char} {value : Literal}
    (written : token.toLexeme.Written text)
    (grammatical : (literal token value).Grammatical Token.toLexeme) :
    (Expr.literal value).Listed := by
  have spelled := written.spell
  cases grammatical with
  | literal reads =>
      have isLiteral := Literal.isLiteral_of_ofLexeme? reads
      have same : value.lexeme = token.toLexeme := by
        rw [Literal.lexeme_of_ofLexeme? reads]
        exact written.valued_text (TokenKind.spelling?_eq_none_of_isLiteral isLiteral)
      have notWord : token.kind ≠ .identifier := TokenKind.ne_of_isLiteral isLiteral rfl
      rw [← same] at spelled
      refine .atom rfl spelled ?_
      rw [Expr.atom?, Expr.head, same, if_neg notWord, reads]
      rfl
  | constant word reads =>
      have same : value.lexeme = token.toLexeme := by
        rw [Literal.lexeme_of_ofWord? reads, ← word]
        exact written.valued_text (by rw [word]; rfl)
      rw [← same] at spelled
      refine .atom rfl spelled ?_
      rw [Expr.atom?, Expr.head, same, if_pos word, reads]

/-- The atoms of an expression that was scanned can be told from their lexemes. -/
theorem IsScanned.listed (isScanned : phrase.IsScanned) : phrase.expr.Listed := by
  induction phrase with
  | literal token value =>
      obtain ⟨text, written⟩ := isScanned.written token (List.mem_singleton_self _)
      exact listed_literal written isScanned.grammatical
  | name token name =>
      obtain ⟨text, written⟩ := isScanned.written token (List.mem_singleton_self _)
      cases isScanned.grammatical with
      | name word free same =>
          subst same
          exact listed_name written word free
  | group opening inner closing ih =>
      exact ih (isScanned.of_mem_parts inner (List.mem_singleton_self _))
  | unary operator token operand ih =>
      exact .list rfl (List.forall_mem_singleton.mpr
        (ih (isScanned.of_mem_parts operand (List.mem_singleton_self _))))
  | binary operator left token right ihLeft ihRight =>
      obtain ⟨onLeft, onRight⟩ := List.forall_mem_cons.mp isScanned.of_mem_parts
      exact .list rfl (List.forall_mem_cons.mpr ⟨ihLeft onLeft,
        List.forall_mem_singleton.mpr (ihRight (onRight right (List.mem_singleton_self _)))⟩)
  | call callee name opening arguments commas closing ih =>
      obtain ⟨text, written⟩ := isScanned.written callee List.mem_cons_self
      have each : ∀ argument ∈ arguments, argument.expr.Listed :=
        fun argument member => ih argument member (isScanned.of_mem_parts argument member)
      cases isScanned.grammatical with
      | call word free same opens closes separate count inside =>
          subst same
          refine .list rfl (List.forall_mem_cons.mpr ⟨listed_name written word free, ?_⟩)
          rw [exprOfEach_eq_map]
          exact List.forall_mem_map.mpr each
  | index array name opening subscript closing ih =>
      obtain ⟨text, written⟩ := isScanned.written array List.mem_cons_self
      have inside := ih (isScanned.of_mem_parts subscript (List.mem_singleton_self _))
      cases isScanned.grammatical with
      | index word free same opens closes _ =>
          subst same
          exact .list rfl (List.forall_mem_cons.mpr ⟨listed_name written word free,
            List.forall_mem_singleton.mpr inside⟩)

end Phrase

/-- Expressions that were read from any two sources have the same list form just when their tables
differ in places only. -/
theorem sexpr_eq_iff_of_parseSource {source other : String} {phrases others : List (Phrase Token)}
    (parsed : parseSource source = .ok phrases) (parsedOther : parseSource other = .ok others) :
    ∀ first ∈ phrases, ∀ second ∈ others,
      first.expr.sexpr = second.expr.sexpr ↔ first.table.shape = second.table.shape := by
  intro first member second memberOther
  have listed := (isScanned_of_parseSource parsed first member).1.listed
  have listed' := (isScanned_of_parseSource parsedOther second memberOther).1.listed
  rw [Phrase.shape_table_eq_iff]
  constructor
  · exact listed.eq_of_sexpr_eq listed'
  · intro same
    rw [same]

/-- A call of a function that is named like the form, with a string that looks like one, in
parentheses and without. -/
theorem sexpr_eq_iff_of_parseSource_call :
    ∃ first second, parseSource "(call(-\") a\"))" = .ok [first] ∧
      parseSource "call(-\") a\")" = .ok [second] ∧
        first.expr.sexpr = "(call call (- \") a\"))" ∧
          (first.expr.sexpr = second.expr.sexpr ↔ first.table.shape = second.table.shape) := by
  let call (start : Nat) : Phrase Token :=
    .call ⟨.valued .identifier "call", ⟨start, start + 4⟩⟩ "call"
      ⟨.fixed .leftParenthesis, ⟨start + 4, start + 5⟩⟩
      [.unary .minus ⟨.fixed .minus, ⟨start + 5, start + 6⟩⟩
        (.literal ⟨.valued .string ") a", ⟨start + 6, start + 11⟩⟩ (.string ") a" ") a"))] []
      ⟨.fixed .rightParenthesis, ⟨start + 11, start + 12⟩⟩
  let group : Phrase Token := .group ⟨.fixed .leftParenthesis, ⟨0, 1⟩⟩ (call 1)
    ⟨.fixed .rightParenthesis, ⟨13, 14⟩⟩
  have isCall : ∀ start, (call start).Grammatical Token.toLexeme := fun start =>
    .call rfl (by decide) rfl rfl rfl (List.forall_mem_nil _) rfl
      (List.forall_mem_singleton.mpr (.unary rfl (Nat.le_succ _) (.literal (by cbv))))
  have isGroup : group.Grammatical Token.toLexeme := .group rfl rfl (isCall 1)
  have parsedGroup : parseSource "(call(-\") a\"))" = .ok [group] :=
    parseSource_eq_ok_iff.mpr ⟨_, (by cbv : tokenize _ = .ok group.tokens),
      parseWith_tokens isGroup (by decide)⟩
  have parsedCall : parseSource "call(-\") a\")" = .ok [call 0] :=
    parseSource_eq_ok_iff.mpr ⟨_, (by cbv : tokenize _ = .ok (call 0).tokens),
      parseWith_tokens (isCall 0) (by decide)⟩
  exact ⟨group, call 0, parsedGroup, parsedCall, by cbv,
    sexpr_eq_iff_of_parseSource parsedGroup parsedCall group (by simp) (call 0) (by simp)⟩

end JassExpr
