import JassExpr.Expr.Sexpr
import JassExpr.Proofs.Phrase.Canonical

/-!
# The string literals of an expression

However an expression is written, with more or with fewer parentheses, its string literals are the
same ones in the same order. They are the only parts of an expression that may go over several
lines.
-/

namespace JassExpr

/-- The texts of the string literals among some lexemes, without their quotes. -/
def Lexeme.stringTexts (lexemes : List Lexeme) : List String :=
  (lexemes.filter fun lexeme => lexeme.kind = .string).map text

namespace Expr

mutual

/-- The texts of the string literals of an expression from left to right. -/
def stringTexts : Expr → List String
  | literal value => Lexeme.stringTexts [value.lexeme]
  | name _ => []
  | unary _ operand => operand.stringTexts
  | binary _ left right => left.stringTexts ++ right.stringTexts
  | call _ arguments => stringTextsOfEach arguments
  | index _ subscript => subscript.stringTexts

def stringTextsOfEach : List Expr → List String
  | [] => []
  | first :: rest => first.stringTexts ++ stringTextsOfEach rest

end

theorem stringTextsOfEach_eq_flatMap (exprs : List Expr) :
    stringTextsOfEach exprs = exprs.flatMap stringTexts := by
  induction exprs with
  | nil => rfl
  | cons first rest ih => rw [stringTextsOfEach, ih, List.flatMap_cons]

end Expr

namespace Lexeme

theorem stringTexts_append (first second : List Lexeme) :
    stringTexts (first ++ second) = stringTexts first ++ stringTexts second := by
  rw [stringTexts, List.filter_append, List.map_append]
  rfl

theorem stringTexts_cons_of_ne {first : Lexeme} (notString : first.kind ≠ .string)
    (rest : List Lexeme) : stringTexts (first :: rest) = stringTexts rest := by
  simp [stringTexts, notString]

theorem stringTexts_of_eq {lexeme : Lexeme} (isString : lexeme.kind = .string) :
    stringTexts [lexeme] = [lexeme.text] := by
  simp [stringTexts, isString]

theorem stringTexts_of_ne {lexeme : Lexeme} (notString : lexeme.kind ≠ .string) :
    stringTexts [lexeme] = [] := by
  simp [stringTexts, notString]

theorem stringTexts_flatMap {α : Type} (items : List α) (lexemes : α → List Lexeme) :
    stringTexts (items.flatMap lexemes) = items.flatMap fun item => stringTexts (lexemes item) := by
  induction items with
  | nil => rfl
  | cons item items ih => rw [List.flatMap_cons, stringTexts_append, ih, List.flatMap_cons]

/-- Only the kind and the text of a lexeme count. -/
theorem stringTexts_congr {first second : Lexeme} (kind : first.kind = second.kind)
    (text : first.text = second.text) : stringTexts [first] = stringTexts [second] := by
  by_cases isString : first.kind = .string
  · rw [stringTexts_of_eq isString, stringTexts_of_eq (kind ▸ isString), text]
  · rw [stringTexts_of_ne isString, stringTexts_of_ne (kind ▸ isString)]

theorem stringTexts_weave {parts separators : List (List Lexeme)}
    (noStrings : ∀ separator ∈ separators, stringTexts separator = []) :
    stringTexts (weave parts separators) = parts.flatMap stringTexts := by
  induction parts generalizing separators with
  | nil =>
      have nothing : weave ([] : List (List Lexeme)) separators = [] := by
        cases separators <;> rfl
      rw [nothing]
      rfl
  | cons first rest ih =>
      cases separators with
      | nil =>
          have joined : weave (first :: rest) [] = (first :: rest).flatMap id := by simp [weave]
          rw [joined, stringTexts_flatMap]
          rfl
      | cons separator separators =>
          obtain ⟨noString, others⟩ := List.forall_mem_cons.mp noStrings
          rw [weave, stringTexts_append, stringTexts_append, noString, ih others,
            List.append_nil, List.flatMap_cons]

end Lexeme

namespace Phrase

open Lexeme

variable {τ : Type} {lexeme : τ → Lexeme} {phrase : Phrase τ}

/-- The string literals among the tokens of a phrase are those of its expression. -/
theorem Grammatical.stringTexts_tokens (grammatical : phrase.Grammatical lexeme) :
    stringTexts (phrase.tokens.map lexeme) = phrase.expr.stringTexts := by
  have silent : ∀ {token : τ} {kind : TokenKind}, (lexeme token).kind = kind → kind ≠ .string →
      ∀ rest, stringTexts (lexeme token :: rest) = stringTexts rest :=
    fun same notString => stringTexts_cons_of_ne (same ▸ notString)
  induction grammatical with
  | literal reads =>
      have same := Literal.lexeme_of_ofLexeme? reads
      exact stringTexts_congr (by rw [same]; rfl) (by rw [same]; rfl)
  | constant word reads =>
      have same := Literal.lexeme_of_ofWord? reads
      exact stringTexts_congr (by rw [word, same]; rfl) (by rw [same]; rfl)
  | name word free same => exact silent word (by decide) []
  | group opens closes inside ih =>
      rw [tokens, List.map_cons, List.map_append, List.map_singleton, silent opens (by decide),
        stringTexts_append, silent closes (by decide), ih]
      exact List.append_nil _
  | @unary operator token operand writes tight inside ih =>
      have notString : operator.kind ≠ .string := by cases operator <;> decide
      rw [tokens, List.map_cons, silent writes notString, ih]
      rfl
  | @binary operator token left right writes tightLeft tightRight onLeft onRight ihLeft ihRight =>
      have notString : operator.kind ≠ .string := by cases operator <;> decide
      rw [tokens, List.map_append, List.map_cons, stringTexts_append, silent writes notString,
        ihLeft, ihRight]
      rfl
  | @call callee opening closing name arguments commas word free same opens closes separate count
      inside ih =>
      have noStrings : ∀ separator ∈ (commas.map ([·])).map (List.map lexeme),
          stringTexts separator = [] := by
        rw [List.map_map]
        exact List.forall_mem_map.mpr fun comma member =>
          silent (separate comma member) (by decide) []
      have each : ∀ argument ∈ arguments,
          stringTexts (argument.tokens.map lexeme) = argument.expr.stringTexts := ih
      rw [tokens, List.map_cons, List.map_cons, List.map_append, List.map_singleton,
        silent word (by decide), silent opens (by decide), stringTexts_append,
        silent closes (by decide), map_weave, stringTexts_weave noStrings, tokensOfEach_eq_map,
        expr, Expr.stringTexts, Expr.stringTextsOfEach_eq_flatMap, exprOfEach_eq_map,
        List.flatMap_map, List.flatMap_map,
        List.flatMap_map, List.flatMap_def, List.map_congr_left each, ← List.flatMap_def]
      exact List.append_nil _
  | index word free same opens closes inside ih =>
      rw [tokens, List.map_cons, List.map_cons, List.map_append, List.map_singleton,
        silent word (by decide), silent opens (by decide), stringTexts_append,
        silent closes (by decide), ih]
      exact List.append_nil _

/-- The canonical phrase of an expression has the same string literals. -/
theorem Grammatical.stringTexts_canonical (grammatical : phrase.Grammatical lexeme) :
    stringTexts phrase.expr.canonical.tokens = phrase.expr.stringTexts := by
  have same := grammatical.canonical.stringTexts_tokens
  rwa [List.map_id, Expr.expr_canonical] at same

end Phrase

end JassExpr
