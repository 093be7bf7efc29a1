import JassExpr.Proofs.Document.Literals
import JassExpr.Proofs.Number.Positional
import JassExpr.Proofs.Phrase.Reasons

/-!
# What integer literals stand for

The digits of an integer literal stand for their positional value in the radix that the mark in
front of them announces. A value that takes more than 63 bits is refused, whatever zeros stand in
front of it, and nothing else is ever refused as an invalid literal.
-/

namespace JassExpr

namespace Radix

/-- The marks that announce digits of a radix. Decimal digits have none. -/
def marks : Radix → List (List Char)
  | octal => [['0']]
  | decimal => [[]]
  | hexadecimal => [['0', 'x'], ['0', 'X'], ['$']]

/-- Digits that can stand after the mark of a radix. Decimal ones must not look like octal ones with
their mark. -/
def IsNumeral (radix : Radix) (digits : List Char) : Prop :=
  match radix with
  | decimal => IsDecimal digits
  | _ => digits ≠ [] ∧ ∀ digit ∈ digits, place digit < radix.base

theorem IsNumeral.digits {radix : Radix} {digits : List Char} (numeral : radix.IsNumeral digits) :
    digits ≠ [] ∧ ∀ digit ∈ digits, radix.isDigit digit = true := by
  cases radix with
  | decimal =>
      have decimal : IsDecimal digits := numeral
      obtain ⟨first, rest, rfl, -⟩ := decimal.head
      exact ⟨List.cons_ne_nil first rest,
        fun digit member => decimal_isDigit_iff.mpr (decimal.isDigit digit member)⟩
  | octal | hexadecimal =>
      exact ⟨numeral.1, fun digit member => isDigit_iff.mpr (numeral.2 digit member)⟩

theorem readInteger?_of_isNumeral {radix : Radix} {digits : List Char}
    (numeral : radix.IsNumeral digits) :
    radix.readInteger? digits =
      if radix.positional digits < 2 ^ 63 then some (radix.positional digits : Int) else none :=
  radix.readInteger?_eq numeral.digits.1 numeral.digits.2

end Radix

namespace Literal

/-- The lexeme of the digits of an integer. -/
def integerLexeme (radix : Radix) (digits : List Char) : Lexeme :=
  Lexeme.valued (integerKind radix) (String.ofList digits)

variable {radix : Radix} {mark digits : List Char}

/-- Behind a mark of their radix, digits write the lexeme of an integer. -/
theorem written_integerLexeme (marked : mark ∈ radix.marks) (numeral : radix.IsNumeral digits) :
    (integerLexeme radix digits).Written (mark ++ digits) := by
  obtain ⟨nonempty, each⟩ := numeral.digits
  cases radix with
  | octal =>
      obtain rfl := List.mem_singleton.mp marked
      exact .octal nonempty each
  | decimal =>
      obtain rfl := List.mem_singleton.mp marked
      exact .integer numeral
  | hexadecimal => exact .hexadecimal marked nonempty each

theorem ofLexeme?_integerLexeme (radix : Radix) (digits : List Char) :
    ofLexeme? (integerLexeme radix digits) =
      (radix.readInteger? digits).map (integer radix (String.ofList digits)) := by
  have same : ofLexeme? (integerLexeme radix digits) =
      ofDigits? radix (String.ofList digits) := by
    cases radix <;> rfl
  rw [same, ofDigits?, String.toList_ofList]

/-- Digits have a literal just when their value takes at most 63 bits. -/
theorem ofLexeme?_of_isNumeral (numeral : radix.IsNumeral digits) :
    ofLexeme? (integerLexeme radix digits) =
      if radix.positional digits < 2 ^ 63 then
        some (.integer radix (String.ofList digits) (radix.positional digits))
      else none := by
  rw [ofLexeme?_integerLexeme, Radix.readInteger?_of_isNumeral numeral]
  split <;> rfl

theorem ofLexeme?_real (digits : List Char) :
    ofLexeme? (Lexeme.valued .real (String.ofList digits)) =
      (Binary64.read? digits).map (real (String.ofList digits)) := by
  have same : ofLexeme? (Lexeme.valued .real (String.ofList digits)) =
      (Binary64.read? (String.ofList digits).toList).map (real (String.ofList digits)) := rfl
  rw [same, String.toList_ofList]

theorem isLiteral_integerKind (radix : Radix) : (integerKind radix).isLiteral = true := by
  cases radix <;> rfl

end Literal

open Literal (integerLexeme)

/-- A written lexeme of a literal kind has no value only if it is that of an integer which takes
more than 63 bits. -/
theorem Lexeme.Written.exists_integerLexeme {lexeme : Lexeme} {text : List Char}
    (written : lexeme.Written text) (isLiteral : lexeme.kind.isLiteral = true)
    (invalid : Literal.ofLexeme? lexeme = none) :
    ∃ radix digits, lexeme = integerLexeme radix digits ∧ radix.IsNumeral digits ∧
      2 ^ 63 ≤ radix.positional digits := by
  have large : ∀ {radix : Radix} {digits : List Char}, radix.IsNumeral digits →
      Literal.ofLexeme? (integerLexeme radix digits) = none →
        2 ^ 63 ≤ radix.positional digits := by
    intro radix digits numeral invalid
    apply Nat.le_of_not_lt
    intro fits
    rw [Literal.ofLexeme?_of_isNumeral numeral, if_pos fits] at invalid
    cases invalid
  cases written with
  | fixed spelled =>
      have unspelled := TokenKind.spelling?_eq_none_of_isLiteral isLiteral
      exact absurd (spelled.symm.trans unspelled) (by simp)
  | integer decimal =>
      have numeral : Radix.decimal.IsNumeral text := decimal
      exact ⟨.decimal, text, rfl, numeral, large numeral invalid⟩
  | @octal digits nonempty octal =>
      have numeral : Radix.octal.IsNumeral digits :=
        ⟨nonempty, fun digit member => Radix.isDigit_iff.mp (octal digit member)⟩
      exact ⟨.octal, digits, rfl, numeral, large numeral invalid⟩
  | @hexadecimal mark digits marked nonempty hexadecimal =>
      have numeral : Radix.hexadecimal.IsNumeral digits :=
        ⟨nonempty, fun digit member => Radix.isDigit_iff.mp (hexadecimal digit member)⟩
      exact ⟨.hexadecimal, digits, rfl, numeral, large numeral invalid⟩
  | real decimal nonempty inFraction =>
      obtain ⟨first, rest, rfl, -⟩ := decimal.head
      obtain ⟨value, reads⟩ := Binary64.exists_read? (List.cons_ne_nil first rest)
        decimal.isDigit inFraction
      rw [Literal.ofLexeme?_real, reads] at invalid
      cases invalid
  | string | quotedInteger => cases invalid
  | identifier | lineComment | blockComment | other => cases isLiteral

/-- Behind a mark of their radix, digits are read as their positional value, and refused if it takes
more than 63 bits. -/
theorem parseSource_integerLexeme {radix : Radix} {mark digits : List Char}
    (marked : mark ∈ radix.marks) (numeral : radix.IsNumeral digits) :
    let token := (integerLexeme radix digits).alone (mark ++ digits)
    (radix.positional digits < 2 ^ 63 →
      parseSource (String.ofList (mark ++ digits)) = .ok
        [.literal token (.integer radix (String.ofList digits) (radix.positional digits))]) ∧
      (2 ^ 63 ≤ radix.positional digits →
        parseSource (String.ofList (mark ++ digits)) = .error (.syntactic
          ⟨.invalidLiteral (String.ofList digits), some token, token.span⟩)) := by
  intro token
  have written := Literal.written_integerLexeme marked numeral
  have reads := Literal.ofLexeme?_of_isNumeral numeral
  constructor
  · intro fits
    rw [if_pos fits] at reads
    exact written.parseSource_eq reads
  · intro large
    rw [if_neg (Nat.not_lt_of_le large)] at reads
    exact written.parseSource_invalid (Literal.isLiteral_integerKind radix) reads

/-- What is refused as an invalid literal in any source is an integer that takes more than 63
bits. -/
theorem exists_integerLexeme_of_invalid {source text : String} {error : SyntaxError}
    (failed : parseSource source = .error (.syntactic error))
    (invalid : error.kind = .invalidLiteral text) :
    ∃ tokens token radix, tokenize source = .ok tokens ∧ token ∈ tokens ∧
      error.token = some token ∧ error.span = token.span ∧
        token.toLexeme = integerLexeme radix text.toList ∧ radix.IsNumeral text.toList ∧
          2 ^ 63 ≤ radix.positional text.toList := by
  obtain ⟨tokens, scanned, stopped⟩ := parseSource_eq_syntactic_iff.mp failed
  obtain ⟨front, stop, whole, justified, rfl⟩ := exists_stop_of_parseWith stopped
  rw [Stop.kind_error] at invalid
  cases justified with
  | @invalidLiteral token rest isLiteral noValue =>
      have member : token ∈ tokens := by
        have inStripped : token ∈ Token.stripComments tokens := by simp [← whole]
        exact (List.mem_filter.mp inStripped).1
      obtain ⟨written, isWritten⟩ :=
        (tokenize_eq_ok_iff.mp scanned).exists_written token member
      obtain ⟨radix, digits, same, numeral, large⟩ :=
        isWritten.exists_integerLexeme isLiteral noValue
      obtain rfl : String.ofList digits = text := by
        rw [← SyntaxErrorKind.invalidLiteral.inj invalid, same]
        rfl
      rw [← String.toList_ofList (l := digits)] at same numeral large
      exact ⟨tokens, token, radix, scanned, member, rfl, rfl, same, numeral, large⟩
  | _ => cases invalid

/-- An integer literal is read as the positional value of its digits or refused with them, the
latter just when the value takes more than 63 bits; and in every source, what is refused as an
invalid literal is an integer with such a value. -/
theorem parseSource_integer :
    (∀ (radix : Radix) (mark digits : List Char), mark ∈ radix.marks → radix.IsNumeral digits →
      let token := (integerLexeme radix digits).alone (mark ++ digits)
      (radix.positional digits < 2 ^ 63 →
        parseSource (String.ofList (mark ++ digits)) = .ok
          [.literal token (.integer radix (String.ofList digits) (radix.positional digits))]) ∧
        (2 ^ 63 ≤ radix.positional digits →
          parseSource (String.ofList (mark ++ digits)) = .error (.syntactic
            ⟨.invalidLiteral (String.ofList digits), some token, token.span⟩))) ∧
    ∀ (source text : String) (error : SyntaxError),
      parseSource source = .error (.syntactic error) → error.kind = .invalidLiteral text →
        ∃ tokens token radix, tokenize source = .ok tokens ∧ token ∈ tokens ∧
          error.token = some token ∧ error.span = token.span ∧
            token.toLexeme = integerLexeme radix text.toList ∧ radix.IsNumeral text.toList ∧
              2 ^ 63 ≤ radix.positional text.toList :=
  ⟨fun _ _ _ => parseSource_integerLexeme, fun _ _ _ => exists_integerLexeme_of_invalid⟩

/-- The largest integer that is read, and the next one with zeros in front. -/
theorem parseSource_integer_bounds :
    let largest := '7' :: List.replicate 15 'F'
    let next := '0' :: '0' :: '8' :: List.replicate 15 '0'
    let token := (integerLexeme .hexadecimal next).alone (['0', 'x'] ++ next)
    let error : SyntaxError := ⟨.invalidLiteral (String.ofList next), some token, ⟨0, 20⟩⟩
    parseSource (String.ofList ('$' :: largest)) =
      .ok [.literal ((integerLexeme .hexadecimal largest).alone ('$' :: largest))
        (.integer .hexadecimal (String.ofList largest) 9223372036854775807)] ∧
      parseSource (String.ofList (['0', 'x'] ++ next)) = .error (.syntactic error) ∧
        ∃ tokens token radix, tokenize (String.ofList (['0', 'x'] ++ next)) = .ok tokens ∧
          token ∈ tokens ∧ error.token = some token ∧ error.span = token.span ∧
            token.toLexeme = integerLexeme radix (String.ofList next).toList ∧
              radix.IsNumeral (String.ofList next).toList ∧
                2 ^ 63 ≤ radix.positional (String.ofList next).toList := by
  intro largest next token error
  have repeated : ∀ {count : Nat} {numeral : Char}, Radix.place numeral < 16 →
      ∀ digit ∈ List.replicate count numeral, Radix.place digit < 16 := by
    intro count numeral small digit member
    rwa [List.eq_of_mem_replicate member]
  have numeral : Radix.hexadecimal.IsNumeral largest :=
    ⟨List.cons_ne_nil _ _, List.forall_mem_cons.mpr ⟨by decide, repeated (by decide)⟩⟩
  have numeral' : Radix.hexadecimal.IsNumeral next :=
    ⟨List.cons_ne_nil _ _, List.forall_mem_cons.mpr ⟨by decide, List.forall_mem_cons.mpr
      ⟨by decide, List.forall_mem_cons.mpr ⟨by decide, repeated (by decide)⟩⟩⟩⟩
  have value : Radix.hexadecimal.positional ('7' :: List.replicate 15 'F') =
      9223372036854775807 := by
    cbv
  have value' : Radix.hexadecimal.positional ('0' :: '0' :: '8' :: List.replicate 15 '0') =
      9223372036854775808 := by
    cbv
  have found := (parseSource_integer.1 .hexadecimal ['$'] largest (by decide) numeral).1
    (by rw [value]; decide)
  have failed := (parseSource_integer.1 .hexadecimal ['0', 'x'] next (by decide) numeral').2
    (by rw [value']; decide)
  rw [value] at found
  exact ⟨found, failed, parseSource_integer.2 _ _ error failed rfl⟩

end JassExpr
