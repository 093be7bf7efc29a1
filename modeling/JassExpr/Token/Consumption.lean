import JassExpr.Token.Cut

/-!
# A cut loses nothing

The characters that a cut takes and those that it leaves make up the text again, and it takes at
least one of them. Cutting lexeme after lexeme therefore comes to an end.
-/

namespace JassExpr

namespace Cut

/-- A cut consumes a text when it splits the text behind at least one character. -/
def Consumes (cut : Cut) (text : List Char) : Prop :=
  cut.written ++ cut.rest = text ∧ cut.written ≠ []

theorem Consumes.rest_length_lt {cut : Cut} {text : List Char}
    (consumes : cut.Consumes text) :
    cut.rest.length < text.length := by
  obtain ⟨whole, taken⟩ := consumes
  have := List.length_pos_iff.mpr taken
  rw [← whole, List.length_append]
  omega

theorem takeWhile_ne_nil {test : Char → Bool} {first : Char} {rest : List Char}
    (passes : test first = true) :
    (first :: rest).takeWhile test ≠ [] := by
  simp [passes]

theorem word_consumes {first : Char} {rest : List Char}
    (starts : startsWord first = true) :
    (word (first :: rest)).Consumes (first :: rest) := by
  have continues : continuesWord first = true := by
    simp only [startsWord, continuesWord, Char.isAlphanum, Bool.or_eq_true] at starts ⊢
    exact starts.imp_left Or.inl
  simp only [word]
  split <;> exact ⟨List.takeWhile_append_dropWhile, takeWhile_ne_nil continues⟩

theorem radixDigits_consumes {kind : TokenKind} {radix : Radix} {mark text : List Char}
    (marked : mark ≠ []) :
    (radixDigits kind radix mark text).Consumes (mark ++ text) := by
  simp [radixDigits, enclosing, Consumes, marked, List.append_assoc,
    List.takeWhile_append_dropWhile]

theorem decimal_consumes {first : Char} {rest : List Char} (digit : first.isDigit = true) :
    (decimal (first :: rest)).Consumes (first :: rest) := by
  have whole : (first :: rest).takeWhile Char.isDigit ++ (first :: rest).dropWhile Char.isDigit =
      first :: rest :=
    List.takeWhile_append_dropWhile
  have taken : (first :: rest).takeWhile Char.isDigit ≠ [] :=
    takeWhile_ne_nil digit
  simp only [decimal]
  split
  · rename_i second places after
    rw [after] at whole
    split
    · refine ⟨?_, by simp [plain]⟩
      refine Eq.trans ?_ whole
      simp only [plain, List.append_assoc, List.cons_append,
        List.takeWhile_append_dropWhile]
    · exact ⟨whole, taken⟩
  · exact ⟨whole, taken⟩

theorem markedHexadecimal_consumes {mark text : List Char} {cut : Cut} (marked : mark ≠ [])
    (found : markedHexadecimal mark text = .ok cut) :
    cut.Consumes (mark ++ text) := by
  unfold markedHexadecimal at found
  split at found
  · simp at found
  · split at found
    · cases found
      exact radixDigits_consumes marked
    · simp at found

theorem number_consumes {first : Char} {rest : List Char} {cut : Cut}
    (digit : first.isDigit = true) (found : number (first :: rest) = .ok cut) :
    cut.Consumes (first :: rest) := by
  unfold number at found
  split at found
  · rename_i second after same
    rw [same]
    split at found
    · exact markedHexadecimal_consumes (by simp) found
    · split at found
      · cases found
        exact radixDigits_consumes (List.cons_ne_nil '0' [])
      · cases found
        rw [← same]
        exact decimal_consumes digit
  · cases found
    exact decimal_consumes digit

theorem stringBody_closed {text body rest : List Char}
    (closed : stringBody text = .closed body rest) :
    body ++ '\x22' :: rest = text := by
  fun_induction stringBody text generalizing body rest with
  | case1 => simp at closed
  | case2 => simp at closed
  | case3 letter after meaning known ih =>
      cases inner : stringBody after with
      | closed innerBody innerRest =>
          simp only [inner, Body.after, Body.closed.injEq] at closed
          obtain ⟨rfl, rfl⟩ := closed
          simp [ih inner]
      | unclosed => simp [inner, Body.after] at closed
      | refused before character => simp [inner, Body.after] at closed
  | case4 => simp at closed
  | case5 => simp_all
  | case6 character after _ _ notQuote ih =>
      cases inner : stringBody after with
      | closed innerBody innerRest =>
          simp only [inner, Body.after, Body.closed.injEq] at closed
          obtain ⟨rfl, rfl⟩ := closed
          simp [ih inner]
      | unclosed => simp [inner, Body.after] at closed
      | refused before character => simp [inner, Body.after] at closed

theorem quotedBody_closed {text body rest : List Char}
    (closed : quotedBody text = .closed body rest) :
    body ++ '\x27' :: rest = text := by
  fun_induction quotedBody text generalizing body rest with
  | case1 => simp at closed
  | case2 => simp_all
  | case3 character after notQuote alphanumeric ih =>
      cases inner : quotedBody after with
      | closed innerBody innerRest =>
          simp only [inner, Body.after, Body.closed.injEq] at closed
          obtain ⟨rfl, rfl⟩ := closed
          simp [ih inner]
      | unclosed => simp [inner, Body.after] at closed
      | refused before character => simp [inner, Body.after] at closed
  | case4 => simp at closed

theorem splitBlock?_append {text block rest : List Char}
    (found : splitBlock? text = some (block, rest)) :
    block ++ rest = text := by
  fun_induction splitBlock? text generalizing block rest with
  | case1 => simp at found
  | case2 =>
      simp only [Option.some.injEq, Prod.mk.injEq] at found
      obtain ⟨rfl, rfl⟩ := found
      rfl
  | case3 character after _ ih =>
      simp only [Option.map_eq_some_iff, Prod.exists, Prod.mk.injEq] at found
      obtain ⟨innerBlock, innerRest, inner, rfl, rfl⟩ := found
      simp [ih inner]

theorem single_consumes (first : Char) (rest : List Char) :
    (single first rest).Consumes (first :: rest) := by
  unfold single
  split <;> simp [Consumes, bare, plain]

theorem symbol_consumes (first : Char) (rest : List Char) :
    (symbol first rest).Consumes (first :: rest) := by
  unfold symbol
  split
  · exact single_consumes first []
  · split
    · simp [Consumes, bare]
    · exact single_consumes first _

theorem dollar_consumes (rest : List Char) :
    (dollar rest).Consumes ('$' :: rest) := by
  unfold dollar
  split
  · exact single_consumes '$' []
  · split
    · exact radixDigits_consumes (List.cons_ne_nil '$' [])
    · exact single_consumes '$' _

theorem lineComment_consumes (rest : List Char) :
    (lineComment ('/' :: rest)).Consumes ('/' :: rest) := by
  have slashContinues : continuesLine '/' = true := by decide
  exact ⟨List.takeWhile_append_dropWhile, takeWhile_ne_nil slashContinues⟩

theorem slash_consumes {rest : List Char} {cut : Cut} (found : slash rest = .ok cut) :
    cut.Consumes ('/' :: rest) := by
  unfold slash at found
  split at found
  · cases found
    exact lineComment_consumes _
  · unfold blockComment at found
    split at found
    · rename_i split
      cases found
      simp [Consumes, plain, splitBlock?_append split]
    · simp at found
  · cases found
    exact symbol_consumes '/' rest

theorem string_consumes {rest : List Char} {cut : Cut} (found : string rest = .ok cut) :
    cut.Consumes ('\x22' :: rest) := by
  unfold string at found
  split at found
  · rename_i closed
    cases found
    simp [Consumes, enclosing, ← stringBody_closed closed]
  · simp at found
  · simp at found

theorem quotedInteger_consumes {rest : List Char} {cut : Cut}
    (found : quotedInteger rest = .ok cut) :
    cut.Consumes ('\x27' :: rest) := by
  unfold quotedInteger at found
  split at found
  · rename_i closed
    cases found
    simp [Consumes, enclosing, ← quotedBody_closed closed]
  · simp at found
  · simp at found

/-- Whatever lexeme is cut off a text, nothing of the text is lost. -/
theorem front_consumes {first : Char} {rest : List Char} {cut : Cut}
    (found : front first rest = .ok cut) :
    cut.Consumes (first :: rest) := by
  unfold front at found
  split at found
  · rename_i starts
    cases found
    exact word_consumes starts
  · split at found
    · rename_i digit
      exact number_consumes digit found
    · split at found
      · rename_i quote
        exact quote ▸ string_consumes found
      · split at found
        · rename_i quote
          exact quote ▸ quotedInteger_consumes found
        · split at found
          · rename_i sign
            cases found
            exact sign ▸ dollar_consumes rest
          · split at found
            · rename_i isSlash
              exact isSlash ▸ slash_consumes found
            · cases found
              exact symbol_consumes first rest

end Cut

end JassExpr
