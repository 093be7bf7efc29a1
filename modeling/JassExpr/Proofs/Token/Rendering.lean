import JassExpr.Proofs.Token.Laid

/-!
# Scanning undoes rendering

Lexemes are rendered by writing each in one of its ways and putting blanks between them. Scanning
the rendering finds them again, each at the place where it was written. A blank lets every lexeme
end except for a line comment, which only the end of its line does.
-/

namespace JassExpr

/-- A lexeme with one of the texts that write it. -/
structure Writing where
  lexeme : Lexeme
  text : List Char
  written : lexeme.Written text

namespace Writing

/-- Whether a lexeme is written as a line comment. -/
def isLineComment (writing : Writing) : Prop :=
  writing.lexeme.kind = .comment ∧ ['/', '/'] <+: writing.text

/-- The text of some lexemes, each with the gap after it. -/
def rendered : List (Writing × List Char) → List Char
  | [] => []
  | (writing, gap) :: rest => writing.text ++ (gap ++ rendered rest)

/-- The tokens of some lexemes that are rendered from an offset on. -/
def placed (offset : Nat) : List (Writing × List Char) → List Token
  | [] => []
  | (writing, gap) :: rest =>
      ⟨writing.lexeme, ⟨offset, offset + Source.byteLength writing.text⟩⟩ ::
        placed (offset + Source.byteLength writing.text + Source.byteLength gap) rest

/-- The gaps are blank, none of them but the last is empty, and that after a line comment goes to
the next line. -/
def Separated : List (Writing × List Char) → Prop
  | [] => True
  | (writing, gap) :: rest =>
      (∀ character ∈ gap, isBlank character = true) ∧ (rest ≠ [] → gap ≠ []) ∧
        (writing.isLineComment → ∀ first ∈ gap.head?, first = '\r' ∨ first = '\n') ∧
          Separated rest

end Writing

/-- A blank lets every text end, except for one inside a line comment. -/
theorem TokenKind.Ends.of_blank {kind : TokenKind} {text rest : List Char}
    (blank : ∀ next ∈ rest.head?, isBlank next = true)
    (line : kind = .comment → isLine text = true →
      ∀ next ∈ rest.head?, next = '\r' ∨ next = '\n') :
    kind.Ends text rest := by
  refine .of_delimiter ?_ ?_
  · intro next member
    rcases isBlank_iff.mp (blank next member) with rfl | rfl | rfl | rfl <;> decide
  · intro isComment inLine next member
    rcases line isComment inLine next member with rfl | rfl <;> rfl

namespace Writing

theorem prefix_of_isLine {text : List Char} (inLine : TokenKind.isLine text = true) :
    ['/', '/'] <+: text := by
  rw [TokenKind.isLine, beq_iff_eq] at inLine
  exact inLine ▸ List.take_prefix 2 text

/-- Rendered lexemes are laid out where they were placed. -/
theorem laid_rendered {parts : List (Writing × List Char)} (separated : Separated parts)
    (offset : Nat) :
    Laid offset (rendered parts) (placed offset parts) := by
  induction parts generalizing offset with
  | nil => exact .empty
  | cons part rest ih =>
      obtain ⟨writing, gap⟩ := part
      obtain ⟨blank, nonempty, line, others⟩ := separated
      refine .token writing.written ?_ (.blanks blank (ih others _))
      have head : ∀ next ∈ (gap ++ rendered rest).head?, next ∈ gap.head? := by
        intro next member
        cases gap with
        | cons first gap => exact member
        | nil =>
            have : rest = [] := Decidable.byContradiction fun more => nonempty more rfl
            subst this
            exact member
      refine .of_blank ?_ ?_
      · intro next member
        exact blank next (List.mem_of_mem_head? (head next member))
      · intro isComment inLine next member
        exact line ⟨isComment, prefix_of_isLine inLine⟩ next (head next member)

end Writing

/-- Scanning a rendering of lexemes gives exactly these lexemes at the places where they were
written, provided that the text does not begin with a byte-order mark. -/
theorem tokenize_rendered {lead : List Char} {parts : List (Writing × List Char)}
    (blank : ∀ character ∈ lead, isBlank character = true)
    (separated : Writing.Separated parts)
    (noMark : (lead ++ Writing.rendered parts).head? ≠ some Source.byteOrderMark) :
    tokenize (String.ofList (lead ++ Writing.rendered parts)) =
      .ok (Writing.placed (Source.byteLength lead) parts) := by
  rw [tokenize_eq_ok_iff, String.toList_ofList, Source.splitMark_of_head?_ne noMark]
  refine .blanks blank ?_
  simpa using Writing.laid_rendered separated (0 + Source.byteLength lead)

/-- A real number that begins with a zero, a comment up to the end of its line, and a dollar sign
without a digit. -/
theorem tokenize_rendered_line :
    let real : Writing :=
      ⟨.valued .real (String.ofList (['0', '8'] ++ ['.', '5'])), ['0', '8'] ++ ['.', '5'],
        .real (.padded (.inl rfl) (List.forall_mem_nil _)) (List.cons_ne_nil _ _)
          (List.all_eq_true.mp rfl)⟩
    let line : Writing :=
      ⟨.valued .comment (String.ofList ['/', '/', 'é']), ['/', '/', 'é'],
        .lineComment (List.forall_mem_singleton.mpr ⟨by decide, by decide⟩)⟩
    let dollar : Writing :=
      ⟨.valued .other (String.singleton '$'), ['$'],
        .other ⟨rfl, rfl, rfl, by decide, by decide, by intro kind; cases kind <;> decide⟩⟩
    let parts := [(real, ['\t']), (line, ['\r', '\n']), (dollar, [])]
    Writing.Separated parts ∧
      tokenize (String.ofList (['\n'] ++ Writing.rendered parts)) =
        .ok (Writing.placed (Source.byteLength ['\n']) parts) := by
  intro real line dollar parts
  have separated : Writing.Separated parts := by
    refine ⟨List.all_eq_true.mp rfl, fun _ => by simp, ?_, List.all_eq_true.mp rfl,
      fun _ => by simp, ?_, by simp, by simp, by simp, trivial⟩
    · rintro ⟨isComment, -⟩
      cases isComment
    · rintro - first member
      exact .inl (Option.some.inj member).symm
  exact ⟨separated, tokenize_rendered (List.all_eq_true.mp rfl) separated (by decide)⟩

end JassExpr
