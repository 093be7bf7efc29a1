import JassExpr.Proofs.Token.Lossless

/-!
# The text from one token to another

Where a token begins does not depend on what is in front of it, and a token that ends still does
when the text ends there as well. From the start of a token to the end of a later one a text is
therefore laid out as the tokens from the one to the other, and by itself it has the same tokens,
nearer to the start.
-/

namespace JassExpr

section

variable {α : Type} {keeps : α → Bool} {list rest : List α}

/-- What is left of a list without some of its elements begins with an element of the list, and is
what is left from there on. -/
theorem exists_suffix_of_filter_eq_cons {first : α} (same : list.filter keeps = first :: rest) :
    ∃ others, first :: others <:+ list ∧ (first :: others).filter keeps = first :: rest := by
  obtain ⟨before, others, rfl, dropped, kept, sameRest⟩ := List.filter_eq_cons_iff.mp same
  exact ⟨others, List.suffix_append _ _, by rw [List.filter_cons_of_pos kept, sameRest]⟩

theorem exists_prefix_of_filter_eq_concat {last : α}
    (same : list.filter keeps = rest ++ [last]) :
    ∃ others, others ++ [last] <+: list ∧ (others ++ [last]).filter keeps = rest ++ [last] := by
  have reversed : list.reverse.filter keeps = last :: rest.reverse := by
    rw [List.filter_reverse, same, List.reverse_append]
    rfl
  obtain ⟨others, isSuffix, kept⟩ := exists_suffix_of_filter_eq_cons reversed
  refine ⟨others.reverse, by simpa using List.reverse_prefix.mpr isSuffix, ?_⟩
  simpa [← List.filter_reverse] using congrArg List.reverse kept

/-- Successive elements of what is left of a list are what is left of successive elements of it,
from the first of them to the last. -/
theorem exists_infix_of_infix_filter {part : List α} (within : part <:+: list.filter keeps)
    (nonempty : part ≠ []) :
    ∃ whole, whole <:+: list ∧ whole.filter keeps = part ∧ whole.head? = part.head? ∧
      whole.getLast? = part.getLast? := by
  obtain ⟨before, after, cut⟩ := within
  obtain ⟨front, back, rfl, sameFront, -⟩ := List.filter_eq_append_iff.mp cut.symm
  obtain ⟨skipped, middle, rfl, -, sameMiddle⟩ := List.filter_eq_append_iff.mp sameFront
  cases part with
  | nil => exact absurd rfl nonempty
  | cons first rest =>
      obtain ⟨others, isSuffix, sameOthers⟩ := exists_suffix_of_filter_eq_cons sameMiddle
      obtain ⟨less, last, split⟩ : ∃ less last, first :: rest = less ++ [last] :=
        ⟨_, _, (List.dropLast_append_getLast nonempty).symm⟩
      obtain ⟨whole, isPrefix, sameWhole⟩ :=
        exists_prefix_of_filter_eq_concat (sameOthers.trans split)
      refine ⟨whole ++ [last], ?_, sameWhole.trans split.symm, ?_, ?_⟩
      · exact ((isPrefix.isInfix.trans isSuffix.isInfix).trans
          (List.suffix_append _ _).isInfix).trans (List.prefix_append _ _).isInfix
      · obtain ⟨more, joined⟩ := isPrefix
        have begins := congrArg List.head? joined
        rwa [List.head?_append_of_ne_nil _ (by simp)] at begins
      · rw [split, List.getLast?_concat, List.getLast?_concat]

end

variable {move : Nat → Nat}

/-- A span between the places to which its bounds are moved. -/
def Span.relocate (move : Nat → Nat) (span : Span) : Span :=
  ⟨move span.start, move span.stop⟩

namespace Token

/-- A token at the place to which it is moved. -/
def relocate (move : Nat → Nat) (token : Token) : Token :=
  { token with span := token.span.relocate move }

@[simp]
theorem toLexeme_relocate (token : Token) : (token.relocate move).toLexeme = token.toLexeme :=
  rfl

theorem stripComments_map_relocate (tokens : List Token) :
    stripComments (tokens.map (relocate move)) = (stripComments tokens).map (relocate move) := by
  rw [stripComments, stripComments, List.filter_map]
  rfl

end Token

namespace Scan

/-- A scan at the place to which it is moved. -/
def relocate (move : Nat → Nat) (scan : Scan) : Scan where
  tokens := scan.tokens.map (Token.relocate move)
  fault? := scan.fault?.map fun (kind, offset) => (kind, move offset)

/-- A text that begins further on is scanned as the same text, moved. -/
theorem textFrom_add (offset distance : Nat) (text : List Char) :
    textFrom (offset + distance) text = (textFrom offset text).relocate (· + distance) := by
  fun_induction textFrom offset text with
  | case1 offset => rw [textFrom_nil]; rfl
  | case2 offset first rest blank ih =>
      rw [textFrom_blank blank, Nat.add_right_comm, ih]
  | case3 offset first rest notBlank cut found ih =>
      rw [textFrom_cut (by simpa using notBlank) found, Nat.add_right_comm, ih]
      simp [after, relocate, tokenOf, Token.relocate, Span.relocate, Nat.add_right_comm]
  | case4 offset first rest notBlank fault found =>
      rw [textFrom_fault (by simpa using notBlank) found, Nat.add_right_comm]
      rfl

end Scan

/-- What lets a text end still does when less of it follows. -/
theorem TokenKind.Ends.of_append {kind : TokenKind} {text rest more : List Char}
    (ends : kind.Ends text (rest ++ more)) : kind.Ends text rest where
  apart := by
    intro next member
    apply ends.apart next
    rw [List.head?_append, member]
    rfl
  noPlaces := by
    rintro isInteger digit after rfl
    exact ends.noPlaces isInteger digit (after ++ more) rfl

namespace Laid

variable {offset : Nat} {text : List Char} {tokens before after : List Token} {token : Token}

theorem stop_le (laid : Laid offset text tokens) :
    ∀ token ∈ tokens, token.span.stop ≤ offset + Source.byteLength text := by
  induction laid with
  | empty => simp
  | blank isBlank others ih =>
      intro token member
      have := ih token member
      rw [Source.byteLength_cons, utf8Size_blank isBlank]
      omega
  | token written ends others ih =>
      rw [Source.byteLength_append]
      intro token member
      rcases List.mem_cons.mp member with rfl | later
      · simp only
        omega
      · have := ih token later
        omega

/-- From the start of a token on, a text is laid out as this token and those after it. -/
theorem drop (laid : Laid offset text (before ++ token :: after)) :
    ∃ front back, front ++ back = text ∧ offset + Source.byteLength front = token.span.start ∧
      Laid token.span.start back (token :: after) := by
  generalize same : before ++ token :: after = tokens at laid
  induction laid generalizing before with
  | empty => simp at same
  | @blank offset first rest tokens isBlank others ih =>
      obtain ⟨front, back, rfl, starts, laid⟩ := ih same
      refine ⟨first :: front, back, rfl, ?_, laid⟩
      rw [Source.byteLength_cons, utf8Size_blank isBlank]
      omega
  | @token offset lexeme text rest tokens written ends others ih =>
      cases before with
      | nil =>
          obtain ⟨rfl, rfl⟩ := List.cons.inj same
          exact ⟨[], text ++ rest, rfl, rfl, .token written ends others⟩
      | cons first before =>
          obtain ⟨front, back, rfl, starts, laid⟩ := ih (List.cons.inj same).2
          refine ⟨text ++ front, back, List.append_assoc _ _ _, ?_, laid⟩
          rw [Source.byteLength_append]
          omega

/-- Up to the end of a token, a text is laid out as the tokens before this one and itself. -/
theorem take (laid : Laid offset text (before ++ token :: after)) :
    ∃ front back, front ++ back = text ∧ offset + Source.byteLength front = token.span.stop ∧
      Laid offset front (before ++ [token]) := by
  generalize same : before ++ token :: after = tokens at laid
  induction laid generalizing before with
  | empty => simp at same
  | @blank offset first rest tokens isBlank others ih =>
      obtain ⟨front, back, rfl, stops, laid⟩ := ih same
      refine ⟨first :: front, back, rfl, ?_, .blank isBlank laid⟩
      rw [Source.byteLength_cons, utf8Size_blank isBlank]
      omega
  | @token offset lexeme text rest tokens written ends others ih =>
      cases before with
      | nil =>
          obtain ⟨rfl, rfl⟩ := List.cons.inj same
          have followed : lexeme.kind.Ends text ([] ++ rest) := ends
          have alone : Laid offset (text ++ []) [_] := .token written followed.of_append .empty
          rw [List.append_nil] at alone
          exact ⟨text, rest, rfl, rfl, alone⟩
      | cons first before =>
          obtain ⟨rfl, sameOthers⟩ := List.cons.inj same
          obtain ⟨front, back, rfl, stops, laid⟩ := ih sameOthers
          refine ⟨text ++ front, back, List.append_assoc _ _ _, ?_,
            .token written ends.of_append laid⟩
          rw [Source.byteLength_append]
          omega

/-- From the start of a token to the end of a later one, a text is laid out as the tokens from the
one to the other. -/
theorem excerpt {within : List Token} {first last : Token} (laid : Laid offset text tokens)
    (isInfix : within <:+: tokens) (begins : within.head? = some first)
    (stops : within.getLast? = some last) :
    ∃ front middle back, front ++ middle ++ back = text ∧
      offset + Source.byteLength front = first.span.start ∧
        first.span.start + Source.byteLength middle = last.span.stop ∧
          Laid first.span.start middle within := by
  obtain ⟨before, after, rfl⟩ := isInfix
  obtain ⟨others, rfl⟩ := List.head?_eq_some_iff.mp begins
  obtain ⟨less, same⟩ := List.getLast?_eq_some_iff.mp stops
  rw [List.append_assoc, List.cons_append] at laid
  obtain ⟨front, rest, rfl, starts, laidRest⟩ := laid.drop
  rw [← List.cons_append, same, List.append_assoc, List.singleton_append] at laidRest
  obtain ⟨middle, back, rfl, ends, laidMiddle⟩ := laidRest.take
  rw [← same] at laidMiddle
  exact ⟨front, middle, back, List.append_assoc _ _ _, starts, ends, laidMiddle⟩

/-- The tokens of a text that begins further on are those of the same text, moved. -/
theorem exists_map_relocate {distance : Nat} (laid : Laid (offset + distance) text tokens) :
    ∃ moved, Laid offset text moved ∧ moved.map (Token.relocate (· + distance)) = tokens := by
  have scanned := Scan.textFrom_of_laid laid
  rw [Scan.textFrom_add] at scanned
  obtain ⟨same, faultless⟩ := Scan.mk.inj scanned
  exact ⟨_, Scan.laid_textFrom offset text (Option.map_eq_none_iff.mp faultless), same⟩

end Laid

/-- The text of a source from the start of a token, which is of a known kind, to the end of a later
one has the tokens from the one to the other, as far from its start as they were from there. -/
theorem exists_tokenize_slice {source : String} {tokens within : List Token}
    (scanned : tokenize source = .ok tokens) (isInfix : within <:+: tokens)
    (nonempty : within ≠ []) (known : ∀ token ∈ within.head?, token.kind ≠ .other) :
    ∃ text moved, (Token.extent within).slice? source = some text ∧ tokenize text = .ok moved ∧
      moved.map (Token.relocate (· + (Token.extent within).start)) = within := by
  have begins := List.head?_eq_some_head nonempty
  have stops := List.getLast?_eq_some_getLast nonempty
  generalize within.head nonempty = first at begins
  generalize within.getLast nonempty = last at stops
  have laid := tokenize_eq_ok_iff.mp scanned
  obtain ⟨front, middle, back, whole, starts, ends, laidMiddle⟩ := laid.excerpt isInfix begins stops
  have startsFirst := laidMiddle.le_start last (List.mem_of_getLast? stops)
  have endsLast := laidMiddle.stop_le first (List.mem_of_head? begins)
  have extent : Token.extent within = ⟨first.span.start, last.span.stop⟩ := by
    rw [Token.extent, begins, stops]
    simp only [Span.cover, Span.mk.injEq]
    omega
  have noMark := laidMiddle.head?_ne_mark known
  rw [← Nat.zero_add first.span.start] at laidMiddle
  obtain ⟨moved, laidMoved, same⟩ := laidMiddle.exists_map_relocate
  refine ⟨String.ofList middle, moved, ?_, ?_, ?_⟩
  · have sliced : Source.slice? first.span.start last.span.stop source.toList = some middle := by
      apply Source.slice?_eq_some_iff.mpr
      refine ⟨(Source.splitMark source.toList).1 ++ front, back, ?_, ?_, ?_⟩
      · rw [List.append_assoc, List.append_assoc, ← List.append_assoc front, whole,
          Source.splitMark_append]
      · rwa [Source.byteLength_append]
      · simp only [Source.byteLength_append]
        omega
    rw [extent, Span.slice?, sliced]
    rfl
  · rw [tokenize_eq_ok_iff, String.toList_ofList, Source.splitMark_of_head?_ne noMark]
    exact laidMoved
  · rw [extent]
    exact same

end JassExpr
