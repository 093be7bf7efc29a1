import JassExpr.Proofs.Cursor.Safety
import JassExpr.Proofs.Document.Laminar
import JassExpr.Proofs.Document.Literals
import JassExpr.Proofs.Token.Completion

/-!
# Positions keep the order of places

Reading on by a character makes a position later, by a column or by a line. The places of a source
between two characters are therefore in the order of their positions, and no two of them have the
same one. Tokens begin at such places, and errors point to such places.
-/

namespace JassExpr

namespace Position

/-- One position comes before another: in an earlier line, or further left in the same line. -/
def Before (first second : Position) : Prop :=
  first.line < second.line ∨ first.line = second.line ∧ first.column < second.column

variable {first second third : Position}

theorem Before.ne (before : first.Before second) : first ≠ second := by
  rintro rfl
  rcases before with line | ⟨-, column⟩
  · exact Nat.lt_irrefl _ line
  · exact Nat.lt_irrefl _ column

theorem Before.trans (before : first.Before second) (others : second.Before third) :
    first.Before third := by
  unfold Before at before others ⊢
  omega

theorem Before.asymm (before : first.Before second) : ¬ second.Before first :=
  fun after => (before.trans after).ne rfl

/-- Reading on by some text ends at a later position. -/
theorem before_advance (position : Position) {text : List Char} (nonempty : text ≠ []) :
    position.Before (position.advance text) := by
  induction text generalizing position with
  | nil => exact absurd rfl nonempty
  | cons character text ih =>
      have step : position.Before (position.advance [character]) := by
        rw [advance, advance]
        split
        · exact .inl (Nat.lt_succ_self _)
        · exact .inr ⟨rfl, Nat.lt_succ_self _⟩
      rw [← List.singleton_append, advance_append]
      cases text with
      | nil => exact step
      | cons next text => exact step.trans (ih _ (List.cons_ne_nil next text))

end Position

namespace Source

/-- A place of a source to which a position can be told: it is between two characters or at an end
of the text, and not in front of a mark that the text begins with. -/
structure IsPlace (source : String) (offset : Nat) : Prop where
  boundary : IsBoundary source offset
  behindMark : textStart source.toList ≤ offset

variable {source : String} {offset : Nat}

/-- Of two parts with which a text begins, the longer one begins with the shorter one. -/
theorem exists_append_of_byteLength_le {first second back others : List Char}
    (same : first ++ back = second ++ others) (shorter : byteLength first ≤ byteLength second) :
    ∃ middle, second = first ++ middle ∧ back = middle ++ others := by
  rcases List.append_eq_append_iff.mp same with ⟨middle, rfl, rest⟩ | ⟨middle, rfl, rest⟩
  · exact ⟨middle, rfl, rest⟩
  · rw [byteLength_append] at shorter
    obtain rfl : middle = [] := byteLength_eq_zero_iff.mp (by omega)
    exact ⟨[], by simp, rest.symm⟩

/-- A place is known by the text from the first line up to it. -/
theorem IsPlace.exists_append (place : IsPlace source offset) :
    ∃ front back, (splitMark source.toList).2 = front ++ back ∧
      offset = textStart source.toList + byteLength front := by
  obtain ⟨⟨before, after⟩, split⟩ := Option.isSome_iff_exists.mp place.boundary
  obtain ⟨whole, rfl⟩ := splitAt?_eq_some_iff.mp split
  rw [← splitMark_append source.toList] at whole
  obtain ⟨front, rfl, rest⟩ := exists_append_of_byteLength_le whole.symm place.behindMark
  exact ⟨front, after, rest, byteLength_append _ _⟩

theorem isPlace_of_append {front back : List Char}
    (whole : (splitMark source.toList).2 = front ++ back) :
    IsPlace source (textStart source.toList + byteLength front) where
  boundary := by
    have parts : (splitMark source.toList).1 ++ front ++ back = source.toList := by
      rw [List.append_assoc, ← whole, splitMark_append]
    rw [textStart, ← byteLength_append]
    exact isBoundary_of_append parts
  behindMark := Nat.le_add_right _ _

end Source

namespace LineMap

open Source

variable {source : String} {first second : Nat}

/-- Of two places, the one further on has the later position. -/
theorem before_of_lt (place : IsPlace source first) (other : IsPlace source second)
    (earlier : first < second) :
    ((ofSource source).position first).Before ((ofSource source).position second) := by
  obtain ⟨front, back, whole, rfl⟩ := place.exists_append
  obtain ⟨longer, others, wholeOther, rfl⟩ := other.exists_append
  obtain ⟨middle, rfl, rest⟩ := exists_append_of_byteLength_le (whole.symm.trans wholeOther)
    (by omega)
  have nonempty : middle ≠ [] := by
    rintro rfl
    rw [List.append_nil] at earlier
    exact Nat.lt_irrefl _ earlier
  rw [position_eq_advance whole, position_eq_advance wholeOther, Position.advance_append]
  exact Position.before_advance _ nonempty

/-- Positions of places compare as the places do. -/
theorem before_iff_lt (place : IsPlace source first) (other : IsPlace source second) :
    ((ofSource source).position first).Before ((ofSource source).position second) ↔
      first < second := by
  constructor
  · intro before
    rcases Nat.lt_trichotomy first second with earlier | rfl | later
    · exact earlier
    · exact absurd rfl before.ne
    · exact absurd (before_of_lt other place later) before.asymm
  · exact before_of_lt place other

theorem eq_of_position_eq (place : IsPlace source first) (other : IsPlace source second)
    (same : (ofSource source).position first = (ofSource source).position second) :
    first = second := by
  rcases Nat.lt_trichotomy first second with earlier | rfl | later
  · exact absurd same (before_of_lt place other earlier).ne
  · rfl
  · exact absurd same.symm (before_of_lt other place later).ne

end LineMap

section

variable {source : String} {tokens : List Token}

/-- Tokens begin and end at places of their source. -/
theorem isPlace_of_tokenize (scanned : tokenize source = .ok tokens) {token : Token}
    (member : token ∈ tokens) :
    Source.IsPlace source token.span.start ∧ Source.IsPlace source token.span.stop := by
  have laid := tokenize_eq_ok_iff.mp scanned
  obtain ⟨nonempty, written, sliced, -⟩ := laid.slice rfl token member
  have isSome : (token.span.slice? source).isSome := by
    rw [Source.splitMark_append] at sliced
    rw [Span.slice?, sliced]
    rfl
  have notBefore : Source.textStart source.toList ≤ token.span.start :=
    laid.le_start token member
  obtain ⟨-, starts, stops, -⟩ := Source.bounds_of_slice? isSome
  exact ⟨⟨starts, notBefore⟩, ⟨stops, Nat.le_trans notBefore (Nat.le_of_lt nonempty)⟩⟩

theorem isPlace_of_lexical {error : LexError} (failed : tokenize source = .error error) :
    Source.IsPlace source error.offset := by
  obtain ⟨front, back, fault, whole, shown, -, place, -⟩ := exists_shownBy_of_tokenize failed
  obtain ⟨others, passed⟩ := shown.exists_append
  rw [place]
  apply Source.isPlace_of_append
  rw [whole, passed, List.append_assoc]

/-- A syntax error points to the start of a token or to the end of the last one. -/
theorem isPlace_of_syntactic {error : SyntaxError} (scanned : tokenize source = .ok tokens)
    (failed : parseWith defaultLimit (Token.stripComments tokens) = .error error) :
    Source.IsPlace source error.span.start := by
  obtain ⟨front, ⟨kind, rest⟩, whole, -, rfl⟩ := exists_stop_of_parseWith failed
  cases rest with
  | cons token rest =>
      have member : token ∈ Token.stripComments tokens := by
        rw [← whole]
        exact List.mem_append_right front List.mem_cons_self
      exact (isPlace_of_tokenize scanned (List.mem_of_mem_filter member)).1
  | nil =>
      rw [Stop.error, Token.endOf]
      cases isLast : (Token.stripComments tokens).getLast? with
      | none =>
          rw [List.getLast?_eq_none_iff.mp isLast] at failed
          simp [parseWith] at failed
      | some last =>
          have member := List.mem_of_mem_filter (List.mem_of_getLast? isLast)
          exact (isPlace_of_tokenize scanned member).2

/-- Whatever error a source has, it points to a place of the source. -/
theorem isPlace_of_parseSource {error : SourceError}
    (failed : parseSource source = .error error) : Source.IsPlace source error.offset := by
  cases error with
  | lexical error =>
      exact isPlace_of_lexical (parseSource_eq_lexical_iff.mp failed)
  | syntactic error =>
      obtain ⟨tokens, scanned, failed⟩ := parseSource_eq_syntactic_iff.mp failed
      exact isPlace_of_syntactic scanned failed

end

/-- Of two places of a source, the one further on has the later position, so no two have the same
one. The tokens of a source come in the order of the positions of their starts, and an error points
to a place. -/
theorem position_orders_places (source : String) :
    (∀ first second, Source.IsPlace source first → Source.IsPlace source second →
      first < second → ((LineMap.ofSource source).position first).Before
        ((LineMap.ofSource source).position second)) ∧
    (∀ first second, Source.IsPlace source first → Source.IsPlace source second →
      (LineMap.ofSource source).position first = (LineMap.ofSource source).position second →
        first = second) ∧
    (∀ tokens, tokenize source = .ok tokens →
      ∀ first second, (isFirst : first < tokens.length) → (isSecond : second < tokens.length) →
        (first < second ↔ ((LineMap.ofSource source).position tokens[first].span.start).Before
          ((LineMap.ofSource source).position tokens[second].span.start))) ∧
    ∀ error, parseSource source = .error error → Source.IsPlace source error.offset := by
  refine ⟨fun first second => LineMap.before_of_lt, fun first second => LineMap.eq_of_position_eq,
    ?_, fun error => isPlace_of_parseSource⟩
  intro tokens scanned first second isFirst isSecond
  have place := (isPlace_of_tokenize scanned (List.getElem_mem isFirst)).1
  have other := (isPlace_of_tokenize scanned (List.getElem_mem isSecond)).1
  rw [LineMap.before_iff_lt place other, (inOrder_of_tokenize scanned).start_lt_iff]

/-- A letter behind a mark, a line of its own with a return, and an error at its end. -/
theorem position_orders_places_marked :
    let source := "\ufeffé\r\n-"
    let tokens : List Token := [⟨.valued .other "é", ⟨3, 5⟩⟩, ⟨.fixed .minus, ⟨7, 8⟩⟩]
    let lines := LineMap.ofSource source
    (lines.position 5).Before (lines.position 7) ∧
      (lines.position 5 = lines.position 7 → 5 = 7) ∧
        tokenize source = .ok tokens ∧
          (0 < 1 ↔ (lines.position tokens[0].span.start).Before
            (lines.position tokens[1].span.start)) ∧
            ∃ error, parseSource source = .error error ∧ Source.IsPlace source error.offset := by
  intro source tokens lines
  have five : Source.IsPlace source 5 := ⟨by cbv, by decide⟩
  have seven : Source.IsPlace source 7 := ⟨by cbv, by decide⟩
  have scanned : tokenize source = .ok tokens := by cbv
  have failed : parseSource source =
      .error (.syntactic ⟨.expectedExpression, some tokens[0], ⟨3, 5⟩⟩) := by cbv
  have ordered := position_orders_places source
  exact ⟨ordered.1 5 7 five seven (by decide), ordered.2.1 5 7 five seven, scanned,
    ordered.2.2.1 tokens scanned 0 1 (by decide) (by decide), _, failed,
    ordered.2.2.2 _ failed⟩

end JassExpr
