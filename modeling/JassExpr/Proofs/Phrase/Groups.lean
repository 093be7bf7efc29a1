import JassExpr.Proofs.Phrase.Map
import JassExpr.Proofs.Phrase.Parts
import JassExpr.Proofs.Phrase.Plainer
import JassExpr.Proofs.Phrase.Weave

/-!
# Groups among tokens

Seen from the tokens alone, a group is two positions: those of its parentheses. Between them stand
the tokens of one expression, and no name stands in front of them, so they are not the parentheses
of a call. Leaving out parentheses of a phrase is omitting the tokens at the positions of some of
its groups and no others.
-/

namespace JassExpr

/-- Whether a lexeme is a word that can name a variable or a function. -/
def Lexeme.IsName (lexeme : Lexeme) : Prop :=
  lexeme.kind = .identifier ∧ Literal.ofWord? lexeme.text = none

theorem Lexeme.not_isName_of_ne {lexeme : Lexeme} {kind : TokenKind} (same : lexeme.kind = kind)
    (notWord : kind ≠ .identifier) : ¬lexeme.IsName := by
  rintro ⟨word, -⟩
  exact notWord (same.symm.trans word)

/-- The items of a list, of which the first stands at `base`, without those at some positions. -/
def omitFrom {α : Type} (positions : List Nat) (base : Nat) : List α → List α
  | [] => []
  | item :: rest =>
      if base ∈ positions then omitFrom positions (base + 1) rest
      else item :: omitFrom positions (base + 1) rest

section

variable {α : Type} {positions others : List Nat} {base : Nat}

theorem omitFrom_append (first second : List α) :
    omitFrom positions base (first ++ second) =
      omitFrom positions base first ++ omitFrom positions (base + first.length) second := by
  induction first generalizing base with
  | nil => rfl
  | cons item first ih =>
      have next : base + 1 + first.length = base + (first.length + 1) := by omega
      rw [List.cons_append, omitFrom, omitFrom, ih, List.length_cons, next]
      split <;> rfl

theorem omitFrom_congr (items : List α)
    (same : ∀ position, base ≤ position → position < base + items.length →
      (position ∈ positions ↔ position ∈ others)) :
    omitFrom positions base items = omitFrom others base items := by
  induction items generalizing base with
  | nil => rfl
  | cons item items ih =>
      rw [List.length_cons] at same
      have later : omitFrom positions (base + 1) items = omitFrom others (base + 1) items :=
        ih fun position from_ upTo => same position (by omega) (by omega)
      simp only [omitFrom, same base Nat.le.refl (by omega), later]

theorem omitFrom_nil (items : List α) : omitFrom [] base items = items := by
  induction items generalizing base with
  | nil => rfl
  | cons item items ih => rw [omitFrom, if_neg List.not_mem_nil, ih]

end

/-- The positions at which the pairs begin and end. -/
def pairPositions (pairs : List (Nat × Nat)) : List Nat :=
  pairs.flatMap fun pair => [pair.1, pair.2]

/-- Some items are what is left of others, of which the first stands at `base`, without those at
the positions of some pairs. All the pairs are positions of the others. -/
structure Omits {α : Type} (pairs : List (Nat × Nat)) (base : Nat) (kept items : List α) :
    Prop where
  within : ∀ position ∈ pairPositions pairs, base ≤ position ∧ position < base + items.length
  same : kept = omitFrom (pairPositions pairs) base items

namespace Omits

variable {α : Type} {pairs others : List (Nat × Nat)} {base : Nat}
  {kept items kept' items' : List α}

theorem refl (base : Nat) (items : List α) : Omits [] base items items where
  within := List.forall_mem_nil _
  same := (omitFrom_nil items).symm

/-- What is omitted of two lists one after the other is what is omitted of each. -/
theorem append (first : Omits pairs base kept items)
    (second : Omits others (base + items.length) kept' items') :
    Omits (pairs ++ others) base (kept ++ kept') (items ++ items') := by
  have split : pairPositions (pairs ++ others) = pairPositions pairs ++ pairPositions others :=
    List.flatMap_append
  constructor
  · rw [split, List.length_append]
    intro position member
    rcases List.mem_append.mp member with inFirst | inSecond
    · have := first.within position inFirst
      omega
    · have := second.within position inSecond
      omega
  · have here : omitFrom (pairPositions pairs ++ pairPositions others) base items = kept := by
      rw [first.same]
      apply omitFrom_congr
      intro position from_ upTo
      have outside : position ∉ pairPositions others := by
        intro member
        have := second.within position member
        omega
      simp [outside]
    have there : omitFrom (pairPositions pairs ++ pairPositions others) (base + items.length)
        items' = kept' := by
      rw [second.same]
      apply omitFrom_congr
      intro position from_ upTo
      have outside : position ∉ pairPositions pairs := by
        intro member
        have := first.within position member
        omega
      simp [outside]
    rw [split, omitFrom_append, here, there]

/-- The first and the last of some items are omitted together. -/
theorem enclosing {opening closing : α} (inside : Omits pairs (base + 1) kept items) :
    Omits ((base, base + items.length + 1) :: pairs) base kept
      (opening :: (items ++ [closing])) := by
  have positions : pairPositions ((base, base + items.length + 1) :: pairs) =
      base :: (base + items.length + 1) :: pairPositions pairs := rfl
  constructor
  · rw [positions]
    simp only [List.forall_mem_cons, List.length_cons, List.length_append, List.length_nil]
    refine ⟨by omega, by omega, fun position member => ?_⟩
    have := inside.within position member
    omega
  · have middle : omitFrom (base :: (base + items.length + 1) :: pairPositions pairs) (base + 1)
        items = kept := by
      rw [inside.same]
      apply omitFrom_congr
      intro position from_ upTo
      have notFirst : position ≠ base := by omega
      have notLast : position ≠ base + items.length + 1 := by omega
      simp [notFirst, notLast]
    have last : base + 1 + items.length = base + items.length + 1 := by omega
    rw [positions, omitFrom, if_pos List.mem_cons_self, omitFrom_append, middle, last, omitFrom,
      if_pos (by simp), omitFrom, List.append_nil]

end Omits

namespace Phrase

variable {τ : Type} {lexeme : τ → Lexeme} {phrase other : Phrase τ} {base : Nat}

mutual

/-- The positions of the parentheses of each group in a phrase of which the first token stands at
`base`. -/
def groupsFrom (base : Nat) : Phrase τ → List (Nat × Nat)
  | literal _ _ => []
  | name _ _ => []
  | group _ inner _ => (base, base + inner.tokens.length + 1) :: inner.groupsFrom (base + 1)
  | unary _ _ operand => operand.groupsFrom (base + 1)
  | binary _ left _ right =>
      left.groupsFrom base ++ right.groupsFrom (base + left.tokens.length + 1)
  | call _ _ _ arguments _ _ => groupsOfEach (base + 2) arguments
  | index _ _ _ subscript _ => subscript.groupsFrom (base + 2)

/-- The same for arguments with a comma between each two. -/
def groupsOfEach (base : Nat) : List (Phrase τ) → List (Nat × Nat)
  | [] => []
  | first :: rest => first.groupsFrom base ++ groupsOfEach (base + first.tokens.length + 1) rest

end

/-- The positions of the parentheses of each group among the tokens of a phrase. -/
def groups (phrase : Phrase τ) : List (Nat × Nat) :=
  phrase.groupsFrom 0

/-- Where the groups of a phrase stand does not depend on what its tokens are. -/
theorem groupsFrom_map {σ : Type} (function : τ → σ) (phrase : Phrase τ) (base : Nat) :
    (phrase.map function).groupsFrom base = phrase.groupsFrom base := by
  induction phrase generalizing base with
  | literal token value => rfl
  | name token name => rfl
  | group opening inner closing ih => simp [map, groupsFrom, ih]
  | unary operator token operand ih => simp [map, groupsFrom, ih]
  | binary operator left token right ihLeft ihRight => simp [map, groupsFrom, ihLeft, ihRight]
  | call callee name opening arguments commas closing ih =>
      have each : ∀ base, groupsOfEach base (mapEach function arguments) =
          groupsOfEach base arguments := by
        induction arguments with
        | nil => intro _; rfl
        | cons first rest ihRest =>
            intro base
            rw [List.forall_mem_cons] at ih
            simp [mapEach, groupsOfEach, ih.1, ihRest ih.2]
      simp [map, groupsFrom, each]
  | index array name opening subscript closing ih => simp [map, groupsFrom, ih]

theorem exists_omits_arguments {arguments others : List (Phrase τ)} {commas : List τ}
    (each : ∀ pair ∈ arguments.zip others, ∀ base, ∃ pairs,
      pairs.Sublist (pair.2.groupsFrom base) ∧ Omits pairs base pair.1.tokens pair.2.tokens)
    (count : arguments.length = others.length) (separators : commas.length = others.length - 1)
    (base : Nat) :
    ∃ pairs, pairs.Sublist (groupsOfEach base others) ∧
      Omits pairs base (weave (tokensOfEach arguments) (commas.map ([·])))
        (weave (tokensOfEach others) (commas.map ([·]))) := by
  have alternating := Alternating.of_length separators
  clear separators
  induction alternating generalizing arguments base with
  | nil =>
      obtain rfl : arguments = [] := List.length_eq_zero_iff.mp count
      exact ⟨[], List.Sublist.refl _, .refl _ _⟩
  | singleton other =>
      obtain ⟨argument, rfl⟩ := List.length_eq_one_iff.mp count
      obtain ⟨pairs, sublist, omits⟩ := each (argument, other) List.mem_cons_self base
      refine ⟨pairs, ?_, ?_⟩
      · simpa [groupsOfEach] using sublist
      · simpa [tokensOfEach, weave] using omits
  | @cons other comma others commas some alternating ih =>
      obtain ⟨argument, arguments, rfl⟩ := List.exists_cons_of_length_eq_add_one count
      rw [List.zip_cons_cons, List.forall_mem_cons] at each
      obtain ⟨pairs, sublist, omits⟩ := each.1 base
      obtain ⟨later, sublistLater, omitsLater⟩ :=
        ih each.2 (Nat.succ.inj count) (base + other.tokens.length + 1)
      refine ⟨pairs ++ later, sublist.append sublistLater, ?_⟩
      have withComma := omits.append (.refl (base + other.tokens.length) [comma])
      rw [List.append_nil] at withComma
      rw [tokensOfEach, tokensOfEach, List.map_cons, weave, weave]
      refine withComma.append ?_
      simpa [Nat.add_assoc] using omitsLater

/-- A plainer phrase has the tokens of the other one without the parentheses of some groups. -/
theorem Plainer.exists_omits (plainer : Plainer phrase other)
    (grammatical : other.Grammatical lexeme) (base : Nat) :
    ∃ pairs, pairs.Sublist (other.groupsFrom base) ∧
      Omits pairs base phrase.tokens other.tokens := by
  induction plainer generalizing base with
  | leftOut inside ih =>
      cases grammatical with
      | group opens closes grammatical =>
          obtain ⟨pairs, sublist, omits⟩ := ih grammatical (base + 1)
          exact ⟨_, sublist.cons_cons _, omits.enclosing⟩
  | literal => exact ⟨[], List.nil_sublist _, .refl _ _⟩
  | name => exact ⟨[], List.nil_sublist _, .refl _ _⟩
  | @group phrase other opening closing inside ih =>
      cases grammatical with
      | group opens closes grammatical =>
          obtain ⟨pairs, sublist, omits⟩ := ih grammatical (base + 1)
          have whole := (Omits.refl base [opening]).append (omits.append (.refl _ [closing]))
          simp only [List.nil_append, List.append_nil] at whole
          exact ⟨pairs, sublist.cons _, whole⟩
  | @unary operator token phrase other inside ih =>
      cases grammatical with
      | unary writes tight grammatical =>
          obtain ⟨pairs, sublist, omits⟩ := ih grammatical (base + 1)
          exact ⟨pairs, sublist, (Omits.refl base [token]).append omits⟩
  | @binary operator token left right left' right' onLeft onRight ihLeft ihRight =>
      cases grammatical with
      | binary writes tightLeft tightRight grammaticalLeft grammaticalRight =>
          obtain ⟨pairs, sublist, omits⟩ := ihLeft grammaticalLeft base
          obtain ⟨others, sublistRight, omitsRight⟩ :=
            ihRight grammaticalRight (base + left'.tokens.length + 1)
          have behind := (Omits.refl (base + left'.tokens.length) [token]).append omitsRight
          exact ⟨pairs ++ others, sublist.append sublistRight, omits.append behind⟩
  | @call callee opening closing name arguments others commas count each ih =>
      cases grammatical with
      | call word free same opens closes separate separators grammatical =>
          obtain ⟨pairs, sublist, omits⟩ := exists_omits_arguments
            (fun pair member => ih pair member (grammatical pair.2 (List.of_mem_zip member).2))
            count separators (base + 2)
          have whole := (Omits.refl base [callee, opening]).append
            (omits.append (.refl _ [closing]))
          simp only [List.nil_append, List.append_nil] at whole
          exact ⟨pairs, sublist, whole⟩
  | @index array opening closing name subscript other inside ih =>
      cases grammatical with
      | index word free same opens closes grammatical =>
          obtain ⟨pairs, sublist, omits⟩ := ih grammatical (base + 2)
          have whole := (Omits.refl base [array, opening]).append
            (omits.append (.refl _ [closing]))
          simp only [List.nil_append, List.append_nil] at whole
          exact ⟨pairs, sublist, whole⟩

/-- At a pair of positions among some tokens, of which the first stands at `base`, are parentheses
with the tokens of a phrase between them. No name stands in front, which would make them the
parentheses of a call. -/
def EnclosedAt (lexeme : τ → Lexeme) (inner : Phrase τ) (base : Nat) (tokens : List τ)
    (pair : Nat × Nat) : Prop :=
  ∃ before opening closing after,
    tokens = before ++ opening :: (inner.tokens ++ closing :: after) ∧
      pair = (base + before.length, base + before.length + inner.tokens.length + 1) ∧
        (lexeme opening).kind = .leftParenthesis ∧ (lexeme closing).kind = .rightParenthesis ∧
          ∀ token ∈ before.getLast?, ¬(lexeme token).IsName

/-- Parentheses among some tokens are parentheses behind other tokens as well, unless the last of
these is a name. -/
theorem EnclosedAt.behind {inner : Phrase τ} {tokens : List τ} {pair : Nat × Nat}
    (front : List τ) {token : τ} (notName : ¬(lexeme token).IsName)
    (enclosed : EnclosedAt lexeme inner (base + front.length + 1) tokens pair) :
    EnclosedAt lexeme inner base (front ++ token :: tokens) pair := by
  obtain ⟨before, opening, closing, after, rfl, rfl, opens, closes, free⟩ := enclosed
  refine ⟨front ++ token :: before, opening, closing, after, by simp, ?_, opens, closes, ?_⟩
  · simp only [List.length_append, List.length_cons, Prod.mk.injEq]
    omega
  · intro last member
    rw [List.getLast?_append_cons, List.getLast?_cons, Option.mem_def] at member
    cases lastBefore : before.getLast? with
    | none =>
        rw [lastBefore] at member
        cases member
        exact notName
    | some other =>
        rw [lastBefore] at member
        cases member
        exact free other lastBefore

theorem EnclosedAt.append_back {inner : Phrase τ} {tokens : List τ} {pair : Nat × Nat}
    (enclosed : EnclosedAt lexeme inner base tokens pair) (back : List τ) :
    EnclosedAt lexeme inner base (tokens ++ back) pair := by
  obtain ⟨before, opening, closing, after, rfl, rfl, opens, closes, free⟩ := enclosed
  exact ⟨before, opening, closing, after ++ back, by simp, rfl, opens, closes, free⟩

theorem exists_enclosedAt_arguments {arguments : List (Phrase τ)} {commas : List τ}
    (each : ∀ argument ∈ arguments, ∀ base, ∀ pair ∈ argument.groupsFrom base,
      ∃ inner : Phrase τ, inner.IsPart argument ∧
        EnclosedAt lexeme inner base argument.tokens pair)
    (separate : ∀ comma ∈ commas, (lexeme comma).kind = .comma)
    (count : commas.length = arguments.length - 1) (base : Nat) :
    ∀ pair ∈ groupsOfEach base arguments, ∃ argument ∈ arguments, ∃ inner : Phrase τ,
      inner.IsPart argument ∧
        EnclosedAt lexeme inner base (weave (tokensOfEach arguments) (commas.map ([·]))) pair := by
  have alternating := Alternating.of_length count
  clear count
  induction alternating generalizing base with
  | nil => exact List.forall_mem_nil _
  | singleton argument =>
      intro pair member
      have inArgument : pair ∈ argument.groupsFrom base := by
        simpa [groupsOfEach] using member
      obtain ⟨inner, isPart, enclosed⟩ := each argument List.mem_cons_self base pair inArgument
      refine ⟨argument, List.mem_cons_self, inner, isPart, ?_⟩
      simpa [tokensOfEach, weave] using enclosed
  | @cons argument comma arguments commas some alternating ih =>
      rw [List.forall_mem_cons] at each separate
      intro pair member
      rw [tokensOfEach, List.map_cons, weave]
      rcases List.mem_append.mp member with inFirst | inLater
      · obtain ⟨inner, isPart, enclosed⟩ := each.1 base pair inFirst
        refine ⟨argument, List.mem_cons_self, inner, isPart, ?_⟩
        rw [List.append_assoc]
        exact enclosed.append_back _
      · obtain ⟨later, among, inner, isPart, enclosed⟩ :=
          ih each.2 separate.2 (base + argument.tokens.length + 1) pair inLater
        refine ⟨later, List.mem_cons_of_mem _ among, inner, isPart, ?_⟩
        rw [List.append_assoc]
        exact enclosed.behind argument.tokens (Lexeme.not_isName_of_ne separate.1 (by decide))

/-- Each group of a phrase is parentheses around the tokens of a part of the phrase. -/
theorem Grammatical.exists_enclosedAt (grammatical : phrase.Grammatical lexeme) (base : Nat) :
    ∀ pair ∈ phrase.groupsFrom base, ∃ inner : Phrase τ, inner.IsPart phrase ∧
      EnclosedAt lexeme inner base phrase.tokens pair := by
  have notName : ∀ {token : τ} {kind : TokenKind}, (lexeme token).kind = kind →
      kind ≠ .identifier → ¬(lexeme token).IsName := Lexeme.not_isName_of_ne
  induction grammatical generalizing base with
  | literal reads => exact List.forall_mem_nil _
  | constant word reads => exact List.forall_mem_nil _
  | name word free same => exact List.forall_mem_nil _
  | @group opening closing inner opens closes inside ih =>
      intro pair member
      rcases List.mem_cons.mp member with rfl | deeper
      · exact ⟨inner, .inside (List.mem_singleton_self _) .whole, [], opening, closing, [], rfl,
          rfl, opens, closes, by simp⟩
      · obtain ⟨part, isPart, enclosed⟩ := ih (base + 1) pair deeper
        exact ⟨part, .inside (List.mem_singleton_self _) isPart,
          (enclosed.append_back [closing]).behind [] (notName opens (by decide))⟩
  | @unary operator token operand writes tight inside ih =>
      intro pair member
      obtain ⟨part, isPart, enclosed⟩ := ih (base + 1) pair member
      exact ⟨part, .inside (List.mem_singleton_self _) isPart,
        enclosed.behind [] (notName writes (by cases operator <;> decide))⟩
  | @binary operator token left right writes tightLeft tightRight onLeft onRight ihLeft ihRight =>
      intro pair member
      rcases List.mem_append.mp member with inLeft | inRight
      · obtain ⟨part, isPart, enclosed⟩ := ihLeft base pair inLeft
        exact ⟨part, .inside List.mem_cons_self isPart, enclosed.append_back _⟩
      · obtain ⟨part, isPart, enclosed⟩ := ihRight (base + left.tokens.length + 1) pair inRight
        exact ⟨part, .inside (List.mem_cons_of_mem _ (List.mem_singleton_self _)) isPart,
          enclosed.behind left.tokens (notName writes (by cases operator <;> decide))⟩
  | @call callee opening closing name arguments commas word free same opens closes separate count
      inside ih =>
      intro pair member
      obtain ⟨argument, among, part, isPart, enclosed⟩ :=
        exists_enclosedAt_arguments ih separate count (base + 2) pair member
      exact ⟨part, .inside among isPart, (enclosed.append_back [closing]).behind [callee]
        (notName opens (by decide))⟩
  | @index array opening closing name subscript word free same opens closes inside ih =>
      intro pair member
      obtain ⟨part, isPart, enclosed⟩ := ih (base + 2) pair member
      exact ⟨part, .inside (List.mem_singleton_self _) isPart,
        (enclosed.append_back [closing]).behind [array] (notName opens (by decide))⟩

end Phrase

end JassExpr
