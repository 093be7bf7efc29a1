import JassExpr.Proofs.Phrase.Accepts

/-!
# Several expressions in a row

Nothing stands between one expression and the next, so where each ends has to follow from the
tokens. It ends where no more tokens can be taken: the expressions that are read are the greedy
partition of the tokens, in which each of them is what it would be alone, and there is no other
such partition.
-/

namespace JassExpr

namespace Phrase

/-- A phrase can end before whatever begins as that before which it can end. -/
theorem EndsBefore.of_head {level : Nat} {phrase : Phrase Token} {rest others : List Token}
    (ends : phrase.EndsBefore level rest) (begins : ∀ token ∈ others.head?, token ∈ rest.head?) :
    phrase.EndsBefore level others where
  operator token member := ends.operator token (begins token member)
  bracket isName token member := ends.bracket isName token (begins token member)

theorem Stands.of_head {level bound : Nat} {phrase : Phrase Token} {rest others : List Token}
    (stands : phrase.Stands level bound rest)
    (begins : ∀ token ∈ others.head?, token ∈ rest.head?) :
    phrase.Stands level bound others :=
  ⟨stands.grammatical, stands.tight, stands.shallow, stands.ends.of_head begins⟩

end Phrase

theorem mem_head?_of_prefix {α : Type} {front whole : List α} (isPrefix : front <+: whole) :
    ∀ first ∈ front.head?, first ∈ whole.head? := by
  obtain ⟨back, rfl⟩ := isPrefix
  intro first member
  rw [List.head?_append, member]
  rfl

theorem parseWith_eq_singleton_iff {limit : Nat} {tokens : List Token} {phrase : Phrase Token} :
    parseWith limit tokens = .ok [phrase] ↔
      phrase.tokens = tokens ∧ phrase.Stands BinaryOp.or.precedence (limit + 1) [] := by
  rw [parseWith_eq_ok_iff, List.flatMap_singleton]
  refine and_congr_right fun _ => ⟨fun row => ?_, fun stands => .cons stands .nil⟩
  cases row with
  | cons stands row => exact stands

/-- An expression cannot be made longer where it ends before what follows it. -/
theorem Phrase.Stands.length_le {limit : Nat} {phrase other : Phrase Token}
    {rest longer : List Token}
    (stands : phrase.Stands BinaryOp.or.precedence (limit + 1) rest)
    (isPrefix : longer <+: phrase.tokens ++ rest)
    (found : parseWith limit longer = .ok [other]) :
    longer.length ≤ phrase.tokens.length := by
  rcases List.prefix_or_prefix_of_prefix isPrefix (List.prefix_append phrase.tokens rest) with
    shorter | ⟨more, rfl⟩
  · exact shorter.length_le
  have begins : ∀ token ∈ more.head?, token ∈ rest.head? :=
    mem_head?_of_prefix ((List.prefix_append_right_inj _).mp isPrefix)
  obtain ⟨whole, alone⟩ := parseWith_eq_singleton_iff.mp found
  have reads := Production.reads_expression limit
  -- The same tokens are read up to the end and up to where the phrase ends.
  have reading := reads.complete [] alone
  rw [List.append_nil, whole, reads.complete more (stands.of_head begins)] at reading
  obtain ⟨-, rfl⟩ := Prod.mk.inj (Except.ok.inj reading)
  simp

/-- The partition of some tokens into expressions each of which takes as many tokens as it can. -/
structure GreedyPartition (limit : Nat) (tokens : List Token) (phrases : List (Phrase Token)) :
    Prop where
  whole : phrases.flatMap Phrase.tokens = tokens
  nonempty : ∀ phrase ∈ phrases, phrase.tokens ≠ []
  /-- Each expression is read from its own tokens as it was read among the others. -/
  alone : ∀ phrase ∈ phrases, parseWith limit phrase.tokens = .ok [phrase]
  /-- No more of the tokens that are left are one expression. -/
  longest : ∀ before phrase after, phrases = before ++ phrase :: after →
    ∀ longer, longer <+: (phrase :: after).flatMap Phrase.tokens →
      phrase.tokens.length < longer.length → ∀ other, parseWith limit longer ≠ .ok [other]

theorem Phrase.InRow.greedyPartition {limit : Nat} {phrases : List (Phrase Token)}
    (row : InRow limit phrases) :
    GreedyPartition limit (phrases.flatMap tokens) phrases where
  whole := rfl
  nonempty phrase _ := phrase.tokens_ne_nil
  alone phrase member := by
    obtain ⟨grammatical, shallow⟩ := row.forall_mem phrase member
    exact parseWith_tokens grammatical shallow
  longest := by
    rintro before phrase after rfl longer isPrefix longerThan other found
    cases row.of_append with
    | cons stands row => exact Nat.not_le_of_lt longerThan (stands.length_le isPrefix found)

namespace GreedyPartition

variable {limit : Nat} {tokens : List Token} {phrase : Phrase Token}
  {phrases others : List (Phrase Token)}

theorem tail (greedy : GreedyPartition limit tokens (phrase :: phrases)) :
    GreedyPartition limit (phrases.flatMap Phrase.tokens) phrases where
  whole := rfl
  nonempty other member := greedy.nonempty other (List.mem_cons_of_mem _ member)
  alone other member := greedy.alone other (List.mem_cons_of_mem _ member)
  longest before other after same :=
    greedy.longest (phrase :: before) other after (by rw [same, List.cons_append])

/-- Whatever of the tokens is one expression is no longer than the first expression. -/
theorem head_length_le (greedy : GreedyPartition limit tokens (phrase :: phrases))
    {front : List Token} {other : Phrase Token} (isPrefix : front <+: tokens)
    (found : parseWith limit front = .ok [other]) : front.length ≤ phrase.tokens.length := by
  rw [← greedy.whole] at isPrefix
  apply Nat.le_of_not_lt
  intro longerThan
  exact greedy.longest [] phrase phrases rfl front isPrefix longerThan other found

/-- Tokens have one greedy partition at most. -/
theorem unique (greedy : GreedyPartition limit tokens phrases)
    (greedy' : GreedyPartition limit tokens others) : others = phrases := by
  induction phrases generalizing tokens others with
  | nil =>
      obtain rfl : [] = tokens := greedy.whole
      cases others with
      | nil => rfl
      | cons other others =>
          have none := (List.append_eq_nil_iff.mp greedy'.whole).1
          exact absurd none other.tokens_ne_nil
  | cons phrase phrases ih =>
      cases others with
      | nil =>
          obtain rfl : [] = tokens := greedy'.whole
          have none := (List.append_eq_nil_iff.mp greedy.whole).1
          exact absurd none phrase.tokens_ne_nil
      | cons other others =>
          have whole : phrase.tokens ++ phrases.flatMap Phrase.tokens = tokens := greedy.whole
          have whole' : other.tokens ++ others.flatMap Phrase.tokens = tokens := greedy'.whole
          have alone := greedy.alone phrase List.mem_cons_self
          have alone' := greedy'.alone other List.mem_cons_self
          have shorter : other.tokens.length ≤ phrase.tokens.length :=
            greedy.head_length_le ⟨_, whole'⟩ alone'
          have longer : phrase.tokens.length ≤ other.tokens.length :=
            greedy'.head_length_le ⟨_, whole⟩ alone
          obtain ⟨sameHere, sameRest⟩ :=
            List.append_inj (whole'.trans whole.symm) (Nat.le_antisymm shorter longer)
          rw [sameHere, alone] at alone'
          obtain ⟨rfl, -⟩ := List.cons.inj (Except.ok.inj alone')
          have rest := greedy'.tail
          rw [sameRest] at rest
          rw [ih greedy.tail rest]

end GreedyPartition

/-- Tokens that are read as expressions are read as their greedy partition, which is the only
one. -/
theorem greedyPartition_of_parseWith {limit : Nat} {tokens : List Token}
    {phrases : List (Phrase Token)} (found : parseWith limit tokens = .ok phrases) :
    GreedyPartition limit tokens phrases ∧
      ∀ others, GreedyPartition limit tokens others → others = phrases := by
  obtain ⟨rfl, row⟩ := parseWith_eq_ok_iff.mp found
  exact ⟨row.greedyPartition, fun others greedy => row.greedyPartition.unique greedy⟩

/-- A variable in front of a parenthesis would be a call if it did not stand in parentheses
itself. -/
theorem greedyPartition_of_parseWith_groups :
    let opening : Token := ⟨.fixed .leftParenthesis, ⟨0, 1⟩⟩
    let word : Token := ⟨.valued .identifier "f", ⟨1, 2⟩⟩
    let closing : Token := ⟨.fixed .rightParenthesis, ⟨2, 3⟩⟩
    let name : Phrase Token := .name word "f"
    let group : Phrase Token := .group opening name closing
    let tokens := [opening, word, closing, opening, word, closing, word]
    parseWith 1 tokens = .ok [group, group, name] ∧
      GreedyPartition 1 tokens [group, group, name] ∧
        ∀ others, GreedyPartition 1 tokens others → others = [group, group, name] := by
  intro opening word closing name group tokens
  have isName : name.Grammatical Token.toLexeme := .name rfl (by decide) rfl
  have isGroup : group.Grammatical Token.toLexeme := .group rfl rfl isName
  have stands : ∀ (token : Token) (rest : List Token), BinaryOp.ofKind? token.kind = none →
      group.Stands BinaryOp.or.precedence 2 (token :: rest) := fun token rest notOperator =>
    ⟨isGroup, by decide, by decide,
      .of_notOperator notOperator (by simp [group, Phrase.endsInName])⟩
  have row : Phrase.InRow 1 [group, group, name] :=
    .cons (stands opening _ rfl) (.cons (stands word _ rfl)
      (.cons ⟨isName, by decide, by decide, .nil⟩ .nil))
  have found : parseWith 1 tokens = .ok [group, group, name] :=
    parseWith_eq_ok_iff.mpr ⟨rfl, row⟩
  exact ⟨found, greedyPartition_of_parseWith found⟩

end JassExpr
