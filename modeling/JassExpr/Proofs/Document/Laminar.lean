import JassExpr.Proofs.Document.Formatting
import JassExpr.Proofs.Phrase.Subtrees
import JassExpr.Proofs.Token.Lossless

/-!
# Spans of nodes are laminar

The tokens of a source follow one another, so the span of a phrase goes from the start of its first
token to the stop of its last one, and whatever are successive tokens of the phrase lie inside. What
a phrase is made of has a token of the phrase between each two. The node of an operand in
parentheses leaves them out, which makes its span smaller and keeps it apart from the others.
-/

namespace JassExpr

/-- One span lies inside another. -/
def Span.Within (inner outer : Span) : Prop :=
  outer.start ≤ inner.start ∧ inner.stop ≤ outer.stop

/-- One span ends before another begins. -/
def Span.Before (first second : Span) : Prop :=
  first.stop ≤ second.start

/-- A token that takes some text lies between two spans. -/
structure Token.Separates (token : Token) (first second : Span) : Prop where
  nonempty : token.span.start < token.span.stop
  after : first.Before token.span
  before : token.span.Before second

/-- Tokens take some text each and follow one another. -/
structure Token.InOrder (tokens : List Token) : Prop where
  nonempty : ∀ token ∈ tokens, token.span.start < token.span.stop
  apart : tokens.Pairwise fun earlier later => earlier.span.Before later.span

/-- The span of a node, if the table has it. -/
def NodeTable.span? (table : NodeTable) (number : Nat) : Option Span :=
  (table.node? number).map Node.span

/-- The spans of the nodes of a table are nested as the nodes are. -/
structure NodeTable.Laminar (table : NodeTable) (tokens : List Token) (extent : Span) : Prop where
  /-- A span goes from the start of one token to the stop of another. -/
  bounded : ∀ number span, table.span? number = some span →
    ∃ first ∈ tokens, ∃ last ∈ tokens, span = ⟨first.span.start, last.span.stop⟩
  inside : ∀ number span, table.span? number = some span → ∀ child ∈ table.children number,
    ∃ inner, table.span? child = some inner ∧ inner.Within span
  /-- Operands of one node follow one another, with a token between each two. -/
  apart : ∀ number, (table.children number).Pairwise fun earlier later =>
    ∃ first second, table.span? earlier = some first ∧ table.span? later = some second ∧
      first.Before second ∧ ∃ token ∈ tokens, token.Separates first second
  root : ∃ span, table.span? table.root = some span ∧ span.Within extent

theorem Token.Separates.before_of {token : Token} {first second : Span}
    (separates : token.Separates first second) : first.Before second :=
  calc first.stop
    _ ≤ token.span.start := separates.after
    _ ≤ token.span.stop := Nat.le_of_lt separates.nonempty
    _ ≤ second.start := separates.before

namespace Token.InOrder

variable {tokens within : List Token}

theorem sublist (ordered : InOrder tokens) (within_sublist : within.Sublist tokens) :
    InOrder within where
  nonempty token member := ordered.nonempty token (within_sublist.subset member)
  apart := ordered.apart.sublist within_sublist

theorem start_le (ordered : InOrder tokens) {first : Token} (begins : tokens.head? = some first) :
    ∀ token ∈ tokens, first.span.start ≤ token.span.start := by
  obtain ⟨rest, rfl⟩ := List.head?_eq_some_iff.mp begins
  have positive := ordered.nonempty first List.mem_cons_self
  refine List.forall_mem_cons.mpr ⟨Nat.le.refl, fun token later => ?_⟩
  have before : first.span.stop ≤ token.span.start := List.rel_of_pairwise_cons ordered.apart later
  omega

theorem le_stop (ordered : InOrder tokens) {last : Token} (ends : tokens.getLast? = some last) :
    ∀ token ∈ tokens, token.span.stop ≤ last.span.stop := by
  obtain ⟨front, rfl⟩ := List.getLast?_eq_some_iff.mp ends
  have positive := ordered.nonempty last (by simp)
  intro token member
  rcases List.mem_append.mp member with earlier | isLast
  · have before : token.span.stop ≤ last.span.start :=
      (List.pairwise_append.mp ordered.apart).2.2 token earlier last (List.mem_singleton_self _)
    omega
  · obtain rfl := List.mem_singleton.mp isLast
    exact Nat.le.refl

/-- Tokens that follow one another are in the order of their starts. -/
theorem start_lt_iff (ordered : InOrder tokens) {first second : Nat}
    (isFirst : first < tokens.length) (isSecond : second < tokens.length) :
    tokens[first].span.start < tokens[second].span.start ↔ first < second := by
  have earlier : ∀ {first second : Nat} (isFirst : first < tokens.length)
      (isSecond : second < tokens.length), first < second →
        tokens[first].span.start < tokens[second].span.start := by
    intro first second isFirst isSecond before
    have nonempty := ordered.nonempty _ (List.getElem_mem isFirst)
    exact Nat.lt_of_lt_of_le nonempty
      (List.pairwise_iff_getElem.mp ordered.apart first second isFirst isSecond before)
  constructor
  · intro starts
    rcases Nat.lt_trichotomy first second with before | rfl | after
    · exact before
    · exact absurd starts (Nat.lt_irrefl _)
    · exact absurd (earlier isSecond isFirst after) (Nat.not_lt_of_lt starts)
  · exact earlier isFirst isSecond

end Token.InOrder

/-- The tokens of a source are in order. -/
theorem inOrder_of_tokenize {source : String} {tokens : List Token}
    (scanned : tokenize source = .ok tokens) : Token.InOrder tokens := by
  have laid := tokenize_eq_ok_iff.mp scanned
  exact ⟨fun token member => (laid.slice rfl token member).1, laid.pairwise⟩

namespace Phrase

variable {phrase part : Phrase Token}

theorem first_mem_tokens (phrase : Phrase Token) : phrase.first ∈ phrase.tokens :=
  List.mem_of_head? phrase.head?_tokens

theorem last_mem_tokens (phrase : Phrase Token) : phrase.last ∈ phrase.tokens :=
  List.mem_of_getLast? phrase.getLast?_tokens

/-- The span of a phrase begins with its first token and ends with its last. -/
theorem span_eq_of_inOrder (ordered : Token.InOrder phrase.tokens) :
    phrase.span = ⟨phrase.first.span.start, phrase.last.span.stop⟩ := by
  have least := ordered.start_le phrase.head?_tokens _ phrase.last_mem_tokens
  have most := ordered.le_stop phrase.getLast?_tokens _ phrase.first_mem_tokens
  rw [span, Span.cover, Nat.min_eq_left least, Nat.max_eq_right most]

theorem IsPart.inOrder (isPart : part.IsPart phrase) (ordered : Token.InOrder phrase.tokens) :
    Token.InOrder part.tokens :=
  ordered.sublist isPart.tokens_isInfix.sublist

/-- A part lies inside the whole. -/
theorem IsPart.within (isPart : part.IsPart phrase) (ordered : Token.InOrder phrase.tokens) :
    part.span.Within phrase.span := by
  have among := isPart.tokens_isInfix.subset
  rw [span_eq_of_inOrder ordered, span_eq_of_inOrder (isPart.inOrder ordered)]
  exact ⟨ordered.start_le phrase.head?_tokens _ (among part.first_mem_tokens),
    ordered.le_stop phrase.getLast?_tokens _ (among part.last_mem_tokens)⟩

/-- A token between the tokens of two phrases lies between their parts as well. -/
theorem separates_of_inOrder {earlier later first second : Phrase Token} {token : Token}
    (ordered : Token.InOrder (earlier.tokens ++ token :: later.tokens))
    (isFirst : first.IsPart earlier) (isSecond : second.IsPart later) :
    token.Separates first.span second.span := by
  have isInfix := isFirst.tokens_isInfix
  have isInfix' := isSecond.tokens_isInfix
  have orderedFirst := ordered.sublist (isInfix.sublist.trans (List.sublist_append_left _ _))
  have orderedSecond := ordered.sublist
    (isInfix'.sublist.trans ((List.sublist_cons_self _ _).trans (List.sublist_append_right _ _)))
  obtain ⟨-, tail, across⟩ := List.pairwise_append.mp ordered.apart
  rw [span_eq_of_inOrder orderedFirst, span_eq_of_inOrder orderedSecond]
  exact {
    nonempty := ordered.nonempty token (by simp)
    after := across _ (isInfix.subset first.last_mem_tokens) token List.mem_cons_self
    before := List.rel_of_pairwise_cons tail (isInfix'.subset second.first_mem_tokens) }

/-- Between each two parts of a woven list there is a separator. -/
theorem pairwise_weave {α : Type} {parts : List (List α)} {separators : List α}
    (alternating : Alternating parts separators) :
    parts.Pairwise fun earlier later => ∃ separator,
      (earlier ++ separator :: later).Sublist (weave parts (separators.map ([·]))) := by
  induction alternating with
  | nil => exact .nil
  | singleton item => exact List.pairwise_singleton _ item
  | @cons item separator items separators some others ih =>
      rw [List.map_cons, weave, List.append_assoc]
      refine .cons (fun later member => ⟨separator, ?_⟩) (ih.imp ?_)
      · exact ((isInfix_weave member _).sublist.cons_cons separator).append_left item
      · rintro earlier later ⟨inner, isSublist⟩
        exact ⟨inner, isSublist.trans
          ((List.sublist_cons_self _ _).trans (List.sublist_append_right _ _))⟩

/-- Between each two parts of a phrase there is a token of the phrase. -/
theorem Grammatical.pairwise_parts (grammatical : phrase.Grammatical Token.toLexeme) :
    phrase.parts.Pairwise fun earlier later => ∃ token,
      (earlier.tokens ++ token :: later.tokens).Sublist phrase.tokens := by
  cases grammatical with
  | literal reads => exact .nil
  | constant word reads => exact .nil
  | name word free same => exact .nil
  | group opens closes inside => exact List.pairwise_singleton _ _
  | unary writes tight inside => exact List.pairwise_singleton _ _
  | @binary operator token left right writes tightLeft tightRight onLeft onRight =>
      exact List.pairwise_pair.mpr ⟨token, List.Sublist.refl _⟩
  | @call callee opening closing name arguments commas word free same opens closes separate count
      inside =>
      have alternating : Alternating (arguments.map tokens) commas :=
        .of_length (by rwa [List.length_map])
      refine (List.pairwise_map.mp (pairwise_weave alternating)).imp ?_
      rintro earlier later ⟨comma, isSublist⟩
      refine ⟨comma, isSublist.trans ?_⟩
      rw [tokens, tokensOfEach_eq_map]
      exact ((List.sublist_append_left _ _).cons opening).cons callee
  | index word free same opens closes inside => exact List.pairwise_singleton _ _

/-- What is inside of all the parentheses around a phrase. -/
def ungrouped {τ : Type} : Phrase τ → Phrase τ
  | group _ inner _ => inner.ungrouped
  | phrase => phrase

theorem ungrouped_isPart (phrase : Phrase Token) : phrase.ungrouped.IsPart phrase := by
  induction phrase with
  | group opening inner closing ih => exact .inside (List.mem_singleton_self _) ih
  | _ => exact .whole

/-- The parts of a phrase follow one another with a token between each two, and so does what is
inside of the parentheses around them. -/
theorem Grammatical.pairwise_ungrouped (grammatical : phrase.Grammatical Token.toLexeme)
    (ordered : Token.InOrder phrase.tokens) :
    phrase.parts.Pairwise fun earlier later =>
      ∃ token ∈ phrase.tokens, token.Separates earlier.ungrouped.span later.ungrouped.span := by
  refine grammatical.pairwise_parts.imp ?_
  rintro earlier later ⟨token, isSublist⟩
  exact ⟨token, isSublist.subset (by simp), separates_of_inOrder (ordered.sublist isSublist)
    earlier.ungrouped_isPart later.ungrouped_isPart⟩

end Phrase

namespace NodeTable

open Phrase (rootsFrom nodesOfEach)

variable {table : NodeTable} {phrase : Phrase Token} {base : Nat}

/-- The root of a phrase has the span of what is inside of the parentheses around it. -/
theorem Holds.span?_rootFrom (holds : table.Holds base phrase) :
    table.span? (phrase.rootFrom base) = some phrase.ungrouped.span := by
  induction phrase using Phrase.induction_parts with
  | group opening inner closing ih => exact ih holds
  | other phrase notGroup ih =>
      obtain ⟨parent, found⟩ := holds.node?_root notGroup
      have same : phrase.ungrouped = phrase := by
        cases phrase with
        | group opening inner closing => cases notGroup
        | _ => rfl
      rw [span?, found, same]
      rfl

theorem map_span?_rootsFrom {phrases : List (Phrase Token)} {before after : List Node}
    {parent : Option Nat}
    (nodes : table.nodes.toList =
      before ++ (nodesOfEach before.length parent phrases ++ after)) :
    (rootsFrom before.length phrases).map table.span? =
      phrases.map fun phrase => some phrase.ungrouped.span := by
  induction phrases generalizing before with
  | nil => rfl
  | cons first rest ih =>
      rw [nodesOfEach, List.append_assoc] at nodes
      have holds : table.Holds before.length first := ⟨before, parent, _, rfl, nodes⟩
      have passed : (before ++ first.nodesFrom before.length parent).length =
          before.length + first.size := by
        rw [List.length_append, first.length_nodesFrom]
      rw [← passed, ← List.append_assoc] at nodes
      have others := ih nodes
      rw [passed] at others
      rw [rootsFrom, List.map_cons, List.map_cons, holds.span?_rootFrom, others]

/-- The operands of the root of a phrase have the spans of what is inside of the parentheses around
its parts. -/
theorem Holds.map_span?_children (holds : table.Holds base phrase)
    (notGroup : phrase.isGroup = false) :
    (table.children (phrase.rootFrom base)).map table.span? =
      phrase.parts.map fun part => some part.ungrouped.span := by
  obtain ⟨parent, found⟩ := holds.node?_root notGroup
  have operands : table.children (phrase.rootFrom base) = rootsFrom base phrase.parts := by
    rw [children, found]
    exact Phrase.children_rootKind notGroup base
  obtain ⟨before, parent, after, rfl, nodes⟩ := holds
  rw [Phrase.nodesFrom_eq_of_not_isGroup notGroup, List.append_assoc] at nodes
  rw [operands]
  exact map_span?_rootsFrom nodes

/-- Every number that has a span is that of the root of a part that is no group. -/
theorem exists_isPart_of_span? {number : Nat} {span : Span}
    (found : phrase.table.span? number = some span) :
    ∃ (part : Phrase Token) (base : Nat), part.IsPart phrase ∧ part.isGroup = false ∧
      phrase.table.Holds base part ∧ part.rootFrom base = number ∧ part.span = span := by
  obtain ⟨node, isNode, rfl⟩ := Option.map_eq_some_iff.mp found
  have inside : number < phrase.size := by
    rw [← phrase.size_table]
    exact (Array.getElem?_eq_some_iff.mp isNode).1
  obtain ⟨part, base, isPart, notGroup, holds, isRoot⟩ :=
    (holds_table phrase).exists_isPart (Nat.zero_le number) (by omega)
  exact ⟨part, base, isPart, notGroup, holds, isRoot,
    (holds.span_root notGroup (isRoot ▸ isNode)).symm⟩

end NodeTable

namespace Phrase

variable {phrase : Phrase Token}

/-- The table of a grammatical phrase whose tokens follow one another is laminar. -/
theorem Grammatical.laminar (grammatical : phrase.Grammatical Token.toLexeme)
    (ordered : Token.InOrder phrase.tokens) : phrase.table.Laminar phrase.tokens phrase.span where
  bounded := by
    intro number span found
    obtain ⟨part, base, isPart, -, -, -, rfl⟩ := NodeTable.exists_isPart_of_span? found
    have among := isPart.tokens_isInfix.subset
    exact ⟨part.first, among part.first_mem_tokens, part.last, among part.last_mem_tokens,
      span_eq_of_inOrder (isPart.inOrder ordered)⟩
  inside := by
    intro number span found child member
    obtain ⟨part, base, isPart, notGroup, holds, rfl, rfl⟩ :=
      NodeTable.exists_isPart_of_span? found
    have spans := holds.map_span?_children notGroup
    have isSpan := spans ▸ List.mem_map_of_mem (f := phrase.table.span?) member
    obtain ⟨operand, isOperand, same⟩ := List.mem_map.mp isSpan
    refine ⟨operand.ungrouped.span, same.symm, ?_⟩
    exact IsPart.within (.inside isOperand operand.ungrouped_isPart) (isPart.inOrder ordered)
  apart := by
    intro number
    cases found : phrase.table.span? number with
    | none =>
        have missing : phrase.table.node? number = none := Option.map_eq_none_iff.mp found
        rw [NodeTable.children, missing]
        exact .nil
    | some span =>
        obtain ⟨part, base, isPart, notGroup, holds, rfl, -⟩ :=
          NodeTable.exists_isPart_of_span? found
        have among := isPart.tokens_isInfix.subset
        have apart := (isPart.grammatical grammatical).pairwise_ungrouped (isPart.inOrder ordered)
        have spans : ((phrase.table.children (part.rootFrom base)).map phrase.table.span?).Pairwise
            fun earlier later => ∃ first second, earlier = some first ∧ later = some second ∧
              first.Before second ∧ ∃ token ∈ phrase.tokens, token.Separates first second := by
          rw [holds.map_span?_children notGroup, List.pairwise_map]
          refine apart.imp ?_
          rintro earlier later ⟨token, member, separates⟩
          exact ⟨_, _, rfl, rfl, separates.before_of, token, among member, separates⟩
        exact List.pairwise_map.mp spans
  root := by
    have holds := NodeTable.holds_table phrase
    refine ⟨phrase.ungrouped.span, ?_, phrase.ungrouped_isPart.within ordered⟩
    have isRoot : phrase.table.root = phrase.rootFrom 0 := by
      rw [NodeTable.root, phrase.size_table, rootFrom, Nat.zero_add]
    rw [isRoot, holds.span?_rootFrom]

end Phrase

/-- The spans of the nodes of every expression that is read from a source are laminar: bounded by
its tokens, nested as the nodes are, apart where the nodes are, and inside the expression. -/
theorem laminar_of_parseSource {source : String} {phrases : List (Phrase Token)}
    (parsed : parseSource source = .ok phrases) :
    ∀ phrase ∈ phrases, phrase.table.Laminar phrase.tokens phrase.span := by
  intro phrase member
  obtain ⟨tokens, scanned, parsedTokens⟩ := parseSource_eq_ok_iff.mp parsed
  obtain ⟨whole, each⟩ := parseWith_sound parsedTokens
  have isSublist : phrase.tokens.Sublist tokens := by
    have inStripped : phrase.tokens.Sublist (Token.stripComments tokens) := by
      rw [← whole, List.flatMap_def]
      exact List.sublist_flatten_of_mem (List.mem_map_of_mem member)
    exact inStripped.trans List.filter_sublist
  exact (each phrase member).1.laminar ((inOrder_of_tokenize scanned).sublist isSublist)

/-- A call with a negation in parentheses and a comment between its arguments. -/
theorem laminar_of_parseSource_call :
    let source := "(f((-a)/**/, b))"
    ∃ phrase, parseSource source = .ok [phrase] ∧
      phrase.table.nodes.toList.map Node.span = [⟨5, 6⟩, ⟨4, 6⟩, ⟨13, 14⟩, ⟨1, 15⟩] ∧
        phrase.table.Laminar phrase.tokens ⟨0, 16⟩ := by
  intro source
  let negation : Phrase Token := .group ⟨.fixed .leftParenthesis, ⟨3, 4⟩⟩
    (.unary .minus ⟨.fixed .minus, ⟨4, 5⟩⟩ (.name ⟨.valued .identifier "a", ⟨5, 6⟩⟩ "a"))
    ⟨.fixed .rightParenthesis, ⟨6, 7⟩⟩
  let call : Phrase Token := .call ⟨.valued .identifier "f", ⟨1, 2⟩⟩ "f"
    ⟨.fixed .leftParenthesis, ⟨2, 3⟩⟩
    [negation, .name ⟨.valued .identifier "b", ⟨13, 14⟩⟩ "b"] [⟨.fixed .comma, ⟨11, 12⟩⟩]
    ⟨.fixed .rightParenthesis, ⟨14, 15⟩⟩
  let phrase : Phrase Token := .group ⟨.fixed .leftParenthesis, ⟨0, 1⟩⟩ call
    ⟨.fixed .rightParenthesis, ⟨15, 16⟩⟩
  let comment : Token := ⟨.valued .comment "/**/", ⟨7, 11⟩⟩
  have isNegation : negation.Grammatical Token.toLexeme :=
    .group rfl rfl (.unary rfl (by decide) (.name rfl (by decide) rfl))
  have isName : (Phrase.name (⟨.valued .identifier "b", ⟨13, 14⟩⟩ : Token) "b").Grammatical
      Token.toLexeme :=
    .name rfl (by decide) rfl
  have isPhrase : phrase.Grammatical Token.toLexeme :=
    .group rfl rfl (.call rfl (by decide) rfl rfl rfl (List.forall_mem_singleton.mpr rfl) rfl
      (List.forall_mem_cons.mpr ⟨isNegation, List.forall_mem_singleton.mpr isName⟩))
  have scanned : tokenize source =
      .ok (phrase.tokens.take 7 ++ comment :: phrase.tokens.drop 7) := by cbv
  have parsed : parseSource source = .ok [phrase] :=
    parseSource_eq_ok_iff.mpr ⟨_, scanned, parseWith_tokens isPhrase (by decide)⟩
  exact ⟨phrase, parsed, by decide, laminar_of_parseSource parsed phrase (by simp)⟩

end JassExpr
