import Sigil.Proofs.Grammar.ExpressionReading

/-!
# The grammar of expressions is unambiguous

Reading is a function, and every phrase is read where it ends.  So tokens have at
most one phrase, and what reading gives is the one expression they stand for.
-/

namespace Sigil

namespace Grammar

variable {level : Level} {token : Token} {expr : Expr} {u r : List Token}

theorem Links.ends_tokens {level : ChainLevel} (links : Links level) (u : List Token) :
    Ends (operands level) u links.tokens := by
  rw [← List.append_nil links.tokens]
  exact links.ends_operand (ends_nil _ _)

theorem Sign.eq_of_token {α : Type} {table : List (TokenKind × α)} {sign sign' : Sign table}
    (h : sign.token = sign'.token) : sign = sign' := by
  obtain ⟨token, meaning, listed⟩ := sign
  obtain ⟨token', meaning', listed'⟩ := sign'
  cases h
  cases listed.symm.trans listed'
  rfl

/-- Two phrases at one place that both end there are as long. -/
theorem Phrase.tokens_eq_of_append {phrase phrase' : Phrase level} {r r' : List Token}
    (h : phrase.tokens ++ r = phrase'.tokens ++ r') (hends : Ends level phrase.tokens r)
    (hends' : Ends level phrase'.tokens r') : phrase.tokens = phrase'.tokens ∧ r = r' := by
  let c := Cursor.ofTokens (phrase.tokens ++ r)
  exact Cursor.tokens_eq_of_read (c := c) rfl h (phrase.readLevel_eq c r rfl hends)
    (phrase'.readLevel_eq c r' h hends')

theorem Phrase.tokens_ne_append {phrase phrase' : Phrase level}
    (hends : Ends level phrase.tokens (token :: r)) :
    phrase.tokens ++ token :: r ≠ phrase'.tokens := by
  intro h
  rw [← List.append_nil phrase'.tokens] at h
  cases (tokens_eq_of_append h hends (ends_nil _ _)).2

theorem Phrase.ne_cons_of_unaryOperator? (phrase : Phrase .suffixed) {op : UnaryOperator}
    (hop : token.kind.unaryOperator? = some op) : token :: u ≠ phrase.tokens := by
  intro h
  have hnone := phrase.unaryOperator?_head token (by rw [← h]; rfl)
  cases hop.symm.trans hnone

theorem Sign.token_ne_of_updates (sign : Sign signs) (sign' : Sign updates) :
    sign.token ≠ sign'.token := by
  intro h
  have hnone := lookup_signs_of_lookup_updates sign'.listed
  rw [← h, sign.listed] at hnone
  cases hnone

theorem Phrase.suffixed_tokens_ne (target : Terminal .identifier) (sign : Sign suffixes)
    (inner : Phrase .primary) : (Phrase.suffixed target sign).tokens ≠ inner.tokens := by
  intro h
  cases inner with
  | atom token expr hatom => cases h
  | group opening inner closing =>
      have hkind := congrArg Token.kind (List.cons.inj h).1
      rw [target.property, opening.property] at hkind
      cases hkind

theorem Phrase.atom_tokens_ne (hatom : Atom token expr) (opening : Terminal .leftParen)
    (inner : Phrase .assignment) (closing : Terminal .rightParen) :
    (Phrase.atom token expr hatom).tokens ≠ (Phrase.group opening inner closing).tokens := by
  intro h
  have hkind := congrArg Token.kind (List.cons.inj h).1
  exact hatom.kind_ne_leftParen (hkind.trans opening.property)

/-- An assignment is no disjunction: reading one would stop before the sign. -/
theorem Phrase.assign_tokens_ne (target : Terminal .identifier) (sign : Sign assignments)
    (value : Phrase .assignment) (inner : Phrase (.chain .disjunction)) :
    (Phrase.assign target sign value).tokens ≠ inner.tokens := by
  intro h
  let c := Cursor.ofTokens inner.tokens
  have hread := readLevel_reference (.chain .disjunction) c target (by simp) h.symm (ends_sign sign)
  have hc : c.rest = inner.tokens ++ [] := (List.append_nil _).symm
  have hread' := inner.readLevel_eq c [] hc (ends_nil _ _)
  obtain ⟨-, hcursor⟩ := Reading.read.inj (hread.symm.trans hread')
  have hrest : (c.skip 1).rest = sign.token :: value.tokens := Cursor.rest_advance_of_cons h.symm
  rw [hcursor, Cursor.rest_skip_of_append hc] at hrest
  cases hrest

mutual
theorem Phrase.eq_of_tokens : ∀ {level : Level} (phrase phrase' : Phrase level),
    phrase.tokens = phrase'.tokens → phrase = phrase'
  | _, .assign target sign value, phrase', h => by
      cases phrase' with
      | assign target' sign' value' =>
          obtain ⟨htarget, h⟩ := List.cons.inj h
          obtain ⟨hsign, hvalue⟩ := List.cons.inj h
          rw [Subtype.ext htarget, Sign.eq_of_token hsign, value.eq_of_tokens value' hvalue]
      | unassigned inner' => exact (Phrase.assign_tokens_ne target sign value inner' h).elim
  | _, .unassigned inner, phrase', h => by
      cases phrase' with
      | assign target' sign' value' =>
          exact (Phrase.assign_tokens_ne target' sign' value' inner h.symm).elim
      | unassigned inner' => rw [inner.eq_of_tokens inner' h]
  | _, .chain first links, phrase', h => by
      cases phrase' with
      | chain first' links' =>
          obtain ⟨hfirst, hlinks⟩ :=
            Phrase.tokens_eq_of_append h (links.ends_tokens _) (links'.ends_tokens _)
          rw [first.eq_of_tokens first' hfirst, links.eq_of_tokens links' hlinks]
  | _, .choice condition mark left colon right, phrase', h => by
      cases phrase' with
      | choice condition' mark' left' colon' right' =>
          obtain ⟨hcondition, h⟩ := Phrase.tokens_eq_of_append h
            (ends_questionMark mark) (ends_questionMark mark')
          obtain ⟨hmark, h⟩ := List.cons.inj h
          obtain ⟨hleft, h⟩ := Phrase.tokens_eq_of_append h (ends_closing colon (by simp))
            (ends_closing colon' (by simp))
          obtain ⟨hcolon, hright⟩ := List.cons.inj h
          rw [condition.eq_of_tokens condition' hcondition, Subtype.ext hmark,
            left.eq_of_tokens left' hleft, Subtype.ext hcolon, right.eq_of_tokens right' hright]
      | unconditional inner' => exact (Phrase.tokens_ne_append (ends_questionMark mark) h).elim
  | _, .unconditional inner, phrase', h => by
      cases phrase' with
      | choice condition' mark' left' colon' right' =>
          exact (Phrase.tokens_ne_append (ends_questionMark mark') h.symm).elim
      | unconditional inner' => rw [inner.eq_of_tokens inner' h]
  | _, .signed sign operand, phrase', h => by
      cases phrase' with
      | signed sign' operand' =>
          obtain ⟨hsign, hoperand⟩ := List.cons.inj h
          rw [Sign.eq_of_token hsign, operand.eq_of_tokens operand' hoperand]
      | updating sign' target' =>
          exact (sign.token_ne_of_updates sign' (List.cons.inj h).1).elim
      | unsigned inner' =>
          exact (inner'.ne_cons_of_unaryOperator? (unaryOperator?_of_signs sign) h).elim
  | _, .updating sign target, phrase', h => by
      cases phrase' with
      | signed sign' operand' =>
          exact (sign'.token_ne_of_updates sign (List.cons.inj h).1.symm).elim
      | updating sign' target' =>
          obtain ⟨hsign, h⟩ := List.cons.inj h
          obtain ⟨htarget, -⟩ := List.cons.inj h
          rw [Sign.eq_of_token hsign, Subtype.ext htarget]
      | unsigned inner' =>
          exact (inner'.ne_cons_of_unaryOperator? (unaryOperator?_of_updates sign) h).elim
  | _, .unsigned inner, phrase', h => by
      cases phrase' with
      | signed sign' operand' =>
          exact (inner.ne_cons_of_unaryOperator? (unaryOperator?_of_signs sign') h.symm).elim
      | updating sign' target' =>
          exact (inner.ne_cons_of_unaryOperator? (unaryOperator?_of_updates sign') h.symm).elim
      | unsigned inner' => rw [inner.eq_of_tokens inner' h]
  | _, .suffixed target sign, phrase', h => by
      cases phrase' with
      | suffixed target' sign' =>
          obtain ⟨htarget, h⟩ := List.cons.inj h
          obtain ⟨hsign, -⟩ := List.cons.inj h
          rw [Subtype.ext htarget, Sign.eq_of_token hsign]
      | unsuffixed inner' => exact (Phrase.suffixed_tokens_ne target sign inner' h).elim
  | _, .unsuffixed inner, phrase', h => by
      cases phrase' with
      | suffixed target' sign' => exact (Phrase.suffixed_tokens_ne target' sign' inner h.symm).elim
      | unsuffixed inner' => rw [inner.eq_of_tokens inner' h]
  | _, .atom token expr hatom, phrase', h => by
      cases phrase' with
      | atom token' expr' hatom' =>
          cases h
          cases hatom.eq_of_token hatom'
          rfl
      | group opening' inner' closing' =>
          exact (Phrase.atom_tokens_ne hatom opening' inner' closing' h).elim
  | _, .group opening inner closing, phrase', h => by
      cases phrase' with
      | atom token' expr' hatom' =>
          exact (Phrase.atom_tokens_ne hatom' opening inner closing h.symm).elim
      | group opening' inner' closing' =>
          obtain ⟨hopening, h⟩ := List.cons.inj h
          obtain ⟨hinner, hclosing⟩ := List.append_inj' h rfl
          rw [Subtype.ext hopening, inner.eq_of_tokens inner' hinner,
            Subtype.ext (List.cons.inj hclosing).1]

theorem Links.eq_of_tokens : ∀ {level : ChainLevel} (links links' : Links level),
    links.tokens = links'.tokens → links = links'
  | _, .none, .none, _ => rfl
  | _, .none, .link .., h => by cases h
  | _, .link .., .none, h => by cases h
  | _, .link sign operand others, .link sign' operand' others', h => by
      obtain ⟨hsign, h⟩ := List.cons.inj h
      obtain ⟨hoperand, hothers⟩ :=
        Phrase.tokens_eq_of_append h (others.ends_tokens _) (others'.ends_tokens _)
      rw [Sign.eq_of_token hsign, operand.eq_of_tokens operand' hoperand,
        others.eq_of_tokens others' hothers]
end

/-! ### Reading and deriving -/

/-- The kinds of tokens that go on any expression. -/
def continuing : List TokenKind :=
  [.equal, .plusEqual, .minusEqual, .starEqual, .slashEqual, .kwOr, .kwAnd, .questionMark,
    .equalEqual, .bangEqual, .greater, .greaterEqual, .less, .lessEqual, .plus, .minus, .star,
    .slash]

/-- The tokens `r` do not go on an expression with the tokens `u`. -/
def Final (u r : List Token) : Prop :=
  ∀ token ∈ r.head?, token.kind ∉ continuing ∧
    (token.kind ∈ [TokenKind.plusPlus, .minusMinus] →
      ∃ last ∈ u.getLast?, last.kind ∈ [TokenKind.plusPlus, .minusMinus])

theorem mem_continuing_iff {kind : TokenKind} :
    kind ∈ continuing ↔ ∃ rank ∈ joinRank? kind, rank ≤ Level.assignment.rank := by
  cases kind <;> decide

theorem ends_assignment_iff : Ends .assignment u r ↔ Final u r := by
  simp only [Ends, Final, mem_continuing_iff, IsUpdate, List.mem_cons, List.not_mem_nil, or_false,
    reduceCtorEq, false_or, not_exists, not_and, Nat.not_le]

/-- Reading an expression succeeds exactly where the tokens begin with an expression by the grammar
that the others do not go on, and gives that expression.  Tokens have at most one derivation, and
so they are at most one expression. -/
theorem readExpression_iff_derives :
    (∀ (c : Cursor) (expr : Expr) (r : List Token),
      (∃ s, c.readExpression = .read expr s ∧ s.rest = r) ↔
        ∃ u, c.rest = u ++ r ∧ Derives u expr ∧ Final u r) ∧
    (∀ phrase phrase' : Phrase .assignment, phrase.tokens = phrase'.tokens → phrase = phrase') ∧
    (∀ u expr expr', Derives u expr → Derives u expr' → expr = expr') := by
  refine ⟨fun c expr r ↦ ⟨?_, ?_⟩, Phrase.eq_of_tokens, ?_⟩
  · rintro ⟨s, hs, rfl⟩
    obtain ⟨phrase, hexpr, ⟨hrest, -⟩, hends⟩ := readsPhrase_of_readLevel _ c s expr hs
    exact ⟨phrase.tokens, hrest, ⟨phrase, rfl, hexpr⟩, ends_assignment_iff.mp hends⟩
  · rintro ⟨u, hrest, ⟨phrase, rfl, rfl⟩, hfinal⟩
    have hread := phrase.readLevel_eq c r hrest (ends_assignment_iff.mpr hfinal)
    exact ⟨_, hread, Cursor.rest_skip_of_append hrest⟩
  · rintro u _ _ ⟨phrase, hu, rfl⟩ ⟨phrase', hu', rfl⟩
    rw [phrase.eq_of_tokens phrase' (hu.trans hu'.symm)]

end Grammar

end Sigil
