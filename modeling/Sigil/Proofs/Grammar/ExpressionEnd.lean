import Sigil.Proofs.Grammar.Expression

/-!
# Where an expression ends

The operators that can go on an expression depend on its level.  What is read as
an expression of a level ends where the next token is none of them.  The lemmas
on tables tie the operators of the grammar to those that reading looks for.
-/

namespace Sigil

namespace Grammar

variable {level : Level} {token : Token} {expr : Expr} {u v r : List Token} {c s : Cursor}

/-! ### What the tables say -/

theorem operand_eq_operands (level : ChainLevel) : level.operand = operands level := by
  cases level <;> rfl

theorem rank_operands (level : ChainLevel) :
    (operands level).rank < (Level.chain level).rank := by
  cases level <;> decide

theorem connective?_eq_lookup (level : ChainLevel) (kind : TokenKind) :
    level.connective? kind = (connectives level).lookup kind := by
  cases level <;> cases kind <;> rfl

theorem assignForm?_eq_lookup (kind : TokenKind) :
    kind.assignForm? = assignments.lookup kind := by
  cases kind <;> rfl

theorem unaryOperator?_eq_lookup (kind : TokenKind) :
    kind.unaryOperator? = (signs.lookup kind).or (updates.lookup kind) := by
  cases kind <;> rfl

theorem suffixOperator?_eq_lookup (kind : TokenKind) :
    kind.suffixOperator? = suffixes.lookup kind := by
  cases kind <;> rfl

theorem lookup_signs_of_lookup_updates {kind : TokenKind} {op : UnaryOperator}
    (h : updates.lookup kind = some op) : signs.lookup kind = none := by
  cases kind <;> cases h <;> rfl

theorem unaryOperator?_of_signs (sign : Sign signs) :
    sign.token.kind.unaryOperator? = some sign.meaning := by
  rw [unaryOperator?_eq_lookup, sign.listed, Option.some_or]

theorem unaryOperator?_of_updates (sign : Sign updates) :
    sign.token.kind.unaryOperator? = some sign.meaning := by
  rw [unaryOperator?_eq_lookup, lookup_signs_of_lookup_updates sign.listed, sign.listed,
    Option.none_or]

theorem updates_of_lookup_signs {kind : TokenKind} {op : UnaryOperator}
    (h : signs.lookup kind = some op) : op.updates = false := by
  cases kind <;> cases h <;> rfl

theorem updates_of_lookup_updates {kind : TokenKind} {op : UnaryOperator}
    (h : updates.lookup kind = some op) : op.updates = true := by
  cases kind <;> cases h <;> rfl

theorem primary?_eq_ok_iff : token.primary? = .ok expr ↔ Atom token expr := by
  constructor
  · intro h
    unfold Token.primary? at h
    split at h <;> cases h
    · exact .null ‹_›
    · exact .true ‹_›
    · exact .false ‹_›
    · exact .number ‹_›
    · exact .string ‹_›
    · exact .template ‹_›
    · exact .reference ‹_›
  · intro h
    cases h <;> simp [Token.primary?, *]

theorem Atom.kind_ne_leftParen (h : Atom token expr) : token.kind ≠ .leftParen := by
  cases h <;> simp [*]

theorem Atom.eq_of_token {expr' : Expr} (h : Atom token expr) (h' : Atom token expr') :
    expr = expr' := by
  have heq := (primary?_eq_ok_iff.mpr h).symm.trans (primary?_eq_ok_iff.mpr h')
  exact Except.ok.inj heq

/-! ### Where an expression ends -/

/-- The rank of the level whose operands a token of this kind joins. -/
def joinRank? : TokenKind → Option Nat
  | .star | .slash => some 3
  | .plus | .minus => some 4
  | .greater | .greaterEqual | .less | .lessEqual => some 5
  | .equalEqual | .bangEqual => some 6
  | .questionMark => some 7
  | .kwAnd => some 8
  | .kwOr => some 9
  | .equal | .plusEqual | .minusEqual | .starEqual | .slashEqual => some 10
  | _ => none

def IsUpdate (kind : TokenKind) : Prop := kind = .plusPlus ∨ kind = .minusMinus

/-- The first token of `r` cannot go on an expression of the level with the tokens `u`.  A suffix
goes on any expression above a primary one that does not end with a suffix already. -/
def Ends (level : Level) (u r : List Token) : Prop :=
  ∀ token ∈ r.head?, (∀ rank ∈ joinRank? token.kind, level.rank < rank) ∧
    (IsUpdate token.kind → level = .primary ∨ ∃ last ∈ u.getLast?, IsUpdate last.kind)

theorem ends_nil (level : Level) (u : List Token) : Ends level u [] := by
  intro token htoken
  cases htoken

theorem Ends.mono {level' : Level} (h : Ends level u r) (hrank : level'.rank ≤ level.rank) :
    Ends level' u r := by
  intro token htoken
  obtain ⟨hjoin, hupdate⟩ := h token htoken
  refine ⟨fun rank hr ↦ Nat.lt_of_le_of_lt hrank (hjoin rank hr), fun hkind ↦ ?_⟩
  rcases hupdate hkind with rfl | hlast
  · left
    cases level' with
    | primary => rfl
    | chain chainLevel => cases chainLevel <;> cases hrank
    | _ => cases hrank
  · exact .inr hlast

theorem ends_append_iff (hv : v ≠ []) : Ends level (u ++ v) r ↔ Ends level v r := by
  have hlast : (u ++ v).getLast? = v.getLast? := by
    rw [List.getLast?_append, List.getLast?_eq_some_getLast hv, Option.some_or]
  simp only [Ends, hlast]

theorem ends_cons_iff (hv : v ≠ []) : Ends level (token :: v) r ↔ Ends level v r :=
  ends_append_iff (u := [token]) hv

theorem ends_of_kind (hjoin : ∀ rank ∈ joinRank? token.kind, level.rank < rank)
    (hupdate : ¬ IsUpdate token.kind) : Ends level u (token :: r) := by
  intro first hfirst
  cases hfirst
  exact ⟨hjoin, fun h ↦ (hupdate h).elim⟩

theorem joinRank?_eq_assignment_iff {kind : TokenKind} :
    joinRank? kind = some Level.assignment.rank ↔ kind.assignForm?.isSome := by
  cases kind <;> decide

theorem joinRank?_eq_chain_iff {level : ChainLevel} {kind : TokenKind} :
    joinRank? kind = some (Level.chain level).rank ↔ (level.connective? kind).isSome := by
  cases level <;> cases kind <;> decide

theorem joinRank?_eq_conditional_iff {kind : TokenKind} :
    joinRank? kind = some Level.conditional.rank ↔ kind = .questionMark := by
  cases kind <;> decide

theorem three_le_of_joinRank? {kind : TokenKind} {rank : Nat} (h : joinRank? kind = some rank) :
    3 ≤ rank := by
  cases kind <;> cases h <;> decide

theorem not_isUpdate_of_joinRank? {kind : TokenKind} {rank : Nat}
    (h : joinRank? kind = some rank) : ¬ IsUpdate kind := by
  rintro (rfl | rfl) <;> cases h

theorem isUpdate_of_suffixOperator? {kind : TokenKind} {op : BinaryOperator}
    (h : kind.suffixOperator? = some op) : IsUpdate kind := by
  cases kind <;> cases h
  · exact .inr rfl
  · exact .inl rfl

/-- No token that joins operands of the level comes first. -/
def NoJoin (level : Level) (r : List Token) : Prop :=
  ∀ token ∈ r.head?, joinRank? token.kind ≠ some level.rank

theorem Ends.noJoin (h : Ends level u r) : NoJoin level r := by
  intro token htoken hrank
  exact Nat.lt_irrefl _ ((h token htoken).1 _ hrank)

/-- Where an expression of a level ends, one of the next looser level does too, unless its operands
are joined there. -/
theorem Ends.loosen {lower : Level} (h : Ends lower u r) (hlower : lower ≠ .primary)
    (hrank : level.rank = lower.rank + 1) (hjoin : NoJoin level r) : Ends level u r := by
  intro token htoken
  obtain ⟨hlt, hupdate⟩ := h token htoken
  refine ⟨fun rank hr ↦ ?_, fun hkind ↦ .inr ((hupdate hkind).resolve_left hlower)⟩
  have hne : rank ≠ level.rank := fun heq ↦ hjoin token htoken (heq ▸ hr)
  have hlt := hlt rank hr
  omega

theorem accept?_eq_none_iff_noJoin {α : Type} {select : TokenKind → Option α}
    (hselect : ∀ {kind}, joinRank? kind = some level.rank ↔ (select kind).isSome) :
    s.accept? select = none ↔ NoJoin level s.rest := by
  simp only [Cursor.accept?_eq_none_iff, NoJoin, ne_eq, hselect,
    Option.not_isSome_iff_eq_none]

theorem acceptOne?_questionMark_eq_none_iff :
    s.acceptOne? .questionMark = none ↔ NoJoin .conditional s.rest := by
  simp only [Cursor.acceptOne?_eq_none_iff, NoJoin, ne_eq, joinRank?_eq_conditional_iff]

theorem Ends.accept_suffix_eq_none (hlevel : level ≠ .primary)
    (hlast : ∀ last ∈ u.getLast?, ¬ IsUpdate last.kind) (h : Ends level u s.rest) :
    s.accept? TokenKind.suffixOperator? = none := by
  rw [Cursor.accept?_eq_none_iff]
  intro token htoken
  rw [Option.eq_none_iff_forall_ne_some]
  intro op hop
  rcases (h token htoken).2 (isUpdate_of_suffixOperator? hop) with hprimary | ⟨last, hmem, hupdate⟩
  · exact hlevel hprimary
  · exact hlast last hmem hupdate

theorem ends_of_rank_lt_three (hrank : level.rank < 3)
    (h : ∀ token ∈ r.head?, IsUpdate token.kind →
      level = .primary ∨ ∃ last ∈ u.getLast?, IsUpdate last.kind) : Ends level u r := by
  intro token htoken
  refine ⟨fun rank hr ↦ ?_, h token htoken⟩
  exact Nat.lt_of_lt_of_le hrank (three_le_of_joinRank? hr)

theorem ends_primary (u r : List Token) : Ends .primary u r :=
  ends_of_rank_lt_three (by decide) fun _ _ _ ↦ .inl rfl

theorem Ends.unary (h : Ends .suffixed u r) : Ends .unary u r :=
  ends_of_rank_lt_three (by decide) fun token htoken hkind ↦
    .inr (((h token htoken).2 hkind).resolve_left (by simp))

theorem ends_suffixed_of_accept? (h : s.accept? TokenKind.suffixOperator? = none) :
    Ends .suffixed u s.rest := by
  rw [Cursor.accept?_eq_none_iff] at h
  refine ends_of_rank_lt_three (by decide) fun token htoken hkind ↦ ?_
  have hnone := h token htoken
  rcases hkind with hkind | hkind <;> rw [hkind] at hnone <;> cases hnone

/-! ### Tokens of phrases -/

theorem Phrase.tokens_ne_nil : ∀ {level : Level} (phrase : Phrase level), phrase.tokens ≠ []
  | _, .assign .. => by simp [tokens]
  | _, .unassigned inner => by simpa only [tokens] using inner.tokens_ne_nil
  | _, .chain first _ => by simp [tokens, first.tokens_ne_nil]
  | _, .choice .. => by simp [tokens]
  | _, .unconditional inner => by simpa only [tokens] using inner.tokens_ne_nil
  | _, .signed .. => by simp [tokens]
  | _, .updating .. => by simp [tokens]
  | _, .unsigned inner => by simpa only [tokens] using inner.tokens_ne_nil
  | _, .suffixed .. => by simp [tokens]
  | _, .unsuffixed inner => by simpa only [tokens] using inner.tokens_ne_nil
  | _, .atom .. => by simp [tokens]
  | _, .group .. => by simp [tokens]

theorem Atom.not_isUpdate (h : Atom token expr) : ¬ IsUpdate token.kind := by
  cases h <;> simp [IsUpdate, *]

theorem Phrase.not_isUpdate_getLast (phrase : Phrase .primary) :
    ∀ last ∈ phrase.tokens.getLast?, ¬ IsUpdate last.kind := by
  intro last hlast
  cases phrase with
  | atom token expr h =>
      cases hlast
      exact h.not_isUpdate
  | group opening inner closing =>
      rw [tokens, ← List.cons_append, List.getLast?_concat] at hlast
      cases hlast
      simp [IsUpdate, closing.property]

theorem Phrase.unaryOperator?_head (phrase : Phrase .suffixed) :
    ∀ first ∈ phrase.tokens.head?, first.kind.unaryOperator? = none := by
  intro first hfirst
  cases phrase with
  | suffixed target sign =>
      cases hfirst
      rw [target.property]
      rfl
  | unsuffixed inner =>
      cases inner with
      | atom token expr h =>
          cases hfirst
          cases h <;> simp [TokenKind.unaryOperator?, *]
      | group opening inner closing =>
          cases hfirst
          rw [opening.property]
          rfl

theorem Links.ends_operand {level : ChainLevel} (links : Links level)
    (h : Ends (.chain level) (v ++ links.tokens) r) :
    Ends (operands level) v (links.tokens ++ r) := by
  cases links with
  | none =>
      rw [tokens, List.append_nil] at h
      exact h.mono (Nat.le_of_lt (rank_operands level))
  | link sign operand others =>
      have hrank : joinRank? sign.token.kind = some (Level.chain level).rank := by
        rw [joinRank?_eq_chain_iff, connective?_eq_lookup, sign.listed, Option.isSome_some]
      refine ends_of_kind ?_ (not_isUpdate_of_joinRank? hrank)
      intro rank hr
      cases hrank.symm.trans hr
      exact rank_operands level

theorem ends_questionMark (mark : Terminal .questionMark) :
    Ends (.chain .equality) u (mark.val :: r) := by
  refine ends_of_kind ?_ (by simp [IsUpdate, mark.property])
  simp [mark.property, joinRank?, Level.rank]

/-- A token that closes what an expression stands in ends the expression. -/
theorem ends_closing {kind : TokenKind} (closing : Terminal kind)
    (hkind : kind ∈ [TokenKind.semicolon, .comma, .colon, .rightParen]) :
    Ends level u (closing.val :: r) := by
  have hjoin : joinRank? kind = none ∧ ¬ IsUpdate kind := by
    simp only [List.mem_cons, List.not_mem_nil, or_false] at hkind
    rcases hkind with rfl | rfl | rfl | rfl <;> simp [joinRank?, IsUpdate]
  rw [← closing.property] at hjoin
  exact ends_of_kind (by simp [hjoin.1]) hjoin.2

theorem ends_sign (sign : Sign assignments) : Ends (.chain .disjunction) u (sign.token :: r) := by
  have hrank : joinRank? sign.token.kind = some Level.assignment.rank := by
    rw [joinRank?_eq_assignment_iff, assignForm?_eq_lookup, sign.listed, Option.isSome_some]
  refine ends_of_kind ?_ (not_isUpdate_of_joinRank? hrank)
  intro rank hr
  cases hrank.symm.trans hr
  decide

end Grammar

end Sigil
