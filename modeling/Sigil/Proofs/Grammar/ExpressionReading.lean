import Sigil.Proofs.Grammar.ExpressionEnd

/-!
# Reading expressions by the grammar

Reading an expression of a level succeeds exactly on the tokens of a phrase of
that level that the next token cannot go on, and gives the expression that the
phrase stands for.
-/

namespace Sigil

namespace Grammar

variable {level : Level} {token : Token} {expr : Expr} {u v r : List Token} {c s : Cursor}

/-! ### Phrases are read -/

theorem readLevel_atom (h : Atom token expr) (hc : c.rest = token :: r) :
    c.readLevel .primary = .read expr (c.skip 1) := by
  rw [Cursor.readLevel_primary, hc]
  simp only [h.kind_ne_leftParen, if_false, primary?_eq_ok_iff.mpr h]
  rfl

/-- A variable that nothing goes on is read at every level above which it could be assigned. -/
theorem readLevel_reference (level : Level) (c : Cursor) (target : Terminal .identifier)
    (hlevel : level ≠ .assignment) (hc : c.rest = target.val :: r)
    (hends : Ends level [target.val] r) :
    c.readLevel level = .read (reference target.val) (c.skip 1) := by
  have hrest : (c.skip 1).rest = r := Cursor.rest_advance_of_cons hc
  match level with
  | .assignment => exact absurd rfl hlevel
  | .primary => exact readLevel_atom (.reference target.property) hc
  | .suffixed =>
      have hnone : (c.skip 1).accept? TokenKind.suffixOperator? = none := by
        refine Ends.accept_suffix_eq_none (by simp) ?_ (hrest.symm ▸ hends)
        simp [IsUpdate, target.property]
      rw [Cursor.readLevel_suffixed,
        readLevel_reference .primary c target (by simp) hc (hends.mono (by decide)),
        Reading.andThen_read, hnone]
  | .unary =>
      rw [Cursor.readLevel_unary, Cursor.accept?_of_rest _ hc, target.property]
      exact readLevel_reference .suffixed c target (by simp) hc (hends.mono (by decide))
  | .chain chainLevel =>
      have hoperand := hends.mono (Nat.le_of_lt (rank_operands chainLevel))
      have hne : operands chainLevel ≠ .assignment := by cases chainLevel <;> simp [operands]
      have hnone := (accept?_eq_none_iff_noJoin joinRank?_eq_chain_iff).mpr
        (hrest.symm ▸ hends.noJoin)
      rw [Cursor.readLevel_chain, operand_eq_operands,
        readLevel_reference (operands chainLevel) c target hne hc hoperand,
        Reading.andThen_read, Cursor.readChain_eq, hnone]
  | .conditional =>
      have hnone := acceptOne?_questionMark_eq_none_iff.mpr (hrest.symm ▸ hends.noJoin)
      rw [Cursor.readLevel_conditional,
        readLevel_reference (.chain .equality) c target (by simp) hc (hends.mono (by decide)),
        Reading.andThen_read, hnone]
termination_by level.rank
decreasing_by
  all_goals first
    | exact rank_operands _
    | decide

theorem Phrase.expr_assign (target : Terminal .identifier) (sign : Sign assignments)
    (value : Phrase .assignment) :
    (Phrase.assign target sign value).expr = .assign target.val.text target.val.span
      (sign.meaning.stored target.val.text target.val.span value.expr sign.token.span) .after := by
  obtain ⟨token, meaning, listed⟩ := sign
  cases meaning <;> rfl

theorem Links.join_link {level : ChainLevel} (sign : Sign (connectives level))
    (operand : Phrase (operands level)) (others : Links level) (left : Expr) :
    (Links.link sign operand others).join left =
      others.join (sign.meaning.join left operand.expr sign.token.span) := by
  obtain ⟨token, meaning, listed⟩ := sign
  cases meaning <;> rfl

theorem Sign.accept?_eq_some {α : Type} {table : List (TokenKind × α)} (sign : Sign table)
    {select : TokenKind → Option α} (hselect : ∀ kind, select kind = table.lookup kind)
    (hc : c.rest = sign.token :: r) :
    c.accept? select = some (sign.meaning, sign.token, c.advance) := by
  rw [Cursor.accept?_of_rest select hc, hselect, sign.listed, Option.map_some]

mutual
theorem Phrase.readLevel_eq {level : Level} (phrase : Phrase level) (c : Cursor) (r : List Token)
    (hc : c.rest = phrase.tokens ++ r) (hends : Ends level phrase.tokens r) :
    c.readLevel level = .read phrase.expr (c.skip phrase.tokens.length) := by
  match phrase with
  | .assign target sign value =>
      have hvalue : Ends .assignment value.tokens r := by
        rwa [Phrase.tokens, ends_cons_iff (by simp), ends_cons_iff value.tokens_ne_nil] at hends
      have htarget := readLevel_reference (.chain .disjunction) c target (by simp) hc
        (ends_sign sign)
      have hone : (c.skip 1).rest = sign.token :: (value.tokens ++ r) :=
        Cursor.rest_advance_of_cons hc
      have htwo := Cursor.rest_advance_of_cons hone
      rw [Cursor.readLevel_assignment, htarget, Reading.andThen_read,
        sign.accept?_eq_some assignForm?_eq_lookup hone]
      simp only [value.readLevel_eq _ r htwo hvalue, Reading.andThen_read, reference,
        Phrase.expr_assign]
      rfl
  | .unassigned inner =>
      have hrest := Cursor.rest_skip_of_append hc
      have hnone := (accept?_eq_none_iff_noJoin joinRank?_eq_assignment_iff).mpr
        (hrest.symm ▸ hends.noJoin)
      rw [Phrase.tokens] at hc hends hnone
      rw [Cursor.readLevel_assignment, inner.readLevel_eq c r hc (hends.mono (by decide)),
        Reading.andThen_read, hnone]
      rfl
  | .chain first links =>
      rw [Phrase.tokens] at hc hends
      rw [List.append_assoc] at hc
      have hrest := Cursor.rest_skip_of_append hc
      have hfirst := first.readLevel_eq c _ hc (links.ends_operand hends)
      rw [Cursor.readLevel_chain, operand_eq_operands, hfirst,
        Reading.andThen_read, links.readChain_eq first.expr _ first.tokens r hrest hends,
        Cursor.skip_skip, Phrase.tokens, List.length_append]
      rfl
  | .choice condition mark left colon right =>
      rw [Phrase.tokens] at hc hends
      rw [ends_append_iff (by simp), ends_cons_iff (by simp), ends_append_iff (by simp),
        ends_cons_iff right.tokens_ne_nil] at hends
      simp only [List.append_assoc, List.cons_append] at hc
      have hmark := Cursor.rest_skip_of_append hc
      have hleftRest := Cursor.rest_advance_of_cons hmark
      have hcolon := Cursor.rest_skip_of_append hleftRest
      have hright := Cursor.rest_advance_of_cons hcolon
      rw [Cursor.readLevel_conditional, condition.readLevel_eq c _ hc (ends_questionMark mark),
        Reading.andThen_read, Cursor.acceptOne?_of_kind hmark mark.property]
      have hleft := left.readLevel_eq _ _ hleftRest (ends_closing colon (by simp))
      simp only [hleft, Reading.andThen_read,
        Cursor.expect_of_kind hcolon colon.property, right.readLevel_eq _ r hright hends,
        Reading.map_read]
      simp only [Cursor.advance_skip, Cursor.skip_skip, Phrase.tokens, Phrase.expr,
        List.length_append, List.length_cons]
      congr 2
      omega
  | .unconditional inner =>
      have hrest := Cursor.rest_skip_of_append hc
      have hnone := acceptOne?_questionMark_eq_none_iff.mpr (hrest.symm ▸ hends.noJoin)
      rw [Phrase.tokens] at hc hends hnone
      rw [Cursor.readLevel_conditional, inner.readLevel_eq c r hc (hends.mono (by decide)),
        Reading.andThen_read, hnone]
      rfl
  | .signed sign operand =>
      rw [Phrase.tokens] at hc hends
      rw [ends_cons_iff operand.tokens_ne_nil] at hends
      have hrest := Cursor.rest_advance_of_cons hc
      rw [Cursor.readLevel_unary, Cursor.accept?_of_rest _ hc, unaryOperator?_of_signs sign]
      simp only [Option.map_some, operand.readLevel_eq _ r hrest hends, Reading.andThen_read,
        updates_of_lookup_signs sign.listed, Bool.false_and]
      rfl
  | .updating sign target =>
      rw [Phrase.tokens] at hc hends
      rw [ends_cons_iff (by simp)] at hends
      have hrest := Cursor.rest_advance_of_cons hc
      rw [Cursor.readLevel_unary, Cursor.accept?_of_rest _ hc, unaryOperator?_of_updates sign]
      simp only [Option.map_some, readLevel_reference .unary _ target (by simp) hrest hends,
        Reading.andThen_read, reference, Expr.isReference, Bool.not_true, Bool.and_false]
      rfl
  | .unsigned inner =>
      rw [Phrase.tokens] at hc hends
      have hnone : c.accept? TokenKind.unaryOperator? = none := by
        obtain ⟨first, others, hfirst⟩ := List.exists_cons_of_ne_nil inner.tokens_ne_nil
        rw [hfirst, List.cons_append] at hc
        rw [Cursor.accept?_of_rest _ hc, inner.unaryOperator?_head first (by simp [hfirst]),
          Option.map_none]
      rw [Cursor.readLevel_unary, hnone]
      exact inner.readLevel_eq c r hc (hends.mono (by decide))
  | .suffixed target sign =>
      rw [Phrase.tokens] at hc
      have hrest : (c.skip 1).rest = sign.token :: r := Cursor.rest_advance_of_cons hc
      have hprimary : c.readLevel .primary = .read (reference target.val) (c.skip 1) :=
        readLevel_atom (.reference target.property) hc
      rw [Cursor.readLevel_suffixed, hprimary, Reading.andThen_read,
        sign.accept?_eq_some suffixOperator?_eq_lookup hrest]
      rfl
  | .unsuffixed inner =>
      have hrest := Cursor.rest_skip_of_append hc
      have hnone := Ends.accept_suffix_eq_none (by simp) inner.not_isUpdate_getLast
        (hrest.symm ▸ hends)
      rw [Phrase.tokens] at hc hends hnone
      rw [Cursor.readLevel_suffixed, inner.readLevel_eq c r hc (hends.mono (by decide)),
        Reading.andThen_read, hnone]
      rfl
  | .atom token expr h => exact readLevel_atom h hc
  | .group opening inner closing =>
      rw [Phrase.tokens, List.cons_append, List.append_assoc] at hc
      have hrest := Cursor.rest_advance_of_cons hc
      have hclosing := Cursor.rest_skip_of_append hrest
      have hinner := inner.readLevel_eq _ _ hrest (ends_closing closing (by simp))
      rw [Cursor.readLevel_primary, hc]
      simp only [opening.property, if_true, hinner,
        Reading.andThen_read, Cursor.expect_of_kind hclosing closing.property, Reading.map_read,
        Cursor.advance_skip, Phrase.tokens, Phrase.expr, List.length_append, List.length_cons]
      rfl

theorem Links.readChain_eq {level : ChainLevel} (links : Links level) (left : Expr) (c : Cursor)
    (u r : List Token) (hc : c.rest = links.tokens ++ r)
    (hends : Ends (.chain level) (u ++ links.tokens) r) :
    c.readChain level left = .read (links.join left) (c.skip links.tokens.length) := by
  match links with
  | .none =>
      have hrest : c.rest = r := hc
      have hnone := (accept?_eq_none_iff_noJoin joinRank?_eq_chain_iff).mpr
        (hrest.symm ▸ hends.noJoin)
      rw [Cursor.readChain_eq, hnone]
      rfl
  | .link sign operand others =>
      rw [Links.tokens] at hc hends
      rw [← List.cons_append, ← List.append_assoc] at hends
      have hoperand : Ends (operands level) operand.tokens (others.tokens ++ r) := by
        have h := others.ends_operand hends
        rwa [ends_append_iff (by simp), ends_cons_iff operand.tokens_ne_nil] at h
      rw [List.cons_append, List.append_assoc] at hc
      have hrest := Cursor.rest_advance_of_cons hc
      have hothers := Cursor.rest_skip_of_append hrest
      rw [Cursor.readChain_eq, operand_eq_operands,
        sign.accept?_eq_some (connective?_eq_lookup level) hc]
      simp only [operand.readLevel_eq _ _ hrest hoperand, Reading.andThen_read,
        others.readChain_eq _ _ _ r hothers hends, Links.join_link, Cursor.skip_skip,
        Links.tokens, List.length_append, List.length_cons]
      rfl
end

/-! ### What is read is a phrase -/

theorem Links.eq_of_isReference_join {level : ChainLevel} : ∀ (links : Links level) (left : Expr),
    (links.join left).isReference = true → links.tokens = [] ∧ links.join left = left
  | .none, _, _ => ⟨rfl, rfl⟩
  | .link sign operand others, left, h => by
      rw [Links.join_link] at h
      obtain ⟨-, hjoin⟩ := eq_of_isReference_join others _ h
      rw [hjoin] at h
      cases hmeaning : sign.meaning <;> rw [hmeaning] at h <;> cases h

/-- A phrase that stands for a variable is an identifier. -/
theorem Phrase.exists_terminal_of_isReference {level : Level} (phrase : Phrase level)
    (h : phrase.expr.isReference = true) :
    ∃ target : Terminal .identifier, phrase.tokens = [target.val] ∧
      phrase.expr = reference target.val := by
  match phrase with
  | .assign target sign value =>
      rw [Phrase.expr_assign] at h
      cases h
  | .unassigned inner => exact inner.exists_terminal_of_isReference h
  | .chain first links =>
      obtain ⟨htokens, hjoin⟩ := links.eq_of_isReference_join first.expr h
      rw [expr, hjoin] at h
      rw [tokens, expr, htokens, hjoin, List.append_nil]
      exact first.exists_terminal_of_isReference h
  | .choice condition mark left colon right => cases h
  | .unconditional inner => exact inner.exists_terminal_of_isReference h
  | .signed sign operand => cases h
  | .updating sign target => cases h
  | .unsigned inner => exact inner.exists_terminal_of_isReference h
  | .suffixed target sign => cases h
  | .unsuffixed inner => exact inner.exists_terminal_of_isReference h
  | .atom token expr hatom =>
      cases hatom with
      | reference hkind => exact ⟨⟨token, hkind⟩, rfl, rfl⟩
      | _ => cases h
  | .group opening inner closing => cases h

/-- The cursor has moved over the tokens of a phrase for the expression, to where it ends. -/
def ReadsPhrase (level : Level) (c : Cursor) (expr : Expr) (s : Cursor) : Prop :=
  ∃ phrase : Phrase level, phrase.expr = expr ∧ c.Passes phrase.tokens s ∧
    Ends level phrase.tokens s.rest

mutual
theorem readsPhrase_of_readLevel (level : Level) (c s : Cursor) (expr : Expr)
    (h : c.readLevel level = .read expr s) : ReadsPhrase level c expr s := by
  match level with
  | .assignment =>
      rw [Cursor.readLevel_assignment] at h
      obtain ⟨target, d, hd, h⟩ := Reading.andThen_eq_read_iff.mp h
      have hsize := Cursor.size_readLevel hd
      obtain ⟨phrase, rfl, hpasses, hends⟩ := readsPhrase_of_readLevel _ c d target hd
      split at h
      · rename_i hnone
        cases h
        have hjoin := (accept?_eq_none_iff_noJoin joinRank?_eq_assignment_iff).mp hnone
        exact ⟨.unassigned phrase, rfl, hpasses, hends.loosen (by simp) rfl hjoin⟩
      · rename_i form operator e haccept
        have hsize' := Cursor.size_of_accept? haccept
        obtain ⟨hrest, hform, rfl⟩ := Cursor.accept?_eq_some_iff.mp haccept
        obtain ⟨value, t, ht, h⟩ := Reading.andThen_eq_read_iff.mp h
        obtain ⟨valuePhrase, rfl, hvalue, hvalueEnds⟩ := readsPhrase_of_readLevel _ _ t value ht
        split at h
        · rename_i name span hname
          cases h
          obtain ⟨terminal, htokens, hterminal⟩ :=
            phrase.exists_terminal_of_isReference (by rw [hname]; rfl)
          cases hname.symm.trans hterminal
          let sign : Sign assignments :=
            ⟨operator, form, (assignForm?_eq_lookup operator.kind).symm.trans hform⟩
          refine ⟨.assign terminal sign valuePhrase, Phrase.expr_assign _ _ _, ?_, ?_⟩
          · rw [htokens] at hpasses
            exact hpasses.trans (.cons hrest hvalue)
          · rw [Phrase.tokens, ends_cons_iff (by simp), ends_cons_iff valuePhrase.tokens_ne_nil]
            exact hvalueEnds
        · cases h
  | .chain chainLevel =>
      rw [Cursor.readLevel_chain, operand_eq_operands] at h
      obtain ⟨left, d, hd, h⟩ := Reading.andThen_eq_read_iff.mp h
      have hsize := Cursor.size_readLevel hd
      obtain ⟨first, rfl, hpasses, hends⟩ := readsPhrase_of_readLevel _ c d left hd
      obtain ⟨links, rfl, hlinks, hlinksEnds⟩ :=
        exists_links_of_readChain chainLevel first.expr d s expr first.tokens hends h
      exact ⟨.chain first links, rfl, hpasses.trans hlinks, hlinksEnds⟩
  | .conditional =>
      rw [Cursor.readLevel_conditional] at h
      obtain ⟨condition, d, hd, h⟩ := Reading.andThen_eq_read_iff.mp h
      have hsize := Cursor.size_readLevel hd
      obtain ⟨phrase, rfl, hpasses, hends⟩ := readsPhrase_of_readLevel _ c d condition hd
      split at h
      · rename_i hnone
        cases h
        have hjoin := acceptOne?_questionMark_eq_none_iff.mp hnone
        exact ⟨.unconditional phrase, rfl, hpasses, hends.loosen (by simp) rfl hjoin⟩
      · rename_i mark e haccept
        have hsize' := Cursor.size_of_acceptOne? haccept
        obtain ⟨hmark, hmarkKind, rfl⟩ := Cursor.acceptOne?_eq_some_iff.mp haccept
        obtain ⟨left, t, ht, h⟩ := Reading.andThen_eq_read_iff.mp h
        have hleftSize := Cursor.size_readLevel ht
        obtain ⟨leftPhrase, rfl, hleft, -⟩ := readsPhrase_of_readLevel _ _ t left ht
        obtain ⟨colon, w, hw, h⟩ := Reading.andThen_eq_read_iff.mp h
        have hcolonSize := Cursor.size_expect hw
        obtain ⟨hcolon, hcolonKind, rfl⟩ := Cursor.expect_eq_read_iff.mp hw
        obtain ⟨right, hright, rfl⟩ := Reading.map_eq_read_iff.mp h
        obtain ⟨rightPhrase, rfl, hrightPasses, hrightEnds⟩ :=
          readsPhrase_of_readLevel _ _ s right hright
        refine ⟨.choice phrase ⟨mark, hmarkKind⟩ leftPhrase ⟨colon, hcolonKind⟩ rightPhrase,
          rfl, ?_, ?_⟩
        · exact hpasses.trans (.cons hmark (hleft.trans (.cons hcolon hrightPasses)))
        · rw [Phrase.tokens, ends_append_iff (by simp), ends_cons_iff (by simp),
            ends_append_iff (by simp), ends_cons_iff rightPhrase.tokens_ne_nil]
          exact hrightEnds
  | .unary =>
      rw [Cursor.readLevel_unary] at h
      split at h
      · obtain ⟨phrase, rfl, hpasses, hends⟩ := readsPhrase_of_readLevel .suffixed c s expr h
        exact ⟨.unsigned phrase, rfl, hpasses, hends.unary⟩
      · rename_i op operator d haccept
        have hsize := Cursor.size_of_accept? haccept
        obtain ⟨hrest, hop, rfl⟩ := Cursor.accept?_eq_some_iff.mp haccept
        obtain ⟨operand, t, ht, h⟩ := Reading.andThen_eq_read_iff.mp h
        obtain ⟨phrase, rfl, hpasses, hends⟩ := readsPhrase_of_readLevel _ _ t operand ht
        split at h
        · cases h
        · rename_i hrefused
          cases h
          rw [unaryOperator?_eq_lookup, Option.or_eq_some_iff] at hop
          rcases hop with hsign | ⟨-, hupdate⟩
          · refine ⟨.signed ⟨operator, op, hsign⟩ phrase, rfl, .cons hrest hpasses, ?_⟩
            rw [Phrase.tokens, ends_cons_iff phrase.tokens_ne_nil]
            exact hends
          · have hreference : phrase.expr.isReference = true := by
              simpa [updates_of_lookup_updates hupdate] using hrefused
            obtain ⟨target, htokens, htarget⟩ := phrase.exists_terminal_of_isReference hreference
            rw [htokens] at hpasses hends
            refine ⟨.updating ⟨operator, op, hupdate⟩ target, ?_, .cons hrest hpasses, ?_⟩
            · rw [Phrase.expr, htarget]
            · rw [Phrase.tokens, ends_cons_iff (by simp)]
              exact hends
  | .suffixed =>
      rw [Cursor.readLevel_suffixed] at h
      obtain ⟨operand, d, hd, h⟩ := Reading.andThen_eq_read_iff.mp h
      obtain ⟨phrase, rfl, hpasses, hends⟩ := readsPhrase_of_readLevel _ c d operand hd
      split at h
      · rename_i hnone
        cases h
        exact ⟨.unsuffixed phrase, rfl, hpasses, ends_suffixed_of_accept? hnone⟩
      · rename_i op operator e haccept
        obtain ⟨hrest, hop, rfl⟩ := Cursor.accept?_eq_some_iff.mp haccept
        split at h
        · rename_i name span hname
          cases h
          obtain ⟨terminal, htokens, hterminal⟩ :=
            phrase.exists_terminal_of_isReference (by rw [hname]; rfl)
          cases hname.symm.trans hterminal
          let sign : Sign suffixes :=
            ⟨operator, op, (suffixOperator?_eq_lookup operator.kind).symm.trans hop⟩
          refine ⟨.suffixed terminal sign, rfl, ?_, ?_⟩
          · rw [htokens] at hpasses
            exact hpasses.trans (.advance hrest)
          · refine ends_of_rank_lt_three (by decide) fun _ _ _ ↦ .inr ?_
            exact ⟨operator, rfl, isUpdate_of_suffixOperator? hop⟩
        · cases h
  | .primary =>
      rw [Cursor.readLevel_primary] at h
      split at h
      · cases h
      · rename_i token tokens hrest
        have hsize := Cursor.size_advance_of_rest hrest
        split at h
        · rename_i hkind
          obtain ⟨inner, d, hd, h⟩ := Reading.andThen_eq_read_iff.mp h
          obtain ⟨phrase, rfl, hpasses, -⟩ := readsPhrase_of_readLevel _ _ d inner hd
          obtain ⟨closing, hclosing, rfl⟩ := Reading.map_eq_read_iff.mp h
          obtain ⟨hclosingRest, hclosingKind, rfl⟩ := Cursor.expect_eq_read_iff.mp hclosing
          refine ⟨.group ⟨token, hkind⟩ phrase ⟨closing, hclosingKind⟩, rfl, ?_, ends_primary _ _⟩
          exact .cons ⟨tokens, hrest⟩ (hpasses.trans (.advance hclosingRest))
        · split at h
          · rename_i atom hatom
            cases h
            exact ⟨.atom token _ (primary?_eq_ok_iff.mp hatom), rfl, .advance ⟨tokens, hrest⟩,
              ends_primary _ _⟩
          · cases h
termination_by (c.size, level.rank)
decreasing_by
  all_goals first
    | exact Prod.Lex.left _ _ (by omega)
    | exact Prod.Lex.right _ (rank_operands _)
    | exact Prod.Lex.right _ (by decide)

theorem exists_links_of_readChain (level : ChainLevel) (left : Expr) (c s : Cursor) (expr : Expr)
    (u : List Token) (hu : Ends (operands level) u c.rest)
    (h : c.readChain level left = .read expr s) :
    ∃ links : Links level, links.join left = expr ∧ c.Passes links.tokens s ∧
      Ends (.chain level) (u ++ links.tokens) s.rest := by
  rw [Cursor.readChain_eq, operand_eq_operands] at h
  split at h
  · rename_i hnone
    cases h
    have hjoin := (accept?_eq_none_iff_noJoin joinRank?_eq_chain_iff).mp hnone
    refine ⟨.none, rfl, .refl c, ?_⟩
    rw [Links.tokens, List.append_nil]
    exact hu.loosen (by cases level <;> simp [operands]) (by cases level <;> rfl) hjoin
  · rename_i connective operator e haccept
    have hsize := Cursor.size_of_accept? haccept
    obtain ⟨hrest, hconnective, rfl⟩ := Cursor.accept?_eq_some_iff.mp haccept
    obtain ⟨right, t, ht, h⟩ := Reading.andThen_eq_read_iff.mp h
    have hsize' := Cursor.size_readLevel ht
    obtain ⟨operand, rfl, hoperand, hends⟩ := readsPhrase_of_readLevel _ _ t right ht
    obtain ⟨others, rfl, hothers, hothersEnds⟩ :=
      exists_links_of_readChain level _ t s expr operand.tokens hends h
    let sign : Sign (connectives level) :=
      ⟨operator, connective, (connective?_eq_lookup level operator.kind) ▸ hconnective⟩
    refine ⟨.link sign operand others, Links.join_link _ _ _ _, ?_, ?_⟩
    · exact Cursor.Passes.cons hrest (hoperand.trans hothers)
    · rw [Links.tokens, ends_append_iff (by simp), ends_cons_iff (by simp [operand.tokens_ne_nil])]
      exact hothersEnds
termination_by (c.size, 0)
decreasing_by
  all_goals exact Prod.Lex.left _ _ (by omega)
end

end Grammar

end Sigil
