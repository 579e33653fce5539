import Sigil.Proofs.Grammar.StatementDerivation

/-!
# The grammar of programs is unambiguous

The kind of its first token tells which form a statement has, and what is read at
one place is determined.  So tokens have at most one derivation, and reading a
program without errors is the same as deriving it.
-/

namespace Sigil

namespace Grammar

variable {looped pending pending' : Bool} {mutability : Mutability} {r r' : List Token}

/-! ### Parts without statements -/

theorem BindingPhrase.eq_of_tokens (phrase phrase' : BindingPhrase mutability)
    (h : phrase.tokens = phrase'.tokens) : phrase = phrase' := by
  cases phrase with
  | bare name =>
      cases phrase' with
      | bare name' => rw [Subtype.ext (List.cons.inj h).1]
      | initialized name' sign' value' => cases (List.cons.inj h).2
  | initialized name sign value =>
      cases phrase' with
      | bare name' => cases (List.cons.inj h).2
      | initialized name' sign' value' =>
          obtain ⟨hname, h⟩ := List.cons.inj h
          obtain ⟨hsign, hvalue⟩ := List.cons.inj h
          rw [Subtype.ext hname, Subtype.ext hsign, value.eq_of_tokens value' hvalue]

theorem BindingPhrase.tokens_eq_of_append {kind kind' : TokenKind}
    {phrase phrase' : BindingPhrase mutability} (closing : Terminal kind)
    (closing' : Terminal kind') (hkind : kind ∈ [TokenKind.semicolon, .comma])
    (hkind' : kind' ∈ [TokenKind.semicolon, .comma])
    (h : phrase.tokens ++ closing.val :: r = phrase'.tokens ++ closing'.val :: r') :
    phrase.tokens = phrase'.tokens ∧ closing.val :: r = closing'.val :: r' := by
  let c := Cursor.ofTokens (phrase.tokens ++ closing.val :: r)
  exact Cursor.tokens_eq_of_read (c := c) rfl h (phrase.readBinding_eq closing hkind rfl)
    (phrase'.readBinding_eq closing' hkind' h)

theorem BindingsPhrase.last_tokens_ne (binding : BindingPhrase mutability)
    (semicolon : Terminal .semicolon) (binding' : BindingPhrase mutability)
    (comma : Terminal .comma) (others : BindingsPhrase mutability) :
    (BindingsPhrase.last binding semicolon).tokens ≠
      (BindingsPhrase.more binding' comma others).tokens := by
  intro h
  obtain ⟨-, h⟩ := BindingPhrase.tokens_eq_of_append semicolon comma (by simp) (by simp) h
  have hkind := congrArg Token.kind (List.cons.inj h).1
  rw [semicolon.property, comma.property] at hkind
  cases hkind

theorem BindingsPhrase.eq_of_tokens (phrase phrase' : BindingsPhrase mutability)
    (h : phrase.tokens = phrase'.tokens) : phrase = phrase' := by
  induction phrase generalizing phrase' with
  | last binding semicolon =>
      cases phrase' with
      | last binding' semicolon' =>
          obtain ⟨hbinding, hsemicolon⟩ := List.append_inj' h rfl
          rw [binding.eq_of_tokens binding' hbinding, Subtype.ext (List.cons.inj hsemicolon).1]
      | more binding' comma' others' =>
          exact (last_tokens_ne binding semicolon binding' comma' others' h).elim
  | more binding comma others ih =>
      cases phrase' with
      | last binding' semicolon' =>
          exact (last_tokens_ne binding' semicolon' binding comma others h.symm).elim
      | more binding' comma' others' =>
          obtain ⟨hbinding, h⟩ :=
            BindingPhrase.tokens_eq_of_append comma comma' (by simp) (by simp) h
          obtain ⟨hcomma, hothers⟩ := List.cons.inj h
          rw [binding.eq_of_tokens binding' hbinding, Subtype.ext hcomma, ih others' hothers]

theorem ConditionPhrase.eq_of_tokens (phrase phrase' : ConditionPhrase)
    (h : phrase.tokens = phrase'.tokens) : phrase = phrase' := by
  obtain ⟨opening, condition, closing⟩ := phrase
  obtain ⟨opening', condition', closing'⟩ := phrase'
  simp only [tokens] at h
  obtain ⟨hopening, h⟩ := List.cons.inj h
  obtain ⟨hcondition, hclosing⟩ := List.append_inj' h rfl
  rw [Subtype.ext hopening, condition.eq_of_tokens condition' hcondition,
    Subtype.ext (List.cons.inj hclosing).1]

theorem ConditionPhrase.tokens_eq_of_append {phrase phrase' : ConditionPhrase}
    (h : phrase.tokens ++ r = phrase'.tokens ++ r') :
    phrase = phrase' ∧ r = r' := by
  let c := Cursor.ofTokens (phrase.tokens ++ r)
  obtain ⟨htokens, hrest⟩ := Cursor.tokens_eq_of_read (c := c) rfl h
    (phrase.readCondition_eq "" "" rfl) (phrase'.readCondition_eq "" "" h)
  exact ⟨phrase.eq_of_tokens phrase' htokens, hrest⟩

/-- No expression starts with a token of another kind. -/
theorem Phrase.ne_cons_of_starters {token : Token} {u : List Token} (phrase : Phrase .assignment)
    (h : token.kind ∉ starters) : phrase.tokens ++ r ≠ token :: u := by
  intro heq
  obtain ⟨first, others, htokens, hkind⟩ := phrase.exists_first
  rw [htokens] at heq
  cases heq
  exact h hkind

theorem InitializerPhrase.eq_of_tokens (phrase phrase' : InitializerPhrase)
    (h : phrase.tokens = phrase'.tokens) : phrase = phrase' := by
  cases phrase with
  | none semicolon =>
      cases phrase' with
      | none semicolon' => rw [Subtype.ext (List.cons.inj h).1]
      | letList keyword' bindings' =>
          have hkind := congrArg Token.kind (List.cons.inj h).1
          simp [semicolon.property, keyword'.property] at hkind
      | expression value' semicolon' =>
          exact (value'.ne_cons_of_starters (by simp [semicolon.property, starters]) h.symm).elim
  | letList keyword bindings =>
      cases phrase' with
      | none semicolon' =>
          have hkind := congrArg Token.kind (List.cons.inj h).1
          simp [keyword.property, semicolon'.property] at hkind
      | letList keyword' bindings' =>
          obtain ⟨hkeyword, hbindings⟩ := List.cons.inj h
          rw [Subtype.ext hkeyword, bindings.eq_of_tokens bindings' hbindings]
      | expression value' semicolon' =>
          exact (value'.ne_cons_of_starters (by simp [keyword.property, starters]) h.symm).elim
  | expression value semicolon =>
      cases phrase' with
      | none semicolon' =>
          exact (value.ne_cons_of_starters (by simp [semicolon'.property, starters]) h).elim
      | letList keyword' bindings' =>
          exact (value.ne_cons_of_starters (by simp [keyword'.property, starters]) h).elim
      | expression value' semicolon' =>
          obtain ⟨hvalue, hsemicolon⟩ := List.append_inj' h rfl
          rw [value.eq_of_tokens value' hvalue, Subtype.ext (List.cons.inj hsemicolon).1]

theorem eq_of_optionalTokens (phrase phrase' : Option (Phrase .assignment))
    (h : optionalTokens phrase = optionalTokens phrase') : phrase = phrase' := by
  cases phrase with
  | none =>
      cases phrase' with
      | none => rfl
      | some value' => exact (value'.tokens_ne_nil h.symm).elim
  | some value =>
      cases phrase' with
      | none => exact (value.tokens_ne_nil h).elim
      | some value' => rw [value.eq_of_tokens value' h]

theorem ClausesPhrase.eq_of_tokens (phrase phrase' : ClausesPhrase)
    (h : phrase.tokens = phrase'.tokens) : phrase = phrase' := by
  obtain ⟨opening, initializer, condition, semicolon, increment, closing⟩ := phrase
  obtain ⟨opening', initializer', condition', semicolon', increment', closing'⟩ := phrase'
  simp only [tokens] at h
  obtain ⟨hopening, h⟩ := List.cons.inj h
  let c := Cursor.ofTokens (initializer.tokens ++ (optionalTokens condition ++
    semicolon.val :: (optionalTokens increment ++ [closing.val])))
  obtain ⟨hinitializer, h⟩ := Cursor.tokens_eq_of_read (c := c) rfl h
    (initializer.readForInitializer_eq rfl) (initializer'.readForInitializer_eq h)
  let d := Cursor.ofTokens (optionalTokens condition ++
    semicolon.val :: (optionalTokens increment ++ [closing.val]))
  have hd : d.rest = (optionalTokens condition ++ [semicolon.val]) ++
      (optionalTokens increment ++ [closing.val]) := by simp [d, Cursor.ofTokens]
  have hd' : d.rest = (optionalTokens condition' ++ [semicolon'.val]) ++
      (optionalTokens increment' ++ [closing'.val]) := by simp [d, Cursor.ofTokens, h]
  obtain ⟨hcondition, hincrement⟩ := Cursor.tokens_eq_of_read hd hd'
    (readForCondition_eq condition semicolon rfl) (readForCondition_eq condition' semicolon' h)
  obtain ⟨hcondition, hsemicolon⟩ := List.append_inj' hcondition rfl
  obtain ⟨hincrement, hclosing⟩ := List.append_inj' hincrement rfl
  rw [Subtype.ext hopening, initializer.eq_of_tokens initializer' hinitializer,
    eq_of_optionalTokens condition condition' hcondition,
    Subtype.ext (List.cons.inj hsemicolon).1,
    eq_of_optionalTokens increment increment' hincrement, Subtype.ext (List.cons.inj hclosing).1]

theorem ClausesPhrase.tokens_eq_of_append {phrase phrase' : ClausesPhrase}
    (h : phrase.tokens ++ r = phrase'.tokens ++ r') : phrase = phrase' ∧ r = r' := by
  let c := Cursor.ofTokens (phrase.tokens ++ r)
  obtain ⟨htokens, hrest⟩ := Cursor.tokens_eq_of_read (c := c) rfl h
    (phrase.readForClauses_eq rfl) (phrase'.readForClauses_eq h)
  exact ⟨phrase.eq_of_tokens phrase' htokens, hrest⟩

/-! ### Statements -/

/-- The kind of the first token of a statement, if it is not that of an expression. -/
def StatementPhrase.opener :
    {looped pending : Bool} → StatementPhrase looped pending → Option TokenKind
  | _, _, .empty _ => some .semicolon
  | _, _, .block .. => some .leftBrace
  | _, _, .console .. => some .kwConsole
  | _, _, .ifThen .. => some .kwIf
  | _, _, .ifElse .. => some .kwIf
  | _, _, .whileLoop .. => some .kwWhile
  | _, _, .forLoop .. => some .kwFor
  | _, _, .breakLoop .. => some .kwBreak
  | _, _, .continueLoop .. => some .kwContinue
  | _, _, .expression .. => none

theorem StatementPhrase.opener_eq {token : Token} {tokens : List Token}
    (phrase : StatementPhrase looped pending) (h : phrase.tokens = token :: tokens) :
    phrase.opener = if token.kind ∈ starters then none else some token.kind := by
  cases phrase with
  | expression value semicolon =>
      obtain ⟨first, others, htokens, hkind⟩ := value.exists_first
      rw [StatementPhrase.tokens, htokens] at h
      cases h
      rw [if_pos hkind]
      rfl
  | _ keyword =>
      obtain ⟨rfl, -⟩ := List.cons.inj h
      simp [opener, keyword.property, starters]

theorem StatementPhrase.opener_eq_of_tokens {phrase : StatementPhrase looped pending}
    {phrase' : StatementPhrase looped pending'} (h : phrase.tokens = phrase'.tokens) :
    phrase.opener = phrase'.opener := by
  obtain ⟨first, others, htokens, -⟩ := phrase.exists_first
  rw [phrase.opener_eq htokens, phrase'.opener_eq (h.symm.trans htokens)]

theorem StatementPhrase.tokens_eq_of_append {phrase : StatementPhrase looped pending}
    {phrase' : StatementPhrase looped pending'} (h : phrase.tokens ++ r = phrase'.tokens ++ r')
    (helse : pending = true → NoElse r) (helse' : pending' = true → NoElse r') :
    phrase.tokens = phrase'.tokens ∧ r = r' := by
  let c := (Cursor.ofTokens (phrase.tokens ++ r)).enterLoop
  exact Cursor.tokens_eq_of_read (c := c) rfl h
    (phrase.readStatement_eq c r rfl (fun _ ↦ Nat.one_pos) helse)
    (phrase'.readStatement_eq c r' h (fun _ ↦ Nat.one_pos) helse')

theorem DeclarationPhrase.tokens_eq_of_append {phrase phrase' : DeclarationPhrase looped}
    (h : phrase.tokens ++ r = phrase'.tokens ++ r') (helse : NoElse r) (helse' : NoElse r') :
    phrase.tokens = phrase'.tokens ∧ r = r' := by
  let c := (Cursor.ofTokens (phrase.tokens ++ r)).enterLoop
  exact Cursor.tokens_eq_of_read (c := c) rfl h
    (phrase.readItem_eq c r rfl (fun _ ↦ Nat.one_pos) helse)
    (phrase'.readItem_eq c r' h (fun _ ↦ Nat.one_pos) helse')

theorem StatementPhrase.ne_cons_of_kind {token : Token} {u : List Token}
    (phrase : StatementPhrase looped pending)
    (h : token.kind ∈ [TokenKind.kwLet, .kwConst, .kwElse, .rightBrace]) :
    phrase.tokens ≠ token :: u := by
  intro heq
  obtain ⟨first, others, htokens, hkind⟩ := phrase.exists_first
  cases htokens.symm.trans heq
  exact hkind h

/-- An `else` after the branch belongs to the `if`. -/
theorem StatementPhrase.ifThen_tokens_ne (keyword keyword' : Terminal .kwIf)
    (condition condition' : ConditionPhrase) (branch : StatementPhrase looped pending)
    (branch' : StatementPhrase looped false) (otherwise : Terminal .kwElse)
    (other : StatementPhrase looped pending') :
    (StatementPhrase.ifThen keyword condition branch).tokens ≠
      (StatementPhrase.ifElse keyword' condition' branch' otherwise other).tokens := by
  intro h
  obtain ⟨-, h⟩ := List.cons.inj h
  obtain ⟨-, h⟩ := ConditionPhrase.tokens_eq_of_append h
  rw [← List.append_nil branch.tokens] at h
  obtain ⟨-, h⟩ := tokens_eq_of_append h (by simp [NoElse]) nofun
  cases h

mutual
/-- Tokens also determine whether an `else` after them would be theirs. -/
theorem StatementPhrase.eq_of_tokens : ∀ {looped pending pending' : Bool}
    (phrase : StatementPhrase looped pending) (phrase' : StatementPhrase looped pending'),
    phrase.tokens = phrase'.tokens → Sigma.mk pending phrase = Sigma.mk pending' phrase'
  | _, _, _, .empty semicolon, phrase', h => by
      have hopener := StatementPhrase.opener_eq_of_tokens h
      cases phrase' with
      | empty semicolon' => rw [Subtype.ext (List.cons.inj h).1]
      | _ => cases hopener
  | _, _, _, .block opening items closing, phrase', h => by
      have hopener := StatementPhrase.opener_eq_of_tokens h
      cases phrase' with
      | block opening' items' closing' =>
          obtain ⟨hopening, h⟩ := List.cons.inj h
          obtain ⟨hitems, hclosing⟩ := List.append_inj' h rfl
          rw [Subtype.ext hopening, items.eq_of_tokens items' hitems,
            Subtype.ext (List.cons.inj hclosing).1]
      | _ => cases hopener
  | _, _, _, .console keyword value semicolon, phrase', h => by
      have hopener := StatementPhrase.opener_eq_of_tokens h
      cases phrase' with
      | console keyword' value' semicolon' =>
          obtain ⟨hkeyword, h⟩ := List.cons.inj h
          obtain ⟨hvalue, hsemicolon⟩ := List.append_inj' h rfl
          rw [Subtype.ext hkeyword, value.eq_of_tokens value' hvalue,
            Subtype.ext (List.cons.inj hsemicolon).1]
      | _ => cases hopener
  | _, _, _, .ifThen keyword condition branch, phrase', h => by
      have hopener := StatementPhrase.opener_eq_of_tokens h
      cases phrase' with
      | ifThen keyword' condition' branch' =>
          obtain ⟨hkeyword, h⟩ := List.cons.inj h
          obtain ⟨rfl, hbranch⟩ := ConditionPhrase.tokens_eq_of_append h
          cases branch.eq_of_tokens branch' hbranch
          rw [Subtype.ext hkeyword]
      | ifElse keyword' condition' branch' otherwise' other' =>
          exact (StatementPhrase.ifThen_tokens_ne keyword keyword' condition condition' branch
            branch' otherwise' other' h).elim
      | _ => cases hopener
  | _, _, _, .ifElse keyword condition branch otherwise other, phrase', h => by
      have hopener := StatementPhrase.opener_eq_of_tokens h
      cases phrase' with
      | ifThen keyword' condition' branch' =>
          exact (StatementPhrase.ifThen_tokens_ne keyword' keyword condition' condition branch'
            branch otherwise other h.symm).elim
      | ifElse keyword' condition' branch' otherwise' other' =>
          obtain ⟨hkeyword, h⟩ := List.cons.inj h
          obtain ⟨rfl, hrest⟩ := ConditionPhrase.tokens_eq_of_append h
          obtain ⟨hbranch, hrest⟩ := StatementPhrase.tokens_eq_of_append hrest nofun nofun
          obtain ⟨hotherwise, hother⟩ := List.cons.inj hrest
          cases branch.eq_of_tokens branch' hbranch
          cases other.eq_of_tokens other' hother
          rw [Subtype.ext hkeyword, Subtype.ext hotherwise]
      | _ => cases hopener
  | _, _, _, .whileLoop keyword condition body, phrase', h => by
      have hopener := StatementPhrase.opener_eq_of_tokens h
      cases phrase' with
      | whileLoop keyword' condition' body' =>
          obtain ⟨hkeyword, h⟩ := List.cons.inj h
          obtain ⟨rfl, hbody⟩ := ConditionPhrase.tokens_eq_of_append h
          cases body.eq_of_tokens body' hbody
          rw [Subtype.ext hkeyword]
      | _ => cases hopener
  | _, _, _, .forLoop keyword clauses body, phrase', h => by
      have hopener := StatementPhrase.opener_eq_of_tokens h
      cases phrase' with
      | forLoop keyword' clauses' body' =>
          obtain ⟨hkeyword, h⟩ := List.cons.inj h
          obtain ⟨rfl, hbody⟩ := ClausesPhrase.tokens_eq_of_append h
          cases body.eq_of_tokens body' hbody
          rw [Subtype.ext hkeyword]
      | _ => cases hopener
  | _, _, _, .breakLoop keyword semicolon, phrase', h => by
      have hopener := StatementPhrase.opener_eq_of_tokens h
      cases phrase' with
      | breakLoop keyword' semicolon' =>
          obtain ⟨hkeyword, h⟩ := List.cons.inj h
          rw [Subtype.ext hkeyword, Subtype.ext (List.cons.inj h).1]
      | _ => cases hopener
  | _, _, _, .continueLoop keyword semicolon, phrase', h => by
      have hopener := StatementPhrase.opener_eq_of_tokens h
      cases phrase' with
      | continueLoop keyword' semicolon' =>
          obtain ⟨hkeyword, h⟩ := List.cons.inj h
          rw [Subtype.ext hkeyword, Subtype.ext (List.cons.inj h).1]
      | _ => cases hopener
  | _, _, _, .expression value semicolon, phrase', h => by
      have hopener := StatementPhrase.opener_eq_of_tokens h
      cases phrase' with
      | expression value' semicolon' =>
          obtain ⟨hvalue, hsemicolon⟩ := List.append_inj' h rfl
          rw [value.eq_of_tokens value' hvalue, Subtype.ext (List.cons.inj hsemicolon).1]
      | _ => cases hopener

theorem DeclarationPhrase.eq_of_tokens : ∀ {looped : Bool}
    (phrase phrase' : DeclarationPhrase looped),
    phrase.tokens = phrase'.tokens → phrase = phrase'
  | _, .letList keyword bindings, phrase', h => by
      cases phrase' with
      | letList keyword' bindings' =>
          obtain ⟨hkeyword, hbindings⟩ := List.cons.inj h
          rw [Subtype.ext hkeyword, bindings.eq_of_tokens bindings' hbindings]
      | constList keyword' bindings' =>
          have hkind := congrArg Token.kind (List.cons.inj h).1
          simp [keyword.property, keyword'.property] at hkind
      | statement statement' =>
          exact (statement'.ne_cons_of_kind (by simp [keyword.property]) h.symm).elim
  | _, .constList keyword bindings, phrase', h => by
      cases phrase' with
      | letList keyword' bindings' =>
          have hkind := congrArg Token.kind (List.cons.inj h).1
          simp [keyword.property, keyword'.property] at hkind
      | constList keyword' bindings' =>
          obtain ⟨hkeyword, hbindings⟩ := List.cons.inj h
          rw [Subtype.ext hkeyword, bindings.eq_of_tokens bindings' hbindings]
      | statement statement' =>
          exact (statement'.ne_cons_of_kind (by simp [keyword.property]) h.symm).elim
  | _, .statement statement, phrase', h => by
      cases phrase' with
      | letList keyword' bindings' =>
          exact (statement.ne_cons_of_kind (by simp [keyword'.property]) h).elim
      | constList keyword' bindings' =>
          exact (statement.ne_cons_of_kind (by simp [keyword'.property]) h).elim
      | statement statement' =>
          cases statement.eq_of_tokens statement' h
          rfl

theorem ItemsPhrase.eq_of_tokens : ∀ {looped : Bool} (phrase phrase' : ItemsPhrase looped),
    phrase.tokens = phrase'.tokens → phrase = phrase'
  | _, .none, .none, _ => rfl
  | _, .none, .item first' others', h => by
      obtain ⟨token, tokens, htokens, -⟩ := first'.exists_first
      rw [ItemsPhrase.tokens, ItemsPhrase.tokens, htokens] at h
      cases h
  | _, .item first others, .none, h => by
      obtain ⟨token, tokens, htokens, -⟩ := first.exists_first
      rw [ItemsPhrase.tokens, ItemsPhrase.tokens, htokens] at h
      cases h
  | _, .item first others, .item first' others', h => by
      obtain ⟨hfirst, hothers⟩ := DeclarationPhrase.tokens_eq_of_append h others.noElse_tokens
        others'.noElse_tokens
      rw [first.eq_of_tokens first' hfirst, others.eq_of_tokens others' hothers]
end

/-- A program is read without errors exactly where its tokens have a derivation, and as the
statements the derivation stands for.  The derivation is the only one. -/
theorem parse_iff_derivesProgram :
    (∀ (tokens : List Token) (statements : List Stmt),
      ((parse tokens).errors = [] ∧ (parse tokens).statements = statements) ↔
        DerivesProgram tokens statements) ∧
    (∀ program program' : ItemsPhrase false,
      program.tokens = program'.tokens → program = program') := by
  refine ⟨fun tokens statements ↦ ⟨?_, ?_⟩, ItemsPhrase.eq_of_tokens⟩
  · rintro ⟨herrors, rfl⟩
    obtain ⟨program, hstmts, htokens⟩ :=
      exists_phrase_of_readProgram (Cursor.ofTokens tokens) rfl herrors
    exact ⟨program, htokens.symm, hstmts⟩
  · rintro ⟨program, rfl, rfl⟩
    have hread := program.readProgram_eq (Cursor.ofTokens program.tokens) rfl nofun
    rw [parse, hread]
    exact ⟨Cursor.errors_skip _ _, rfl⟩

end Grammar

end Sigil
