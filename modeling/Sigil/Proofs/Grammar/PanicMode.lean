import Sigil.Proofs.Grammar.CleanPrefix

/-!
# An error costs one statement

Tokens up to a single semicolon are read as one statement, or reading fails before the
semicolon.  Where it fails depends on these tokens alone, and skipping from there leads
behind the semicolon: the tokens after it are read as if they stood alone.
-/

namespace Sigil

namespace Cursor

variable {α β : Type} {c d : Cursor} {token : Token} {tokens u : List Token}
  {earlier : List SyntaxError} {later : List Token}

/-- Tokens that end with their only semicolon, without blocks and `for` loops.  What may start a
statement wherever it stands is at most the first of them. -/
structure Solitary (tokens : List Token) : Prop where
  ends : ∃ front last, tokens = front ++ [last] ∧ last.kind = .semicolon ∧
    ∀ token ∈ front, token.kind ≠ .semicolon
  plain : ∀ token ∈ tokens, token.kind ≠ .leftBrace ∧ token.kind ≠ .kwFor
  starts : ∀ token ∈ tokens.tail,
    token.kind ∉ [TokenKind.kwLet, .kwConst, .kwIf, .kwWhile, .kwFun, .kwReturn]

namespace Solitary

theorem eq_nil (h : Solitary (token :: tokens)) (hkind : token.kind = .semicolon) :
    tokens = [] := by
  obtain ⟨front, last, htokens, -, hfront⟩ := h.ends
  cases front with
  | nil => exact (List.cons.inj htokens).2
  | cons first front =>
      obtain ⟨rfl, -⟩ := List.cons.inj htokens
      exact absurd hkind (hfront token List.mem_cons_self)

theorem tail (h : Solitary (token :: tokens)) (hkind : token.kind ≠ .semicolon) :
    Solitary tokens := by
  refine ⟨?_, fun other hother ↦ h.plain other (List.mem_cons_of_mem token hother),
    fun other hother ↦ h.starts other (List.mem_of_mem_tail hother)⟩
  obtain ⟨front, last, htokens, hlast, hfront⟩ := h.ends
  cases front with
  | nil =>
      obtain ⟨rfl, -⟩ := List.cons.inj htokens
      exact absurd hlast hkind
  | cons first front =>
      exact ⟨front, last, (List.cons.inj htokens).2, hlast,
        fun other hother ↦ hfront other (List.mem_cons_of_mem first hother)⟩

theorem of_append (h : Solitary (u ++ tokens)) (hkinds : ∀ token ∈ u, token.kind ≠ .semicolon) :
    Solitary tokens := by
  induction u with
  | nil => exact h
  | cons first u ih =>
      obtain ⟨hfirst, hothers⟩ := List.forall_mem_cons.mp hkinds
      exact ih (h.tail hfirst) hothers

theorem crosses (h : Solitary c.rest) (hcross : c.Crosses d) : Solitary d.rest := by
  obtain ⟨u, ⟨hrest, -⟩, hkinds⟩ := hcross
  exact of_append (hrest ▸ h) hkinds

theorem exists_first (h : Solitary tokens) : ∃ first others, tokens = first :: others := by
  obtain ⟨front, last, rfl, -, -⟩ := h.ends
  exact List.exists_cons_of_ne_nil (List.append_ne_nil_of_right_ne_nil _ (List.cons_ne_nil _ _))

theorem guarded (h : Solitary c.rest) : c.Guarded later := by
  obtain ⟨front, last, hrest, hlast, -⟩ := h.ends
  exact .inr ⟨last, by simp [hrest], hlast⟩

theorem startsStatement_eq_false {kind : TokenKind}
    (h : kind ∉ [TokenKind.kwLet, .kwConst, .kwIf, .kwWhile, .kwFun, .kwReturn]) :
    startsStatement kind = false := by
  unfold startsStatement
  split <;> simp_all

theorem seekStatement_eq (h : Solitary (token :: tokens)) (later : List Token) :
    ∃ last, seekStatement (some token) (tokens ++ later) = (some last, later) := by
  induction tokens generalizing token with
  | nil =>
      by_cases hkind : token.kind = .semicolon
      · refine ⟨token, ?_⟩
        cases later <;> simp [seekStatement, hkind]
      · obtain ⟨first, others, hnil⟩ := (h.tail hkind).exists_first
        cases hnil
  | cons next tokens ih =>
      have hkind : token.kind ≠ .semicolon := fun hkind ↦ List.cons_ne_nil _ _ (h.eq_nil hkind)
      have hnext := startsStatement_eq_false (h.starts next List.mem_cons_self)
      obtain ⟨last, hseek⟩ := ih (h.tail hkind)
      refine ⟨last, ?_⟩
      rw [List.cons_append, seekStatement, if_neg (by simp [hkind, hnext]), hseek]

/-- Wherever reading has stopped before the semicolon, skipping leads right behind it. -/
theorem synchronize_amid_eq (h : Solitary c.rest) (earlier : List SyntaxError)
    (later : List Token) :
    ∃ last, (c.amid earlier later).synchronize =
      ⟨some last, later, c.loopDepth, earlier ++ c.errors⟩ := by
  obtain ⟨first, others, hrest⟩ := h.exists_first
  obtain ⟨last, hseek⟩ := (hrest ▸ h).seekStatement_eq later
  refine ⟨last, ?_⟩
  simp [synchronize, advance, amid, hrest, hseek]

end Solitary

/-! ### Reading up to the semicolon -/

/-- Two readings from a cursor, the second one amid more tokens: the first has come to the end, or
both have failed alike before the semicolon. -/
inductive Settles (earlier : List SyntaxError) (later : List Token) (c : Cursor)
    (reading reading' : Reading α) : Prop
  | ended (a : α) (s : Cursor) (hread : reading = .read a s) (hrest : s.rest = [])
      (herrors : s.errors = c.errors)
  | stuck (error : SyntaxError) (s : Cursor) (hread : reading = .failed error s)
      (hread' : reading' = .failed error (s.amid earlier later)) (hcross : c.Crosses s)

namespace Settles

variable {reading reading' : Reading α}

theorem of_crosses (h : d.Settles earlier later reading reading') (hcross : c.Crosses d) :
    c.Settles earlier later reading reading' := by
  cases h with
  | ended a s hread hrest herrors =>
      obtain ⟨u, hpasses, -⟩ := hcross
      exact .ended a s hread hrest (herrors.trans hpasses.errors)
  | stuck error s hread hread' hcross' => exact .stuck error s hread hread' (hcross.trans hcross')

theorem map (h : c.Settles earlier later reading reading') (f : α → β) :
    c.Settles earlier later (reading.map f) (reading'.map f) := by
  cases h with
  | ended a s hread hrest herrors => exact .ended (f a) s (by rw [hread]; rfl) hrest herrors
  | stuck error s hread hread' hcross =>
      exact .stuck error s (by rw [hread]; rfl) (by rw [hread']; rfl) hcross

/-- A part that leaves the semicolon unread, and what is read after it. -/
theorem andThen {next next' : α → Cursor → Reading β} (hcross : c.Crosses reading.cursor)
    (h : reading' = reading.mapCursor (amid earlier later))
    (hnext : ∀ a r, reading = .read a r → c.Crosses r →
      r.Settles earlier later (next a r) (next' a (r.amid earlier later))) :
    c.Settles earlier later (reading.andThen next) (reading'.andThen next') := by
  subst h
  cases reading with
  | read a r => exact (hnext a r rfl hcross).of_crosses hcross
  | failed error r => exact .stuck error r rfl rfl hcross

/-- A part that comes to the end, where nothing more is read. -/
theorem andThen_ended (h : c.Settles earlier later reading reading')
    {next next' : α → Cursor → Reading β}
    (hnext : ∀ a r, r.rest = [] → ∃ b, next a r = .read b r) :
    c.Settles earlier later (reading.andThen next) (reading'.andThen next') := by
  cases h with
  | ended a s hread hrest herrors =>
      obtain ⟨b, hb⟩ := hnext a s hrest
      exact .ended b s (by rw [hread, Reading.andThen_read, hb]) hrest herrors
  | stuck error s hread hread' hcross =>
      exact .stuck error s (by rw [hread]; rfl) (by rw [hread']; rfl) hcross

theorem leaveLoop (h : c.enterLoop.Settles earlier later reading reading') :
    c.Settles earlier later (reading.mapCursor Cursor.leaveLoop)
      (reading'.mapCursor Cursor.leaveLoop) := by
  cases h with
  | ended a s hread hrest herrors =>
      exact .ended a s.leaveLoop (by rw [hread]; rfl) hrest herrors
  | stuck error s hread hread' hcross =>
      obtain ⟨u, hpasses, hkinds⟩ := hcross
      exact .stuck error s.leaveLoop (by rw [hread]; rfl) (by rw [hread']; rfl)
        ⟨u, hpasses.leaveLoop, hkinds⟩

end Settles

theorem settles_expect (h : Solitary c.rest) (message : String) :
    c.Settles earlier later (c.expect .semicolon message)
      ((c.amid earlier later).expect .semicolon message) := by
  rw [expect_amid h.guarded]
  cases hread : c.expect .semicolon message with
  | read token s =>
      obtain ⟨⟨tokens, hrest⟩, hkind, rfl⟩ := expect_eq_read_iff.mp hread
      refine .ended token c.advance rfl ?_ c.errors_advance
      rw [rest_advance_of_cons hrest]
      exact (hrest ▸ h).eq_nil hkind
  | failed error s =>
      refine .stuck error s rfl rfl ?_
      unfold expect at hread
      split at hread
      · cases hread
      · cases hread
        exact .refl c

theorem settles_readExpressionStatement (h : Solitary c.rest) :
    c.Settles earlier later c.readExpressionStatement
      (c.amid earlier later).readExpressionStatement := by
  rw [readExpressionStatement_eq, readExpressionStatement_eq]
  apply Settles.andThen (crosses_readExpression c) (readExpression_amid h.guarded)
  intro expr r _ hcross
  exact (settles_expect (h.crosses hcross) _).map _

theorem settles_readBindings (mutability : Mutability) (c : Cursor) (h : Solitary c.rest) :
    c.Settles earlier later (c.readBindings mutability)
      ((c.amid earlier later).readBindings mutability) := by
  rw [readBindings_eq, readBindings_eq]
  apply Settles.andThen (crosses_readBinding mutability c) (readBinding_amid h.guarded mutability)
  intro first r hr hcross
  have hsize := size_readBinding hr
  have hsolitary := h.crosses hcross
  rw [acceptOne?_amid hsolitary.guarded]
  cases hcomma : r.acceptOne? .comma with
  | none => exact (settles_expect hsolitary _).map _
  | some next =>
      obtain ⟨comma, s⟩ := next
      have hs := size_of_acceptOne? hcomma
      have hcross' := crosses_acceptOne? (by decide) hcomma
      have hothers := settles_readBindings mutability s (hsolitary.crosses hcross')
      exact (hothers.map _).of_crosses hcross'
termination_by c.size

theorem settles_readLoopControl (h : Solitary c.rest) (keyword : Token) (fault : SyntaxFault)
    (message : String) (statement : Stmt) :
    c.Settles earlier later (c.readLoopControl keyword fault message statement)
      ((c.amid earlier later).readLoopControl keyword fault message statement) := by
  rw [readLoopControl_eq, readLoopControl_eq,
    show (c.amid earlier later).loopDepth = c.loopDepth from rfl]
  split
  · exact .stuck _ c rfl rfl (.refl c)
  · exact (settles_expect h message).map _

mutual
theorem settles_readStatement (c : Cursor) (h : Solitary c.rest) :
    c.Settles earlier later c.readStatement (c.amid earlier later).readStatement := by
  obtain ⟨keyword, tokens, hc⟩ := h.exists_first
  have hsize := size_advance_of_rest hc
  have hrest : (c.amid earlier later).rest = keyword :: (tokens ++ later) := by simp [amid, hc]
  have hplain := h.plain keyword (by simp [hc])
  have hcross : keyword.kind ≠ .semicolon → c.Crosses c.advance := Crosses.advance hc
  rw [readStatement_eq, readStatement_eq, advance_amid h.guarded, hc, hrest]
  dsimp only
  -- The cases are `;`, `{`, `console`, `if`, `while`, `for`, `break`, `continue`, and others.
  split
  · rename_i hkind
    refine .ended none c.advance rfl ?_ c.errors_advance
    rw [rest_advance_of_cons hc]
    exact (hc ▸ h).eq_nil hkind
  · exact absurd ‹_› hplain.1
  · rename_i hkind
    have hcross := hcross (by simp [hkind])
    exact ((settles_readExpressionStatement (h.crosses hcross)).map _).of_crosses hcross
  · rename_i hkind
    have hcross := hcross (by simp [hkind])
    refine Settles.of_crosses ?_ hcross
    have hadvance := h.crosses hcross
    apply Settles.andThen (crosses_readCondition _ _ _) (readCondition_amid hadvance.guarded _ _)
    intro condition s hs hcross
    have hsizes := size_readCondition hs
    apply (settles_readStatement s (hadvance.crosses hcross)).andThen_ended
    intro thenBranch u hu
    have hnone : u.acceptOne? .kwElse = none := acceptOne?_eq_none_iff.mpr (by simp [hu])
    exact ⟨_, by rw [hnone]⟩
  · rename_i hkind
    have hcross := hcross (by simp [hkind])
    refine Settles.of_crosses ?_ hcross
    have hadvance := h.crosses hcross
    apply Settles.andThen (crosses_readCondition _ _ _) (readCondition_amid hadvance.guarded _ _)
    intro condition s hs hcross
    have hsizes := size_readCondition hs
    exact (settles_readLoopBody s (hadvance.crosses hcross)).map _
  · exact absurd ‹_› hplain.2
  · rename_i hkind
    have hcross := hcross (by simp [hkind])
    exact (settles_readLoopControl (h.crosses hcross) _ _ _ _).of_crosses hcross
  · rename_i hkind
    have hcross := hcross (by simp [hkind])
    exact (settles_readLoopControl (h.crosses hcross) _ _ _ _).of_crosses hcross
  · exact (settles_readExpressionStatement h).map _
termination_by (c.size, 0)
decreasing_by
  all_goals exact Prod.Lex.left _ _ (by omega)

theorem settles_readLoopBody (c : Cursor) (h : Solitary c.rest) :
    c.Settles earlier later c.readLoopBody (c.amid earlier later).readLoopBody := by
  have hbody := settles_readStatement c.enterLoop h
  rw [readLoopBody_eq, readLoopBody_eq]
  exact hbody.leaveLoop
termination_by (c.size, 1)
decreasing_by
  exact Prod.Lex.right _ (by decide)
end

theorem settles_readItem (h : Solitary c.rest) :
    c.Settles earlier later c.readItem (c.amid earlier later).readItem := by
  rw [readItem, readItem, acceptOne?_amid h.guarded, acceptOne?_amid h.guarded]
  cases hlet : c.acceptOne? .kwLet with
  | some next =>
      have hcross := crosses_acceptOne? (by decide) hlet
      exact (settles_readBindings .mutable _ (h.crosses hcross)).of_crosses hcross
  | none =>
      cases hconst : c.acceptOne? .kwConst with
      | some next =>
          have hcross := crosses_acceptOne? (by decide) hconst
          exact (settles_readBindings .constant _ (h.crosses hcross)).of_crosses hcross
      | none => exact (settles_readStatement c h).map _

/-- Before a single semicolon, either a statement is read to the end without an error, or there is
one error, and reading goes on behind the semicolon whatever stands there. -/
theorem readDeclaration_of_solitary (h : Solitary c.rest) :
    (∃ statements s, c.readDeclaration = (statements, s) ∧ s.rest = [] ∧ s.errors = c.errors) ∨
      ∃ error, ∀ earlier later, ∃ last, (c.amid earlier later).readDeclaration =
        ([], ⟨some last, later, c.loopDepth, earlier ++ (c.errors ++ [error])⟩) := by
  cases hread : c.readItem with
  | read statements r =>
      left
      have hsettles : c.Settles [] [] c.readItem (c.amid [] []).readItem := settles_readItem h
      cases hsettles with
      | ended a s hread' hrest herrors =>
          cases hread.symm.trans hread'
          exact ⟨statements, r, by rw [readDeclaration_eq, hread, recover], hrest, herrors⟩
      | stuck error s hread' => cases hread.symm.trans hread'
  | failed error r =>
      right
      refine ⟨error, fun earlier later ↦ ?_⟩
      have hsettles : c.Settles earlier later c.readItem (c.amid earlier later).readItem :=
        settles_readItem h
      cases hsettles with
      | ended a s hread' => cases hread.symm.trans hread'
      | stuck error' s hread' hread'' hcross =>
          cases hread.symm.trans hread'
          have hsolitary : Solitary r.rest := h.crosses hcross
          have hrecord : Solitary (r.record error).rest := hsolitary
          obtain ⟨last, hlast⟩ := hrecord.synchronize_amid_eq earlier later
          obtain ⟨u, hpasses, -⟩ := hcross
          refine ⟨last, ?_⟩
          rw [readDeclaration_eq, hread'', recover, record_amid, hlast]
          simp [record, hpasses.loopDepth, hpasses.errors]

theorem readProgram_of_not_atEnd (h : c.rest ≠ []) {statements : List Stmt} {s : Cursor}
    (hread : c.readDeclaration = (statements, s)) :
    c.readProgram = (statements ++ s.readProgram.1, s.readProgram.2) := by
  rw [readProgram, if_neg (by simpa [atEnd] using h), hread]

end Cursor

namespace Grammar

open Cursor

variable {tokens faulty : List Token}

/-- An error before a single semicolon is the only one there, and what follows is read as if it
stood alone. -/
theorem exists_error_of_solitary (hsolitary : Solitary faulty)
    (herrors : (parse faulty).errors ≠ []) :
    ∃ error, ∀ r, parse (faulty ++ r) =
      ⟨(parse r).statements, error :: (parse r).errors⟩ := by
  obtain ⟨first, others, hfirst⟩ := hsolitary.exists_first
  have hdeclaration := readDeclaration_of_solitary (c := ofTokens faulty) hsolitary
  rcases hdeclaration with ⟨statements, s, hread, hrest, hnone⟩ | ⟨error, hstuck⟩
  · have hend : s.readProgram = ([], s) := by
      rw [readProgram, if_pos (by rw [atEnd, hrest]; rfl)]
    have hprogram := readProgram_of_not_atEnd (by simp [ofTokens, hfirst]) hread
    rw [parse, hprogram, hend] at herrors
    exact absurd hnone herrors
  · refine ⟨error, fun r ↦ ?_⟩
    obtain ⟨last, hlast⟩ := hstuck [] r
    have hread : (ofTokens (faulty ++ r)).readDeclaration =
        ([], ((ofTokens r).amid [error] []).behind (some last)) := by
      simpa [behind, amid, ofTokens] using hlast
    obtain ⟨hstatements, hlater⟩ := readProgram_behind (some last) ((ofTokens r).amid [error] [])
    rw [readProgram_amid] at hstatements hlater
    rw [parse, readProgram_of_not_atEnd (by simp [ofTokens, hfirst]) hread, hstatements, hlater]
    rfl

/-- Where the tokens before a single semicolon have an error, they have one error and no statement,
and they change nothing about how the tokens before and after them are read. -/
theorem parse_append_solitary (h : (parse tokens).errors = []) (hsolitary : Solitary faulty)
    (helse : tokens ≠ [] → NoElse faulty) (herrors : (parse faulty).errors ≠ [])
    (r : List Token) :
    ∃ error, parse faulty = ⟨[], [error]⟩ ∧
      parse (tokens ++ (faulty ++ r)) =
        ⟨(parse tokens).statements ++ (parse r).statements, error :: (parse r).errors⟩ := by
  obtain ⟨error, hparse⟩ := exists_error_of_solitary hsolitary herrors
  have hnil : parse [] = ⟨[], []⟩ := by simp [parse, readProgram, atEnd, ofTokens]
  refine ⟨error, by simpa [hnil] using hparse [], ?_⟩
  by_cases htokens : tokens = []
  · simp [htokens, hnil, hparse r]
  · obtain ⟨first, others, rfl⟩ := hsolitary.exists_first
    have hrest := hparse r
    rw [parse, Parsed.mk.injEq] at hrest
    obtain ⟨hstatements, hlater⟩ :=
      readProgram_append_of_parse (r := first :: others ++ r) h (helse htokens)
    rw [parse, hstatements, hlater, hrest.1, hrest.2]

/-- Reading leaves the loop whose body it could not read: a `break` after it is illegal. -/
theorem parse_around_stray_parenthesis :
    parse ([⟨.identifier, .text "x", ⟨0, 2⟩⟩, ⟨.semicolon, .null, ⟨2, 3⟩⟩] ++
      ([⟨.kwWhile, .null, ⟨4, 9⟩⟩, ⟨.leftParen, .null, ⟨10, 11⟩⟩,
        ⟨.identifier, .text "y", ⟨11, 13⟩⟩, ⟨.rightParen, .null, ⟨13, 14⟩⟩,
        ⟨.rightParen, .null, ⟨14, 15⟩⟩, ⟨.semicolon, .null, ⟨15, 16⟩⟩] ++
      [⟨.kwBreak, .null, ⟨17, 22⟩⟩, ⟨.semicolon, .null, ⟨22, 23⟩⟩])) =
      ⟨[.expression (.reference "x" ⟨0, 2⟩)],
        [⟨.expectExpression, 14⟩, ⟨.illegalBreak, 17⟩]⟩ := by
  have hfaulty : parse [⟨.kwWhile, .null, ⟨4, 9⟩⟩, ⟨.leftParen, .null, ⟨10, 11⟩⟩,
      ⟨.identifier, .text "y", ⟨11, 13⟩⟩, ⟨.rightParen, .null, ⟨13, 14⟩⟩,
      ⟨.rightParen, .null, ⟨14, 15⟩⟩, ⟨.semicolon, .null, ⟨15, 16⟩⟩] =
      ⟨[], [⟨.expectExpression, 14⟩]⟩ := by cbv
  have hsolitary : Solitary [⟨.kwWhile, .null, ⟨4, 9⟩⟩, ⟨.leftParen, .null, ⟨10, 11⟩⟩,
      ⟨.identifier, .text "y", ⟨11, 13⟩⟩, ⟨.rightParen, .null, ⟨13, 14⟩⟩,
      ⟨.rightParen, .null, ⟨14, 15⟩⟩, ⟨.semicolon, .null, ⟨15, 16⟩⟩] :=
    ⟨⟨_, _, (List.dropLast_concat_getLast (List.cons_ne_nil _ _)).symm, rfl, by simp⟩, by simp,
      by simp⟩
  have hclean : (parse [⟨.identifier, .text "x", ⟨0, 2⟩⟩, ⟨.semicolon, .null, ⟨2, 3⟩⟩]).errors =
      [] := by cbv
  obtain ⟨error, herror, hparse⟩ := parse_append_solitary hclean hsolitary
    (fun _ ↦ by simp [NoElse]) (by simp [hfaulty])
    [⟨.kwBreak, .null, ⟨17, 22⟩⟩, ⟨.semicolon, .null, ⟨22, 23⟩⟩]
  obtain rfl : ⟨.expectExpression, 14⟩ = error := by simpa using hfaulty.symm.trans herror
  rw [hparse]
  cbv

end Grammar

end Sigil
