import Sigil.Syntax.Statement

/-!
# How reading moves a cursor

A reading of an expression only moves the cursor forwards, whether it succeeds or
fails, and never over a semicolon.  The lemmas on the steps of a reading say exactly
when each succeeds and where the cursor is then, so that later proofs need not open
them.
-/

namespace Sigil

namespace Cursor

variable {α : Type} {c d s : Cursor} {token : Token} {tokens u r : List Token} {kind : TokenKind}

/-- Reads the next `n` tokens, or all if there are fewer. -/
def skip (c : Cursor) : Nat → Cursor
  | 0 => c
  | n + 1 => c.advance.skip n

@[simp] theorem rest_advance (c : Cursor) : c.advance.rest = c.rest.tail := by
  unfold advance
  split <;> simp_all

@[simp] theorem loopDepth_advance (c : Cursor) : c.advance.loopDepth = c.loopDepth := by
  unfold advance
  split <;> rfl

@[simp] theorem errors_advance (c : Cursor) : c.advance.errors = c.errors := by
  unfold advance
  split <;> rfl

@[simp] theorem skip_zero (c : Cursor) : c.skip 0 = c := rfl

theorem skip_succ (c : Cursor) (n : Nat) : c.skip (n + 1) = c.advance.skip n := rfl

@[simp] theorem skip_skip (c : Cursor) (m n : Nat) : (c.skip m).skip n = c.skip (m + n) := by
  induction m generalizing c with
  | zero => rw [skip_zero, Nat.zero_add]
  | succ m ih => rw [skip_succ, ih, Nat.add_right_comm, skip_succ]

theorem advance_skip (c : Cursor) (n : Nat) : (c.skip n).advance = c.skip (n + 1) :=
  skip_skip c n 1

@[simp] theorem rest_skip (c : Cursor) (n : Nat) : (c.skip n).rest = c.rest.drop n := by
  induction n generalizing c with
  | zero => rfl
  | succ n ih => rw [skip_succ, ih, rest_advance, List.drop_tail]

@[simp] theorem loopDepth_skip (c : Cursor) (n : Nat) : (c.skip n).loopDepth = c.loopDepth := by
  induction n generalizing c with
  | zero => rfl
  | succ n ih => rw [skip_succ, ih, loopDepth_advance]

@[simp] theorem errors_skip (c : Cursor) (n : Nat) : (c.skip n).errors = c.errors := by
  induction n generalizing c with
  | zero => rfl
  | succ n ih => rw [skip_succ, ih, errors_advance]

theorem advance_enterLoop (c : Cursor) : c.enterLoop.advance = c.advance.enterLoop := by
  cases h : c.rest <;> simp [advance, enterLoop, h]

theorem skip_enterLoop (c : Cursor) (n : Nat) : c.enterLoop.skip n = (c.skip n).enterLoop := by
  induction n generalizing c with
  | zero => rfl
  | succ n ih => rw [skip_succ, advance_enterLoop, ih, skip_succ]

@[simp] theorem leaveLoop_enterLoop (c : Cursor) : c.enterLoop.leaveLoop = c := rfl

theorem rest_skip_of_append (h : c.rest = u ++ r) : (c.skip u.length).rest = r := by
  rw [rest_skip, h, List.drop_left]

theorem rest_advance_of_cons (h : c.rest = token :: tokens) : c.advance.rest = tokens := by
  rw [rest_advance, h, List.tail_cons]

/-- From the first cursor to the second, exactly the given tokens have been read. -/
def Passes (c : Cursor) (u : List Token) (d : Cursor) : Prop :=
  c.rest = u ++ d.rest ∧ d = c.skip u.length

theorem Passes.refl (c : Cursor) : c.Passes [] c := ⟨rfl, rfl⟩

theorem Passes.trans (h : c.Passes u d) (h' : d.Passes r s) : c.Passes (u ++ r) s := by
  obtain ⟨hrest, rfl⟩ := h
  obtain ⟨hrest', rfl⟩ := h'
  refine ⟨?_, ?_⟩
  · rw [hrest, hrest', List.append_assoc]
  · rw [skip_skip, List.length_append]

theorem Passes.advance (h : ∃ tokens, c.rest = token :: tokens) : c.Passes [token] c.advance := by
  obtain ⟨tokens, hrest⟩ := h
  exact ⟨by rw [rest_advance_of_cons hrest, hrest, List.singleton_append], rfl⟩

theorem Passes.cons (h : ∃ tokens, c.rest = token :: tokens) (h' : c.advance.Passes u d) :
    c.Passes (token :: u) d :=
  (Passes.advance h).trans h'

theorem Passes.loopDepth (h : c.Passes u d) : d.loopDepth = c.loopDepth := by
  rw [h.2, loopDepth_skip]

theorem Passes.errors (h : c.Passes u d) : d.errors = c.errors := by
  rw [h.2, errors_skip]

/-- Tokens passed inside one more loop are passed outside it. -/
theorem Passes.leaveLoop (h : c.enterLoop.Passes u d) : c.Passes u d.leaveLoop := by
  obtain ⟨hrest, rfl⟩ := h
  refine ⟨hrest, ?_⟩
  rw [skip_enterLoop, leaveLoop_enterLoop]

/-! ### Single tokens -/

theorem accept?_of_rest (select : TokenKind → Option α) (h : c.rest = token :: tokens) :
    c.accept? select = (select token.kind).map fun a ↦ (a, token, c.advance) := by
  simp only [accept?, h]

theorem accept?_eq_some_iff {select : TokenKind → Option α} {a : α} :
    c.accept? select = some (a, token, s) ↔
      (∃ tokens, c.rest = token :: tokens) ∧ select token.kind = some a ∧ s = c.advance := by
  cases h : c.rest with
  | nil => simp [accept?, h]
  | cons first others =>
      rw [accept?_of_rest select h, Option.map_eq_some_iff]
      constructor
      · rintro ⟨b, hb, heq⟩
        cases heq
        exact ⟨⟨others, rfl⟩, hb, rfl⟩
      · rintro ⟨⟨tokens, heq⟩, ha, rfl⟩
        cases heq
        exact ⟨a, ha, rfl⟩

theorem accept?_eq_none_iff {select : TokenKind → Option α} :
    c.accept? select = none ↔ ∀ token ∈ c.rest.head?, select token.kind = none := by
  cases h : c.rest with
  | nil => simp [accept?, h]
  | cons first others => simp [accept?_of_rest select h]

theorem acceptOne?_eq_some_iff :
    c.acceptOne? kind = some (token, s) ↔
      (∃ tokens, c.rest = token :: tokens) ∧ token.kind = kind ∧ s = c.advance := by
  rw [acceptOne?, acceptAny?, Option.map_eq_some_iff]
  constructor
  · rintro ⟨⟨a, first, rest⟩, h, heq⟩
    cases heq
    obtain ⟨hrest, hkind, hs⟩ := accept?_eq_some_iff.mp h
    exact ⟨hrest, by simpa using hkind, hs⟩
  · rintro ⟨hrest, hkind, hs⟩
    refine ⟨((), token, s), accept?_eq_some_iff.mpr ⟨hrest, ?_, hs⟩, rfl⟩
    simp [hkind]

theorem acceptOne?_eq_none_iff :
    c.acceptOne? kind = none ↔ ∀ token ∈ c.rest.head?, token.kind ≠ kind := by
  rw [acceptOne?, acceptAny?, Option.map_eq_none_iff, accept?_eq_none_iff]
  simp

theorem acceptOne?_of_kind (h : c.rest = token :: tokens) (hkind : token.kind = kind) :
    c.acceptOne? kind = some (token, c.advance) :=
  acceptOne?_eq_some_iff.mpr ⟨⟨tokens, h⟩, hkind, rfl⟩

theorem expect_eq_read_iff {message : String} :
    c.expect kind message = .read token s ↔
      (∃ tokens, c.rest = token :: tokens) ∧ token.kind = kind ∧ s = c.advance := by
  rw [← acceptOne?_eq_some_iff, expect]
  cases c.acceptOne? kind <;> simp [Prod.ext_iff]

theorem expect_of_kind {message : String} (h : c.rest = token :: tokens)
    (hkind : token.kind = kind) : c.expect kind message = .read token c.advance :=
  expect_eq_read_iff.mpr ⟨⟨tokens, h⟩, hkind, rfl⟩

theorem check_eq_true_iff :
    c.check kind = true ↔ ∃ token tokens, c.rest = token :: tokens ∧ token.kind = kind := by
  cases h : c.rest <;> simp [check, peek?, h]

end Cursor

namespace Reading

variable {α β : Type} {reading : Reading α} {f : α → β} {b : β} {s : Cursor}

/-- The cursor after a reading. -/
def cursor : Reading α → Cursor
  | .read _ rest => rest
  | .failed _ rest => rest

@[simp] theorem andThen_read (a : α) (r : Cursor) (next : α → Cursor → Reading β) :
    (Reading.read a r).andThen next = next a r := rfl

@[simp] theorem map_read (a : α) (r : Cursor) (f : α → β) :
    (Reading.read a r).map f = .read (f a) r := rfl

theorem andThen_eq_read_iff {next : α → Cursor → Reading β} :
    reading.andThen next = .read b s ↔ ∃ a r, reading = .read a r ∧ next a r = .read b s := by
  cases reading with
  | read a r => exact ⟨fun h ↦ ⟨a, r, rfl, h⟩, by rintro ⟨_, _, ⟨⟩, h⟩; exact h⟩
  | failed error r => simp [andThen]

theorem map_eq_read_iff : reading.map f = .read b s ↔ ∃ a, reading = .read a s ∧ f a = b := by
  cases reading <;> simp [map, and_comm, and_left_comm]

@[simp] theorem cursor_map (reading : Reading α) (f : α → β) :
    (reading.map f).cursor = reading.cursor := by
  cases reading <;> rfl

@[simp] theorem cursor_mapCursor (reading : Reading α) (f : Cursor → Cursor) :
    (reading.mapCursor f).cursor = f reading.cursor := by
  cases reading <;> rfl

end Reading

namespace Cursor

variable {α β : Type} {c d e s : Cursor}

/-- Reading is a function, so tokens that are all read at one place are the same. -/
theorem tokens_eq_of_read {reading : Reading α} {a a' : α} {u u' r r' : List Token}
    (hc : c.rest = u ++ r) (hc' : c.rest = u' ++ r')
    (h : reading = .read a (c.skip u.length)) (h' : reading = .read a' (c.skip u'.length)) :
    u = u' ∧ r = r' := by
  obtain ⟨-, hcursor⟩ := Reading.read.inj (h.symm.trans h')
  have hrest : r = r' := by
    have heq := congrArg Cursor.rest hcursor
    rwa [rest_skip_of_append hc, rest_skip_of_append hc'] at heq
  subst hrest
  exact ⟨List.append_cancel_right (hc.symm.trans hc'), rfl⟩

/-- From the first cursor to the second, tokens have been read and nothing else has changed. -/
def Moves (c d : Cursor) : Prop := ∃ n, d = c.skip n

theorem Moves.refl (c : Cursor) : c.Moves c := ⟨0, rfl⟩

theorem Moves.trans (h : c.Moves d) (h' : d.Moves e) : c.Moves e := by
  obtain ⟨m, rfl⟩ := h
  obtain ⟨n, rfl⟩ := h'
  exact ⟨m + n, skip_skip c m n⟩

theorem Moves.advance (c : Cursor) : c.Moves c.advance := ⟨1, rfl⟩

theorem moves_expect (kind : TokenKind) (message : String) (c : Cursor) :
    c.Moves (c.expect kind message).cursor := by
  unfold expect
  split
  · rename_i token s h
    obtain ⟨-, -, rfl⟩ := acceptOne?_eq_some_iff.mp h
    exact .advance c
  · exact .refl c

/-- From the first cursor to the second, tokens other than semicolons have been read. -/
def Crosses (c d : Cursor) : Prop :=
  ∃ u, c.Passes u d ∧ ∀ token ∈ u, token.kind ≠ .semicolon

theorem Crosses.refl (c : Cursor) : c.Crosses c := ⟨[], .refl c, nofun⟩

theorem Crosses.trans (h : c.Crosses d) (h' : d.Crosses e) : c.Crosses e := by
  obtain ⟨u, hu, hkinds⟩ := h
  obtain ⟨v, hv, hkinds'⟩ := h'
  refine ⟨u ++ v, hu.trans hv, fun token htoken ↦ ?_⟩
  rcases List.mem_append.mp htoken with htoken | htoken
  · exact hkinds token htoken
  · exact hkinds' token htoken

theorem Crosses.moves (h : c.Crosses d) : c.Moves d := by
  obtain ⟨u, hu, -⟩ := h
  exact ⟨u.length, hu.2⟩

theorem Crosses.advance {token : Token} {tokens : List Token} (h : c.rest = token :: tokens)
    (hkind : token.kind ≠ .semicolon) : c.Crosses c.advance :=
  ⟨[token], .advance ⟨tokens, h⟩, by simpa using hkind⟩

theorem Crosses.of_read {reading : Reading α} {a : α} (h : c.Crosses reading.cursor)
    (hread : reading = .read a d) : c.Crosses d := by
  rwa [hread] at h

theorem Crosses.andThen {reading : Reading α} {next : α → Cursor → Reading β}
    (h : c.Crosses reading.cursor)
    (hnext : ∀ a r, reading = .read a r → r.Crosses (next a r).cursor) :
    c.Crosses (reading.andThen next).cursor := by
  cases reading with
  | read a r => exact h.trans (hnext a r rfl)
  | failed error r => exact h

theorem crosses_accept? {select : TokenKind → Option α} (hselect : select .semicolon = none)
    {a : α} {token : Token} (h : c.accept? select = some (a, token, s)) : c.Crosses s := by
  obtain ⟨⟨tokens, hrest⟩, ha, rfl⟩ := accept?_eq_some_iff.mp h
  refine .advance hrest fun hkind ↦ ?_
  rw [hkind, hselect] at ha
  cases ha

theorem crosses_acceptOne? {kind : TokenKind} (hkind : kind ≠ .semicolon) {token : Token}
    (h : c.acceptOne? kind = some (token, s)) : c.Crosses s := by
  obtain ⟨⟨tokens, hrest⟩, rfl, rfl⟩ := acceptOne?_eq_some_iff.mp h
  exact .advance hrest hkind

theorem crosses_expect {kind : TokenKind} (hkind : kind ≠ .semicolon) (message : String)
    (c : Cursor) : c.Crosses (c.expect kind message).cursor := by
  unfold expect
  split
  · exact crosses_acceptOne? hkind ‹_›
  · exact .refl c

theorem connective?_semicolon (level : ChainLevel) : level.connective? .semicolon = none := by
  cases level <;> rfl

theorem size_expect {kind : TokenKind} {message : String} {token : Token}
    (h : c.expect kind message = .read token s) : s.size < c.size := by
  obtain ⟨⟨tokens, hrest⟩, -, rfl⟩ := expect_eq_read_iff.mp h
  exact size_advance_of_rest hrest

theorem size_of_val {n : Nat} {parse : Parse α n} {a : α} (h : parse.val = .read a s) :
    s.size < n := by
  have hwithin := parse.property
  rw [h] at hwithin
  exact hwithin

theorem size_readLevel {level : Level} {expr : Expr} (h : c.readLevel level = .read expr s) :
    s.size < c.size :=
  size_of_val h

mutual
/-- Reading an expression only reads tokens, also if it fails, and never a semicolon. -/
theorem crosses_readLevel (level : Level) (c : Cursor) :
    c.Crosses (c.readLevel level).cursor := by
  match level with
  | .assignment =>
      rw [readLevel_assignment]
      apply (crosses_readLevel (.chain .disjunction) c).andThen
      intro target r hr
      have hsize := size_readLevel hr
      split
      · exact .refl r
      · rename_i form operator s ha
        have hs := size_of_accept? ha
        refine (crosses_accept? rfl ha).trans ?_
        apply (crosses_readLevel .assignment s).andThen
        intro value u hu
        split <;> exact .refl u
  | .chain chainLevel =>
      rw [readLevel_chain]
      apply (crosses_readLevel chainLevel.operand c).andThen
      intro left r hr
      have hsize := size_readLevel hr
      exact crosses_readChain chainLevel left r
  | .conditional =>
      rw [readLevel_conditional]
      apply (crosses_readLevel (.chain .equality) c).andThen
      intro condition r hr
      have hsize := size_readLevel hr
      split
      · exact .refl r
      · rename_i mark s ha
        have hs := size_of_acceptOne? ha
        refine (crosses_acceptOne? (by decide) ha).trans ?_
        apply (crosses_readLevel .conditional s).andThen
        intro left u hu
        have hu := size_readLevel hu
        apply (crosses_expect (by decide) _ u).andThen
        intro colon v hv
        have hv := size_expect hv
        simpa using crosses_readLevel .conditional v
  | .unary =>
      rw [readLevel_unary]
      split
      · exact crosses_readLevel .suffixed c
      · rename_i op operator r ha
        have hr := size_of_accept? ha
        refine (crosses_accept? rfl ha).trans ?_
        apply (crosses_readLevel .unary r).andThen
        intro operand s hs
        split <;> exact .refl s
  | .suffixed =>
      rw [readLevel_suffixed]
      apply (crosses_readLevel .primary c).andThen
      intro operand r hr
      split
      · exact .refl r
      · rename_i op operator s ha
        have hcross := crosses_accept? rfl ha
        split <;> exact hcross
  | .primary =>
      rw [readLevel_primary]
      split
      · exact .refl c
      · rename_i token tokens hc
        have hadvance := size_advance_of_rest hc
        split
        · rename_i hopening
          refine (Crosses.advance hc (by simp [hopening])).trans ?_
          apply (crosses_readLevel .assignment c.advance).andThen
          intro inner r hr
          simpa using crosses_expect (by decide) _ r
        · split
          · rename_i expr hprimary
            refine .advance hc fun hkind ↦ ?_
            simp [Token.primary?, hkind] at hprimary
          · exact .refl c
termination_by (c.size, level.rank)
decreasing_by
  all_goals first
    | exact Prod.Lex.left _ _ (by omega)
    | exact Prod.Lex.right _ (ChainLevel.rank_operand _)
    | exact Prod.Lex.right _ (by decide)

theorem crosses_readChain (level : ChainLevel) (left : Expr) (c : Cursor) :
    c.Crosses (c.readChain level left).cursor := by
  rw [readChain_eq]
  split
  · exact .refl c
  · rename_i connective operator r ha
    have hr := size_of_accept? ha
    refine (crosses_accept? (connective?_semicolon level) ha).trans ?_
    apply (crosses_readLevel level.operand r).andThen
    intro right s hs
    have hs := size_readLevel hs
    exact crosses_readChain level _ s
termination_by (c.size, 0)
decreasing_by
  all_goals exact Prod.Lex.left _ _ (by omega)
end

theorem moves_readLevel (level : Level) (c : Cursor) : c.Moves (c.readLevel level).cursor :=
  (crosses_readLevel level c).moves

theorem moves_readChain (level : ChainLevel) (left : Expr) (c : Cursor) :
    c.Moves (c.readChain level left).cursor :=
  (crosses_readChain level left c).moves

end Cursor

end Sigil
