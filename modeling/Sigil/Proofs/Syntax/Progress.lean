import Sigil.Proofs.Syntax.Course

/-!
# Reading gets on

Reading never goes back and never past the end, what is read is at least one token, and a
declaration gets past its first token also where it fails.  So each loop over tokens
ends, a program is read to its end, and it has no more errors than tokens: each error
has a token of its own, the first one of the declaration that failed.
-/

namespace Sigil

namespace Cursor

variable {c d e r s : Cursor} {error : SyntaxError} {token : Token} {tokens u v : List Token}

/-- The tokens lie between the first cursor and the second one. -/
structure Reaches (c : Cursor) (u : List Token) (d : Cursor) : Prop where
  rest : c.rest = u ++ d.rest
  previous : d.previous = u.getLast?.or c.previous

theorem Reaches.trans (h : c.Reaches u d) (h' : d.Reaches v e) : c.Reaches (u ++ v) e where
  rest := by rw [h.rest, h'.rest, List.append_assoc]
  previous := by rw [h'.previous, h.previous, List.getLast?_append, Option.or_assoc]

theorem reaches_skip (c : Cursor) (n : Nat) : c.Reaches (c.rest.take n) (c.skip n) where
  rest := by rw [rest_skip, List.take_append_drop]
  previous := by
    rw [previous_skip, List.getLast?_append]
    cases c.previous <;> rfl

theorem Reaches.record (h : c.Reaches u d) (error : SyntaxError) : c.Reaches u (d.record error) :=
  ⟨h.rest, h.previous⟩

theorem Reaches.size (h : c.Reaches u d) : u.length + d.size = c.size := by
  rw [Cursor.size, Cursor.size, h.rest, List.length_append]

theorem Reaches.ne_nil (h : c.Reaches u d) (hsize : d.size < c.size) : u ≠ [] := by
  rintro rfl
  have heq := h.size
  rw [List.length_nil, Nat.zero_add] at heq
  exact Nat.ne_of_lt hsize heq

/-- Past the next token, the tokens after it are left. -/
theorem Reaches.of_cons (h : c.Reaches (token :: u) d) : c.advance.Reaches u d where
  rest := rest_advance_of_cons h.rest
  previous := by
    rw [h.previous, previous_advance_of_rest h.rest, List.getLast?_cons]
    cases u.getLast? <;> rfl

theorem Marks.exists_reaches (h : c.Marks error d) : ∃ u, c.Reaches u d := by
  obtain ⟨n, rfl, -⟩ := h
  exact ⟨_, reaches_skip c n⟩

theorem Marks.exists_reaches_recovered (h : c.Marks error d) :
    ∃ u, c.Reaches u (d.record error).synchronize := by
  obtain ⟨m, n, -, heq⟩ := h.exists_recovered
  rw [heq]
  exact ⟨_, ((reaches_skip c (m + 1)).trans (reaches_skip _ n)).record error⟩

theorem Course.exists_reaches (h : Course c d) : ∃ u, c.Reaches u d := by
  induction h with
  | refl c => exact ⟨_, reaches_skip c 0⟩
  | advance _ ih =>
      obtain ⟨u, hu⟩ := ih
      exact ⟨_, (reaches_skip _ 1).trans hu⟩
  | skip _ hmarks _ ih =>
      obtain ⟨u, hu⟩ := hmarks.exists_reaches_recovered
      obtain ⟨v, hv⟩ := ih
      exact ⟨u ++ v, hu.trans hv⟩
  | recover _ _ hmarks _ ih ih' =>
      obtain ⟨t, ht⟩ := ih
      obtain ⟨u, hu⟩ := hmarks.exists_reaches_recovered
      obtain ⟨v, hv⟩ := ih'
      exact ⟨_, (reaches_skip _ 1).trans (ht.trans (hu.trans hv))⟩

/-! ### Errors and tokens -/

theorem Marks.length_errors_recovered (h : c.Marks error d) :
    (d.record error).synchronize.errors.length = c.errors.length + 1 := by
  obtain ⟨m, n, -, heq⟩ := h.exists_recovered
  rw [heq, record, List.length_append, errors_skip, errors_skip, List.length_singleton]

theorem Marks.size_recovered (h : c.Marks error d) :
    (d.record error).synchronize.size ≤ c.size - 1 := by
  obtain ⟨m, n, -, heq⟩ := h.exists_recovered
  rw [heq, size_record, Cursor.size, rest_skip, rest_skip, List.drop_drop, List.length_drop]
  exact Nat.sub_le_sub_left (Nat.le_add_right_of_le (Nat.le_add_left 1 m)) _

/-- The errors and the tokens that are left are never more than they were: each error recorded has
taken a token. -/
theorem Course.length_errors_add_size (h : Course c d) :
    d.errors.length + d.size ≤ c.errors.length + c.size := by
  induction h with
  | refl c => exact Nat.le_refl _
  | @advance c d _ ih =>
      rw [errors_advance, size_advance] at ih
      omega
  | @skip c d r error hstart hmarks _ ih =>
      have hpos : 0 < c.size := List.length_pos_iff.mpr hstart
      have herrors := hmarks.length_errors_recovered
      have hsize := hmarks.size_recovered
      omega
  | @recover c d r s error hstart _ hmarks _ ih ih' =>
      -- The errors inside have tokens after the first one, which is left for the error of the
      -- whole.
      have hpos : 0 < c.size := List.length_pos_iff.mpr hstart
      have herrors := hmarks.length_errors_recovered
      have hsize := hmarks.size_recovered
      rw [errors_advance, size_advance] at ih
      omega

end Cursor

/-! ### The readings -/

namespace Reading

open Cursor

variable {α β : Type} {c : Cursor} {n : Nat} {reading : Reading α}

/-- The cursor afterwards is not before the first one and not past the end, and if a value was read
it is further on. -/
def Advances (c : Cursor) : Reading α → Prop
  | .read _ d => ∃ u, u ≠ [] ∧ c.Reaches u d
  | .failed _ d => ∃ u, c.Reaches u d

theorem Follows.exists_reaches (h : reading.Follows c) : ∃ u, c.Reaches u reading.cursor := by
  cases reading with
  | read a d => exact Course.exists_reaches h
  | failed error d =>
      obtain ⟨s, hs, hmarks⟩ := h
      obtain ⟨u, hu⟩ := hs.exists_reaches
      obtain ⟨v, hv⟩ := hmarks.exists_reaches
      exact ⟨u ++ v, hu.trans hv⟩

theorem Follows.advances (h : reading.Follows c) (hwithin : reading.Within c.size) :
    reading.Advances c := by
  obtain ⟨u, hu⟩ := h.exists_reaches
  cases reading with
  | read a d => exact ⟨u, hu.ne_nil hwithin, hu⟩
  | failed error d => exact ⟨u, hu⟩

/-- What has been read after the next token. -/
theorem Follows.advances_advance {token : Token} {tokens : List Token} (h : reading.Follows c)
    (hrest : c.rest = token :: tokens) (hwithin : reading.Within c.advance.size) :
    reading.Advances c.advance := by
  have hadvance := size_advance_of_rest hrest
  obtain ⟨u, hu⟩ := h.exists_reaches
  have hsize : reading.cursor.size ≤ c.advance.size := by
    cases reading with
    | read a d => exact Nat.le_of_lt hwithin
    | failed error d => exact hwithin
  obtain ⟨first, v, rfl⟩ := List.exists_cons_of_ne_nil
    (hu.ne_nil (Nat.lt_of_le_of_lt hsize hadvance))
  have hv := hu.of_cons
  cases reading with
  | read a d => exact ⟨v, hv.ne_nil hwithin, hv⟩
  | failed error d => exact ⟨v, hv⟩

theorem Within.andThen {next : α → Cursor → Reading β} (h : reading.Within n)
    (hnext : ∀ a r, reading = .read a r → (next a r).Within (r.size + 1)) :
    (reading.andThen next).Within n := by
  cases reading with
  | read a r => exact (hnext a r rfl).mono h
  | failed error r => exact h

end Reading

namespace Cursor

open Reading

/-- Kinds of tokens that other parts of a statement follow. -/
def leadingKinds : List TokenKind := [.leftBrace, .kwConsole, .kwIf, .kwWhile, .kwFor]

/-- Reading what follows the first token of a statement has the bound of a reading of its own. -/
theorem within_readStatement {c : Cursor} {token : Token} {tokens : List Token}
    (hrest : c.rest = token :: tokens) (hkind : token.kind ∈ leadingKinds) :
    c.readStatement.Within c.advance.size := by
  simp only [leadingKinds, List.mem_cons, List.not_mem_nil, or_false] at hkind
  rw [readStatement_eq]
  rcases hkind with h | h | h | h | h <;> simp only [hrest, h]
  · have hitems : c.advance.readItems.2.size ≤ c.advance.size := (Parse.items c.advance).property
    exact ((expect_within _ _ _).mono hitems).map _
  · exact (Parse.expressionStatement c.advance).property.map _
  · apply (Parse.condition _ _ c.advance).property.andThen
    intro condition s _
    refine Within.mono ?_ (Nat.le_succ s.size)
    apply (Parse.statement s).property.andThen
    intro thenBranch r _
    split
    · exact Nat.lt_succ_self r.size
    · rename_i otherwise u hu
      have hsize := size_of_acceptOne? hu
      exact ((Parse.statement u).property.map _).mono (Nat.le_succ_of_le (Nat.le_of_lt hsize))
  · apply (Parse.condition _ _ c.advance).property.andThen
    intro condition s _
    exact ((Parse.loopBody s).property.map _).mono (Nat.le_succ _)
  · apply (Parse.forClauses c.advance).property.andThen
    intro clauses s _
    exact ((Parse.loopBody s).property.map _).mono (Nat.le_succ _)

/-- However each of the readings that start at a cursor ends, it has not gone back, and it has got
on if it has read something.  A declaration has got on in any case. -/
structure Progresses (c : Cursor) : Prop where
  expect : ∀ kind message, (c.expect kind message).Advances c
  level : ∀ level, (c.readLevel level).Advances c
  chain : ∀ level left, ∃ u, c.Reaches u (c.readChain level left).cursor
  expressionStatement : c.readExpressionStatement.Advances c
  binding : ∀ mutability, (c.readBinding mutability).Advances c
  bindings : ∀ mutability, (c.readBindings mutability).Advances c
  forInitializer : c.readForInitializer.Advances c
  forCondition : c.readForCondition.Advances c
  forIncrement : c.readForIncrement.Advances c
  forClauses : c.readForClauses.Advances c
  condition : ∀ opening closing, (c.readCondition opening closing).Advances c
  loopControl : ∀ keyword fault message statement,
    (c.readLoopControl keyword fault message statement).Advances c
  statement : c.readStatement.Advances c
  parts : ∀ token tokens, c.rest = token :: tokens → token.kind ∈ leadingKinds →
    c.readStatement.Advances c.advance
  loopBody : c.readLoopBody.Advances c
  item : c.readItem.Advances c
  declaration : ∃ u, c.Reaches u c.readDeclaration.2 ∧ (c.rest ≠ [] → u ≠ [])
  items : ∃ u, c.Reaches u c.readItems.2
  program : ∃ u, c.Reaches u c.readProgram.2

theorem exists_reaches_recover {c : Cursor} {reading : Reading (List Stmt)}
    (h : reading.Follows c) : ∃ u, c.Reaches u (recover reading).2 := by
  cases reading with
  | read statements r => exact Course.exists_reaches h
  | failed error r =>
      obtain ⟨s, hs, hmarks⟩ := h
      obtain ⟨u, hu⟩ := hs.exists_reaches
      obtain ⟨v, hv⟩ := hmarks.exists_reaches_recovered
      exact ⟨u ++ v, hu.trans hv⟩

theorem exists_reaches_readDeclaration (c : Cursor) :
    ∃ u, c.Reaches u c.readDeclaration.2 ∧ (c.rest ≠ [] → u ≠ []) := by
  obtain ⟨u, hu⟩ := exists_reaches_recover (begins_readItem c).follows
  rw [← readDeclaration_eq] at hu
  refine ⟨u, hu, fun hstart ↦ hu.ne_nil ?_⟩
  have hpos : 0 < c.size := List.length_pos_iff.mpr hstart
  have hsize := size_readDeclaration c
  omega

theorem within_readItem (c : Cursor) : c.readItem.Within c.size := by
  unfold readItem
  split
  · rename_i keyword r hkeyword
    exact (Parse.bindings .mutable r).property.mono (Nat.le_of_lt (size_of_acceptOne? hkeyword))
  · split
    · rename_i keyword r hkeyword
      exact (Parse.bindings .constant r).property.mono
        (Nat.le_of_lt (size_of_acceptOne? hkeyword))
    · exact (Parse.statement c).property.map _

theorem advances_readLoopControl (keyword : Token) (fault : SyntaxFault) (message : String)
    (statement : Stmt) (c : Cursor) :
    (c.readLoopControl keyword fault message statement).Advances c := by
  rw [readLoopControl_eq]
  split
  · exact ⟨_, reaches_skip c 0⟩
  · exact ((steps_expect .semicolon message c).map _).follows.advances
      ((c.expect_within .semicolon message).map _)

theorem progresses (c : Cursor) : c.Progresses where
  expect kind message :=
    (steps_expect kind message c).follows.advances (c.expect_within kind message)
  level level := (steps_readLevel level c).follows.advances (Parse.level level c).property
  chain level left := (steps_readChain level left c).follows.exists_reaches
  expressionStatement :=
    (steps_readExpressionStatement c).follows.advances (Parse.expressionStatement c).property
  binding mutability :=
    (steps_readBinding mutability c).follows.advances (Parse.binding mutability c).property
  bindings mutability :=
    (steps_readBindings mutability c).follows.advances (Parse.bindings mutability c).property
  forInitializer := (steps_readForInitializer c).follows.advances (Parse.forInitializer c).property
  forCondition := (steps_readForCondition c).follows.advances (Parse.forCondition c).property
  forIncrement := (steps_readForIncrement c).follows.advances (Parse.forIncrement c).property
  forClauses := (steps_readForClauses c).follows.advances (Parse.forClauses c).property
  condition opening closing :=
    (steps_readCondition opening closing c).follows.advances
      (Parse.condition opening closing c).property
  loopControl keyword fault message statement :=
    advances_readLoopControl keyword fault message statement c
  statement := (begins_readStatement c).follows.advances (Parse.statement c).property
  parts _ _ hrest hkind :=
    (begins_readStatement c).follows.advances_advance hrest (within_readStatement hrest hkind)
  loopBody := (follows_readLoopBody c).advances (Parse.loopBody c).property
  item := (begins_readItem c).follows.advances (within_readItem c)
  declaration := exists_reaches_readDeclaration c
  items := (course_readItems c).exists_reaches
  program := (course_readProgram c).exists_reaches

/-! ### Loops -/

/-- A loop goes through `n` rounds; there is no round after the second cursor. -/
inductive Rounds (round? : Cursor → Option Cursor) : Nat → Cursor → Cursor → Prop
  | stop {c : Cursor} (h : round? c = none) : Rounds round? 0 c c
  | again {n : Nat} {c d e : Cursor} (h : round? c = some d) (hrounds : Rounds round? n d e) :
      Rounds round? (n + 1) c e

/-- Each round of a loop over tokens reads at least one, so there are no more rounds than tokens. -/
theorem exists_rounds {round? : Cursor → Option Cursor}
    (hround : ∀ c d, round? c = some d → d.size < c.size) (c : Cursor) :
    ∃ n d, Rounds round? n c d ∧ n + d.size ≤ c.size := by
  cases h : round? c with
  | none => exact ⟨0, c, .stop h, Nat.le_of_eq (Nat.zero_add _)⟩
  | some d =>
      have hsize := hround c d h
      obtain ⟨n, e, hrounds, hle⟩ := exists_rounds hround d
      exact ⟨n + 1, e, .again h hrounds, by omega⟩
termination_by c.size

/-- A round of a loop over declarations, up to a place where `stops` holds. -/
def declarationRound? (stops : Cursor → Bool) (c : Cursor) : Option Cursor :=
  if stops c then none else some c.readDeclaration.2

/-- The declarations in a block end before its closing brace. -/
def endsBlock (c : Cursor) : Bool := c.check .rightBrace || c.atEnd

/-- A round of the loop over bindings, if a comma follows it. -/
def bindingRound? (mutability : Mutability) (c : Cursor) : Option Cursor :=
  match c.readBinding mutability with
  | .read _ r => (r.acceptOne? .comma).map Prod.snd
  | .failed .. => none

theorem declarationRound?_eq_none_iff {stops : Cursor → Bool} {c : Cursor} :
    declarationRound? stops c = none ↔ stops c = true := by
  simp [declarationRound?]

theorem declarationRound?_eq_some_iff {stops : Cursor → Bool} {c d : Cursor} :
    declarationRound? stops c = some d ↔ ¬stops c = true ∧ c.readDeclaration.2 = d := by
  simp [declarationRound?]

theorem size_of_declarationRound? {stops : Cursor → Bool}
    (hend : ∀ c : Cursor, c.atEnd = true → stops c = true) (c d : Cursor)
    (h : declarationRound? stops c = some d) : d.size < c.size := by
  obtain ⟨hstops, rfl⟩ := declarationRound?_eq_some_iff.mp h
  have hstart : ¬c.atEnd = true := fun hatEnd ↦ hstops (hend c hatEnd)
  have hpos := size_pos_of_not_atEnd (Bool.not_eq_true _ ▸ hstart)
  have hsize := size_readDeclaration c
  omega

theorem size_of_bindingRound? (mutability : Mutability) (c d : Cursor)
    (h : bindingRound? mutability c = some d) : d.size < c.size := by
  unfold bindingRound? at h
  split at h
  · rename_i first r hread
    obtain ⟨⟨comma, s⟩, hcomma, rfl⟩ := Option.map_eq_some_iff.mp h
    exact Nat.lt_trans (size_of_acceptOne? hcomma) (size_readBinding hread)
  · cases h

theorem Rounds.readProgram {n : Nat} {c d : Cursor}
    (h : Rounds (declarationRound? atEnd) n c d) : c.readProgram.2 = d := by
  induction h with
  | stop h => rw [Cursor.readProgram, if_pos (declarationRound?_eq_none_iff.mp h)]
  | again h _ ih =>
      obtain ⟨hstart, rfl⟩ := declarationRound?_eq_some_iff.mp h
      rw [Cursor.readProgram, if_neg hstart]
      exact ih

theorem Rounds.readItems {n : Nat} {c d : Cursor}
    (h : Rounds (declarationRound? endsBlock) n c d) : c.readItems.2 = d := by
  induction h with
  | stop h =>
      have hend := declarationRound?_eq_none_iff.mp h
      unfold endsBlock at hend
      rw [readItems_eq, if_pos hend]
  | again h _ ih =>
      obtain ⟨hstart, rfl⟩ := declarationRound?_eq_some_iff.mp h
      unfold endsBlock at hstart
      rw [readItems_eq, if_neg hstart]
      exact ih

theorem Rounds.readBindings {mutability : Mutability} {n : Nat} {c d : Cursor}
    (h : Rounds (bindingRound? mutability) n c d) :
    (c.readBindings mutability).cursor = ((d.readBinding mutability).andThen fun _ r ↦
      r.expect .semicolon "Expect ';' after variable declaration.").cursor := by
  induction h with
  | @stop c h =>
      rw [readBindings_eq]
      unfold bindingRound? at h
      cases hread : c.readBinding mutability with
      | failed error r => rfl
      | read first r =>
          rw [hread] at h
          rw [andThen_read, andThen_read, Option.map_eq_none_iff.mp h, Reading.cursor_map]
  | @again n c d e h _ ih =>
      rw [readBindings_eq]
      unfold bindingRound? at h
      cases hread : c.readBinding mutability with
      | failed error r =>
          rw [hread] at h
          cases h
      | read first r =>
          rw [hread] at h
          obtain ⟨⟨comma, s⟩, hcomma, rfl⟩ := Option.map_eq_some_iff.mp h
          rw [andThen_read, hcomma, Reading.cursor_map]
          exact ih

/-- Each of the loops that start at a cursor ends, after no more rounds than there are tokens, and
the cursor afterwards is that of the reading that it is in. -/
structure LoopsEnd (c : Cursor) : Prop where
  program : ∃ n d, Rounds (declarationRound? atEnd) n c d ∧ n + d.size ≤ c.size ∧
    c.readProgram.2 = d
  block : ∃ n d, Rounds (declarationRound? endsBlock) n c d ∧ n + d.size ≤ c.size ∧
    c.readItems.2 = d
  bindings : ∀ mutability, ∃ n d, Rounds (bindingRound? mutability) n c d ∧ n + d.size ≤ c.size ∧
    (c.readBindings mutability).cursor = ((d.readBinding mutability).andThen fun _ r ↦
      r.expect .semicolon "Expect ';' after variable declaration.").cursor

theorem loopsEnd (c : Cursor) : c.LoopsEnd where
  program := by
    obtain ⟨n, d, hrounds, hle⟩ := exists_rounds (size_of_declarationRound? fun _ ↦ id) c
    exact ⟨n, d, hrounds, hle, hrounds.readProgram⟩
  block := by
    have hend (c : Cursor) (h : c.atEnd = true) : endsBlock c = true := by
      rw [endsBlock, h, Bool.or_true]
    obtain ⟨n, d, hrounds, hle⟩ := exists_rounds (size_of_declarationRound? hend) c
    exact ⟨n, d, hrounds, hle, hrounds.readItems⟩
  bindings mutability := by
    obtain ⟨n, d, hrounds, hle⟩ := exists_rounds (size_of_bindingRound? mutability) c
    exact ⟨n, d, hrounds, hle, hrounds.readBindings⟩

theorem rest_readProgram (c : Cursor) : c.readProgram.2.rest = [] := by
  fun_induction readProgram c with
  | case1 c hend => exact List.isEmpty_iff.mp hend
  | case2 c hend first others ih => exact ih

end Cursor

/-- The reading of a program that a parse is the result of: it goes through all tokens, and ends
where none is left. -/
theorem exists_reaches_of_parse (tokens : List Token) :
    ∃ c, (Cursor.ofTokens tokens).readProgram = ((parse tokens).statements, c) ∧
      c.errors = (parse tokens).errors ∧ (Cursor.ofTokens tokens).Reaches tokens c ∧
      c.rest = [] := by
  have hrest := (Cursor.ofTokens tokens).rest_readProgram
  obtain ⟨u, hu⟩ := (Cursor.course_readProgram (.ofTokens tokens)).exists_reaches
  have htokens : tokens = u := by
    have happend : tokens = u ++ _ := hu.rest
    rwa [hrest, List.append_nil] at happend
  exact ⟨_, rfl, rfl, htokens ▸ hu, hrest⟩

/-- No reading of tokens goes back or gets stuck, so the loops over tokens end, parsing stops with
all tokens read, and it reports at most as many errors as there are tokens. -/
theorem parse_progresses (tokens : List Token) :
    (∀ c : Cursor, c.Progresses) ∧ (∀ c : Cursor, c.LoopsEnd) ∧
      (∃ c, (Cursor.ofTokens tokens).readProgram = ((parse tokens).statements, c) ∧
        c.errors = (parse tokens).errors ∧ (Cursor.ofTokens tokens).Reaches tokens c ∧
        c.rest = []) ∧
      (parse tokens).errors.length ≤ tokens.length := by
  refine ⟨Cursor.progresses, Cursor.loopsEnd, exists_reaches_of_parse tokens, ?_⟩
  have hcourse := (Cursor.course_readProgram (.ofTokens tokens)).length_errors_add_size
  have hinitial : (Cursor.ofTokens tokens).errors.length + (Cursor.ofTokens tokens).size =
      tokens.length := Nat.zero_add _
  rw [hinitial] at hcourse
  exact Nat.le_trans (Nat.le_add_right _ _) hcourse

end Sigil
