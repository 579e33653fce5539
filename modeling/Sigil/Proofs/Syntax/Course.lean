import Sigil.Proofs.Syntax.Recovery

/-!
# The course of reading

However tokens are read, three things happen to a cursor: it reads a token; a reading
that starts where it is fails; or one fails after it has read the next token and more.
A failure is recorded before the cursor goes on, and it is reported at one of the tokens
around the place where the reading failed.
-/

namespace Sigil

namespace Cursor

variable {c d e s : Cursor} {error : SyntaxError} {token : Token} {tokens : List Token}

/-! ### Where an error is reported -/

/-- The next `n` tokens, the one before them and the one after them. -/
def around (c : Cursor) (n : Nat) : List Token := c.previous.toList ++ c.rest.take (n + 1)

/-- A reading that starts at the first cursor may fail at the second one with this error: it is at
one of the tokens around those read. -/
def Marks (c : Cursor) (error : SyntaxError) (d : Cursor) : Prop :=
  ∃ n, d = c.skip n ∧
    (c.around n ≠ [] → ∃ token ∈ c.around n, error.offset = token.span.start)

theorem previous_advance_of_rest (h : c.rest = token :: tokens) :
    c.advance.previous = some token := by
  rw [advance, h]

theorem advance_of_rest_nil (h : c.rest = []) : c.advance = c := by
  rw [advance, h]

theorem previous_skip (c : Cursor) (n : Nat) :
    (c.skip n).previous = (c.previous.toList ++ c.rest.take n).getLast? := by
  induction n generalizing c with
  | zero => cases h : c.previous <;> simp [h]
  | succ n ih =>
      rw [skip_succ, ih]
      cases h : c.rest with
      | nil => simp [advance_of_rest_nil h, h]
      | cons token tokens =>
          rw [previous_advance_of_rest h, rest_advance_of_cons h, List.take_succ_cons,
            Option.toList_some, List.singleton_append, List.getLast?_append, List.getLast?_cons,
            Option.some_or]

theorem previous_skip_succ (c : Cursor) (n : Nat) :
    (c.skip (n + 1)).previous = (c.around n).getLast? :=
  previous_skip c (n + 1)

/-- What is around a place further on are the last tokens around both. -/
theorem exists_around_skip (c : Cursor) (m n : Nat) : ∃ before, ∃ last : List Token,
    c.around (m + n) = before ++ last ∧
      (c.skip m).around n = before.getLast?.toList ++ last := by
  refine ⟨c.previous.toList ++ c.rest.take m, (c.rest.drop m).take (n + 1), ?_, ?_⟩
  · rw [around, List.append_assoc, ← List.take_add, Nat.add_assoc]
  · rw [around, previous_skip, rest_skip]

theorem Marks.of_moves (h : c.Moves d) (h' : d.Marks error s) : c.Marks error s := by
  obtain ⟨m, rfl⟩ := h
  obtain ⟨n, rfl, hmark⟩ := h'
  obtain ⟨before, last, haround, hskip⟩ := exists_around_skip c m n
  refine ⟨m + n, skip_skip c m n, fun hne ↦ ?_⟩
  rw [hskip] at hmark
  rw [haround] at hne ⊢
  obtain ⟨token, htoken, hoffset⟩ := hmark fun hnil ↦ hne (by simpa using hnil)
  refine ⟨token, ?_, hoffset⟩
  rcases List.mem_append.mp htoken with htoken | htoken
  · exact List.mem_append_left _ (List.mem_of_getLast? (Option.mem_toList.mp htoken))
  · exact List.mem_append_right _ htoken

theorem marks_errorAt (h : c.rest = token :: tokens) (hmoves : c.Moves d) (fault : SyntaxFault) :
    c.Marks (errorAt token fault) d := by
  obtain ⟨n, rfl⟩ := hmoves
  exact ⟨n, rfl, fun _ ↦ ⟨token, by simp [around, h], rfl⟩⟩

theorem marks_errorAtPrevious (c : Cursor) (fault : SyntaxFault) :
    c.Marks (c.errorAtPrevious fault) c := by
  refine ⟨0, rfl, fun hne ↦ ?_⟩
  unfold errorAtPrevious
  split
  · rename_i token htoken
    refine ⟨token, ?_, rfl⟩
    rcases Option.or_eq_some_iff.mp htoken with hprevious | ⟨-, hpeek⟩
    · simp [around, hprevious]
    · obtain ⟨tokens, hrest⟩ := List.head?_eq_some_iff.mp hpeek
      simp [around, hrest]
  · rename_i hnone
    obtain ⟨hprevious, hpeek⟩ := Option.or_eq_none_iff.mp hnone
    exact absurd (by simp [around, hprevious, List.head?_eq_none_iff.mp hpeek]) hne

theorem marks_errorAtCurrent (c : Cursor) (fault : SyntaxFault) :
    c.Marks (c.errorAtCurrent fault) c := by
  unfold errorAtCurrent
  split
  · rename_i token htoken
    obtain ⟨tokens, hrest⟩ := List.head?_eq_some_iff.mp htoken
    exact marks_errorAt hrest (.refl c) fault
  · exact marks_errorAtPrevious c fault

theorem leaveLoop_skip (c : Cursor) (n : Nat) : (c.skip n).leaveLoop = c.leaveLoop.skip n := by
  induction n generalizing c with
  | zero => rfl
  | succ n ih =>
      have hadvance : c.advance.leaveLoop = c.leaveLoop.advance := by
        cases h : c.rest <;> simp [advance, leaveLoop, h]
      rw [skip_succ, ih, hadvance, skip_succ]

theorem Marks.leaveLoop (h : c.Marks error d) : c.leaveLoop.Marks error d.leaveLoop := by
  obtain ⟨n, rfl, hmark⟩ := h
  exact ⟨n, leaveLoop_skip c n, hmark⟩

/-! ### Recovery moves a cursor -/

theorem seekStatement_moves (c : Cursor) :
    c.Moves { c with
      previous := (seekStatement c.previous c.rest).1
      rest := (seekStatement c.previous c.rest).2 } := by
  obtain ⟨previous, rest, loopDepth, errors⟩ := c
  dsimp only
  induction rest generalizing previous with
  | nil => exact .refl _
  | cons token tokens ih =>
      rw [seekStatement]
      split
      · exact .refl _
      · exact (Moves.advance _).trans (ih (some token))

theorem exists_synchronize (c : Cursor) : ∃ n, c.synchronize = c.skip (n + 1) := by
  obtain ⟨n, hn⟩ := seekStatement_moves c.advance
  exact ⟨n, hn⟩

theorem skip_record (error : SyntaxError) (c : Cursor) (n : Nat) :
    (c.record error).skip n = (c.skip n).record error := by
  induction n generalizing c with
  | zero => rfl
  | succ n ih =>
      have hadvance : (c.record error).advance = c.advance.record error := by
        cases h : c.rest <;> simp [advance, record, h]
      rw [skip_succ, hadvance, ih, skip_succ]

/-- After a failure, at least one token has been skipped. -/
theorem Marks.exists_recovered (h : c.Marks error d) : ∃ m n,
    (c.around m ≠ [] → ∃ token ∈ c.around m, error.offset = token.span.start) ∧
      (d.record error).synchronize = ((c.skip (m + 1)).skip n).record error := by
  obtain ⟨m, rfl, hmark⟩ := h
  obtain ⟨n, hn⟩ := exists_synchronize ((c.skip m).record error)
  refine ⟨m, n, hmark, ?_⟩
  rw [hn, skip_record, skip_skip, skip_skip, Nat.add_right_comm, Nat.add_assoc m]

theorem leaveLoop_advance (c : Cursor) : c.advance.leaveLoop = c.leaveLoop.advance :=
  leaveLoop_skip c 1

theorem leaveLoop_synchronize (c : Cursor) :
    c.synchronize.leaveLoop = c.leaveLoop.synchronize := by
  rw [synchronize, synchronize, ← leaveLoop_advance]
  rfl

theorem leaveLoop_recovered (error : SyntaxError) (c : Cursor) :
    (c.record error).synchronize.leaveLoop = (c.leaveLoop.record error).synchronize :=
  leaveLoop_synchronize (c.record error)

/-! ### Courses -/

/-- What reading may make of a cursor.  Each failure that is recorded is that of a declaration, and
the declaration had a token to start with. -/
inductive Course : Cursor → Cursor → Prop
  | refl (c : Cursor) : Course c c
  | advance {c d : Cursor} (h : Course c.advance d) : Course c d
  | skip {c d r : Cursor} {error : SyntaxError} (hstart : c.rest ≠ []) (hmarks : c.Marks error r)
      (h : Course (r.record error).synchronize d) : Course c d
  | recover {c d r s : Cursor} {error : SyntaxError} (hstart : c.rest ≠ [])
      (hinside : Course c.advance s) (hmarks : s.Marks error r)
      (h : Course (r.record error).synchronize d) : Course c d

theorem Course.trans (h : Course c d) (h' : Course d e) : Course c e := by
  induction h with
  | refl c => exact h'
  | advance _ ih => exact .advance (ih h')
  | skip hstart hmarks _ ih => exact .skip hstart hmarks (ih h')
  | recover hstart hinside hmarks _ _ ih => exact .recover hstart hinside hmarks (ih h')

theorem Moves.course (h : c.Moves d) : Course c d := by
  obtain ⟨n, rfl⟩ := h
  induction n generalizing c with
  | zero => exact .refl c
  | succ n ih => exact .advance ih

theorem Course.leaveLoop (h : Course c d) : Course c.leaveLoop d.leaveLoop := by
  induction h with
  | refl c => exact .refl _
  | advance _ ih =>
      rw [leaveLoop_advance] at ih
      exact .advance ih
  | skip hstart hmarks _ ih =>
      rw [leaveLoop_recovered] at ih
      exact .skip hstart hmarks.leaveLoop ih
  | recover hstart _ hmarks _ ih ih' =>
      rw [leaveLoop_advance] at ih
      rw [leaveLoop_recovered] at ih'
      exact .recover hstart ih hmarks.leaveLoop ih'

end Cursor

/-! ### Readings -/

namespace Reading

open Cursor

variable {α β : Type} {c d : Cursor} {reading : Reading α}

/-- The reading has recorded no error; if it fails, that is where it reports its own. -/
def Steps (c : Cursor) : Reading α → Prop
  | .read _ d => c.Moves d
  | .failed error d => c.Marks error d

/-- The reading follows a course; if it fails, it does so some way along. -/
def Follows (c : Cursor) : Reading α → Prop
  | .read _ d => Course c d
  | .failed error d => ∃ s, Course c s ∧ s.Marks error d

/-- The reading is one of a declaration: before it fails, it has recorded no error or it has read a
token first. -/
def Begins (c : Cursor) : Reading α → Prop
  | .read _ d => Course c d
  | .failed error d => ∃ s, (s = c ∨ Course c.advance s) ∧ s.Marks error d

theorem Steps.of_moves (hmoves : c.Moves d) (h : reading.Steps d) : reading.Steps c := by
  cases reading with
  | read a r => exact hmoves.trans h
  | failed error r => exact h.of_moves hmoves

theorem Steps.map (h : reading.Steps c) (f : α → β) : (reading.map f).Steps c := by
  cases reading <;> exact h

theorem Steps.andThen {next : α → Cursor → Reading β} (h : reading.Steps c)
    (hnext : ∀ a r, reading = .read a r → (next a r).Steps r) :
    (reading.andThen next).Steps c := by
  cases reading with
  | read a r => exact (hnext a r rfl).of_moves h
  | failed error r => exact h

/-- What follows a value may fail at a token from before the value. -/
theorem Steps.andThen_of_moves {next : α → Cursor → Reading β} (hmoves : c.Moves d)
    (h : reading.Steps d) (hnext : ∀ a r, c.Moves r → (next a r).Steps c) :
    (reading.andThen next).Steps c := by
  cases reading with
  | read a r => exact hnext a r (hmoves.trans h)
  | failed error r => exact h.of_moves hmoves

theorem Steps.follows (h : reading.Steps c) : reading.Follows c := by
  cases reading with
  | read a r => exact Moves.course h
  | failed error r => exact ⟨c, .refl c, h⟩

theorem Steps.begins (h : reading.Steps c) : reading.Begins c := by
  cases reading with
  | read a r => exact Moves.course h
  | failed error r => exact ⟨c, .inl rfl, h⟩

theorem Follows.of_course (hcourse : Course c d) (h : reading.Follows d) : reading.Follows c := by
  cases reading with
  | read a r => exact hcourse.trans h
  | failed error r =>
      obtain ⟨s, hs, hmarks⟩ := h
      exact ⟨s, hcourse.trans hs, hmarks⟩

theorem Follows.map (h : reading.Follows c) (f : α → β) : (reading.map f).Follows c := by
  cases reading <;> exact h

theorem Follows.andThen {next : α → Cursor → Reading β} (h : reading.Follows c)
    (hnext : ∀ a r, reading = .read a r → (next a r).Follows r) :
    (reading.andThen next).Follows c := by
  cases reading with
  | read a r => exact (hnext a r rfl).of_course h
  | failed error r => exact h

theorem Follows.leaveLoop (h : reading.Follows c.enterLoop) :
    (reading.mapCursor Cursor.leaveLoop).Follows c := by
  cases reading with
  | read a r => exact Course.leaveLoop h
  | failed error r =>
      obtain ⟨s, hs, hmarks⟩ := h
      exact ⟨s.leaveLoop, hs.leaveLoop, hmarks.leaveLoop⟩

theorem Follows.begins (h : reading.Follows c.advance) : reading.Begins c := by
  cases reading with
  | read a r => exact .advance h
  | failed error r =>
      obtain ⟨s, hs, hmarks⟩ := h
      exact ⟨s, .inr hs, hmarks⟩

theorem Begins.map (h : reading.Begins c) (f : α → β) : (reading.map f).Begins c := by
  cases reading <;> exact h

theorem Begins.follows (h : reading.Begins c) : reading.Follows c := by
  cases reading with
  | read a r => exact h
  | failed error r =>
      obtain ⟨s, rfl | hs, hmarks⟩ := h
      · exact ⟨s, .refl s, hmarks⟩
      · exact ⟨s, .advance hs, hmarks⟩

end Reading

namespace Cursor

open Reading

variable {c : Cursor}

theorem Course.recovered {reading : Reading (List Stmt)} (hstart : c.rest ≠ [])
    (h : reading.Begins c) : Course c (Cursor.recover reading).2 := by
  cases reading with
  | read statements r => exact h
  | failed error r =>
      obtain ⟨s, rfl | hs, hmarks⟩ := h
      · exact .skip hstart hmarks (.refl _)
      · exact .recover hstart hs hmarks (.refl _)

/-! ### Parts without statements -/

theorem steps_expect (kind : TokenKind) (message : String) (c : Cursor) :
    (c.expect kind message).Steps c := by
  unfold expect
  split
  · rename_i token s h
    obtain ⟨-, -, rfl⟩ := acceptOne?_eq_some_iff.mp h
    exact .advance c
  · exact marks_errorAtPrevious c _

mutual
theorem steps_readLevel (level : Level) (c : Cursor) : (c.readLevel level).Steps c := by
  match level with
  | .assignment =>
      rw [readLevel_assignment]
      apply (steps_readLevel (.chain .disjunction) c).andThen
      intro target r hr
      have hsize := size_readLevel hr
      split
      · exact .refl r
      · rename_i form operator s ha
        have hs := size_of_accept? ha
        obtain ⟨⟨tokens, hrest⟩, -, rfl⟩ := accept?_eq_some_iff.mp ha
        apply (steps_readLevel .assignment r.advance).andThen_of_moves (.advance r)
        intro value u hmoves
        split
        · exact hmoves
        · exact marks_errorAt hrest hmoves _
  | .chain chainLevel =>
      rw [readLevel_chain]
      apply (steps_readLevel chainLevel.operand c).andThen
      intro left r hr
      have hsize := size_readLevel hr
      exact steps_readChain chainLevel left r
  | .conditional =>
      rw [readLevel_conditional]
      apply (steps_readLevel (.chain .equality) c).andThen
      intro condition r hr
      have hsize := size_readLevel hr
      split
      · exact .refl r
      · rename_i mark s ha
        have hs := size_of_acceptOne? ha
        obtain ⟨-, -, rfl⟩ := acceptOne?_eq_some_iff.mp ha
        refine .of_moves (.advance r) ?_
        apply (steps_readLevel .conditional r.advance).andThen
        intro left u hu
        have hu := size_readLevel hu
        apply (steps_expect _ _ u).andThen
        intro colon v hv
        have hv := size_expect hv
        exact (steps_readLevel .conditional v).map _
  | .unary =>
      rw [readLevel_unary]
      split
      · exact steps_readLevel .suffixed c
      · rename_i op operator r ha
        have hr := size_of_accept? ha
        obtain ⟨⟨tokens, hrest⟩, -, rfl⟩ := accept?_eq_some_iff.mp ha
        apply (steps_readLevel .unary c.advance).andThen_of_moves (.advance c)
        intro operand s hmoves
        split
        · exact marks_errorAt hrest hmoves _
        · exact hmoves
  | .suffixed =>
      rw [readLevel_suffixed]
      apply (steps_readLevel .primary c).andThen
      intro operand r hr
      split
      · exact .refl r
      · rename_i op operator s ha
        obtain ⟨⟨tokens, hrest⟩, -, rfl⟩ := accept?_eq_some_iff.mp ha
        split
        · exact .advance r
        · exact marks_errorAt hrest (.advance r) _
  | .primary =>
      rw [readLevel_primary]
      split
      · exact marks_errorAtCurrent c _
      · rename_i token tokens hc
        have hadvance := size_advance_of_rest hc
        split
        · refine .of_moves (.advance c) ?_
          apply (steps_readLevel .assignment c.advance).andThen
          intro inner r hr
          exact (steps_expect _ _ r).map _
        · split
          · exact .advance c
          · exact marks_errorAt hc (.refl c) _
termination_by (c.size, level.rank)
decreasing_by
  all_goals first
    | exact Prod.Lex.left _ _ (by omega)
    | exact Prod.Lex.right _ (ChainLevel.rank_operand _)
    | exact Prod.Lex.right _ (by decide)

theorem steps_readChain (level : ChainLevel) (left : Expr) (c : Cursor) :
    (c.readChain level left).Steps c := by
  rw [readChain_eq]
  split
  · exact .refl c
  · rename_i connective operator r ha
    have hr := size_of_accept? ha
    obtain ⟨-, -, rfl⟩ := accept?_eq_some_iff.mp ha
    refine .of_moves (.advance c) ?_
    apply (steps_readLevel level.operand c.advance).andThen
    intro right s hs
    have hs := size_readLevel hs
    exact steps_readChain level _ s
termination_by (c.size, 0)
decreasing_by
  all_goals exact Prod.Lex.left _ _ (by omega)
end

theorem steps_readExpression (c : Cursor) : c.readExpression.Steps c :=
  steps_readLevel .assignment c

theorem steps_readExpressionStatement (c : Cursor) : c.readExpressionStatement.Steps c := by
  rw [readExpressionStatement_eq]
  apply (steps_readExpression c).andThen
  intro expr r _
  exact (steps_expect _ _ r).map _

theorem steps_readBinding (mutability : Mutability) (c : Cursor) :
    (c.readBinding mutability).Steps c := by
  cases mutability with
  | constant =>
      rw [readBinding_constant]
      apply (steps_expect _ _ c).andThen
      intro name r _
      apply (steps_expect _ _ r).andThen
      intro sign s _
      exact (steps_readExpression s).map _
  | mutable =>
      rw [readBinding_mutable]
      apply (steps_expect _ _ c).andThen
      intro name r _
      split
      · exact .refl r
      · rename_i sign s hsign
        obtain ⟨-, -, rfl⟩ := acceptOne?_eq_some_iff.mp hsign
        exact .of_moves (.advance r) ((steps_readExpression r.advance).map _)

theorem steps_readBindings (mutability : Mutability) (c : Cursor) :
    (c.readBindings mutability).Steps c := by
  rw [readBindings_eq]
  apply (steps_readBinding mutability c).andThen
  intro first r hr
  have hsize := size_readBinding hr
  split
  · exact (steps_expect _ _ r).map _
  · rename_i comma s hcomma
    have hs := size_of_acceptOne? hcomma
    obtain ⟨-, -, rfl⟩ := acceptOne?_eq_some_iff.mp hcomma
    exact .of_moves (.advance r) ((steps_readBindings mutability r.advance).map _)
termination_by c.size

theorem steps_readForInitializer (c : Cursor) : c.readForInitializer.Steps c := by
  rw [readForInitializer_eq]
  split
  · rename_i semicolon r hsemicolon
    obtain ⟨-, -, rfl⟩ := acceptOne?_eq_some_iff.mp hsemicolon
    exact .advance c
  · split
    · rename_i keyword r hkeyword
      obtain ⟨-, -, rfl⟩ := acceptOne?_eq_some_iff.mp hkeyword
      exact .of_moves (.advance c) (steps_readBindings .mutable c.advance)
    · exact (steps_readExpressionStatement c).map _

theorem steps_readForCondition (c : Cursor) : c.readForCondition.Steps c := by
  rw [readForCondition_eq]
  split
  · exact (steps_expect _ _ c).map _
  · apply (steps_readExpression c).andThen
    intro condition r _
    exact (steps_expect _ _ r).map _

theorem steps_readForIncrement (c : Cursor) : c.readForIncrement.Steps c := by
  rw [readForIncrement_eq]
  split
  · exact (steps_expect _ _ c).map _
  · apply (steps_readExpression c).andThen
    intro increment r _
    exact (steps_expect _ _ r).map _

theorem steps_readForClauses (c : Cursor) : c.readForClauses.Steps c := by
  rw [readForClauses_eq]
  apply (steps_expect _ _ c).andThen
  intro opening r _
  apply (steps_readForInitializer r).andThen
  intro initializer s _
  apply (steps_readForCondition s).andThen
  intro condition u _
  exact (steps_readForIncrement u).map _

theorem steps_readCondition (opening closing : String) (c : Cursor) :
    (c.readCondition opening closing).Steps c := by
  rw [readCondition_eq]
  apply (steps_expect _ _ c).andThen
  intro _ r _
  apply (steps_readExpression r).andThen
  intro condition s _
  exact (steps_expect _ _ s).map _

/-- The keyword that may not stand outside of loops has been read already. -/
theorem steps_readLoopControl {keyword : Token} {tokens : List Token}
    (h : c.rest = keyword :: tokens) (fault : SyntaxFault) (message : String) (control : Stmt) :
    (c.advance.readLoopControl keyword fault message control).Steps c := by
  rw [readLoopControl_eq]
  split
  · exact marks_errorAt h (.advance c) fault
  · exact .of_moves (.advance c) ((steps_expect _ _ c.advance).map _)

/-! ### Statements -/

mutual
theorem begins_readStatement (c : Cursor) : c.readStatement.Begins c := by
  rw [readStatement_eq]
  split
  · exact (steps_readExpressionStatement c).begins.map _
  · rename_i keyword tokens hc
    have hsize := size_advance_of_rest hc
    -- The first token is `;`, `{`, `console`, `if`, `while`, `for`, `break`, `continue` or another.
    split
    · exact .advance (.refl _)
    · refine Follows.begins (.of_course (course_readItems c.advance) ?_)
      exact (steps_expect _ _ _).follows.map _
    · exact ((steps_readExpressionStatement c.advance).follows.map _).begins
    · refine Follows.begins ?_
      apply (steps_readCondition _ _ c.advance).follows.andThen
      intro condition s hs
      have hs := size_readCondition hs
      apply (begins_readStatement s).follows.andThen
      intro thenBranch u hu
      have hu := size_readStatement hu
      split
      · exact .refl u
      · rename_i otherwise v hv
        have hv' := size_of_acceptOne? hv
        obtain ⟨-, -, rfl⟩ := acceptOne?_eq_some_iff.mp hv
        exact .of_course (.advance (.refl _)) ((begins_readStatement u.advance).follows.map _)
    · refine Follows.begins ?_
      apply (steps_readCondition _ _ c.advance).follows.andThen
      intro condition s hs
      have hs := size_readCondition hs
      exact (follows_readLoopBody s).map _
    · refine Follows.begins ?_
      apply (steps_readForClauses c.advance).follows.andThen
      intro clauses s hs
      have hs := size_readForClauses hs
      exact (follows_readLoopBody s).map _
    · exact (steps_readLoopControl hc _ _ _).begins
    · exact (steps_readLoopControl hc _ _ _).begins
    · exact (steps_readExpressionStatement c).begins.map _
termination_by (c.size, 0)
decreasing_by
  all_goals exact Prod.Lex.left _ _ (by omega)

theorem follows_readLoopBody (c : Cursor) : c.readLoopBody.Follows c := by
  rw [readLoopBody_eq]
  exact (begins_readStatement c.enterLoop).follows.leaveLoop
termination_by (c.size, 1)
decreasing_by
  exact Prod.Lex.right _ (by decide)

theorem begins_readItem (c : Cursor) : c.readItem.Begins c := by
  unfold readItem
  split
  · rename_i keyword r hkeyword
    obtain ⟨-, -, rfl⟩ := acceptOne?_eq_some_iff.mp hkeyword
    exact (steps_readBindings .mutable c.advance).follows.begins
  · split
    · rename_i keyword r hkeyword
      obtain ⟨-, -, rfl⟩ := acceptOne?_eq_some_iff.mp hkeyword
      exact (steps_readBindings .constant c.advance).follows.begins
    · exact (begins_readStatement c).map _
termination_by (c.size, 1)
decreasing_by
  exact Prod.Lex.right _ (by decide)

theorem course_readDeclaration (c : Cursor) (hstart : c.rest ≠ []) :
    Course c c.readDeclaration.2 := by
  rw [readDeclaration_eq]
  exact .recovered hstart (begins_readItem c)
termination_by (c.size, 2)
decreasing_by
  exact Prod.Lex.right _ (by decide)

theorem course_readItems (c : Cursor) : Course c c.readItems.2 := by
  rw [readItems_eq]
  split
  · exact .refl c
  · rename_i hc
    have hpos : 0 < c.size := size_pos_of_not_atEnd (by simp_all)
    have hsize := size_readDeclaration c
    exact (course_readDeclaration c (List.length_pos_iff.mp hpos)).trans
      (course_readItems c.readDeclaration.2)
termination_by (c.size, 3)
decreasing_by
  · exact Prod.Lex.right _ (by decide)
  · exact Prod.Lex.left _ _ (by omega)
end

theorem course_readProgram (c : Cursor) : Course c c.readProgram.2 := by
  fun_induction readProgram c with
  | case1 c hc => exact .refl c
  | case2 c hc first others ih =>
      have hpos : 0 < c.size := size_pos_of_not_atEnd (by simp_all)
      exact (course_readDeclaration c (List.length_pos_iff.mp hpos)).trans ih

end Cursor

end Sigil
