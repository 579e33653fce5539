import Sigil.Proofs.Environment.Stack
import Sigil.Proofs.Evaluation.Framing
import Sigil.Proofs.Evaluation.Scoping

/-!
# What a run touches

A program changes the bindings of the names that occur in it and of no others, and its
errors are about these names.  Whatever is run, the scopes stay layered: each lies in
the one before it.
-/

namespace Sigil

/-- The error is about one of the names, if it is about a name; and if the output has refused, it
was for the reason that channels give. -/
def RuntimeError.IsAbout (names : Set String) : RuntimeError → Prop
  | .undefinedVariable name => name ∈ names
  | .undefinedAssignment name => name ∈ names
  | .redeclared name => name ∈ names
  | .constantAssignment name => name ∈ names
  | .output cause => cause = Channel.refusal
  | _ => True

theorem RuntimeError.isAbout_of_isRefusal {names : Set String} {e : RuntimeError}
    (h : e.isRefusal = true) : e.IsAbout names := by
  cases e <;> simp_all [RuntimeError.isRefusal, RuntimeError.IsAbout]

namespace Environment

variable {names : Set String} {env env' env'' : Environment} {name : String} {value : Value}

/-- From the first environment to the second, only names of the set have been touched, names have
been added to the current scope at most, and the scopes have stayed layered. -/
structure Touches (names : Set String) (env env' : Environment) : Prop where
  scopes : env.Extends env'
  layered : env'.Layered
  untouched : ∀ scope, ∀ other ∉ names, env'.bindingAt? scope other = env.bindingAt? scope other

theorem Touches.refl (h : env.Layered) : env.Touches names env :=
  ⟨.refl env, h, fun _ _ _ ↦ rfl⟩

theorem Touches.trans (h : env.Touches names env') (h' : env'.Touches names env'') :
    env.Touches names env'' where
  scopes := h.scopes.trans h'.scopes
  layered := h'.layered
  untouched scope other hother :=
    (h'.untouched scope other hother).trans (h.untouched scope other hother)

theorem touches_assign (hname : name ∈ names) (hlayered : env.Layered)
    (h : env.assign name value = .ok env') : env.Touches names env' := by
  refine ⟨(keeps_assign h).toExtends, hlayered.assign h, fun scope other hother ↦ ?_⟩
  obtain ⟨-, -, place, -, hbindings⟩ := assign_eq_ok h
  rw [hbindings, if_neg]
  rintro ⟨-, rfl⟩
  exact hother hname

theorem touches_define {mutability : Mutability} (hname : name ∈ names) (hlayered : env.Layered)
    (h : env.define name mutability value = .ok env') : env.Touches names env' := by
  refine ⟨extends_define h, hlayered.define h, fun scope other hother ↦ ?_⟩
  rcases define_eq_ok h with rfl | ⟨-, -, -, hbindings⟩
  · rfl
  · rw [hbindings, if_neg]
    rintro ⟨-, rfl⟩
    exact hother hname

/-- An inner scope has no names when it is entered, so that none of them is there yet. -/
theorem bindingAt?_enter_eq (env : Environment) (scope : Nat) :
    env.enter.bindingAt? scope = env.bindingAt? scope := by
  rcases Nat.lt_or_ge scope env.scopes.length with hscope | hscope
  · exact bindingAt?_enter hscope
  · funext name
    rw [bindingAt?_of_length_le hscope, bindingAt?, enter]
    rcases Nat.eq_or_lt_of_le hscope with rfl | hlt
    · simp [Scope.find?_empty]
    · rw [List.getElem?_eq_none (by simpa using Nat.succ_le_of_lt hlt), Option.bind_none]

theorem bindingAt?_restore_eq (env : Environment) (start scope : Nat) (name : String) :
    (env.restore start).bindingAt? scope name =
      if scope ≤ start then env.bindingAt? scope name else none := by
  split
  · rename_i hscope
    rw [bindingAt?_restore hscope]
  · rename_i hscope
    refine bindingAt?_of_length_le ?_
    simp only [restore, List.length_take]
    omega

theorem Layered.touches_restore (hlayered : env.Layered) (h : env.enter.Touches names env') :
    env.Touches names (env'.restore env.current) := by
  have hlast : env.scopes.length = env.current + 1 := hlayered.innermost
  have hcurrent : env'.current = env.scopes.length := h.scopes.current
  refine ⟨(keeps_restore hlayered.innermost h.scopes).toExtends,
    h.layered.restore (by omega), fun scope other hother ↦ ?_⟩
  rw [bindingAt?_restore_eq]
  split
  · rw [h.untouched scope other hother, bindingAt?_enter_eq]
  · rw [bindingAt?_of_length_le (by omega)]

/-! ### Single operations -/

theorem touches_assignYielding (hname : name ∈ names) (hlayered : env.Layered)
    (stored yielded : Value) :
    (env.assignYielding name stored yielded).Ensures (fun _ ↦ env.Touches names)
      (fun e env' ↦ env.Touches names env' ∧ e.IsAbout names) := by
  unfold assignYielding
  split
  · rename_i env' h
    exact touches_assign hname hlayered h
  · rename_i e h
    refine ⟨.refl hlayered, ?_⟩
    rcases hlayered.assign_cases name stored with ⟨-, h'⟩ | ⟨-, -, h'⟩ | ⟨-, env', -, h'⟩
    · cases h.symm.trans h'
      exact hname
    · cases h.symm.trans h'
      exact hname
    · cases h.symm.trans h'

theorem eq_of_get_error {e : RuntimeError} (h : env.get name = .error e) :
    e = .undefinedVariable name := by
  rw [get_eq] at h
  split at h <;> cases h
  rfl

theorem touches_assignTimed (hname : name ∈ names) (hlayered : env.Layered) (stored : Value)
    (timing : Timing) :
    (env.assignTimed name stored timing).Ensures (fun _ ↦ env.Touches names)
      (fun e env' ↦ env.Touches names env' ∧ e.IsAbout names) := by
  cases timing with
  | after => exact touches_assignYielding hname hlayered stored stored
  | before =>
      simp only [assignTimed]
      split
      · exact touches_assignYielding hname hlayered stored _
      · rename_i e he
        rw [eq_of_get_error he]
        exact ⟨.refl hlayered, hname⟩

theorem touches_update (hlayered : env.Layered) (step : Float) {operand : Expr}
    (hname : ∀ name span, operand = .reference name span → name ∈ names) :
    (env.update step operand).Ensures (fun _ ↦ env.Touches names)
      (fun e env' ↦ env.Touches names env' ∧ e.IsAbout names) := by
  unfold update
  split
  · rename_i name span
    have hname := hname name span rfl
    split
    · exact touches_assignYielding hname hlayered _ _
    · exact ⟨.refl hlayered, trivial⟩
    · rename_i e he
      rw [eq_of_get_error he]
      exact ⟨.refl hlayered, hname⟩
  · exact ⟨.refl hlayered, trivial⟩

end Environment

open Environment

/-- What the nodes of a program do to the names of a set, if they have no others. -/
theorem framing_touches (names : Set String) :
    Framing (fun node ↦ node.names ⊆ names)
      (fun env env' ↦ env.Layered → env.Touches names env')
      (fun e env env' ↦ env.Layered → env.Touches names env' ∧ e.IsAbout names) where
  refl env hlayered := .refl hlayered
  trans h h' hlayered := (h hlayered).trans (h' (h hlayered).layered)
  later h h' hlayered := by
    obtain ⟨htouches, habout⟩ := h' (h hlayered).layered
    exact ⟨(h hlayered).trans htouches, habout⟩
  reference hnode he hlayered := by
    rw [eq_of_get_error he]
    exact ⟨.refl hlayered, hnode rfl⟩
  assign env stored hnode :=
    Evaluated.ensures_of_imp fun hlayered ↦ touches_assignTimed (hnode rfl) hlayered stored _
  update env hnodes _ :=
    Evaluated.ensures_of_imp fun hlayered ↦ touches_update hlayered _ fun name span hoperand ↦ by
      subst hoperand
      exact hnodes (.expr (.reference name span)) (by simp [Expr.nodes]) rfl
  refusal env he hlayered := ⟨.refl hlayered, RuntimeError.isAbout_of_isRefusal he⟩
  define hnode h hlayered := touches_define (hnode rfl) hlayered h
  redefine env hnode hlayered := ⟨.refl hlayered, hnode rfl⟩
  output env hlayered := ⟨.refl hlayered, rfl⟩
  scope h hlayered := hlayered.touches_restore (h hlayered.enter)
  scopeError h hlayered :=
    ⟨hlayered.touches_restore (h hlayered.enter).1, (h hlayered.enter).2⟩

/-! ### Runs -/

variable {names : Set String} {state after : State}

theorem State.touches_eval (hlayered : state.environment.Layered) {expr : Expr}
    (h : ∀ node ∈ expr.nodes, node.names ⊆ names) :
    (state.eval expr).Leaves fun after ↦ state.environment.Touches names after.environment :=
  ((framing_touches names).frames_eval expr state h fun hlayered ↦ .refl hlayered).mono
    (fun _ _ h ↦ h hlayered) (fun _ _ h ↦ (h hlayered).1)

theorem Stmt.touches_run (bound : Nat) (hlayered : state.environment.Layered) {statement : Stmt}
    (h : ∀ node ∈ statement.nodes, node.names ⊆ names) :
    (statement.run bound state).Leaves fun after ↦
      state.environment.Touches names after.environment :=
  ((framing_touches names).frames_run bound statement state _ h fun hlayered ↦ .refl hlayered).mono
    (fun _ _ h ↦ h hlayered) (fun _ _ h ↦ (h hlayered).1)

/-- A program touches the names that occur in it, and its error is about one of them. -/
theorem touches_runProgram (bound : Nat) (statements : List Stmt)
    (hlayered : state.environment.Layered) :
    (runProgram bound statements state).Ensures
      (fun _ after ↦ state.environment.Touches (programNames statements) after.environment)
      (fun e after ↦ state.environment.Touches (programNames statements) after.environment ∧
        e.IsAbout (programNames statements)) :=
  ((framing_touches _).frames_runProgram (fun _ hlayered ↦ ⟨.refl hlayered, trivial⟩)
    (fun _ hlayered ↦ ⟨.refl hlayered, trivial⟩) bound statements state
    (fun _ ↦ names_subset_programNames) fun hlayered ↦ .refl hlayered).mono
    (fun _ _ h ↦ h hlayered) (fun _ _ h ↦ h hlayered)

theorem State.Reachable.layered (h : state.Reachable) : state.environment.Layered := by
  induction h with
  | initial output => exact layered_initial
  | enter h ih => exact ih.enter
  | @eval state after h expr hafter ih =>
      have htouches : (state.eval expr).Leaves fun after ↦
          state.environment.Touches Set.univ after.environment :=
        state.touches_eval ih fun _ _ ↦ Set.subset_univ _
      exact (Run.leaves_iff_state?.mp htouches after hafter).layered
  | @run state after h bound statement hafter ih =>
      have htouches : (statement.run bound state).Leaves fun after ↦
          state.environment.Touches Set.univ after.environment :=
        statement.touches_run bound ih fun _ _ ↦ Set.subset_univ _
      exact (Run.leaves_iff_state?.mp htouches after hafter).layered

end Sigil
