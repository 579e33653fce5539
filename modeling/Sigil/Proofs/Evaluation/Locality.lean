import Mathlib
import Sigil.Proofs.Evaluation.Bound
import Sigil.Proofs.Evaluation.Footprint
import Sigil.Proofs.Evaluation.Simulation

/-!
# A program depends on its own names only

Two states with equally many scopes, which have the same bindings of the names that
occur in a program, are the same to it: it ends in the same way from both and writes
the same text, and its names have the same bindings again.  The other names keep
their bindings.
-/

namespace Sigil

namespace Environment

variable {names : Set String} {env env' : Environment} {name : String} {value : Value}

/-- There are equally many scopes, and each has the same bindings of the given names. -/
structure AgreesOn (names : Set String) (env env' : Environment) : Prop where
  depth : env'.scopes.length = env.scopes.length
  bindings : ∀ scope, ∀ name ∈ names, env'.bindingAt? scope name = env.bindingAt? scope name

theorem nearest?_congr (h : ∀ scope, env'.bindingAt? scope name = env.bindingAt? scope name)
    (n : Nat) : env'.nearest? name n = env.nearest? name n := by
  induction n with
  | zero => rw [nearest?, nearest?, h]
  | succ n ih => rw [nearest?, nearest?, h, ih]

/-- Besides, the scopes of both environments are layered, so that lookups go through them in the
same order. -/
structure LayeredAlike (names : Set String) (env env' : Environment) : Prop
    extends AgreesOn names env env' where
  left : env.Layered
  right : env'.Layered

namespace LayeredAlike

theorem current_eq (h : env.LayeredAlike names env') : env'.current = env.current := by
  rw [h.left.current, h.right.current, h.depth]

theorem find?_eq (h : env.LayeredAlike names env') (hname : name ∈ names) :
    env'.find? name = env.find? name := by
  rw [h.left.find?_eq, h.right.find?_eq, h.current_eq]
  exact nearest?_congr (fun scope ↦ h.bindings scope name hname) env.current

theorem get_eq (h : env.LayeredAlike names env') (hname : name ∈ names) :
    env.get name = env'.get name := by
  rw [Environment.get_eq, Environment.get_eq, h.find?_eq hname]

theorem assign (h : env.LayeredAlike names env') (hname : name ∈ names) (value : Value) :
    Matched (LayeredAlike names) (env.assign name value) (env'.assign name value) := by
  have hfind := h.find?_eq hname
  cases hfound : env.find? name with
  | none =>
      rw [hfound] at hfind
      rw [Environment.assign_eq, Environment.assign_eq, hfound, hfind]
      exact .error _
  | some found =>
      obtain ⟨scope, kind, old⟩ := found
      rw [hfound] at hfind
      cases kind with
      | constant =>
          rw [Environment.assign_eq, Environment.assign_eq, hfound, hfind]
          exact .error _
      | mutable =>
          have hassign : env.assign name value = .ok
              ⟨env.scopes.modify scope (·.replace name value), env.current⟩ := by
            rw [Environment.assign_eq, hfound]
          have hassign' : env'.assign name value = .ok
              ⟨env'.scopes.modify scope (·.replace name value), env'.current⟩ := by
            rw [Environment.assign_eq, hfind]
          rw [hassign, hassign']
          refine .ok ⟨⟨by simpa using h.depth, ?_⟩, h.left.assign hassign, h.right.assign hassign'⟩
          intro other key hkey
          rw [bindingAt?_modify (bindingAt?_of_find? hfound),
            bindingAt?_modify (bindingAt?_of_find? hfind), h.bindings other key hkey]

theorem define (h : env.LayeredAlike names env') (hname : name ∈ names) (mutability : Mutability)
    (value : Value) :
    Matched (LayeredAlike names) (env.define name mutability value)
      (env'.define name mutability value) := by
  -- The current scopes both have the name or both lack it.
  have hmem : name ∈ env'.stack.top ↔ name ∈ env.stack.top := by
    rw [mem_top_iff, mem_top_iff, h.current_eq, h.bindings _ name hname]
  rcases h.left.define_eq name mutability value with
    ⟨htop, hdefine⟩ | ⟨after, htop, hdefine, -, hbindings⟩
  · rcases h.right.define_eq name mutability value with ⟨-, hdefine'⟩ | ⟨_, htop', -⟩
    · rw [hdefine, hdefine']
      exact .error _
    · exact (htop' (hmem.mpr htop)).elim
  · rcases h.right.define_eq name mutability value with
      ⟨htop', -⟩ | ⟨after', -, hdefine', -, hbindings'⟩
    · exact (htop (hmem.mp htop')).elim
    · rw [hdefine, hdefine']
      refine .ok ⟨⟨?_, ?_⟩, h.left.define hdefine, h.right.define hdefine'⟩
      · rw [(extends_define hdefine').length, (extends_define hdefine).length, h.depth]
      · intro other key hkey
        rw [hbindings, hbindings', h.current_eq, h.bindings other key hkey]

theorem enter (h : env.LayeredAlike names env') : env.enter.LayeredAlike names env'.enter := by
  refine ⟨⟨by simp [Environment.enter, h.depth], ?_⟩, h.left.enter, h.right.enter⟩
  intro scope name hname
  rw [bindingAt?_enter_eq, bindingAt?_enter_eq, h.bindings scope name hname]

theorem restore {inner inner' : Environment} (h : env.LayeredAlike names env')
    (hextends : env.enter.Extends inner) (hextends' : env'.enter.Extends inner')
    (hinner : inner.LayeredAlike names inner') :
    (inner.restore env.current).LayeredAlike names (inner'.restore env'.current) := by
  have hlast : env.scopes.length = env.current + 1 := h.left.innermost
  have hcurrent : inner.current = env.scopes.length := hextends.current
  have hcurrent' : inner'.current = env'.scopes.length := hextends'.current
  have hdepth := h.depth
  refine ⟨⟨?_, ?_⟩, hinner.left.restore (by omega), hinner.right.restore ?_⟩
  · simp only [Environment.restore, List.length_take, hinner.depth, h.current_eq]
  · intro scope name hname
    rw [bindingAt?_restore_eq, bindingAt?_restore_eq, h.current_eq,
      hinner.bindings scope name hname]
  · rw [h.current_eq]
    omega

end LayeredAlike

theorem simulation_layeredAlike (names : Set String) :
    Simulation names fun _ ↦ LayeredAlike names where
  get h hname := h.get_eq hname
  assign value h hname := h.assign hname value
  define mutability value h hname := h.define hname mutability value
  enter h := h.enter
  restore h hextends hextends' hinner := h.restore hextends hextends' hinner

end Environment

/-! ### Programs -/

/-- Two runs end in the same way, in states that agree on the names, having written the same text,
and neither has changed a binding of another name. -/
structure SameEffect {α : Type} (names : Set String) (state state' : State) (run run' : Run α) :
    Prop where
  matched : run.Matched (fun after after' ↦ after.environment.AgreesOn names after'.environment ∧
    Channel.Alike state.output state'.output after.output after'.output) run'
  left : run.Leaves fun after ↦ ∀ scope, ∀ name ∉ names,
    after.environment.bindingAt? scope name = state.environment.bindingAt? scope name
  right : run'.Leaves fun after ↦ ∀ scope, ∀ name ∉ names,
    after.environment.bindingAt? scope name = state'.environment.bindingAt? scope name

section Programs

variable {statements : List Stmt} {state state' : State}

theorem sameEffect_runProgram (bound : Nat)
    (h : state.environment.LayeredAlike (programNames statements) state'.environment)
    (hroom : state.output.room = state'.output.room) :
    SameEffect (programNames statements) state state' (runProgram bound statements state)
      (runProgram bound statements state') := by
  have hmatched := (Environment.simulation_layeredAlike _).matched_runProgram hroom bound
    statements (fun _ ↦ names_subset_programNames) ⟨h, Channel.alike_self _ _⟩
  refine ⟨hmatched.mono fun _ _ h ↦ ⟨h.environment.toAgreesOn, h.output⟩, ?_, ?_⟩
  · exact (touches_runProgram bound statements h.left).mono (fun _ _ h ↦ h.untouched)
      (fun _ _ h ↦ h.1.untouched)
  · exact (touches_runProgram bound statements h.right).mono (fun _ _ h ↦ h.untouched)
      (fun _ _ h ↦ h.1.untouched)

theorem sameEffect_run (bound : Nat) {statement : Stmt} (hstatement : statement ∈ statements)
    (h : state.environment.LayeredAlike (programNames statements) state'.environment)
    (hroom : state.output.room = state'.output.room) :
    SameEffect (programNames statements) state state' (statement.run bound state)
      (statement.run bound state') := by
  have hnames : ∀ node ∈ statement.nodes, node.names ⊆ programNames statements :=
    fun node hnode ↦ names_subset_programNames (Stmt.mem_nodesAll hstatement hnode)
  have hmatched := (Environment.simulation_layeredAlike _).matched_run hroom bound statement true
    state state' hnames (fun _ ↦ rfl) ⟨h, Channel.alike_self _ _⟩
  refine ⟨hmatched.mono fun _ _ h ↦ ⟨h.environment.toAgreesOn, h.output⟩, ?_, ?_⟩
  · exact (statement.touches_run bound h.left hnames).mono fun _ h ↦ h.untouched
  · exact (statement.touches_run bound h.right hnames).mono fun _ h ↦ h.untouched

theorem SameEffect.unfinished_iff {α : Type} {names : Set String} {run run' : Run α}
    (h : SameEffect names state state' run run') : run = .unfinished ↔ run' = .unfinished := by
  obtain ⟨hmatched, -, -⟩ := h
  cases hmatched <;> simp

/-- Two states that agree on the names of a program and whose outputs have the same room are the
same to it: from both of them or from neither it ends, with the same result or error and the same
text written, in states that agree again; and other names keep their bindings.  The same holds of
each of its statements, with the signal it ends with.

`hroom` is a condition on the writers behind the outputs and not on the environments: a writer that
closes fails the program when its room is used up.  It holds of any two writers that do not close,
whatever has been written to them. -/
theorem State.Reachable.runs_agree (h : state.Reachable) (h' : state'.Reachable)
    (hagree : state.environment.AgreesOn (programNames statements) state'.environment)
    (hroom : state.output.room = state'.output.room) :
    ((∃ result, RunsTo statements state result) ↔ ∃ result, RunsTo statements state' result) ∧
    (∀ result result', RunsTo statements state result → RunsTo statements state' result' →
      SameEffect (programNames statements) state state' result result') ∧
    ∀ statement ∈ statements, ∀ bound,
      SameEffect (programNames statements) state state' (statement.run bound state)
        (statement.run bound state') := by
  have halike : state.environment.LayeredAlike (programNames statements) state'.environment :=
    ⟨hagree, h.layered, h'.layered⟩
  have hprogram := fun bound ↦ sameEffect_runProgram bound halike hroom
  refine ⟨?_, ?_, fun statement hstatement bound ↦ sameEffect_run bound hstatement halike hroom⟩
  · constructor
    · rintro ⟨_, hne, bound, rfl⟩
      exact ⟨_, (hprogram bound).unfinished_iff.not.mp hne, bound, rfl⟩
    · rintro ⟨_, hne, bound, rfl⟩
      exact ⟨_, (hprogram bound).unfinished_iff.not.mpr hne, bound, rfl⟩
  · rintro _ result' ⟨hne, bound, rfl⟩ hresult'
    have hends : RunsTo statements state' (Sigil.runProgram bound statements state') :=
      ⟨(hprogram bound).unfinished_iff.not.mp hne, bound, rfl⟩
    rw [hresult'.unique hends]
    exact hprogram bound

theorem sameEffect_beside_constant :
    SameEffect (programNames [.console (.template "@x"), .expression (.reference "@z" ⟨0, 0⟩)])
      ⟨⟨[⟨[("@x", .null)], [], none⟩], 0⟩, .unlimited⟩
      ⟨⟨[⟨[("@x", .null)], [("@y", .null)], none⟩], 0⟩, .unlimited⟩
      (Run.failed (.undefinedVariable "@z")
        ⟨⟨[⟨[("@x", .null)], [], none⟩], 0⟩, ⟨"null\n", none⟩⟩ : Run Unit)
      (Run.failed (.undefinedVariable "@z")
        ⟨⟨[⟨[("@x", .null)], [("@y", .null)], none⟩], 0⟩,
          ⟨"null\n", none⟩⟩) := by
  have hdeclared : (State.mk ⟨[⟨[("@x", .null)], [], none⟩], 0⟩ .unlimited).Reachable :=
    .run (.initial .unlimited) 0 (.declaration "@x" ⟨0, 0⟩ none .mutable) rfl
  have hbeside : (State.mk ⟨[⟨[("@x", .null)], [("@y", .null)], none⟩], 0⟩
      .unlimited).Reachable :=
    .run hdeclared 0 (.declaration "@y" ⟨0, 0⟩ none .constant) rfl
  -- Every node is looked at, the template's text included.
  have hnames : "@y" ∉ programNames
      [.console (.template "@x"), .expression (.reference "@z" ⟨0, 0⟩)] := by
    rintro ⟨node, hnode, hname⟩
    simp only [Stmt.nodesAll_cons, Stmt.nodesAll_nil, Stmt.nodes, Expr.nodes, List.append_nil,
      List.cons_append, List.nil_append, List.mem_cons, List.not_mem_nil, or_false] at hnode
    rcases hnode with rfl | rfl | rfl | rfl
    · exact hname
    · obtain ⟨before, run, after, htext, -, -, -, hrun⟩ := hname
      have hrun : ['@', 'y'] = '@' :: run := by simpa using congrArg String.toList hrun
      cases hrun
      have hmem : 'y' ∈ "@x".toList := by simp [htext]
      exact absurd hmem (by decide)
    · exact hname
    · exact absurd (Set.mem_singleton_iff.mp hname) (by decide)
  refine (hdeclared.runs_agree hbeside ⟨rfl, ?_⟩ rfl).2.1 _ _ ⟨by simp, 0, ?_⟩ ⟨by simp, 0, ?_⟩
  · intro scope name hname
    have hne : name ≠ "@y" := fun heq ↦ hnames (heq ▸ hname)
    cases scope with
    | zero => simp [Environment.bindingAt?, Scope.find?, Scope.lookup_cons, hne]
    | succ scope => rfl
  · cbv
  · cbv

end Programs

end Sigil
