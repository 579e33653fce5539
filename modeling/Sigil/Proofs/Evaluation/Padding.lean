import Sigil.Proofs.Environment.Stack
import Sigil.Proofs.Evaluation.Simulation

/-!
# An empty scope makes no difference

An environment may have one more scope than another, in which no name is bound.
Lookups pass through that scope, so the two answer alike, and they go on doing so as
long as the names that are bound are bound further inside.  Once the scope is left,
the environments are the same.
-/

namespace Sigil

namespace Environment

variable {env env' after after' : Environment} {name : String} {value : Value} {place : Nat}

/-- The scope with a number by itself, apart from where it lies. -/
def frame? (env : Environment) (scope : Nat) : Option Scope :=
  env.scopes[scope]?.map ({ · with parent := none })

theorem bindingAt?_eq_frame? (env : Environment) (scope : Nat) (name : String) :
    env.bindingAt? scope name = (env.frame? scope).bind (·.find? name) := by
  rw [bindingAt?, frame?, Option.bind_map]
  rfl

theorem frame?_eq_none {scope : Nat} (h : env.scopes.length ≤ scope) : env.frame? scope = none := by
  rw [frame?, List.getElem?_eq_none h, Option.map_none]

theorem frame?_enter (env : Environment) (scope : Nat) :
    env.enter.frame? scope =
      if scope = env.scopes.length then some ⟨[], [], none⟩ else env.frame? scope := by
  rcases Nat.lt_trichotomy scope env.scopes.length with hscope | rfl | hscope
  · rw [if_neg (Nat.ne_of_lt hscope), frame?, enter, List.getElem?_append_left hscope, frame?]
  · simp [frame?, enter]
  · have hlength : env.enter.scopes.length ≤ scope := by simpa [enter, Nat.succ_le_iff] using hscope
    rw [if_neg (Nat.ne_of_gt hscope), frame?_eq_none hlength, frame?_eq_none (Nat.le_of_lt hscope)]

theorem frame?_restore (env : Environment) (start scope : Nat) :
    (env.restore start).frame? scope = if scope ≤ start then env.frame? scope else none := by
  rw [frame?, restore, List.getElem?_take]
  split <;> rename_i hscope
  · rw [if_pos (Nat.le_of_lt_succ hscope), frame?]
  · rw [if_neg fun hle ↦ hscope (Nat.lt_succ_of_le hle), Option.map_none]

/-- Layered environments are determined by their scopes, wherever these lie. -/
theorem Layered.eq_of_frames (h : env.Layered) (h' : env'.Layered)
    (hframes : ∀ scope, env'.frame? scope = env.frame? scope) : env' = env := by
  have hscopes : env'.scopes = env.scopes := by
    apply List.ext_getElem?
    intro scope
    have hframe := hframes scope
    rw [frame?, frame?] at hframe
    cases hfound : env.scopes[scope]? with
    | none =>
        rw [hfound, Option.map_none, Option.map_eq_none_iff] at hframe
        exact hframe
    | some found =>
        rw [hfound, Option.map_some] at hframe
        obtain ⟨found', hfound', hsame⟩ := Option.map_eq_some_iff.mp hframe
        have hparent := (h'.parents scope found' hfound').trans (h.parents scope found hfound).symm
        rw [hfound']
        obtain ⟨mutables, constants, parent⟩ := found
        obtain ⟨mutables', constants', parent'⟩ := found'
        cases hsame
        cases hparent
        rfl
  have hcurrent : env'.current = env.current := by rw [h.current, h'.current, hscopes]
  obtain ⟨scopes, current⟩ := env
  obtain ⟨scopes', current'⟩ := env'
  cases hscopes
  cases hcurrent
  rfl

/-! ### Padding -/

/-- The number of a scope once another one stands at a place. -/
def raised (place scope : Nat) : Nat := if scope < place then scope else scope + 1

/-- The second environment has an empty scope at a place, and otherwise the scopes of the first. -/
structure Padded (place : Nat) (env env' : Environment) : Prop where
  left : env.Layered
  right : env'.Layered
  positive : 0 < place
  within : place ≤ env.scopes.length
  depth : env'.scopes.length = env.scopes.length + 1
  frames : ∀ scope, env'.frame? (raised place scope) = env.frame? scope
  pad : env'.frame? place = some ⟨[], [], none⟩

theorem Layered.padded_enter (h : env.Layered) : env.Padded env.scopes.length env.enter where
  left := h
  right := h.enter
  positive := List.length_pos_iff.mpr h.nonempty
  within := Nat.le_refl _
  depth := by simp [Environment.enter]
  frames scope := by
    rw [frame?_enter, raised]
    split <;> rename_i hscope
    · rw [if_neg (Nat.ne_of_lt hscope)]
    · have hlength : env.scopes.length ≤ scope := Nat.le_of_not_lt hscope
      rw [if_neg (by omega), frame?_eq_none (by omega), frame?_eq_none hlength]
  pad := by rw [frame?_enter, if_pos rfl]

namespace Padded

theorem current_eq (h : env.Padded place env') : env'.current = env.current + 1 := by
  have hleft : env.scopes.length = env.current + 1 := h.left.innermost
  have hright : env'.scopes.length = env'.current + 1 := h.right.innermost
  have hdepth := h.depth
  omega

theorem bindingAt?_raised (h : env.Padded place env') (scope : Nat) (name : String) :
    env'.bindingAt? (raised place scope) name = env.bindingAt? scope name := by
  rw [bindingAt?_eq_frame?, h.frames, bindingAt?_eq_frame?]

theorem bindingAt?_pad (h : env.Padded place env') (name : String) :
    env'.bindingAt? place name = none := by
  rw [bindingAt?_eq_frame?, h.pad]
  rfl

/-- A walk outwards meets the same bindings: it passes through the empty scope. -/
theorem nearest?_raised (h : env.Padded place env') (name : String) (n : Nat) :
    env'.nearest? name (raised place n) =
      (env.nearest? name n).map (Prod.map (raised place) id) := by
  induction n with
  | zero =>
      have hraised : raised place 0 = 0 := if_pos h.positive
      have hbinding := h.bindingAt?_raised 0 name
      rw [hraised] at hbinding ⊢
      rw [nearest?, nearest?, hbinding]
      cases env.bindingAt? 0 name with
      | none => rfl
      | some binding => simp [hraised]
  | succ n ih =>
      obtain ⟨next, hnext⟩ : ∃ next, raised place (n + 1) = next + 1 := by
        rw [raised]
        split
        · exact ⟨n, rfl⟩
        · exact ⟨n + 1, rfl⟩
      have hbinding := h.bindingAt?_raised (n + 1) name
      rw [hnext] at hbinding ⊢
      rw [nearest?, nearest?, hbinding]
      cases env.bindingAt? (n + 1) name with
      | some binding => simp [hnext]
      | none =>
          rw [← ih]
          by_cases hplace : n + 1 = place
          · -- The next scope outwards is the empty one.
            have hlast : raised place n = n := if_pos (by omega)
            have hstep : next = n + 1 := by
              rw [raised, if_neg (by omega)] at hnext
              omega
            rw [hstep, nearest?, hplace, h.bindingAt?_pad, hlast]
          · have hstep : next = raised place n := by
              unfold raised at hnext ⊢
              split at hnext <;> split <;> omega
            rw [hstep]

theorem find?_eq (h : env.Padded place env') (name : String) :
    env'.find? name = (env.find? name).map (Prod.map (raised place) id) := by
  rw [h.left.find?_eq, h.right.find?_eq, h.current_eq, ← h.nearest?_raised]
  rcases Nat.lt_or_ge env.current place with hplace | hplace
  · -- The empty scope is the current one, so the walk begins there.
    have hlast : env.scopes.length = env.current + 1 := h.left.innermost
    have hpad : env.current + 1 = place := Nat.le_antisymm hplace (hlast ▸ h.within)
    rw [raised, if_pos hplace, nearest?, hpad, h.bindingAt?_pad]
  · rw [raised, if_neg (Nat.not_lt.mpr hplace)]

theorem get_eq (h : env.Padded place env') (name : String) : env.get name = env'.get name := by
  rw [Environment.get_eq, Environment.get_eq, h.find?_eq]
  cases env.find? name <;> rfl

/-- The scopes stay related if one of them is changed in the same way. -/
theorem of_frames (h : env.Padded place env') {scope : Nat} {frame : Scope}
    (hleft : after.Layered) (hright : after'.Layered)
    (hlength : after.scopes.length = env.scopes.length)
    (hlength' : after'.scopes.length = env'.scopes.length)
    (hframes : ∀ other, after.frame? other =
      if other = scope then some frame else env.frame? other)
    (hframes' : ∀ other, after'.frame? other =
      if other = raised place scope then some frame else env'.frame? other) :
    after.Padded place after' where
  left := hleft
  right := hright
  positive := h.positive
  within := hlength ▸ h.within
  depth := by rw [hlength, hlength', h.depth]
  frames other := by
    have hinjective : raised place other = raised place scope ↔ other = scope := by
      unfold raised
      split <;> split <;> omega
    simp only [hframes, hframes', hinjective, h.frames]
  pad := by
    have hne : place ≠ raised place scope := by
      unfold raised
      split <;> omega
    rw [hframes', if_neg hne, h.pad]

theorem frame?_modify {scope : Nat} {frame : Scope}
    (h : env.frame? scope = some frame) (other : Nat) :
    frame? ⟨env.scopes.modify scope (·.replace name value), env.current⟩ other =
      if other = scope then some (frame.replace name value) else env.frame? other := by
  obtain ⟨found, hfound, rfl⟩ := Option.map_eq_some_iff.mp h
  split <;> rename_i hother
  · subst hother
    simp [frame?, hfound, Scope.replace]
  · simp [frame?, Ne.symm hother]

theorem assign (h : env.Padded place env') (name : String) (value : Value) :
    Matched (Padded place) (env.assign name value) (env'.assign name value) := by
  have hfind := h.find?_eq name
  cases hfound : env.find? name with
  | none =>
      rw [hfound] at hfind
      rw [Environment.assign_eq, Environment.assign_eq, hfound, hfind]
      exact .error _
  | some found =>
      obtain ⟨scope, kind, old⟩ := found
      rw [hfound] at hfind
      cases kind with
      | constant =>
          rw [Environment.assign_eq, Environment.assign_eq, hfound, hfind]
          exact .error _
      | mutable =>
          have hassign : env.assign name value = .ok
              ⟨env.scopes.modify scope (·.replace name value), env.current⟩ := by
            rw [Environment.assign_eq, hfound]
          have hassign' : env'.assign name value = .ok
              ⟨env'.scopes.modify (raised place scope) (·.replace name value), env'.current⟩ := by
            rw [Environment.assign_eq, hfind]
            rfl
          have hbinding := bindingAt?_of_find? hfound
          rw [bindingAt?_eq_frame?] at hbinding
          obtain ⟨frame, hframe, -⟩ := Option.bind_eq_some_iff.mp hbinding
          have hframe' := (h.frames scope).trans hframe
          rw [hassign, hassign']
          exact .ok (h.of_frames (h.left.assign hassign) (h.right.assign hassign') (by simp)
            (by simp) (frame?_modify hframe) (frame?_modify hframe'))

theorem frame?_set {scope : Nat} (hscope : scope < env.scopes.length) (found : Scope)
    (other : Nat) :
    frame? ⟨env.scopes.set scope found, env.current⟩ other =
      if other = scope then some { found with parent := none } else env.frame? other := by
  split <;> rename_i hother
  · subst hother
    simp [frame?, List.getElem?_set_self hscope]
  · simp [frame?, Ne.symm hother]

/-- A name is bound in the same way in a scope inside the empty one. -/
theorem define (h : env.Padded place env') (hplace : place ≤ env.current) (name : String)
    (mutability : Mutability) (value : Value) :
    Matched (Padded place) (env.define name mutability value)
      (env'.define name mutability value) := by
  have hcurrent : env'.current = raised place env.current := by
    rw [h.current_eq, raised, if_neg (Nat.not_lt.mpr hplace)]
  have hlast : env.scopes.length = env.current + 1 := h.left.innermost
  have hlast' : env'.scopes.length = env'.current + 1 := h.right.innermost
  obtain ⟨found, hfound, -⟩ := h.left.exists_scope (Nat.le_refl _)
  obtain ⟨found', hfound', -⟩ := h.right.exists_scope (Nat.le_refl _)
  have hframe : ({ found' with parent := none } : Scope) = { found with parent := none } := by
    have hframe := h.frames env.current
    rwa [← hcurrent, frame?, frame?, hfound, hfound', Option.map_some, Option.map_some,
      Option.some_inj] at hframe
  have hsame : found'.find? name = found.find? name := by
    have hfind := congrArg (Scope.find? · name) hframe
    exact hfind
  by_cases hbound : (found.find? name).isSome
  · rw [Environment.define_eq, Environment.define_eq, hfound, hfound']
    simp only [hsame, hbound, if_true]
    exact .error _
  · have hdefine : env.define name mutability value = .ok ⟨env.scopes.set env.current
        (found.insert name value mutability), env.current⟩ := by
      simp only [Environment.define_eq, hfound, hbound]
      rfl
    have hdefine' : env'.define name mutability value = .ok ⟨env'.scopes.set env'.current
        (found'.insert name value mutability), env'.current⟩ := by
      simp only [Environment.define_eq, hfound', hsame, hbound]
      rfl
    rw [hdefine, hdefine']
    refine .ok (h.of_frames (h.left.define hdefine) (h.right.define hdefine') (by simp) (by simp)
      (frame?_set (by omega) _) ?_)
    intro other
    have hinsert (scope : Scope) :
        ({ scope.insert name value mutability with parent := none } : Scope) =
          Scope.insert { scope with parent := none } name value mutability := by
      cases mutability <;> rfl
    rw [frame?_set (by omega), hcurrent, hinsert, hinsert, hframe]

theorem enter (h : env.Padded place env') : env.enter.Padded place env'.enter where
  left := h.left.enter
  right := h.right.enter
  positive := h.positive
  within := by
    have hwithin := h.within
    simp only [Environment.enter, List.length_append, List.length_singleton]
    omega
  depth := by simp [Environment.enter, h.depth]
  frames scope := by
    have hlast : raised place scope = env'.scopes.length ↔ scope = env.scopes.length := by
      have hwithin := h.within
      rw [h.depth]
      unfold raised
      split <;> omega
    simp only [frame?_enter, hlast, h.frames]
  pad := by
    have hne : place ≠ env'.scopes.length := by
      have hwithin := h.within
      have hdepth := h.depth
      omega
    rw [frame?_enter, if_neg hne, h.pad]

theorem restore (h : env.Padded place env') {start : Nat} (hstart : start ≤ env.current)
    (hplace : place ≤ start + 1) :
    (env.restore start).Padded place (env'.restore (start + 1)) where
  left := h.left.restore hstart
  right := h.right.restore (by rw [h.current_eq]; omega)
  positive := h.positive
  within := by
    have hlast : env.scopes.length = env.current + 1 := h.left.innermost
    simp only [Environment.restore, List.length_take]
    omega
  depth := by
    have hdepth := h.depth
    simp only [Environment.restore, List.length_take]
    omega
  frames scope := by
    have hkept : raised place scope ≤ start + 1 ↔ scope ≤ start := by
      unfold raised
      split <;> omega
    simp only [frame?_restore, hkept, h.frames]
  pad := by rw [frame?_restore, if_pos hplace, h.pad]

/-- Leaving the empty scope gives the other environment. -/
theorem restore_eq (h : env.Padded env.scopes.length env') : env'.restore env.current = env := by
  have hlast : env.scopes.length = env.current + 1 := h.left.innermost
  refine h.left.eq_of_frames (h.right.restore (by rw [h.current_eq]; omega)) fun scope ↦ ?_
  rw [frame?_restore]
  split <;> rename_i hscope
  · have hframe := h.frames scope
    rwa [raised, if_pos (by omega)] at hframe
  · rw [frame?_eq_none (by omega)]

end Padded

theorem Matched.and_of_ok {related : Environment → Environment → Prop} {inv : Environment → Prop}
    {result result' : Except RuntimeError Environment} (h : Matched related result result')
    (hinv : ∀ after, result = .ok after → inv after) :
    Matched (fun after after' ↦ related after after' ∧ inv after) result result' := by
  cases h with
  | ok h => exact .ok ⟨h, hinv _ rfl⟩
  | error e => exact .error e

/-- Environments that differ by an empty scope are the same to every tree.  Names may be bound
inside that scope only. -/
theorem simulation_padded (place : Nat) :
    Simulation Set.univ fun opened env env' ↦
      env.Padded place env' ∧ (opened = true → place ≤ env.current) where
  get h _ := h.1.get_eq _
  assign value h _ := by
    refine (h.1.assign _ value).and_of_ok fun after hafter hopened ↦ ?_
    rw [(keeps_assign hafter).current]
    exact h.2 hopened
  define mutability value h _ := by
    refine (h.1.define (h.2 rfl) _ mutability value).and_of_ok fun after hafter hopened ↦ ?_
    rw [(extends_define hafter).current]
    exact h.2 hopened
  enter h := ⟨h.1.enter, fun _ ↦ h.1.within⟩
  restore {_ env _ inner _} h hextends _ hinner := by
    have hcurrent : inner.current = env.scopes.length := hextends.current
    have hlast : env.scopes.length = env.current + 1 := h.1.left.innermost
    have hwithin := h.1.within
    refine ⟨?_, h.2⟩
    rw [h.1.current_eq]
    exact hinner.1.restore (by omega) (by omega)

end Environment

/-! ### Blocks that bind nothing -/

theorem Run.Matched.mapState_eq {α : Type} {run run' : Run α} {f : State → State}
    (h : run.Matched (fun state state' ↦ f state' = state) run') : run'.mapState f = run := by
  cases h with
  | done a h => exact congrArg (Run.done a) h
  | failed e h => exact congrArg (Run.failed e) h
  | unfinished => rfl

theorem Channel.Alike.eq {channel left right : Channel} (h : Alike channel channel left right) :
    right = left := by
  obtain ⟨text, rfl, rfl⟩ := h
  rfl

/-- A block of statements that bind no name in it is the same as its statements by themselves. -/
theorem Stmt.run_block_eq_runBlock (bound : Nat) {statements : List Stmt} {state : State}
    (hlayered : state.environment.Layered)
    (hdeclares : ∀ statement ∈ statements, statement.declares = false) :
    (Stmt.block statements).run bound state = Stmt.runBlock bound statements state := by
  have hmatched := (Environment.simulation_padded state.environment.scopes.length).matched_runBlock
    rfl bound statements false state state.enter (fun _ _ ↦ Set.subset_univ _)
    (fun statement hmem hopened ↦ absurd hopened (by simp [hdeclares statement hmem]))
    ⟨⟨hlayered.padded_enter, nofun⟩, Channel.alike_self _ _⟩
  have hextends := Stmt.extends_runBlock bound statements state _ hlayered.innermost (.refl _)
  have hinside := Stmt.extends_runBlock bound statements state.enter _
    (Environment.innermost_enter _) (.refl _)
  rw [Stmt.run, State.inScope]
  refine ((hmatched.and_leaves hextends hinside).mono fun after after' h ↦ ?_).mapState_eq
  obtain ⟨hafter, -, hrelates⟩ := h
  have hpadded := hrelates.environment.1
  rw [← hafter.length] at hpadded
  obtain ⟨env, output⟩ := after
  obtain ⟨env', output'⟩ := after'
  have houtput : output' = output := hrelates.output.eq
  have henv : env'.restore env.current = env := hpadded.restore_eq
  have hcurrent : env.current = state.environment.current := hafter.current
  rw [State.restore, ← hcurrent, henv, houtput]

end Sigil
