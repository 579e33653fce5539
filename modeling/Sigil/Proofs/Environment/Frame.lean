import Sigil.Proofs.Environment.Owner

/-!
# What operations on environments leave alone

Assigning changes the value of one variable.  Binding adds one name to the current
scope.  Going back to a scope undoes the entering of another one inside it, if
nothing has been dropped or left open in between.
-/

namespace Sigil

namespace Environment

variable {env env' env'' : Environment} {name : String} {value : Value}

/-- The binding of a name in the scope with a number. -/
def bindingAt? (env : Environment) (scope : Nat) (name : String) : Option Binding :=
  env.scopes[scope]?.bind (·.find? name)

/-- Whether a name is a variable or a constant in the scope with a number, if it is there. -/
def kindAt? (env : Environment) (scope : Nat) (name : String) : Option Mutability :=
  (env.bindingAt? scope name).map Binding.mutability

/-! ### Single operations -/

theorem bindingAt?_of_findFrom? {scopes : List Scope} {current : Nat} {binding : Binding}
    {scope : Nat} (steps : Nat) (start : Option Nat)
    (h : findFrom? scopes name steps start = some (scope, binding)) :
    bindingAt? ⟨scopes, current⟩ scope name = some binding := by
  fun_induction findFrom? scopes name steps start with
  | case1 => cases h
  | case2 steps start found hfound other hother =>
      cases h
      rw [bindingAt?, hfound, Option.bind_some, hother]
  | case3 steps start found hfound hnone ih => exact ih h
  | case4 => cases h

theorem bindingAt?_of_find? {scope : Nat} {binding : Binding}
    (h : env.find? name = some (scope, binding)) : env.bindingAt? scope name = some binding :=
  bindingAt?_of_findFrom? _ _ h

/-- Replacing the value of a variable in one scope changes that binding only. -/
theorem bindingAt?_modify {scope : Nat} {old : Value}
    (h : env.bindingAt? scope name = some ⟨.mutable, old⟩) (other : Nat) (key : String) :
    bindingAt? ⟨env.scopes.modify scope (·.replace name value), env.current⟩ other key =
      if other = scope ∧ key = name then some ⟨.mutable, value⟩ else env.bindingAt? other key := by
  by_cases hother : scope = other
  · subst hother
    obtain ⟨found, hfound, hbinding⟩ := Option.bind_eq_some_iff.mp h
    have hvariable : ∀ old, found.find? name ≠ some ⟨.constant, old⟩ := by simp [hbinding]
    by_cases hkey : key = name
    · subst hkey
      simp [bindingAt?, hfound, Scope.find?_replace hvariable, hbinding]
    · simp [bindingAt?, hfound, Scope.find?_replace hvariable, hkey]
  · simp [bindingAt?, hother, Ne.symm hother]

/-- Inserting into one scope adds that binding only. -/
theorem bindingAt?_set {scope : Nat} {found : Scope} {mutability : Mutability}
    (h : env.scopes[scope]? = some found) (hnone : found.find? name = none) (other : Nat)
    (key : String) :
    bindingAt? ⟨env.scopes.set scope (found.insert name value mutability), env.current⟩ other key =
      if other = scope ∧ key = name then some ⟨mutability, value⟩
      else env.bindingAt? other key := by
  by_cases hother : scope = other
  · subst hother
    have hlt : scope < env.scopes.length := (List.getElem?_eq_some_iff.mp h).1
    simp only [bindingAt?, List.getElem?_set_self hlt, h, Option.bind_some,
      Scope.find?_insert hnone, true_and]
  · simp [bindingAt?, hother, Ne.symm hother]

/-- What is assigned is the nearest binding of the name, and it is a variable. -/
theorem exists_find?_of_assign (h : env.assign name value = .ok env') :
    ∃ scope old, env.find? name = some (scope, ⟨.mutable, old⟩) ∧
      env' = { env with scopes := env.scopes.modify scope (·.replace name value) } := by
  rw [assign_eq] at h
  split at h
  · cases h
  · cases h
  · rename_i scope old hfind
    cases h
    exact ⟨scope, old, hfind, rfl⟩

/-- Assigning changes one variable, in one scope. -/
theorem assign_eq_ok (h : env.assign name value = .ok env') :
    env'.current = env.current ∧ env'.scopes.map Scope.parent = env.scopes.map Scope.parent ∧
      ∃ scope, env.kindAt? scope name = some .mutable ∧ ∀ other key,
        env'.bindingAt? other key =
          if other = scope ∧ key = name then some ⟨.mutable, value⟩
          else env.bindingAt? other key := by
  obtain ⟨scope, old, hfind, rfl⟩ := exists_find?_of_assign h
  have hbinding := bindingAt?_of_find? hfind
  refine ⟨rfl, ?_, scope, by rw [kindAt?, hbinding, Option.map_some], bindingAt?_modify hbinding⟩
  apply List.ext_getElem?
  intro i
  by_cases hi : scope = i <;> simp [hi, Scope.replace, Function.comp_def]

/-- A variable is found where it was, with its new value. -/
theorem findFrom?_modify {scopes : List Scope} {scope : Nat} {old : Value} (value : Value)
    (steps : Nat) (start : Option Nat)
    (h : findFrom? scopes name steps start = some (scope, ⟨.mutable, old⟩)) :
    findFrom? (scopes.modify scope (·.replace name value)) name steps start =
      some (scope, ⟨.mutable, value⟩) := by
  fun_induction findFrom? scopes name steps start with
  | case1 => cases h
  | case2 steps start found hfound other hother =>
      cases h
      have hvariable : ∀ old, found.find? name ≠ some ⟨.constant, old⟩ := by simp [hother]
      simp [findFrom?, hfound, Scope.find?_replace hvariable, hother]
  | case3 steps start found hfound hnone ih =>
      -- a scope without the name is passed again, even if it were the assigned one
      have hvariable : ∀ old, found.find? name ≠ some ⟨.constant, old⟩ := by simp [hnone]
      by_cases hscope : scope = start
      · subst hscope
        simpa [findFrom?, hfound, Scope.find?_replace hvariable, hnone] using ih h
      · simpa [findFrom?, hfound, hscope, hnone] using ih h
  | case4 => cases h

theorem get_of_assign (h : env.assign name value = .ok env') : env'.get name = .ok value := by
  obtain ⟨scope, old, hfind, rfl⟩ := exists_find?_of_assign h
  have hmodified := findFrom?_modify value _ _ hfind
  simp [get_eq, find?, hmodified]

theorem exists_find?_of_get (h : env.get name = .ok value) :
    ∃ scope mutability, env.find? name = some (scope, ⟨mutability, value⟩) := by
  rw [get_eq] at h
  split at h
  · rename_i scope binding hfind
    cases h
    exact ⟨scope, binding.mutability, hfind⟩
  · cases h

/-- Binding adds one name to the current scope, unless there is no such scope. -/
theorem define_eq_ok {mutability : Mutability} (h : env.define name mutability value = .ok env') :
    env' = env ∨
      (env'.current = env.current ∧
        env'.scopes.map Scope.parent = env.scopes.map Scope.parent ∧
        env.bindingAt? env.current name = none ∧ ∀ other key,
          env'.bindingAt? other key =
            if other = env.current ∧ key = name then some ⟨mutability, value⟩
            else env.bindingAt? other key) := by
  rw [define_eq] at h
  split at h
  · cases h
    exact .inl rfl
  · rename_i scope hscope
    split at h
    · cases h
    · rename_i hbound
      have hnone : scope.find? name = none := by simpa using hbound
      cases h
      refine .inr ⟨rfl, ?_, by rw [bindingAt?, hscope, Option.bind_some, hnone],
        bindingAt?_set hscope hnone⟩
      have hlt : env.current < env.scopes.length := (List.getElem?_eq_some_iff.mp hscope).1
      apply List.ext_getElem?
      intro i
      by_cases hi : env.current = i
      · subst hi
        rw [List.getElem?_map, List.getElem?_set_self hlt, List.getElem?_map, hscope,
          Option.map_some, Option.map_some, Scope.parent_insert]
      · simp [hi]

/-! ### Frames -/

/-- The second environment has the same scopes in the same places, each inside the same one, and
the same one is current.  Names may have been added to the current scope only, none has been lost
or has become a variable instead of a constant or the other way round, and constants have their
values. -/
structure Extends (env env' : Environment) : Prop where
  current : env'.current = env.current
  length : env'.scopes.length = env.scopes.length
  parents : env'.scopes.map Scope.parent = env.scopes.map Scope.parent
  others : ∀ scope name, scope ≠ env.current → env'.kindAt? scope name = env.kindAt? scope name
  own : ∀ name kind, env.kindAt? env.current name = some kind →
    env'.kindAt? env.current name = some kind
  constants : ∀ scope name value, env.bindingAt? scope name = some ⟨.constant, value⟩ →
    env'.bindingAt? scope name = some ⟨.constant, value⟩

/-- Besides, no name has been added. -/
structure Keeps (env env' : Environment) : Prop extends Extends env env' where
  kinds : ∀ scope name, env'.kindAt? scope name = env.kindAt? scope name

theorem Extends.refl (env : Environment) : env.Extends env :=
  ⟨rfl, rfl, rfl, fun _ _ _ ↦ rfl, fun _ _ h ↦ h, fun _ _ _ h ↦ h⟩

theorem Extends.trans (h : env.Extends env') (h' : env'.Extends env'') : env.Extends env'' where
  current := h'.current.trans h.current
  length := h'.length.trans h.length
  parents := h'.parents.trans h.parents
  others scope name hscope :=
    (h'.others scope name (h.current ▸ hscope)).trans (h.others scope name hscope)
  own name kind hkind := by
    have hown := h'.own name kind
    rw [h.current] at hown
    exact hown (h.own name kind hkind)
  constants scope name value hvalue :=
    h'.constants scope name value (h.constants scope name value hvalue)

theorem Keeps.of_kinds (current : env'.current = env.current)
    (parents : env'.scopes.map Scope.parent = env.scopes.map Scope.parent)
    (kinds : ∀ scope name, env'.kindAt? scope name = env.kindAt? scope name)
    (constants : ∀ scope name value, env.bindingAt? scope name = some ⟨.constant, value⟩ →
      env'.bindingAt? scope name = some ⟨.constant, value⟩) : env.Keeps env' where
  current := current
  length := by simpa using congrArg List.length parents
  parents := parents
  others scope name _ := kinds scope name
  own name kind hkind := (kinds env.current name).trans hkind
  constants := constants
  kinds := kinds

theorem Keeps.refl (env : Environment) : env.Keeps env :=
  ⟨.refl env, fun _ _ ↦ rfl⟩

theorem Keeps.trans (h : env.Keeps env') (h' : env'.Keeps env'') : env.Keeps env'' :=
  ⟨h.toExtends.trans h'.toExtends,
    fun scope name ↦ (h'.kinds scope name).trans (h.kinds scope name)⟩

theorem keeps_assign (h : env.assign name value = .ok env') : env.Keeps env' := by
  obtain ⟨hcurrent, hparents, scope, hkind, hbinding⟩ := assign_eq_ok h
  refine .of_kinds hcurrent hparents ?_ ?_
  · intro other key
    rw [kindAt?, hbinding]
    split
    · rename_i hplace
      obtain ⟨rfl, rfl⟩ := hplace
      exact hkind.symm
    · rfl
  · intro other key constant hconstant
    rw [hbinding]
    split
    · -- What is assigned is a variable, so it was no constant.
      rename_i hplace
      obtain ⟨rfl, rfl⟩ := hplace
      rw [kindAt?, hconstant] at hkind
      cases hkind
    · exact hconstant

theorem extends_define {mutability : Mutability}
    (h : env.define name mutability value = .ok env') : env.Extends env' := by
  obtain rfl | ⟨hcurrent, hparents, hnone, hbinding⟩ := define_eq_ok h
  · exact .refl env'
  · -- A name that was there before is not the new one.
    have hold : ∀ other key binding, env.bindingAt? other key = some binding →
        env'.bindingAt? other key = some binding := by
      intro other key binding hold
      rw [hbinding]
      split
      · rename_i hplace
        obtain ⟨rfl, rfl⟩ := hplace
        rw [hnone] at hold
        cases hold
      · exact hold
    refine ⟨hcurrent, by simpa using congrArg List.length hparents, hparents, ?_, ?_, ?_⟩
    · intro other key hother
      rw [kindAt?, hbinding, if_neg (fun hplace ↦ hother hplace.1), kindAt?]
    · intro key kind hkind
      obtain ⟨binding, hfound, rfl⟩ := Option.map_eq_some_iff.mp hkind
      rw [kindAt?, hold _ _ _ hfound, Option.map_some]
    · intro other key constant hconstant
      exact hold other key _ hconstant

/-! ### Entering and going back -/

/-- The current scope is the last one: no other has been left open inside it. -/
def Innermost (env : Environment) : Prop := env.scopes.length = env.current + 1

theorem innermost_initial : initial.Innermost := rfl

theorem innermost_enter (env : Environment) : env.enter.Innermost := by
  simp [Innermost, enter]

theorem Extends.innermost (h : env.Extends env') (hinner : env.Innermost) : env'.Innermost := by
  rw [Innermost, h.length, h.current]
  exact hinner

theorem bindingAt?_enter {scope : Nat} (h : scope < env.scopes.length) :
    env.enter.bindingAt? scope = env.bindingAt? scope := by
  funext name
  rw [bindingAt?, bindingAt?, enter, List.getElem?_append_left h]

theorem bindingAt?_restore {scope start : Nat} (h : scope ≤ start) :
    (env.restore start).bindingAt? scope = env.bindingAt? scope := by
  funext name
  rw [bindingAt?, bindingAt?, restore, List.getElem?_take_of_lt (Nat.lt_succ_of_le h)]

theorem bindingAt?_of_length_le {scope : Nat} (h : env.scopes.length ≤ scope) :
    env.bindingAt? scope name = none := by
  rw [bindingAt?, List.getElem?_eq_none h, Option.bind_none]

/-- Whatever is added in a scope is gone when it is left. -/
theorem keeps_restore (hinner : env.Innermost) (h : env.enter.Extends env') :
    env.Keeps (env'.restore env.current) := by
  have hlast : env.scopes.length = env.current + 1 := hinner
  refine .of_kinds rfl ?_ ?_ ?_
  · have hparents : env'.scopes.map Scope.parent =
        env.scopes.map Scope.parent ++ [some env.current] := by simp [h.parents, enter]
    rw [restore, List.map_take, hparents, ← hlast]
    simp
  · intro scope name
    by_cases hscope : scope < env.scopes.length
    · have hle : scope ≤ env.current := by omega
      have hother := h.others scope name (Nat.ne_of_lt hscope)
      rw [kindAt?, bindingAt?_restore hle]
      rwa [kindAt?, kindAt?, bindingAt?_enter hscope] at hother
    · have hdropped : (env'.restore env.current).scopes.length ≤ scope := by
        simp only [restore, List.length_take]
        omega
      rw [kindAt?, kindAt?, bindingAt?_of_length_le hdropped,
        bindingAt?_of_length_le (Nat.le_of_not_lt hscope)]
  · intro scope name value hvalue
    by_cases hscope : scope < env.scopes.length
    · have hle : scope ≤ env.current := by omega
      rw [bindingAt?_restore hle]
      exact h.constants scope name value (by rwa [bindingAt?_enter hscope])
    · rw [bindingAt?_of_length_le (Nat.le_of_not_lt hscope)] at hvalue
      cases hvalue

end Environment

end Sigil
