import Sigil.Environment

/-!
# The scope a name belongs to

A name is looked up, asked for and assigned on three ways outwards, each with its own
test of a scope.  All of them stop at the same scope, the nearest one that binds the
name, and they take the binding that is found there.
-/

namespace Sigil

/-- What a name is bound to. -/
structure Binding where
  mutability : Mutability
  value : Value
  deriving Repr

namespace Scope

variable {scope : Scope} {name : String} {value : Value}

/-- What a name is bound to in the scope. -/
def find? (scope : Scope) (name : String) : Option Binding :=
  ((scope.mutables.lookup name).map (Binding.mk .mutable)).or
    ((scope.constants.lookup name).map (Binding.mk .constant))

theorem find?_empty (parent : Option Nat) (name : String) : find? ⟨[], [], parent⟩ name = none :=
  rfl

theorem declares_eq (scope : Scope) (name : String) :
    scope.declares name = (scope.find? name).isSome := by
  rw [declares, find?, Option.isSome_or, Option.isSome_map, Option.isSome_map]

theorem lookup?_eq (scope : Scope) (name : String) :
    scope.lookup? name = (scope.find? name).map Binding.value := by
  rw [lookup?, find?]
  cases scope.mutables.lookup name <;> cases scope.constants.lookup name <;> rfl

theorem find?_eq_none_iff :
    scope.find? name = none ↔
      scope.mutables.lookup name = none ∧ scope.constants.lookup name = none := by
  rw [find?, Option.or_eq_none_iff, Option.map_eq_none_iff, Option.map_eq_none_iff]

theorem lookup_cons (key other : String) (value : Value) (entries : List (String × Value)) :
    ((key, value) :: entries).lookup other =
      if other = key then some value else entries.lookup other := by
  by_cases h : other = key
  · simp [h]
  · rw [List.lookup_cons, beq_false_of_ne h, if_neg h]

theorem find?_insert (hnone : scope.find? name = none) (mutability : Mutability) (value : Value)
    (other : String) : (scope.insert name value mutability).find? other =
      if other = name then some ⟨mutability, value⟩ else scope.find? other := by
  have hvariable := (find?_eq_none_iff.mp hnone).1
  by_cases hother : other = name
  · subst hother
    cases mutability <;> simp [insert, find?, hvariable]
  · cases mutability <;> simp [insert, find?, lookup_cons, hother]

@[simp] theorem parent_insert (scope : Scope) (name : String) (value : Value)
    (mutability : Mutability) : (scope.insert name value mutability).parent = scope.parent := by
  cases mutability <;> rfl

@[simp] theorem parent_replace (scope : Scope) (name : String) (value : Value) :
    (scope.replace name value).parent = scope.parent := rfl

theorem lookup_replace (scope : Scope) (name other : String) (value : Value) :
    (scope.replace name value).mutables.lookup other =
      if other = name then (scope.mutables.lookup other).map fun _ ↦ value
      else scope.mutables.lookup other := by
  rw [replace]
  induction scope.mutables with
  | nil => simp
  | cons entry entries ih =>
      obtain ⟨key, old⟩ := entry
      by_cases hkey : key = name
      · subst hkey
        by_cases hother : other = key <;> simp_all [lookup_cons]
      · have hname : name ≠ key := Ne.symm hkey
        by_cases hother : other = key <;> simp_all [lookup_cons]

/-- A constant would keep its value. -/
theorem find?_replace (hvariable : ∀ old, scope.find? name ≠ some ⟨.constant, old⟩) (value : Value)
    (other : String) : (scope.replace name value).find? other =
      if other = name then (scope.find? other).map ({ · with value := value })
      else scope.find? other := by
  have hconstants : (scope.replace name value).constants = scope.constants := rfl
  rw [find?, find?, hconstants, lookup_replace]
  split
  · rename_i hother
    subst hother
    rw [find?] at hvariable
    cases hlookup : scope.mutables.lookup other with
    | some old => rfl
    | none =>
        cases hconstant : scope.constants.lookup other with
        | none => rfl
        | some old => simp [hlookup, hconstant] at hvariable
  · rfl

end Scope

namespace Environment

variable {env : Environment} {scopes : List Scope} {name : String} {value : Value}
  {steps : Nat} {start : Option Nat}

/-- The nearest binding of a name from scope `start` outwards, with the number of its scope; at
most `steps` scopes are visited. -/
def findFrom? (scopes : List Scope) (name : String) : Nat → Option Nat → Option (Nat × Binding)
  | steps + 1, some start =>
    match scopes[start]? with
    | none => none
    | some scope =>
      match scope.find? name with
      | some binding => some (start, binding)
      | none => findFrom? scopes name steps scope.parent
  | _, _ => none

/-- The nearest binding of a name, with the number of its scope. -/
def find? (env : Environment) (name : String) : Option (Nat × Binding) :=
  findFrom? env.scopes name env.scopes.length (some env.current)

/-! ### Three ways outwards -/

theorem findSome?_outwards (scopes : List Scope) (name : String) (steps : Nat)
    (start : Option Nat) :
    (outwards scopes steps start).findSome? (·.lookup? name) =
      (findFrom? scopes name steps start).map fun found ↦ found.2.value := by
  fun_induction findFrom? scopes name steps start with
  | case1 steps start hmissing => simp [outwards, hmissing]
  | case2 steps start scope hscope binding hbinding =>
      simp [outwards, hscope, Scope.lookup?_eq, hbinding]
  | case3 steps start scope hscope hnone ih =>
      simpa [outwards, hscope, Scope.lookup?_eq, hnone] using ih
  | case4 steps start h => cases steps <;> cases start <;> simp_all [outwards]

theorem any_outwards (scopes : List Scope) (name : String) (steps : Nat) (start : Option Nat) :
    (outwards scopes steps start).any (·.declares name) =
      (findFrom? scopes name steps start).isSome := by
  fun_induction findFrom? scopes name steps start with
  | case1 steps start hmissing => simp [outwards, hmissing]
  | case2 steps start scope hscope binding hbinding =>
      simp [outwards, hscope, Scope.declares_eq, hbinding]
  | case3 steps start scope hscope hnone ih =>
      simpa [outwards, hscope, Scope.declares_eq, hnone] using ih
  | case4 steps start h => cases steps <;> cases start <;> simp_all [outwards]

/-- What becomes of the scopes if a name is assigned where it is found. -/
def assignFound (scopes : List Scope) (name : String) (value : Value) :
    Option (Nat × Binding) → Except RuntimeError (List Scope)
  | none => .error (.undefinedAssignment name)
  | some (_, ⟨.constant, _⟩) => .error (.constantAssignment name)
  | some (scope, ⟨.mutable, _⟩) => .ok (scopes.modify scope (·.replace name value))

/-- A name that is found is assigned there.  Otherwise there may be no answer, if the way leads to a
scope that does not exist or has no end. -/
theorem assignFrom?_eq (scopes : List Scope) (name : String) (value : Value) (steps : Nat)
    (start : Option Nat) :
    assignFrom? scopes name value steps start =
        some (assignFound scopes name value (findFrom? scopes name steps start)) ∨
      findFrom? scopes name steps start = none ∧
        assignFrom? scopes name value steps start = none := by
  fun_induction findFrom? scopes name steps start with
  | case1 steps start hmissing => exact .inr ⟨rfl, by simp [assignFrom?, hmissing]⟩
  | case2 steps start scope hscope binding hbinding =>
      refine .inl ?_
      rw [Scope.find?] at hbinding
      cases hvariable : scope.mutables.lookup name with
      | some old =>
          obtain rfl : ⟨.mutable, old⟩ = binding := by simpa [hvariable] using hbinding
          simp [assignFrom?, hscope, hvariable, assignFound]
      | none =>
          obtain ⟨old, hconstant, rfl⟩ : ∃ old, scope.constants.lookup name = some old ∧
              ⟨.constant, old⟩ = binding := by simpa [hvariable] using hbinding
          simp [assignFrom?, hscope, hvariable, hconstant, assignFound]
  | case3 steps start scope hscope hnone ih =>
      obtain ⟨hvariable, hconstant⟩ := Scope.find?_eq_none_iff.mp hnone
      simpa [assignFrom?, hscope, hvariable, hconstant] using ih
  | case4 steps start h =>
      cases start with
      | none => exact .inl (by cases steps <;> rfl)
      | some start =>
          cases steps with
          | zero => exact .inr ⟨rfl, rfl⟩
          | succ steps => exact (h steps start rfl rfl).elim

/-! ### The operations -/

theorem get_eq (env : Environment) (name : String) :
    env.get name = match env.find? name with
      | some (_, binding) => .ok binding.value
      | none => .error (.undefinedVariable name) := by
  rw [get, chain, findSome?_outwards, find?]
  cases findFrom? env.scopes name env.scopes.length (some env.current) <;> rfl

theorem has_eq (env : Environment) (name : String) : env.has name = (env.find? name).isSome :=
  any_outwards ..

theorem assign_eq (env : Environment) (name : String) (value : Value) :
    env.assign name value = match env.find? name with
      | none => .error (.undefinedAssignment name)
      | some (_, ⟨.constant, _⟩) => .error (.constantAssignment name)
      | some (scope, ⟨.mutable, _⟩) =>
        .ok { env with scopes := env.scopes.modify scope (·.replace name value) } := by
  rw [assign, assign?, find?]
  rcases assignFrom?_eq env.scopes name value env.scopes.length (some env.current) with
    h | ⟨hfind, h⟩
  · rw [h]
    rcases findFrom? env.scopes name env.scopes.length (some env.current) with
      _ | ⟨scope, _ | _, old⟩ <;> rfl
  · rw [h, hfind]
    rfl

theorem define_eq (env : Environment) (name : String) (mutability : Mutability) (value : Value) :
    env.define name mutability value = match env.scopes[env.current]? with
      | none => .ok env
      | some scope =>
        if (scope.find? name).isSome then .error (.redeclared name)
        else .ok { env with
          scopes := env.scopes.set env.current (scope.insert name value mutability) } := by
  rw [define, define?]
  cases env.scopes[env.current]? with
  | none => rfl
  | some scope => simp only [Option.map_some, Option.getD_some, Scope.declares_eq]

/-- A name is there exactly if it can be looked up: both tests stop at the same scope. -/
theorem has_iff_get (env : Environment) (name : String) :
    env.has name = true ↔ ∃ value, env.get name = .ok value := by
  rw [has_eq, get_eq]
  cases env.find? name <;> simp

end Environment

end Sigil
