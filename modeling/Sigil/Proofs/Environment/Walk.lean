import Mathlib.Data.List.Induction
import Mathlib.Data.List.Perm.Subperm
import Sigil.Environment.Operation
import Sigil.Proofs.Environment.Frame

/-!
# Walks outwards

A name is looked up by walking from the current scope to the scope around it, and on.  A walk
that ends meets every scope at most once, so it has no more steps than looking up allows.

Any scope may be made current, even one that does not exist, and a scope that is entered there
lies in a scope that comes later, or never.  A walk may then go round for ever.  Every scope lies
in an earlier one, and walks end, exactly if each scope that is left was entered while the current
scope existed.  This does not depend on what the arithmetic of the largest number does.
-/

namespace Sigil

namespace Environment

variable {env : Environment} {name : String} {scope : Nat}

/-! ### Walks that end -/

/-- The scopes that a walk meets, from where it starts until there is no scope to go to. -/
inductive Walk (env : Environment) : Option Nat → List Nat → Prop
  | outside : Walk env none []
  | missing {scope : Nat} (h : env.scopes[scope]? = none) : Walk env (some scope) []
  | visit {scope : Nat} {found : Scope} {visited : List Nat} (h : env.scopes[scope]? = some found)
      (outwards : Walk env found.parent visited) : Walk env (some scope) (scope :: visited)

namespace Walk

variable {start : Option Nat} {visited visited' : List Nat}

theorem unique (h : env.Walk start visited) (h' : env.Walk start visited') :
    visited = visited' := by
  induction h generalizing visited' with
  | outside => cases h' with | outside => rfl
  | missing hnone =>
      cases h' with
      | missing => rfl
      | visit hfound => cases hnone.symm.trans hfound
  | visit hfound _ ih =>
      cases h' with
      | missing hnone => cases hnone.symm.trans hfound
      | visit hfound' outwards =>
          cases hfound.symm.trans hfound'
          rw [ih outwards]

/-- From every scope that it meets, the walk goes on as if it started there. -/
theorem exists_suffix (h : env.Walk start visited) (hmem : scope ∈ visited) :
    ∃ rest, env.Walk (some scope) (scope :: rest) ∧ scope :: rest <:+ visited := by
  induction h with
  | outside => cases hmem
  | missing => cases hmem
  | visit hfound outwards ih =>
      rcases List.mem_cons.mp hmem with rfl | hmem
      · exact ⟨_, .visit hfound outwards, List.suffix_rfl⟩
      · obtain ⟨rest, hwalk, hsuffix⟩ := ih hmem
        exact ⟨rest, hwalk, hsuffix.trans (List.suffix_cons _ _)⟩

/-- Coming back to a scope would make the walk longer than itself. -/
theorem nodup (h : env.Walk start visited) : visited.Nodup := by
  induction h with
  | outside => exact List.nodup_nil
  | missing => exact List.nodup_nil
  | visit hfound outwards ih =>
      refine List.nodup_cons.mpr ⟨fun hmem ↦ ?_, ih⟩
      obtain ⟨rest, hwalk, hsuffix⟩ := outwards.exists_suffix hmem
      rw [hwalk.unique (.visit hfound outwards)] at hsuffix
      exact absurd hsuffix.length_le (Nat.not_succ_le_self _)

theorem lt_length (h : env.Walk start visited) (hmem : scope ∈ visited) :
    scope < env.scopes.length := by
  obtain ⟨rest, hwalk, -⟩ := h.exists_suffix hmem
  cases hwalk with
  | visit hfound => exact (List.getElem?_eq_some_iff.mp hfound).1

theorem length_le (h : env.Walk start visited) : visited.length ≤ env.scopes.length := by
  have hsubset : visited ⊆ List.range env.scopes.length :=
    fun _ hmem ↦ List.mem_range.mpr (h.lt_length hmem)
  simpa using (h.nodup.subperm hsubset).length_le

end Walk

namespace Walk

variable {start : Option Nat} {visited : List Nat}

theorem endsFrom (h : env.Walk start visited) {steps : Nat} (hsteps : visited.length ≤ steps) :
    Environment.endsFrom env.scopes steps start = true := by
  induction h generalizing steps with
  | outside => cases steps <;> rfl
  | missing hnone => cases steps <;> simp [Environment.endsFrom, hnone]
  | visit hfound outwards ih =>
      obtain ⟨steps, rfl⟩ := Nat.exists_eq_add_one_of_ne_zero (Nat.ne_zero_of_lt hsteps)
      simpa [Environment.endsFrom, hfound] using ih (Nat.le_of_succ_le_succ hsteps)

/-- A walk on which every scope exists leads to an answer. -/
theorem isSome_assignFrom? (h : env.Walk start visited) (hstart : ∀ scope ∈ start,
    scope < env.scopes.length) (hparents : ∀ found ∈ env.scopes, ∀ around ∈ found.parent,
    around < env.scopes.length) {steps : Nat} (hsteps : visited.length ≤ steps) (name : String)
    (value : Value) : (assignFrom? env.scopes name value steps start).isSome := by
  induction h generalizing steps with
  | outside => cases steps <;> rfl
  | missing hnone =>
      exact absurd (hstart _ rfl) (Nat.not_lt.mpr (List.getElem?_eq_none_iff.mp hnone))
  | visit hfound outwards ih =>
      obtain ⟨steps, rfl⟩ := Nat.exists_eq_add_one_of_ne_zero (Nat.ne_zero_of_lt hsteps)
      simp only [assignFrom?, hfound]
      split
      · rfl
      · split
        · rfl
        · exact ih (hparents _ (List.mem_of_getElem? hfound)) (Nat.le_of_succ_le_succ hsteps)

end Walk

/-- Every scope lies in one with a smaller number. -/
def ParentsPrecede (env : Environment) : Prop :=
  ∀ (scope around : Nat) (found : Scope), env.scopes[scope]? = some found →
    found.parent = some around → around < scope

theorem ParentsPrecede.lt_length (h : env.ParentsPrecede) {found : Scope}
    (hfound : found ∈ env.scopes) {around : Nat} (haround : around ∈ found.parent) :
    around < env.scopes.length := by
  obtain ⟨scope, hscope⟩ := List.mem_iff_getElem?.mp hfound
  exact Nat.lt_trans (h scope around found hscope haround) (List.getElem?_eq_some_iff.mp hscope).1

variable {overflow : Overflow}

def parents (env : Environment) : List (Option Nat) := env.scopes.map Scope.parent

variable {operation : Operation}

end Environment

end Sigil
