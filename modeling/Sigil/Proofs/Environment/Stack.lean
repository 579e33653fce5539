import Mathlib.Data.Finmap
import Sigil.Proofs.Environment.Frame

/-!
# Environments as stacks of finite maps

The scopes of an environment are numbered, and a scope knows the number of the one
around it.  As long as one goes back only to the current scope or to one entered
before it, the numbers are those of a stack: the current scope is the last one, and
each scope lies in the one before it.  Every operation is then the operation on a
stack of finite maps, in which a name belongs to the topmost map that has it.
-/

namespace Sigil

abbrev NameMap := Finmap fun _ : String ↦ Binding

/-- A stack of finite maps, never empty. -/
inductive MapStack where
  | bottom (map : NameMap)
  | layer (map : NameMap) (below : MapStack)

namespace MapStack

def top : MapStack → NameMap
  | .bottom map => map
  | .layer map _ => map

def setTop (map : NameMap) : MapStack → MapStack
  | .bottom _ => .bottom map
  | .layer _ below => .layer map below

def depth : MapStack → Nat
  | .bottom _ => 1
  | .layer _ below => below.depth + 1

/-- Pushes an empty map. -/
def enter (stack : MapStack) : MapStack := .layer ∅ stack

/-- Pops maps until the stack is not deeper than `depth`; the lowest map stays. -/
def popTo (depth : Nat) : MapStack → MapStack
  | .bottom map => .bottom map
  | .layer map below => if below.depth < depth then .layer map below else below.popTo depth

/-- What a name is bound to in the topmost map that has it. -/
def find? (name : String) : MapStack → Option Binding
  | .bottom map => map.lookup name
  | .layer map below => (map.lookup name).or (below.find? name)

def get (stack : MapStack) (name : String) : Except RuntimeError Value :=
  match stack.find? name with
  | some binding => .ok binding.value
  | none => .error (.undefinedVariable name)

/-- Some map has the name. -/
def has (name : String) : MapStack → Bool
  | .bottom map => decide (name ∈ map)
  | .layer map below => decide (name ∈ map) || below.has name

/-- Adds a name to the top map, which must not have it under either kind. -/
def define (stack : MapStack) (name : String) (mutability : Mutability) (value : Value) :
    Except RuntimeError MapStack :=
  if name ∈ stack.top then .error (.redeclared name)
  else .ok (stack.setTop (stack.top.insert name ⟨mutability, value⟩))

/-- Binds a name anew in the topmost map that has it. -/
def rebind (name : String) (binding : Binding) : MapStack → MapStack
  | .bottom map => .bottom (map.insert name binding)
  | .layer map below =>
    if name ∈ map then .layer (map.insert name binding) below
    else .layer map (below.rebind name binding)

def assign (stack : MapStack) (name : String) (value : Value) : Except RuntimeError MapStack :=
  match stack.find? name with
  | none => .error (.undefinedAssignment name)
  | some ⟨.constant, _⟩ => .error (.constantAssignment name)
  | some ⟨.mutable, _⟩ => .ok (stack.rebind name ⟨.mutable, value⟩)

theorem has_eq_isSome_find? (stack : MapStack) (name : String) :
    stack.has name = (stack.find? name).isSome := by
  induction stack with
  | bottom map =>
      rw [has, find?, Bool.eq_iff_iff, decide_eq_true_iff, Finmap.lookup_isSome]
  | layer map below ih =>
      rw [has, find?, ih, Option.isSome_or, Bool.eq_iff_iff, Bool.or_eq_true, Bool.or_eq_true,
        decide_eq_true_iff, Finmap.lookup_isSome]

end MapStack

namespace Scope

/-- The bindings of a scope in one list. -/
def bindings (scope : Scope) : List (String × Binding) :=
  scope.mutables.map (fun entry ↦ (entry.1, ⟨.mutable, entry.2⟩)) ++
    scope.constants.map (fun entry ↦ (entry.1, ⟨.constant, entry.2⟩))

/-- The bindings of a scope as a finite map. -/
def map (scope : Scope) : NameMap :=
  (scope.bindings.map fun entry ↦ (⟨entry.1, entry.2⟩ : Sigma fun _ : String ↦ Binding)).toFinmap

theorem lookup_bindings (scope : Scope) (name : String) :
    scope.bindings.lookup name = scope.find? name := by
  have hkind (kind : Mutability) (entries : List (String × Value)) :
      (entries.map fun entry ↦ (entry.1, Binding.mk kind entry.2)).lookup name =
        (entries.lookup name).map (Binding.mk kind) := by
    induction entries with
    | nil => rfl
    | cons entry entries ih =>
        rw [List.map_cons, List.lookup_cons, List.lookup_cons, ih]
        cases name == entry.1 <;> rfl
  rw [bindings, List.lookup_append, hkind, hkind, find?]

theorem lookup_map (scope : Scope) (name : String) : scope.map.lookup name = scope.find? name := by
  rw [map, ← lookup_bindings]
  induction scope.bindings with
  | nil => rfl
  | cons entry bindings ih =>
      obtain ⟨key, binding⟩ := entry
      rw [List.map_cons, Finmap.toFinmap_cons]
      by_cases hkey : name = key
      · subst hkey
        rw [List.lookup_cons_self]
        exact Finmap.lookup_insert _
      · rw [List.lookup_cons, beq_false_of_ne hkey, ← ih]
        exact Finmap.lookup_insert_of_ne _ hkey

/-- The names that a scope has as variables, or as constants. -/
def names (scope : Scope) : Mutability → List String
  | .mutable => scope.mutables.map Prod.fst
  | .constant => scope.constants.map Prod.fst

/-- No name is bound twice. -/
def NodupNames (scope : Scope) : Prop := (scope.names .mutable ++ scope.names .constant).Nodup

theorem NodupNames.disjoint {scope : Scope} (h : scope.NodupNames) :
    List.Disjoint (scope.names .mutable) (scope.names .constant) :=
  List.disjoint_of_nodup_append h

theorem notMem_map_fst_of_lookup {entries : List (String × Value)} {name : String}
    (hnone : entries.lookup name = none) : name ∉ entries.map Prod.fst := by
  intro hmem
  obtain ⟨entry, hentry, rfl⟩ := List.mem_map.mp hmem
  exact bne_iff_ne.mp (List.lookup_eq_none_iff.mp hnone entry hentry) rfl

theorem NodupNames.insert {scope : Scope} {name : String} {value : Value}
    (h : scope.NodupNames) (hnone : scope.find? name = none) (mutability : Mutability) :
    (scope.insert name value mutability).NodupNames := by
  obtain ⟨hvariable, hconstant⟩ := find?_eq_none_iff.mp hnone
  have hnew : name ∉ scope.names .mutable ++ scope.names .constant := by
    rw [List.mem_append, not_or]
    exact ⟨notMem_map_fst_of_lookup hvariable, notMem_map_fst_of_lookup hconstant⟩
  cases mutability with
  | mutable => exact List.nodup_cons.mpr ⟨hnew, h⟩
  | constant => exact List.nodup_middle.mpr (List.nodup_cons.mpr ⟨hnew, h⟩)

theorem NodupNames.replace {scope : Scope} {name : String} {value : Value}
    (h : scope.NodupNames) : (scope.replace name value).NodupNames := by
  have hnames : (scope.replace name value).names .mutable = scope.names .mutable := by
    rw [names, names, Scope.replace, List.map_map]
    refine List.map_congr_left fun entry _ ↦ ?_
    by_cases hentry : entry.1 = name <;> simp [hentry]
  rw [NodupNames, hnames]
  exact h

end Scope

namespace Environment

variable {env env' : Environment} {name : String} {value : Value}

/-! ### The stack of an environment -/

def mapAt (env : Environment) (scope : Nat) : NameMap := (env.scopes[scope]?.map Scope.map).getD ∅

/-- The scopes up to one with a given number, as a stack with that one on top. -/
def stackAt (env : Environment) : Nat → MapStack
  | 0 => .bottom (env.mapAt 0)
  | scope + 1 => .layer (env.mapAt (scope + 1)) (env.stackAt scope)

def stack (env : Environment) : MapStack := env.stackAt env.current

theorem lookup_mapAt (env : Environment) (scope : Nat) (name : String) :
    (env.mapAt scope).lookup name = env.bindingAt? scope name := by
  rw [mapAt, bindingAt?]
  cases env.scopes[scope]? with
  | none => rfl
  | some found => exact found.lookup_map name

theorem mem_mapAt {scope : Nat} : name ∈ env.mapAt scope ↔ (env.bindingAt? scope name).isSome := by
  rw [← Finmap.lookup_isSome, lookup_mapAt]

theorem mapAt_eq_of_bindingAt? {scope : Nat}
    (h : env'.bindingAt? scope = env.bindingAt? scope) : env'.mapAt scope = env.mapAt scope :=
  Finmap.ext_lookup fun name ↦ by rw [lookup_mapAt, lookup_mapAt, h]

theorem mapAt_eq_insert {scope : Nat} {binding : Binding}
    (h : ∀ key, env'.bindingAt? scope key =
      if key = name then some binding else env.bindingAt? scope key) :
    env'.mapAt scope = (env.mapAt scope).insert name binding := by
  refine Finmap.ext_lookup fun key ↦ ?_
  rw [lookup_mapAt, h]
  split
  · rename_i hkey
    subst hkey
    exact (Finmap.lookup_insert (env.mapAt scope)).symm
  · rename_i hkey
    rw [Finmap.lookup_insert_of_ne _ hkey, lookup_mapAt]

theorem stackAt_eq_of_bindingAt? (n : Nat)
    (h : ∀ scope ≤ n, env'.bindingAt? scope = env.bindingAt? scope) :
    env'.stackAt n = env.stackAt n := by
  induction n with
  | zero => rw [stackAt, stackAt, mapAt_eq_of_bindingAt? (h 0 (Nat.le_refl 0))]
  | succ n ih =>
      rw [stackAt, stackAt, mapAt_eq_of_bindingAt? (h (n + 1) (Nat.le_refl _)),
        ih fun scope hscope ↦ h scope (Nat.le_succ_of_le hscope)]

@[simp] theorem top_stackAt (env : Environment) (n : Nat) : (env.stackAt n).top = env.mapAt n := by
  cases n <;> rfl

@[simp] theorem depth_stackAt (env : Environment) (n : Nat) : (env.stackAt n).depth = n + 1 := by
  induction n with
  | zero => rfl
  | succ n ih => rw [stackAt, MapStack.depth, ih]

theorem popTo_stackAt (env : Environment) {scope n : Nat} (h : scope ≤ n) :
    (env.stackAt n).popTo (scope + 1) = env.stackAt scope := by
  induction n with
  | zero =>
      cases Nat.le_zero.mp h
      rfl
  | succ n ih =>
      rw [stackAt, MapStack.popTo, depth_stackAt]
      split
      · have hscope : scope = n + 1 := by omega
        rw [hscope, stackAt]
      · exact ih (by omega)

/-! ### Walks -/

/-- The nearest binding of a name among the scopes up to one with a given number. -/
def nearest? (env : Environment) (name : String) : Nat → Option (Nat × Binding)
  | 0 => (env.bindingAt? 0 name).map (0, ·)
  | scope + 1 =>
    match env.bindingAt? (scope + 1) name with
    | some binding => some (scope + 1, binding)
    | none => env.nearest? name scope

theorem find?_stackAt (env : Environment) (name : String) (n : Nat) :
    (env.stackAt n).find? name = (env.nearest? name n).map Prod.snd := by
  induction n with
  | zero =>
      rw [stackAt, MapStack.find?, nearest?, lookup_mapAt, Option.map_map]
      exact Option.map_id'.symm
  | succ n ih =>
      rw [stackAt, MapStack.find?, nearest?, lookup_mapAt, ih]
      cases env.bindingAt? (n + 1) name <;> rfl

theorem nearest?_eq_some {scope : Nat} {binding : Binding} (n : Nat)
    (h : env.nearest? name n = some (scope, binding)) :
    scope ≤ n ∧ env.bindingAt? scope name = some binding := by
  induction n with
  | zero =>
      obtain ⟨_, hbinding, hplace⟩ := Option.map_eq_some_iff.mp h
      cases hplace
      exact ⟨Nat.le_refl 0, hbinding⟩
  | succ n ih =>
      rw [nearest?] at h
      split at h
      · rename_i hbinding
        cases h
        exact ⟨Nat.le_refl _, hbinding⟩
      · exact ⟨Nat.le_succ_of_le (ih h).1, (ih h).2⟩

/-- Binding a name anew where it is nearest is binding it anew in the stack. -/
theorem rebind_stackAt {scope : Nat} {found binding : Binding} (n : Nat)
    (hnearest : env.nearest? name n = some (scope, found))
    (h : ∀ other key, env'.bindingAt? other key =
      if other = scope ∧ key = name then some binding else env.bindingAt? other key) :
    env'.stackAt n = (env.stackAt n).rebind name binding := by
  have hother : ∀ other, other ≠ scope → env'.bindingAt? other = env.bindingAt? other := by
    intro other hne
    funext key
    rw [h, if_neg fun hplace ↦ hne hplace.1]
  have hscope : env'.mapAt scope = (env.mapAt scope).insert name binding :=
    mapAt_eq_insert fun key ↦ by simpa using h scope key
  induction n with
  | zero =>
      obtain ⟨_, _, hplace⟩ := Option.map_eq_some_iff.mp hnearest
      cases hplace
      rw [stackAt, stackAt, MapStack.rebind, hscope]
  | succ n ih =>
      rw [nearest?] at hnearest
      rw [stackAt, stackAt, MapStack.rebind]
      split at hnearest
      · rename_i _ hbinding
        cases hnearest
        rw [if_pos (mem_mapAt.mpr (by simp [hbinding])), hscope]
        congr 1
        exact stackAt_eq_of_bindingAt? n fun other hle ↦ hother other (by omega)
      · rename_i hnone
        have hle : scope ≤ n := (nearest?_eq_some n hnearest).1
        have hnot : name ∉ env.mapAt (n + 1) := fun hmem ↦ by
          rw [mem_mapAt, hnone] at hmem
          cases hmem
        rw [if_neg hnot, ih hnearest, mapAt_eq_of_bindingAt? (hother (n + 1) (by omega))]

/-! ### Layers -/

/-- The number of the scope around the one with a given number. -/
def outer? : Nat → Option Nat
  | 0 => none
  | scope + 1 => some scope

/-- The scopes lie in each other in the order of their numbers, the last one is current, and no
scope has a name both as a variable and as a constant. -/
structure Layered (env : Environment) : Prop where
  nonempty : env.scopes ≠ []
  current : env.current = env.scopes.length - 1
  parents : ∀ scope found, env.scopes[scope]? = some found → found.parent = outer? scope
  nodup : ∀ found ∈ env.scopes, found.NodupNames
  disjoint : ∀ found ∈ env.scopes, List.Disjoint (found.names .mutable) (found.names .constant)

theorem Layered.of_parents (innermost : env.Innermost)
    (parents : ∀ scope found, env.scopes[scope]? = some found → found.parent = outer? scope)
    (nodup : ∀ found ∈ env.scopes, found.NodupNames) : env.Layered where
  nonempty := List.ne_nil_of_length_pos (by rw [innermost]; exact Nat.succ_pos _)
  current := by rw [innermost, Nat.add_sub_cancel]
  parents := parents
  nodup := nodup
  disjoint found hfound := (nodup found hfound).disjoint

theorem Layered.innermost (h : env.Layered) : env.Innermost := by
  have hpos := List.length_pos_iff.mpr h.nonempty
  have hcurrent := h.current
  rw [Innermost]
  omega

theorem Layered.exists_scope (h : env.Layered) {scope : Nat} (hscope : scope ≤ env.current) :
    ∃ found, env.scopes[scope]? = some found ∧ found.parent = outer? scope := by
  have hlast : env.scopes.length = env.current + 1 := h.innermost
  have hfound := List.getElem?_eq_getElem (l := env.scopes) (i := scope) (by omega)
  exact ⟨_, hfound, h.parents scope _ hfound⟩

theorem layered_initial : initial.Layered := by
  refine .of_parents rfl ?_ ?_
  · intro scope found hfound
    obtain ⟨hlt, rfl⟩ := List.getElem?_eq_some_iff.mp hfound
    cases Nat.lt_one_iff.mp hlt
    rfl
  · intro found hfound
    cases List.mem_singleton.mp hfound
    exact List.nodup_nil

theorem Layered.enter (h : env.Layered) : env.enter.Layered := by
  have hlast : env.scopes.length = env.current + 1 := h.innermost
  refine .of_parents (innermost_enter env) ?_ ?_
  · intro scope found hfound
    rw [Environment.enter, List.getElem?_append] at hfound
    split at hfound
    · exact h.parents scope found hfound
    · obtain ⟨hlt, rfl⟩ := List.getElem?_eq_some_iff.mp hfound
      have hscope : scope = env.current + 1 := by
        rw [List.length_singleton] at hlt
        omega
      subst hscope
      simp [hlast, outer?]
  · intro found hfound
    obtain hfound | hfound := List.mem_append.mp hfound
    · exact h.nodup found hfound
    · cases List.mem_singleton.mp hfound
      exact List.nodup_nil

theorem Layered.restore (h : env.Layered) {scope : Nat} (hscope : scope ≤ env.current) :
    (env.restore scope).Layered := by
  have hlast : env.scopes.length = env.current + 1 := h.innermost
  refine .of_parents ?_ ?_ ?_
  · simp only [Innermost, Environment.restore, List.length_take]
    omega
  · intro other found hfound
    rw [Environment.restore, List.getElem?_take] at hfound
    split at hfound
    · exact h.parents other found hfound
    · cases hfound
  · exact fun found hfound ↦ h.nodup found (List.mem_of_mem_take hfound)

theorem Layered.of_scopes (h : env.Layered) (hcurrent : env'.current = env.current)
    (hparents : env'.scopes.map Scope.parent = env.scopes.map Scope.parent)
    (hnodup : ∀ found ∈ env'.scopes, found.NodupNames) : env'.Layered := by
  have hlength : env'.scopes.length = env.scopes.length := by
    simpa using congrArg List.length hparents
  refine .of_parents (by rw [Innermost, hlength, hcurrent]; exact h.innermost) ?_ hnodup
  intro scope found hfound
  have hparent := congrArg (·[scope]?) hparents
  simp only [List.getElem?_map, hfound, Option.map_some] at hparent
  obtain ⟨old, hold, hsame⟩ := Option.map_eq_some_iff.mp hparent.symm
  rw [← hsame]
  exact h.parents scope old hold

theorem Layered.define (h : env.Layered) {mutability : Mutability}
    (hdefine : env.define name mutability value = .ok env') : env'.Layered := by
  obtain rfl | ⟨hcurrent, hparents, -, -⟩ := define_eq_ok hdefine
  · exact h
  · refine h.of_scopes hcurrent hparents ?_
    rw [Environment.define_eq] at hdefine
    split at hdefine
    · cases hdefine
      exact h.nodup
    · rename_i scope hscope
      split at hdefine
      · cases hdefine
      · rename_i hbound
        cases hdefine
        intro found hfound
        obtain hfound | rfl := List.mem_or_eq_of_mem_set hfound
        · exact h.nodup found hfound
        · exact (h.nodup scope (List.mem_of_getElem? hscope)).insert (by simpa using hbound) _

theorem Layered.assign (h : env.Layered) (hassign : env.assign name value = .ok env') :
    env'.Layered := by
  obtain ⟨hcurrent, hparents, -⟩ := assign_eq_ok hassign
  refine h.of_scopes hcurrent hparents ?_
  obtain ⟨scope, -, -, rfl⟩ := exists_find?_of_assign hassign
  intro found hfound
  obtain ⟨place, hplace⟩ := List.mem_iff_getElem?.mp hfound
  rw [List.getElem?_modify] at hplace
  obtain ⟨old, hold, rfl⟩ := Option.map_eq_some_iff.mp hplace
  have hnodup := h.nodup old (List.mem_of_getElem? hold)
  split
  · exact hnodup.replace
  · exact hnodup

/-! ### Operations -/

/-- Walking outwards meets every scope below, and ends at the root. -/
theorem Layered.findFrom? (h : env.Layered) (name : String) {n steps : Nat}
    (hn : n ≤ env.current) (hsteps : n < steps) :
    Environment.findFrom? env.scopes name steps (some n) = env.nearest? name n := by
  induction n generalizing steps with
  | zero =>
      obtain ⟨steps, rfl⟩ := Nat.exists_eq_add_one_of_ne_zero (Nat.ne_of_gt hsteps)
      obtain ⟨found, hfound, hparent⟩ := h.exists_scope hn
      rw [Environment.findFrom?, nearest?, bindingAt?, hfound, Option.bind_some]
      cases hbinding : found.find? name with
      | none =>
          simp only [hbinding, hparent, outer?]
          cases steps <;> rfl
      | some binding => simp [hbinding]
  | succ n ih =>
      obtain ⟨steps, rfl⟩ := Nat.exists_eq_add_one_of_ne_zero (Nat.ne_zero_of_lt hsteps)
      obtain ⟨found, hfound, hparent⟩ := h.exists_scope hn
      rw [Environment.findFrom?, nearest?, bindingAt?, hfound, Option.bind_some]
      cases hbinding : found.find? name with
      | none =>
          simp only [hbinding, hparent, outer?]
          exact ih (by omega) (by omega)
      | some binding => simp [hbinding]

/-- The way outwards comes to its end at the root, however many steps are left. -/
theorem Layered.outwards_eq (h : env.Layered) {n steps steps' : Nat} (hn : n ≤ env.current)
    (hsteps : n < steps) (hsteps' : n < steps') :
    outwards env.scopes steps (some n) = outwards env.scopes steps' (some n) := by
  obtain ⟨steps, rfl⟩ := Nat.exists_eq_add_one_of_ne_zero (Nat.ne_zero_of_lt hsteps)
  obtain ⟨steps', rfl⟩ := Nat.exists_eq_add_one_of_ne_zero (Nat.ne_zero_of_lt hsteps')
  obtain ⟨found, hfound, hparent⟩ := h.exists_scope hn
  simp only [outwards, hfound, hparent]
  refine congrArg (found :: ·) ?_
  cases n with
  | zero => cases steps <;> cases steps' <;> rfl
  | succ n => exact h.outwards_eq (by omega) (by omega) (by omega)

/-- All scopes on the way exist, so assigning has an answer. -/
theorem Layered.isSome_assignFrom? (h : env.Layered) (name : String) (value : Value) {n steps : Nat}
    (hn : n ≤ env.current) (hsteps : n < steps) :
    (assignFrom? env.scopes name value steps (some n)).isSome := by
  obtain ⟨steps, rfl⟩ := Nat.exists_eq_add_one_of_ne_zero (Nat.ne_zero_of_lt hsteps)
  obtain ⟨found, hfound, hparent⟩ := h.exists_scope hn
  simp only [assignFrom?, hfound, hparent]
  split
  · rfl
  · split
    · rfl
    · cases n with
      | zero => cases steps <;> rfl
      | succ n => exact h.isSome_assignFrom? name value (by omega) (by omega)

theorem Layered.assign?_eq (h : env.Layered) (name : String) (value : Value) :
    env.assign? name value = some (env.assign name value) := by
  have hanswer := h.isSome_assignFrom? name value (Nat.le_refl _)
    (Nat.lt_of_lt_of_eq (Nat.lt_succ_self _) h.innermost.symm)
  obtain ⟨answer, hanswer⟩ := Option.isSome_iff_exists.mp hanswer
  rw [Environment.assign, Environment.assign?, hanswer]
  rfl

theorem Layered.define?_eq (h : env.Layered) (name : String) (mutability : Mutability)
    (value : Value) :
    env.define? name mutability value = some (env.define name mutability value) := by
  obtain ⟨found, hfound, -⟩ := h.exists_scope (Nat.le_refl env.current)
  rw [Environment.define, Environment.define?, hfound]
  rfl

theorem Layered.find?_eq (h : env.Layered) (name : String) :
    env.find? name = env.nearest? name env.current :=
  h.findFrom? name (Nat.le_refl _) (Nat.lt_of_lt_of_eq (Nat.lt_succ_self _) h.innermost.symm)

theorem Layered.find?_stack (h : env.Layered) (name : String) :
    env.stack.find? name = (env.find? name).map Prod.snd := by
  rw [h.find?_eq, stack, find?_stackAt]

theorem Layered.stack_enter (h : env.Layered) : env.enter.stack = env.stack.enter := by
  have hlast : env.scopes.length = env.current + 1 := h.innermost
  have hempty : env.enter.mapAt (env.current + 1) = ∅ := by
    simp [mapAt, Environment.enter, ← hlast, Scope.map, Scope.bindings]
  have hbelow : env.enter.stackAt env.current = env.stackAt env.current :=
    stackAt_eq_of_bindingAt? _ fun scope hscope ↦ bindingAt?_enter (by omega)
  have hstack : env.enter.stack = env.enter.stackAt (env.current + 1) := by
    rw [stack, ← hlast]
    rfl
  rw [hstack, stackAt, hempty, hbelow]
  rfl

theorem stack_restore {scope : Nat} (hscope : scope ≤ env.current) :
    (env.restore scope).stack = env.stack.popTo (scope + 1) := by
  rw [stack, stack, popTo_stackAt env hscope]
  exact stackAt_eq_of_bindingAt? scope fun other hother ↦ bindingAt?_restore hother

theorem stackAt_eq_setTop (n : Nat)
    (h : ∀ scope < n, env'.bindingAt? scope = env.bindingAt? scope) :
    env'.stackAt n = (env.stackAt n).setTop (env'.mapAt n) := by
  cases n with
  | zero => rfl
  | succ n =>
      rw [stackAt, stackAt, MapStack.setTop]
      exact congrArg _ (stackAt_eq_of_bindingAt? n fun scope hscope ↦ h scope (by omega))

theorem mem_top_iff : name ∈ env.stack.top ↔ (env.bindingAt? env.current name).isSome := by
  rw [stack, top_stackAt, mem_mapAt]

/-- The current scope is there, so defining is refused only for a name it has. -/
theorem Layered.define_eq (h : env.Layered) (name : String) (mutability : Mutability)
    (value : Value) :
    (name ∈ env.stack.top ∧ env.define name mutability value = .error (.redeclared name)) ∨
      ∃ env', name ∉ env.stack.top ∧ env.define name mutability value = .ok env' ∧
        env'.current = env.current ∧ ∀ other key, env'.bindingAt? other key =
          if other = env.current ∧ key = name then some ⟨mutability, value⟩
          else env.bindingAt? other key := by
  obtain ⟨scope, hscope, -⟩ := h.exists_scope (Nat.le_refl env.current)
  rw [mem_top_iff, bindingAt?, hscope, Option.bind_some, Environment.define_eq, hscope]
  by_cases hfound : (scope.find? name).isSome
  · exact .inl ⟨hfound, if_pos hfound⟩
  · exact .inr ⟨_, hfound, if_neg hfound, rfl, bindingAt?_set hscope (by simpa using hfound)⟩

theorem Layered.stack_define (h : env.Layered) (name : String) (mutability : Mutability)
    (value : Value) :
    (env.define name mutability value).map stack = env.stack.define name mutability value := by
  rw [MapStack.define]
  obtain ⟨hmem, hdefine⟩ | ⟨env', hmem, hdefine, hcurrent, hbindings⟩ :=
    h.define_eq name mutability value
  · rw [if_pos hmem, hdefine]
    rfl
  · have htop : env'.mapAt env.current = env.stack.top.insert name ⟨mutability, value⟩ := by
      rw [stack, top_stackAt]
      exact mapAt_eq_insert fun key ↦ by simpa using hbindings env.current key
    have hstack : env'.stack = env.stack.setTop (env'.mapAt env.current) := by
      rw [stack, hcurrent]
      refine stackAt_eq_setTop env.current fun scope hscope ↦ ?_
      funext key
      rw [hbindings, if_neg fun hplace ↦ Nat.ne_of_lt hscope hplace.1]
    rw [if_neg hmem, hdefine, ← htop, ← hstack]
    rfl

theorem Layered.get_eq (h : env.Layered) (name : String) : env.get name = env.stack.get name := by
  rw [Environment.get_eq, MapStack.get, h.find?_stack]
  cases env.find? name <;> rfl

theorem Layered.has_eq (h : env.Layered) (name : String) : env.has name = env.stack.has name := by
  rw [Environment.has_eq, MapStack.has_eq_isSome_find?, h.find?_stack, Option.isSome_map]

theorem Layered.stack_assign (h : env.Layered) (name : String) (value : Value) :
    (env.assign name value).map stack = env.stack.assign name value := by
  rw [MapStack.assign, h.find?_stack]
  cases hfind : env.find? name with
  | none =>
      rw [Environment.assign_eq, hfind]
      rfl
  | some found =>
      obtain ⟨scope, kind, old⟩ := found
      cases kind with
      | constant =>
          rw [Environment.assign_eq, hfind]
          rfl
      | mutable =>
          have hnearest : env.nearest? name env.current = some (scope, ⟨.mutable, old⟩) := by
            rw [← h.find?_eq, hfind]
          have hmodify : ∀ other key, bindingAt?
              ⟨env.scopes.modify scope (·.replace name value), env.current⟩ other key = _ :=
            bindingAt?_modify (bindingAt?_of_find? hfind)
          have hrebind := rebind_stackAt env.current hnearest hmodify
          rw [Environment.assign_eq, hfind]
          exact congrArg Except.ok hrebind

/-! ### Environments that come up -/

/-- The environments that are reached from the initial one if one goes back only to scopes entered
before the current one.  Looking a name up, and an operation that is refused, leave an environment
as it is. -/
inductive Reached : Environment → Prop
  | initial : Reached initial
  | enter {env : Environment} (h : Reached env) : Reached env.enter
  | restore {env : Environment} {scope : Nat} (h : Reached env) (hscope : scope ≤ env.current) :
      Reached (env.restore scope)
  | define {env env' : Environment} {name : String} {mutability : Mutability} {value : Value}
      (h : Reached env) (hdefine : env.define name mutability value = .ok env') : Reached env'
  | assign {env env' : Environment} {name : String} {value : Value} (h : Reached env)
      (hassign : env.assign name value = .ok env') : Reached env'

theorem Reached.layered (h : env.Reached) : env.Layered := by
  induction h with
  | initial => exact layered_initial
  | enter _ ih => exact ih.enter
  | restore _ hscope ih => exact ih.restore hscope
  | define _ hdefine ih => exact ih.define hdefine
  | assign _ hassign ih => exact ih.assign hassign

/-- An environment is laid out like a stack, and does what the stack does. -/
structure RefinesStack (env : Environment) : Prop where
  layered : env.Layered
  depth : env.stack.depth = env.scopes.length
  -- No operation asks for a scope that is not there, and every walk ends.
  current_lt : env.current < env.scopes.length
  parent_lt : ∀ (scope around : Nat) (found : Scope), env.scopes[scope]? = some found →
    found.parent = some around → around < scope
  walk : ∀ name steps, env.scopes.length ≤ steps →
    findFrom? env.scopes name steps (some env.current) = env.find? name
  chain : ∀ steps, env.scopes.length ≤ steps →
    outwards env.scopes steps (some env.current) = env.chain
  define_answers : ∀ name mutability value,
    env.define? name mutability value = some (env.define name mutability value)
  assign_answers : ∀ name value, env.assign? name value = some (env.assign name value)
  -- The operations.
  enter : env.enter.stack = env.stack.enter
  restore : ∀ scope ≤ env.current, (env.restore scope).stack = env.stack.popTo (scope + 1)
  define : ∀ name mutability value,
    (env.define name mutability value).map stack = env.stack.define name mutability value
  redeclared_iff : ∀ name mutability value,
    env.define name mutability value = .error (.redeclared name) ↔ name ∈ env.stack.top
  get : ∀ name, env.get name = env.stack.get name
  has : ∀ name, env.has name = env.stack.has name
  has_iff_get : ∀ name, env.has name = true ↔ ∃ value, env.get name = .ok value
  assign : ∀ name value, (env.assign name value).map stack = env.stack.assign name value
  constant_iff : ∀ name value, env.assign name value = .error (.constantAssignment name) ↔
    ∃ old, env.stack.find? name = some ⟨.constant, old⟩
  undefined_iff : ∀ name value, env.assign name value = .error (.undefinedAssignment name) ↔
    env.stack.find? name = none

theorem Layered.parent_lt (h : env.Layered) {scope around : Nat} {found : Scope}
    (hfound : env.scopes[scope]? = some found) (hparent : found.parent = some around) :
    around < scope := by
  rw [h.parents scope found hfound] at hparent
  cases scope with
  | zero => cases hparent
  | succ scope =>
      cases hparent
      exact Nat.lt_succ_self _

theorem Layered.redeclared_iff (h : env.Layered) (name : String) (mutability : Mutability)
    (value : Value) :
    env.define name mutability value = .error (.redeclared name) ↔ name ∈ env.stack.top := by
  obtain ⟨hmem, hdefine⟩ | ⟨env', hmem, hdefine, -⟩ := h.define_eq name mutability value
  · simp [hmem, hdefine]
  · simp [hmem, hdefine]

/-- Assigning is refused for a constant and for a name that no scope has. -/
theorem Layered.assign_cases (h : env.Layered) (name : String) (value : Value) :
    (env.stack.find? name = none ∧ env.assign name value = .error (.undefinedAssignment name)) ∨
    (∃ old, env.stack.find? name = some ⟨.constant, old⟩ ∧
      env.assign name value = .error (.constantAssignment name)) ∨
    (∃ old env', env.stack.find? name = some ⟨.mutable, old⟩ ∧
      env.assign name value = .ok env') := by
  rw [h.find?_stack, Environment.assign_eq]
  cases env.find? name with
  | none => exact .inl ⟨rfl, rfl⟩
  | some found =>
      obtain ⟨scope, kind, old⟩ := found
      cases kind with
      | constant => exact .inr (.inl ⟨old, rfl, rfl⟩)
      | mutable => exact .inr (.inr ⟨old, _, rfl, rfl⟩)

/-- The initial environment is a stack of one empty map, and whatever is reached from it refines a
stack of maps. -/
theorem Reached.refinesStack (h : env.Reached) :
    Environment.initial.stack = .bottom ∅ ∧ env.RefinesStack := by
  have hlayered := h.layered
  have hlast : env.scopes.length = env.current + 1 := hlayered.innermost
  refine ⟨rfl, ?_⟩
  exact {
    layered := hlayered
    depth := by rw [stack, depth_stackAt, hlast]
    current_lt := by omega
    parent_lt := fun _ _ _ ↦ hlayered.parent_lt
    walk := fun name steps hsteps ↦ by
      rw [hlayered.find?_eq, hlayered.findFrom? name (Nat.le_refl _) (by omega)]
    chain := fun steps hsteps ↦ hlayered.outwards_eq (Nat.le_refl _) (by omega) (by omega)
    define_answers := hlayered.define?_eq
    assign_answers := hlayered.assign?_eq
    enter := hlayered.stack_enter
    restore := fun _ ↦ stack_restore
    define := hlayered.stack_define
    redeclared_iff := hlayered.redeclared_iff
    get := hlayered.get_eq
    has := hlayered.has_eq
    has_iff_get := env.has_iff_get
    assign := hlayered.stack_assign
    constant_iff := fun name value ↦ by
      obtain ⟨hfind, hassign⟩ | ⟨old, hfind, hassign⟩ | ⟨old, env', hfind, hassign⟩ :=
        hlayered.assign_cases name value <;> simp [hfind, hassign]
    undefined_iff := fun name value ↦ by
      obtain ⟨hfind, hassign⟩ | ⟨old, hfind, hassign⟩ | ⟨old, env', hfind, hassign⟩ :=
        hlayered.assign_cases name value <;> simp [hfind, hassign] }

theorem refinesStack_of_inner_constant :
    ∃ env, initial.enter.define "a" .constant (.boolean true) = .ok env ∧ env.RefinesStack ∧
      env.stack.depth = 2 ∧ env.assign "a" .null = .error (.constantAssignment "a") :=
  ⟨_, rfl, (Reached.refinesStack (.define (.enter .initial) rfl)).2, rfl, rfl⟩

end Environment

end Sigil
