import Sigil.RuntimeError
import Sigil.Tree.Basic

/-!
# Environments

Names are bound in scopes, as variables or as constants, and a scope may stand inside
another one.  The scopes of an environment are numbered in the order in which they were
entered; one of them is current.  A name means what the nearest scope, going outwards
from the current one, binds it to.

A scope is asked for by its number, and there may be none with that number.  Then
binding and assigning a name have no answer (`define?`, `assign?`).  While a script
runs all scopes that are asked for exist, so that there always is one
(`Layered.define?_eq`, `Layered.assign?_eq`), and `define` and `assign` give it.
-/

namespace Sigil

/-- The variables and the constants of one scope, and the number of the scope around it. -/
structure Scope where
  mutables : List (String × Value)
  constants : List (String × Value)
  parent : Option Nat
  deriving Repr

namespace Scope

/-- The scope has the name, as a variable or as a constant. -/
def declares (scope : Scope) (name : String) : Bool :=
  (scope.mutables.lookup name).isSome || (scope.constants.lookup name).isSome

/-- The value of a name in the scope. -/
def lookup? (scope : Scope) (name : String) : Option Value :=
  (scope.mutables.lookup name).or (scope.constants.lookup name)

/-- Adds a name. -/
def insert (scope : Scope) (name : String) (value : Value) : Mutability → Scope
  | .mutable => { scope with mutables := (name, value) :: scope.mutables }
  | .constant => { scope with constants := (name, value) :: scope.constants }

/-- Changes the value of a variable. -/
def replace (scope : Scope) (name : String) (value : Value) : Scope :=
  { scope with
    mutables := scope.mutables.map fun entry ↦
      if entry.1 = name then (entry.1, value) else entry }

end Scope

/-- Scopes, and the number of the current one. -/
structure Environment where
  scopes : List Scope
  current : Nat
  deriving Repr

namespace Environment

/-- The environment with one scope, which is empty. -/
def initial : Environment := ⟨[⟨[], [], none⟩], 0⟩

/-- Enters a new scope inside the current one. -/
def enter (env : Environment) : Environment :=
  ⟨env.scopes ++ [⟨[], [], some env.current⟩], env.scopes.length⟩

/-- Makes a scope current and drops those entered after it.  A scope that does not exist may be
made current; it has no names. -/
def restore (env : Environment) (scope : Nat) : Environment :=
  ⟨env.scopes.take (scope + 1), scope⟩

/-- The scopes from one outwards, at most `steps` of them.  There are no more of them beyond a scope
that does not exist. -/
def outwards (scopes : List Scope) : Nat → Option Nat → List Scope
  | steps + 1, some start =>
    match scopes[start]? with
    | none => []
    | some scope => scope :: outwards scopes steps scope.parent
  | _, _ => []

/-- The scopes from the current one outwards.  A way out meets no scope twice, so it is not longer
than there are scopes. -/
def chain (env : Environment) : List Scope :=
  outwards env.scopes env.scopes.length (some env.current)

/-- The value of a name in the nearest scope that has it. -/
def get (env : Environment) (name : String) : Except RuntimeError Value :=
  match env.chain.findSome? (·.lookup? name) with
  | some value => .ok value
  | none => .error (.undefinedVariable name)

/-- Some scope, from the current one outwards, has the name. -/
def has (env : Environment) (name : String) : Bool := env.chain.any (·.declares name)

/-- Binds a name in the current scope, which must not have it yet.  There is no answer if the
current scope does not exist. -/
def define? (env : Environment) (name : String) (mutability : Mutability) (value : Value) :
    Option (Except RuntimeError Environment) :=
  env.scopes[env.current]?.map fun scope ↦
    if scope.declares name then .error (.redeclared name)
    else
      .ok { env with scopes := env.scopes.set env.current (scope.insert name value mutability) }

/-- Changes the value of a variable in the nearest scope, from one outwards, that has the name.
There is no answer if a scope on the way does not exist, or if there is no end to the way. -/
def assignFrom? (scopes : List Scope) (name : String) (value : Value) :
    Nat → Option Nat → Option (Except RuntimeError (List Scope))
  | _, none => some (.error (.undefinedAssignment name))
  | 0, some _ => none
  | steps + 1, some start =>
    match scopes[start]? with
    | none => none
    | some scope =>
      if (scope.mutables.lookup name).isSome then
        some (.ok (scopes.modify start (·.replace name value)))
      else if (scope.constants.lookup name).isSome then some (.error (.constantAssignment name))
      else assignFrom? scopes name value steps scope.parent

/-- Changes the value of a variable in the nearest scope that has the name. -/
def assign? (env : Environment) (name : String) (value : Value) :
    Option (Except RuntimeError Environment) :=
  (assignFrom? env.scopes name value env.scopes.length (some env.current)).map fun result ↦
    result.map fun scopes ↦ { env with scopes := scopes }

/-- Binds a name in the current scope, which exists; it is not for environments where it does
not. -/
def define (env : Environment) (name : String) (mutability : Mutability) (value : Value) :
    Except RuntimeError Environment :=
  (env.define? name mutability value).getD (.ok env)

/-- Changes the value of a variable in the nearest scope that has the name.  The scopes on the way
exist; it is not for environments where some do not. -/
def assign (env : Environment) (name : String) (value : Value) :
    Except RuntimeError Environment :=
  (env.assign? name value).getD (.error (.undefinedAssignment name))

end Environment

end Sigil
