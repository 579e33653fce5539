import Sigil.Environment

/-!
# Operations on environments

What may be asked of an environment from outside, in any order and with any numbers of
scopes, which are words of sixty-four bits.  An operation need not have a reply: it may
ask for a scope that does not exist, its arithmetic may overflow, or its way outwards may
have no end.
-/

namespace Sigil

/-- What becomes of a sum that is no word: there is none, or it is taken modulo the number of
words. -/
inductive Overflow where
  | refused
  | wrapped
  deriving DecidableEq, Repr

namespace Environment

/-- Makes a scope current, given by any word, and drops those entered after it.  The scopes that
are kept are one more than the word says, which is too many at the largest word. -/
def restoreWord? (overflow : Overflow) (env : Environment) (scope : UInt64) : Option Environment :=
  if overflow = .refused ∧ scope + 1 = 0 then none
  else some ⟨env.scopes.take (scope + 1).toNat, scope.toNat⟩

/-- The way outwards ends after at most `steps` scopes. -/
def endsFrom (scopes : List Scope) : Nat → Option Nat → Bool
  | _, none => true
  | 0, some start => scopes[start]?.isNone
  | steps + 1, some start =>
    match scopes[start]? with
    | none => true
    | some scope => endsFrom scopes steps scope.parent

/-- The search for a name from the current scope outwards ends, as it finds the name or as there is
an end to the way. -/
def searchEnds (env : Environment) (name : String) : Bool :=
  env.has name || endsFrom env.scopes env.scopes.length (some env.current)

/-- What may be asked of an environment. -/
inductive Operation where
  | current
  | enter
  | restore (scope : UInt64)
  | define (name : String) (mutability : Mutability) (value : Value)
  | assign (name : String) (value : Value)
  | get (name : String)
  | has (name : String)

/-- What an environment replies. -/
inductive Reply where
  | scope (scope : Nat)
  | done
  | value (value : Value)
  | found (found : Bool)
  | refused (e : RuntimeError)

/-- The reply to a change that may be refused, and the environment afterwards. -/
def changed (env : Environment) : Except RuntimeError Environment → Reply × Environment
  | .ok after => (.done, after)
  | .error e => (.refused e, env)

/-- The reply to an operation, if there is one, and the environment afterwards. -/
def perform? (overflow : Overflow) (env : Environment) : Operation → Option (Reply × Environment)
  | .current => some (.scope env.current, env)
  | .enter => some (.scope env.current, env.enter)
  | .restore scope => (env.restoreWord? overflow scope).map fun after ↦ (.done, after)
  | .define name mutability value => (env.define? name mutability value).map env.changed
  | .assign name value => (env.assign? name value).map env.changed
  | .get name =>
    if env.searchEnds name then
      match env.get name with
      | .ok value => some (.value value, env)
      | .error e => some (.refused e, env)
    else none
  | .has name => if env.searchEnds name then some (.found (env.has name), env) else none

/-- The environment after an operation.  An operation without a reply leaves it as it is. -/
def perform (overflow : Overflow) (env : Environment) (operation : Operation) : Environment :=
  ((env.perform? overflow operation).map Prod.snd).getD env

end Environment

end Sigil
