import Sigil.Proofs.Decimal.Whole
import Sigil.Proofs.Evaluation.Scoping
import Sigil.Proofs.Evaluation.Update
import Sigil.Proofs.Grammar.ExpressionReading

/-!
# Updates before and after their variable

An update is written before its variable or after it.  The one before needs a number.  The one
after is an assignment of a sum or a difference with one, so what it needs is up to the operator,
and adding one to a text appends it.  That apart, both do the same, and they yield the value that
the variable has afterwards or had before.
-/

namespace Sigil

/-- The name means a variable that holds a text. -/
def Environment.HoldsMutableText (env : Environment) (name : String) : Prop :=
  ∃ scope s, env.find? name = some (scope, ⟨.mutable, .text s⟩)

/-! ### Both updates -/

section Updates

variable {env : Environment} {name : String} {place place' operator operator' : Span}
  {op : BinaryOperator} {step : Float}

theorem Expr.eval_updated (env : Environment) (name : String) (span operator : Span)
    (op : BinaryOperator) :
    (Expr.updated name span op operator).eval env =
      match env.get name with
      | .error e => .error e env
      | .ok old =>
        match op.apply old (.number 1) with
        | .error e => .error e env
        | .ok stored => env.assignYielding name stored old := by
  simp only [updated, eval]
  cases hget : env.get name with
  | error e => rfl
  | ok old =>
      simp only [Evaluated.ofExcept, Evaluated.andThen_value]
      cases op.apply old (.number 1) with
      | error e => rfl
      | ok stored => simp [Environment.assignTimed, hget]

theorem Expr.eval_update {op : UnaryOperator} (h : op.step? = some step) (operand : Expr)
    (span : Span) (env : Environment) :
    (Expr.unary op operand span).eval env = env.update step operand := by
  rw [eval, h]

/-- An update that yields the new value of a name and one that yields its old value do the same:
both succeed or neither does.  If they succeed they leave one environment, and if one fails it
leaves the environment it was given. -/
structure UpdatesAgree (env : Environment) (name : String) (leading trailing : Evaluated Value) :
    Prop where
  succeed_iff : (∃ old after, trailing = .value old after) ↔
    ∃ new after, leading = .value new after
  values : ∀ new after, leading = .value new after → after.get name = .ok new ∧
    ∃ old, env.get name = .ok old ∧ trailing = .value old after
  leading_failed : ∀ e after, leading = .error e after → after = env
  trailing_failed : ∀ e after, trailing = .error e after → after = env

namespace UpdatesAgree

/-- Both updates fail. -/
theorem of_error (e e' : RuntimeError) :
    UpdatesAgree env name (.error e env) (.error e' env) where
  succeed_iff := by simp
  values _ _ h := by cases h
  leading_failed _ _ h := by cases h; rfl
  trailing_failed _ _ h := by cases h; rfl

/-- Both updates assign a value. -/
theorem of_assign {old : Value} (new : Value) (hget : env.get name = .ok old) :
    UpdatesAgree env name (env.assignYielding name new new) (env.assignYielding name new old) := by
  unfold Environment.assignYielding
  cases hassign : env.assign name new with
  | error e => exact of_error e e
  | ok after =>
      exact {
        succeed_iff := by simp
        values := by
          rintro _ _ ⟨⟩
          exact ⟨Environment.get_of_assign hassign, old, hget, rfl⟩
        leading_failed := by simp
        trailing_failed := by simp }

/-- The updates agree if they do the same to numbers, and what the operator makes of other values
cannot be stored. -/
theorem of_apply (hnumber : ∀ x, op.apply (.number x) (.number 1) = .ok (.number (x + step)))
    (hother : ∀ old stored, env.get name = .ok old → (∀ x, old ≠ .number x) →
      op.apply old (.number 1) = .ok stored → ∃ e, env.assign name stored = .error e) :
    UpdatesAgree env name (env.update step (.reference name place))
      ((Expr.updated name place' op operator).eval env) := by
  rw [Expr.eval_updated]
  by_cases hnone : env.HoldsNoNumber name
  · rw [Environment.update_eq_error_iff.mpr ⟨rfl, hnone⟩]
    obtain ⟨old, hget, hold⟩ := hnone
    cases happly : op.apply old (.number 1) with
    | error e =>
        simp only [hget, happly]
        exact of_error .expectedNumericVariable e
    | ok stored =>
        obtain ⟨e, he⟩ := hother old stored hget hold happly
        simp only [hget, happly, Environment.assignYielding, he]
        exact of_error .expectedNumericVariable e
  · rw [Environment.update]
    cases hget : env.get name with
    | error e => exact of_error e e
    | ok old =>
        cases old with
        | number x =>
            simp only [hnumber]
            exact of_assign (.number (x + step)) hget
        | _ => exact absurd ⟨_, hget, by simp⟩ hnone

theorem of_sub : UpdatesAgree env name (env.update (-1) (.reference name place))
    ((Expr.updated name place' .sub operator).eval env) := by
  refine of_apply (fun x ↦ ?_) fun old stored _ hold hstored ↦ ?_
  · rw [add_neg_one]
    rfl
  · cases old with
    | number x => exact absurd rfl (hold x)
    | _ => cases hstored

theorem of_add (htext : ¬ env.HoldsMutableText name) :
    UpdatesAgree env name (env.update 1 (.reference name place))
      ((Expr.updated name place' .add operator).eval env) := by
  refine of_apply (fun x ↦ rfl) fun old stored hget hold hstored ↦ ?_
  cases old with
  | number x => exact absurd rfl (hold x)
  | text s =>
      -- what holds the text is no variable, and so it is a constant
      obtain ⟨scope, mutability, hfind⟩ := Environment.exists_find?_of_get hget
      cases mutability with
      | constant => exact ⟨.constantAssignment name, by simp [Environment.assign_eq, hfind]⟩
      | mutable => exact absurd ⟨scope, s, hfind⟩ htext
  | _ => cases hstored

end UpdatesAgree

/-- Behind a variable that holds a text, an update appends to the text. -/
theorem eval_updated_of_find? {scope : Nat} {s : String}
    (h : env.find? name = some (scope, ⟨.mutable, .text s⟩)) :
    ∃ after, env.assign name (.text (s ++ "1")) = .ok after ∧
      (Expr.updated name place .add operator).eval env = .value (.text s) after := by
  have hget : env.get name = .ok (.text s) := by simp [Environment.get_eq, h]
  have hone : (Value.number 1).display = "1" := by decide
  have hadd : BinaryOperator.add.apply (.text s) (.number 1) = .ok (.text (s ++ "1")) := by
    simp [BinaryOperator.apply, Value.add, hone]
  obtain ⟨after, hafter⟩ : ∃ after, env.assign name (.text (s ++ "1")) = .ok after := by
    simp [Environment.assign_eq, h]
  refine ⟨after, hafter, ?_⟩
  rw [Expr.eval_updated]
  simp only [hget, hadd, Environment.assignYielding, hafter]

/-- Before a variable that holds a text, an update fails. -/
theorem update_of_find? {scope : Nat} {s : String}
    (h : env.find? name = some (scope, ⟨.mutable, .text s⟩)) :
    env.update step (.reference name place) = .error .expectedNumericVariable env := by
  have hget : env.get name = .ok (.text s) := by simp [Environment.get_eq, h]
  exact Environment.update_eq_error_iff.mpr ⟨rfl, .text s, hget, by simp⟩

/-! ### Reading updates -/

/-- The tokens are read as an expression. -/
def ReadAs (tokens : List Token) (expr : Expr) : Prop :=
  ∃ rest, (Cursor.ofTokens tokens).readExpression = .read expr rest

namespace Grammar

/-- A unary phrase is one on every level. -/
def Phrase.ofUnary (unary : Phrase .unary) : Phrase .assignment :=
  let additive : Phrase (.chain .additive) := .chain (.chain unary .none) .none
  let equality : Phrase (.chain .equality) := .chain (.chain additive .none) .none
  .unassigned (.chain (.chain (.unconditional equality) .none) .none)

theorem Phrase.readAs (phrase : Phrase .assignment) : ReadAs phrase.tokens phrase.expr :=
  ⟨_, phrase.readLevel_eq (.ofTokens phrase.tokens) [] (List.append_nil _).symm (ends_nil _ _)⟩

end Grammar

open Grammar

theorem readAs_leading {kind : TokenKind} {op : UnaryOperator}
    (h : updates.lookup kind = some op) :
    ReadAs [⟨kind, .null, operator⟩, ⟨.identifier, .text name, place⟩]
      (.unary op (.reference name place) operator) :=
  (Phrase.ofUnary (.updating ⟨⟨kind, .null, operator⟩, op, h⟩
    ⟨⟨.identifier, .text name, place⟩, rfl⟩)).readAs

theorem readAs_trailing {kind : TokenKind} (h : suffixes.lookup kind = some op) :
    ReadAs [⟨.identifier, .text name, place⟩, ⟨kind, .null, operator⟩]
      (.updated name place op operator) :=
  (Phrase.ofUnary (.unsigned (.suffixed ⟨⟨.identifier, .text name, place⟩, rfl⟩
    ⟨⟨kind, .null, operator⟩, op, h⟩))).readAs

/-- Updates by one that are written before and after their variable agree, unless one is to be
added to a variable that holds a text: the update behind it appends the digit to the text, and
the one before it fails. -/
theorem updates_agree (name : String) (place place' operator operator' : Span) :
    (∃ leading trailing,
      ReadAs [⟨.plusPlus, .null, operator⟩, ⟨.identifier, .text name, place⟩] leading ∧
      ReadAs [⟨.identifier, .text name, place'⟩, ⟨.plusPlus, .null, operator'⟩] trailing ∧
      ∀ env : Environment,
        (¬ env.HoldsMutableText name →
          UpdatesAgree env name (leading.eval env) (trailing.eval env)) ∧
        (∀ scope s, env.find? name = some (scope, ⟨.mutable, .text s⟩) →
          leading.eval env = .error .expectedNumericVariable env ∧
          ∃ after, env.assign name (.text (s ++ "1")) = .ok after ∧
            trailing.eval env = .value (.text s) after)) ∧
    (∃ leading trailing,
      ReadAs [⟨.minusMinus, .null, operator⟩, ⟨.identifier, .text name, place⟩] leading ∧
      ReadAs [⟨.identifier, .text name, place'⟩, ⟨.minusMinus, .null, operator'⟩] trailing ∧
      ∀ env : Environment, UpdatesAgree env name (leading.eval env) (trailing.eval env)) := by
  constructor
  · refine ⟨_, _, readAs_leading rfl, readAs_trailing rfl, fun env ↦ ⟨?_, ?_⟩⟩
    · intro htext
      rw [Expr.eval_update rfl]
      exact .of_add htext
    · intro scope s hfind
      rw [Expr.eval_update rfl]
      exact ⟨update_of_find? hfind, eval_updated_of_find? hfind⟩
  · refine ⟨_, _, readAs_leading rfl, readAs_trailing rfl, fun env ↦ ?_⟩
    rw [Expr.eval_update rfl]
    exact .of_sub

/-- The state after `let @s = "a";`. -/
def State.holdingText : State := ⟨⟨[⟨[("@s", .text "a")], [], none⟩], 0⟩, .unlimited⟩

/-- Where `@s` is the text `a`, the updates `++@s` and `@s++` do not agree. -/
theorem not_updatesAgree_holdingText :
    State.holdingText.Reachable ∧
    ReadAs [⟨.plusPlus, .null, ⟨0, 2⟩⟩, ⟨.identifier, .text "@s", ⟨2, 4⟩⟩]
      (.unary .increment (.reference "@s" ⟨2, 4⟩) ⟨0, 2⟩) ∧
    ReadAs [⟨.identifier, .text "@s", ⟨0, 2⟩⟩, ⟨.plusPlus, .null, ⟨2, 4⟩⟩]
      (.updated "@s" ⟨0, 2⟩ .add ⟨2, 4⟩) ∧
    ¬ UpdatesAgree State.holdingText.environment "@s"
      ((Expr.unary .increment (.reference "@s" ⟨2, 4⟩) ⟨0, 2⟩).eval State.holdingText.environment)
      ((Expr.updated "@s" ⟨0, 2⟩ .add ⟨2, 4⟩).eval State.holdingText.environment) := by
  refine ⟨?_, readAs_leading rfl, readAs_trailing rfl, fun hagree ↦ ?_⟩
  · exact .run (.initial .unlimited) 0
      (.declaration "@s" ⟨4, 6⟩ (some (.literal (.text "a"))) .mutable) rfl
  · have hfind : State.holdingText.environment.find? "@s" = some (0, ⟨.mutable, .text "a"⟩) := rfl
    obtain ⟨after, -, htrailing⟩ := eval_updated_of_find? hfind
    obtain ⟨new, after', hleading⟩ := hagree.succeed_iff.mp ⟨_, after, htrailing⟩
    cases hleading

end Updates

end Sigil
