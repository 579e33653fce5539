import Sigil.Proofs.Environment.Owner
import Sigil.Proofs.Evaluation.Outcome

/-!
# What operators and names refuse

The errors of operators are about the types of their operands and about division by
zero.  None of them is about a name; the errors of lookups and assignments are.
-/

namespace Sigil

/-- The errors by which an operator refuses its operands. -/
def RuntimeError.isRefusal : RuntimeError → Bool
  | .invalidAddition => true
  | .invalidSubtraction => true
  | .invalidMultiplication => true
  | .invalidDivision => true
  | .divisionByZero => true
  | .implicitCast => true
  | .expectedNumberOrBoolean => true
  | _ => false

variable {e : RuntimeError} {left right value : Value}

theorem Value.eq_of_arithmetic {refusal : RuntimeError} {f : Float → Float → Float}
    (h : left.arithmetic refusal f right = .error e) : e = refusal := by
  unfold arithmetic at h
  split at h <;> cases h
  rfl

theorem Value.eq_of_order (h : left.order right = .error e) : e = .implicitCast := by
  unfold order at h
  split at h <;> cases h
  rfl

theorem Value.eq_of_compareBy {test : Ordering → Bool}
    (h : left.compareBy test right = .error e) : e = .implicitCast := by
  unfold compareBy at h
  cases horder : left.order right with
  | ok ordering =>
      rw [horder] at h
      cases h
  | error refusal =>
      rw [horder] at h
      cases h
      exact eq_of_order horder

theorem BinaryOperator.isRefusal_of_apply {op : BinaryOperator}
    (h : op.apply left right = .error e) : e.isRefusal = true := by
  cases op with
  | add =>
      simp only [apply, Value.add] at h
      split at h <;> cases h
      rfl
  | sub =>
      rw [Value.eq_of_arithmetic h]
      rfl
  | mul =>
      rw [Value.eq_of_arithmetic h]
      rfl
  | div =>
      simp only [apply, Value.divide] at h
      split at h
      · split at h <;> cases h
        rfl
      · cases h
        rfl
  | equal => cases h
  | notEqual => cases h
  | _ =>
      rw [Value.eq_of_compareBy h]
      rfl

/-- An operator that updates a variable refuses every value: it needs the variable. -/
theorem UnaryOperator.isRefusal_of_apply {op : UnaryOperator} (h : op.apply value = .error e) :
    e.isRefusal = true ∨ (op.step?.isSome = true ∧ e = .expectedNumericVariable) := by
  unfold apply at h
  split at h
  case h_4 =>
    split at h <;> cases h
    exact .inl rfl
  all_goals cases h
  · exact .inl rfl
  · exact .inr ⟨rfl, rfl⟩
  · exact .inr ⟨rfl, rfl⟩

/-! ### Names -/

/-- The errors of looking a name up and of assigning it. -/
def RuntimeError.isNameError : RuntimeError → Bool
  | .undefinedVariable _ => true
  | .undefinedAssignment _ => true
  | .constantAssignment _ => true
  | _ => false

namespace Environment

variable {env : Environment} {name : String}

theorem isNameError_of_get (h : env.get name = .error e) : e.isNameError = true := by
  rw [get_eq] at h
  split at h <;> cases h
  rfl

theorem isNameError_of_assign (h : env.assign name value = .error e) : e.isNameError = true := by
  rw [assign_eq] at h
  split at h <;> cases h
  · rfl
  · rfl

theorem nameError_assignYielding (env : Environment) (name : String) (stored yielded : Value) :
    (env.assignYielding name stored yielded).Ensures (fun _ _ ↦ True)
      (fun e _ ↦ e.isNameError = true) := by
  unfold assignYielding
  split
  · trivial
  · rename_i e he
    exact isNameError_of_assign he

theorem nameError_assignTimed (env : Environment) (name : String) (value : Value)
    (timing : Timing) :
    (env.assignTimed name value timing).Ensures (fun _ _ ↦ True)
      (fun e _ ↦ e.isNameError = true) := by
  cases timing with
  | after => exact env.nameError_assignYielding name value value
  | before =>
      rw [assignTimed]
      split
      · rename_i previous _
        exact env.nameError_assignYielding name value previous
      · rename_i e he
        exact isNameError_of_get he

end Environment

end Sigil
