import Mathlib.Data.String.Basic
import Sigil.Proofs.Decimal.Order
import Sigil.Proofs.Value.Refusal

/-!
# Comparing values

Six operators compare values.  Equality asks for the same type and the same content; the
four orderings refuse values that are not of one ordered type.  Within such a type all six say
the same of two values: which of them is the lesser, or that neither is.  Only a number that is
not a number passes no test at all.
-/

namespace Sigil

namespace Value

variable {x y z : Value}

/-- The two values are numbers, or booleans, or texts. -/
inductive Comparable : Value → Value → Prop
  | numbers (x y : Float) : Comparable (.number x) (.number y)
  | booleans (a b : Bool) : Comparable (.boolean a) (.boolean b)
  | texts (s t : String) : Comparable (.text s) (.text t)

/-- The value is the double that is not a number. -/
def isNaN : Value → Bool
  | .number x => x.isNaN
  | _ => false

/-! ### The order of two values -/

theorem orderTexts_eq_compare (s t : String) : orderTexts s t = compare s t := by
  rw [LinearOrder.compare_eq_compareOfLessAndEq]
  rfl

theorem orderBooleans_eq_compare (a b : Bool) : orderBooleans a b = compare a b := by
  cases a <;> cases b <;> rfl

theorem order_eq_ok_iff : (∃ ordering, x.order y = .ok ordering) ↔ x.Comparable y := by
  constructor
  · rintro ⟨ordering, h⟩
    unfold order at h
    split at h
    · exact .numbers _ _
    · exact .booleans _ _
    · exact .texts _ _
    · cases h
  · rintro (_ | _ | _) <;> exact ⟨_, rfl⟩

/-- The other way round, two values have the opposite order. -/
theorem order_swap (x y : Value) : y.order x = (x.order y).map (Option.map Ordering.swap) := by
  by_cases h : x.Comparable y
  · cases h with
    | numbers x y => exact congrArg Except.ok (orderNumbers_swap x y)
    | booleans a b => cases a <;> cases b <;> rfl
    | texts s t =>
        refine congrArg (Except.ok ∘ some) ?_
        rw [orderTexts_eq_compare, orderTexts_eq_compare]
        exact Std.OrientedOrd.eq_swap
  · cases x <;> cases y <;> first | rfl | exact absurd (by constructor) h

theorem order_trans (h : x.order y = .ok (some .lt)) (h' : y.order z = .ok (some .lt)) :
    x.order z = .ok (some .lt) := by
  have hxy : x.Comparable y := order_eq_ok_iff.mp ⟨_, h⟩
  have hyz : y.Comparable z := order_eq_ok_iff.mp ⟨_, h'⟩
  cases hxy with
  | numbers x y =>
      cases hyz with
      | numbers _ z =>
          exact congrArg Except.ok (orderNumbers_trans (Except.ok.inj h) (Except.ok.inj h'))
  | booleans a b =>
      cases hyz with
      | booleans _ c =>
          simp only [order, Except.ok.injEq, Option.some_inj, orderBooleans_eq_compare,
            compare_lt_iff_lt] at h h' ⊢
          exact h.trans h'
  | texts s t =>
      cases hyz with
      | texts _ u =>
          simp only [order, Except.ok.injEq, Option.some_inj, orderTexts_eq_compare,
            compare_lt_iff_lt] at h h' ⊢
          exact h.trans h'

/-- Unless one is not a number, comparable values have an order, and they are the same if neither
is the lesser. -/
theorem exists_order (h : x.Comparable y) (hx : x.isNaN = false) (hy : y.isNaN = false) :
    ∃ ordering, x.order y = .ok (some ordering) ∧ x.same y = (ordering == .eq) := by
  cases h with
  | numbers x y =>
      refine ⟨_, congrArg Except.ok (orderNumbers_eq_some hx hy), ?_⟩
      rw [same, beq_eq_orderNumbers, orderNumbers_eq_some hx hy]
      rfl
  | booleans a b =>
      refine ⟨_, rfl, ?_⟩
      cases a <;> cases b <;> rfl
  | texts s t =>
      refine ⟨_, rfl, ?_⟩
      rw [same, orderTexts_eq_compare, Bool.eq_iff_iff, beq_iff_eq, beq_iff_eq, compare_eq_iff_eq]

theorem order_eq_ok_none (h : x.Comparable y) (hnan : x.isNaN = true ∨ y.isNaN = true) :
    x.order y = .ok none := by
  cases h with
  | numbers x y => exact congrArg Except.ok (orderNumbers_eq_none hnan)
  | _ => rcases hnan with hnan | hnan <;> cases hnan

theorem same_eq_false_of_typeName (h : x.typeName ≠ y.typeName) : x.same y = false := by
  cases x <;> cases y <;> first | rfl | exact absurd rfl h

theorem same_eq_false_of_isNaN (hnan : x.isNaN = true ∨ y.isNaN = true) : x.same y = false := by
  cases x with
  | number x =>
      cases y with
      | number y =>
          rw [same, beq_eq_orderNumbers, orderNumbers_eq_none hnan]
          rfl
      | _ => rfl
  | _ =>
      cases y with
      | number y => rfl
      | _ => rcases hnan with hnan | hnan <;> cases hnan

/-! ### Testing the order -/

theorem compareBy_of_order {test : Ordering → Bool} {ordering : Option Ordering}
    (h : x.order y = .ok ordering) : x.compareBy test y = .ok (.boolean (ordering.any test)) := by
  rw [compareBy, h]
  rfl

theorem compareBy_eq_error_iff {test : Ordering → Bool} {e : RuntimeError} :
    x.compareBy test y = .error e ↔ e = .implicitCast ∧ ¬ x.Comparable y := by
  constructor
  · intro h
    refine ⟨eq_of_compareBy h, fun hcomparable ↦ ?_⟩
    obtain ⟨ordering, horder⟩ := order_eq_ok_iff.mpr hcomparable
    rw [compareBy_of_order horder] at h
    cases h
  · rintro ⟨rfl, h⟩
    cases horder : x.order y with
    | ok ordering => exact absurd (order_eq_ok_iff.mp ⟨ordering, horder⟩) h
    | error e =>
        rw [compareBy, horder, eq_of_order horder]
        rfl

end Value

namespace BinaryOperator

/-- The operators that ask which of two values is the lesser. -/
def orderings : List BinaryOperator := [.less, .lessEqual, .greater, .greaterEqual]

/-- An ordering tests the order of its operands. -/
theorem exists_test {op : BinaryOperator} (h : op ∈ orderings) :
    ∃ test, ∀ x y, op.apply x y = x.compareBy test y := by
  simp only [orderings, List.mem_cons, List.not_mem_nil, or_false] at h
  rcases h with rfl | rfl | rfl | rfl <;> exact ⟨_, fun _ _ ↦ rfl⟩

/-- The operator succeeds, and says that it holds or that it does not. -/
def Answers (op : BinaryOperator) (x y : Value) (b : Bool) : Prop := op.apply x y = .ok (.boolean b)

theorem Answers.unique {op : BinaryOperator} {x y : Value} {b c : Bool} (h : op.Answers x y b)
    (h' : op.Answers x y c) : b = c :=
  Value.boolean.inj (Except.ok.inj (h.symm.trans h'))

/-- The operator that holds of two values in a given order. -/
def ofOrdering : Ordering → BinaryOperator
  | .lt => .less
  | .eq => .equal
  | .gt => .greater

end BinaryOperator

open BinaryOperator

/-- Of two values exactly one is the lesser, or they are equal, and the other two orderings are
the opposites of these. -/
structure ComparesTotally (x y : Value) : Prop where
  exactly_one : ∃! op, op ∈ [less, equal, greater] ∧ op.Answers x y true
  atMost : ∃ b, greater.Answers x y b ∧ lessEqual.Answers x y !b
  atLeast : ∃ b, less.Answers x y b ∧ greaterEqual.Answers x y !b

/-- The six operators that compare values make one order of them. -/
structure ComparesConsistently (x y z : Value) : Prop where
  -- Orderings refuse what is not of one ordered type, and nothing else; equality refuses nothing.
  refused_iff : ∀ op ∈ orderings, ∀ e,
    op.apply x y = .error e ↔ e = .implicitCast ∧ ¬ x.Comparable y
  answered : ∀ op ∈ orderings, x.Comparable y → ∃ b, op.Answers x y b
  unequal : ∃ b, equal.Answers x y b ∧ notEqual.Answers x y !b
  -- Numbers, booleans and texts are ordered, each among themselves.
  total : x.Comparable y → x.isNaN = false → y.isNaN = false → ComparesTotally x y
  reversed : less.apply x y = greater.apply y x
  transitive : less.Answers x y true → less.Answers y z true → less.Answers x z true
  -- Other types, and what is not a number.
  otherType : x.typeName ≠ y.typeName → equal.Answers x y false
  notANumber : x.isNaN = true ∨ y.isNaN = true → equal.Answers x y false ∧
    ∀ op ∈ orderings, x.Comparable y → op.Answers x y false

namespace Value

variable {x y z : Value}

theorem less_answers_true_iff : less.Answers x y true ↔ x.order y = .ok (some .lt) := by
  rw [Answers, BinaryOperator.apply]
  constructor
  · intro h
    cases horder : x.order y with
    | error e =>
        rw [compareBy, horder] at h
        cases h
    | ok ordering =>
        rw [compareBy_of_order horder] at h
        rcases ordering with _ | _ | _ | _ <;> first | rfl | cases h
  · exact compareBy_of_order

/-- All operators test the one order that two values have. -/
theorem comparesTotally_of_order {ordering : Ordering} (horder : x.order y = .ok (some ordering))
    (hsame : x.same y = (ordering == .eq)) : ComparesTotally x y := by
  have hless : less.Answers x y (ordering == .lt) := compareBy_of_order horder
  have hgreater : greater.Answers x y (ordering == .gt) := compareBy_of_order horder
  have hequal : equal.Answers x y (ordering == .eq) := congrArg (Except.ok ∘ boolean) hsame
  refine ⟨⟨ofOrdering ordering, ⟨?_, ?_⟩, ?_⟩, ⟨_, hgreater, compareBy_of_order horder⟩,
    ⟨_, hless, compareBy_of_order horder⟩⟩
  · cases ordering <;> simp [ofOrdering]
  · cases ordering with
    | lt => exact hless
    | eq => exact hequal
    | gt => exact hgreater
  · rintro op ⟨hop, hholds⟩
    simp only [List.mem_cons, List.not_mem_nil, or_false] at hop
    rcases hop with rfl | rfl | rfl
    · rw [eq_of_beq (hless.unique hholds), ofOrdering]
    · rw [eq_of_beq (hequal.unique hholds), ofOrdering]
    · rw [eq_of_beq (hgreater.unique hholds), ofOrdering]

theorem less_apply_eq (x y : Value) : less.apply x y = greater.apply y x := by
  rw [BinaryOperator.apply, BinaryOperator.apply, compareBy, compareBy, order_swap x y]
  rcases x.order y with e | _ | _ | _ | _ <;> rfl

/-- Whatever the values, the six operators are consistent. -/
theorem comparesConsistently (x y z : Value) : ComparesConsistently x y z where
  refused_iff op hop e := by
    obtain ⟨test, htest⟩ := exists_test hop
    rw [htest]
    exact compareBy_eq_error_iff
  answered op hop h := by
    obtain ⟨test, htest⟩ := exists_test hop
    obtain ⟨ordering, horder⟩ := order_eq_ok_iff.mpr h
    exact ⟨_, (htest x y).trans (compareBy_of_order horder)⟩
  unequal := ⟨x.same y, rfl, rfl⟩
  total h hx hy := by
    obtain ⟨ordering, horder, hsame⟩ := exists_order h hx hy
    exact comparesTotally_of_order horder hsame
  reversed := less_apply_eq x y
  transitive h h' := by
    rw [less_answers_true_iff] at h h' ⊢
    exact order_trans h h'
  otherType h := congrArg (Except.ok ∘ boolean) (same_eq_false_of_typeName h)
  notANumber hnan := by
    refine ⟨congrArg (Except.ok ∘ boolean) (same_eq_false_of_isNaN hnan), fun op hop h ↦ ?_⟩
    obtain ⟨test, htest⟩ := exists_test hop
    exact (htest x y).trans (compareBy_of_order (order_eq_ok_none h hnan))

end Value

end Sigil
