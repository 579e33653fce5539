import Mathlib.Data.Prod.Lex
import Sigil.Value.Operation

/-!
# Doubles in order

Doubles are compared by their signs, exponents and digits.  Those that are numbers lie in one
linear order, in which both zeros have the same place; a double that is not a number has no
place in it and is not even equal to itself.
-/

namespace Sigil

open Float.Model Float.Model.UnpackedFloat

/-- The place of a double among the others: infinities outermost, zeros in the middle, and between
them the exponent first and then the digits. -/
def doubleRank : UnpackedFloat → Int ×ₗ Int ×ₗ Int
  | .notANumber => toLex (0, toLex (0, 0))
  | .zero _ => toLex (0, toLex (0, 0))
  | .finite sign significand exponent _ =>
    toLex (sign.apply 1, toLex (sign.apply exponent, sign.apply significand))
  | .infinity sign => toLex (sign.apply 2, toLex (0, 0))

theorem compare_toLex {α β : Type} [Ord α] [Ord β] (a c : α) (b d : β) :
    compare (toLex (a, b)) (toLex (c, d)) = (compare a c).then (compare b d) := by
  rw [Prod.Lex.compare_def]
  rfl

theorem compare_neg (a b : Int) : compare (-a) (-b) = (compare a b).swap := by
  rw [Int.compare_swap]
  simp only [compare, compareOfLessAndEq, Int.neg_lt_neg_iff, Int.neg_inj, eq_comm]

theorem compare_natCast (m n : Nat) : compare (m : Int) n = compare m n := by
  simp only [compare, compareOfLessAndEq, Int.ofNat_lt, Int.ofNat_inj]

theorem compare_finite (s t : Sign) (m n : Nat) (e d : Int) (hm : 0 < m) (hn : 0 < n) :
    UnpackedFloat.compare (.finite s m e hm) (.finite t n d hn) =
      some (compare (doubleRank (.finite s m e hm)) (doubleRank (.finite t n d hn))) := by
  cases s with
  | negative =>
      cases t with
      | negative =>
          have hsigns : compare (-1 : Int) (-1) = .eq := rfl
          dsimp only [UnpackedFloat.compare, doubleRank, Sign.apply]
          simp only [compare_toLex, hsigns, Ordering.eq_then, compare_neg, compare_natCast,
            Ordering.swap_then]
      | positive => rfl
  | positive =>
      cases t with
      | negative => rfl
      | positive =>
          have hsigns : compare (1 : Int) 1 = .eq := rfl
          dsimp only [UnpackedFloat.compare, doubleRank, Sign.apply]
          simp only [compare_toLex, hsigns, Ordering.eq_then, compare_natCast]

theorem compare_eq_some {a b : UnpackedFloat} (ha : a.isNaN = false) (hb : b.isNaN = false) :
    a.compare b = some (compare (doubleRank a) (doubleRank b)) := by
  rcases a with s | _ | s | ⟨s, m, e, hm⟩
  case notANumber => cases ha
  all_goals rcases b with t | _ | t | ⟨t, n, d, hn⟩
  case infinity.notANumber | zero.notANumber | finite.notANumber => cases hb
  case finite.finite => exact compare_finite s t m n e d hm hn
  -- The classes and the signs decide.
  all_goals cases s <;> cases t <;> rfl

theorem compare_eq_none {a b : UnpackedFloat} (h : a.isNaN = true ∨ b.isNaN = true) :
    a.compare b = none := by
  rcases h with h | h
  · cases a with
    | notANumber => rfl
    | _ => cases h
  · cases b with
    | notANumber => cases a <;> rfl
    | _ => cases h

/-! ### The order of two numbers -/

theorem lt_iff_compare (x y : Float) :
    x < y ↔ x.toModel.unpack.compare y.toModel.unpack = some .lt := by
  change decide ((_ == some Ordering.lt) = true) = true ↔ _
  rw [decide_eq_true_iff, beq_iff_eq]

theorem beq_eq_compare (x y : Float) :
    (x == y) = (x.toModel.unpack.compare y.toModel.unpack == some .eq) := rfl

namespace Value

variable {x y z : Float}

theorem orderNumbers_eq_none (h : x.isNaN = true ∨ y.isNaN = true) : orderNumbers x y = none := by
  have hleft := compare_eq_none h
  have hright := compare_eq_none h.symm
  simp only [orderNumbers, lt_iff_compare, beq_eq_compare]
  rw [hleft, hright]
  rfl

/-- The three tests ask for the order of the two places. -/
theorem orderNumbers_eq_some (hx : x.isNaN = false) (hy : y.isNaN = false) :
    orderNumbers x y =
      some (compare (doubleRank x.toModel.unpack) (doubleRank y.toModel.unpack)) := by
  have hleft := compare_eq_some hx hy
  have hright := compare_eq_some hy hx
  rw [Std.OrientedOrd.eq_swap (a := doubleRank y.toModel.unpack)] at hright
  simp only [orderNumbers, lt_iff_compare, beq_eq_compare]
  rw [hleft, hright]
  cases compare (doubleRank x.toModel.unpack) (doubleRank y.toModel.unpack) <;> rfl

theorem isNaN_eq_false_of_orderNumbers {ordering : Ordering}
    (h : orderNumbers x y = some ordering) : x.isNaN = false ∧ y.isNaN = false := by
  rw [← Bool.not_eq_true, ← Bool.not_eq_true, ← not_or]
  intro hnan
  rw [orderNumbers_eq_none hnan] at h
  cases h

theorem beq_eq_orderNumbers (x y : Float) : (x == y) = (orderNumbers x y == some .eq) := by
  rw [beq_eq_compare]
  by_cases hnan : x.isNaN = true ∨ y.isNaN = true
  · rw [orderNumbers_eq_none hnan]
    exact congrArg (· == _) (compare_eq_none hnan)
  · rw [not_or, Bool.not_eq_true, Bool.not_eq_true] at hnan
    rw [orderNumbers_eq_some hnan.1 hnan.2]
    exact congrArg (· == _) (compare_eq_some hnan.1 hnan.2)

theorem orderNumbers_swap (x y : Float) :
    orderNumbers y x = (orderNumbers x y).map Ordering.swap := by
  by_cases hnan : x.isNaN = true ∨ y.isNaN = true
  · rw [orderNumbers_eq_none hnan, orderNumbers_eq_none hnan.symm]
    rfl
  · rw [not_or, Bool.not_eq_true, Bool.not_eq_true] at hnan
    rw [orderNumbers_eq_some hnan.1 hnan.2, orderNumbers_eq_some hnan.2 hnan.1, Option.map_some,
      ← Std.OrientedOrd.eq_swap]

theorem orderNumbers_trans (h : orderNumbers x y = some .lt) (h' : orderNumbers y z = some .lt) :
    orderNumbers x z = some .lt := by
  obtain ⟨hx, hy⟩ := isNaN_eq_false_of_orderNumbers h
  obtain ⟨-, hz⟩ := isNaN_eq_false_of_orderNumbers h'
  rw [orderNumbers_eq_some hx hy, Option.some_inj, compare_lt_iff_lt] at h
  rw [orderNumbers_eq_some hy hz, Option.some_inj, compare_lt_iff_lt] at h'
  rw [orderNumbers_eq_some hx hz, compare_lt_iff_lt.mpr (h.trans h')]

end Value

end Sigil
