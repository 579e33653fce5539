import Mathlib
import Sigil.Decimal.Shortest

/-!
# Whole numbers as doubles

A double has fifty-three binary digits, so every whole number up to `2 ^ 53` is a double.
Sums and products that stay within that bound are rounded to themselves: computing with
such numbers loses nothing.  Taking one away from any double is adding its opposite.
-/

namespace Sigil

open Float.Model Float.Model.UnpackedFloat

/-- The number that the bits of a finite double stand for. -/
def Binary.rational? : Binary → Option ℚ
  | .finite negative significand exponent =>
    some ((if negative then -1 else 1) * significand * 2 ^ exponent)
  | _ => none

/-! ### Numbers as digits and an exponent -/

theorem log2_mul_two_pow {m : Nat} (hm : m ≠ 0) (k : Nat) : (m * 2 ^ k).log2 = m.log2 + k := by
  have hpos : 0 < 2 ^ k := Nat.two_pow_pos k
  obtain ⟨hlow, hhigh⟩ := (Nat.log2_eq_iff hm).mp rfl
  apply (Nat.log2_eq_iff (by positivity)).mpr
  constructor
  · simpa only [pow_add] using Nat.mul_le_mul_right (2 ^ k) hlow
  · have hmul := Nat.mul_lt_mul_of_pos_right hhigh hpos
    simpa only [← pow_add, Nat.add_right_comm] using hmul

/-- Zeros at the end of the digits are worth as much as the exponent gives for them. -/
theorem mul_two_pow_mul_zpow (k j : Nat) (d : Int) :
    ((k * 2 ^ j : Nat) : ℚ) * 2 ^ (d - j) = k * 2 ^ d := by
  rw [zpow_sub₀ two_ne_zero, zpow_natCast]
  push_cast
  field_simp

/-- Of two ways to write a number, the one with the smaller exponent has more zeros at its end. -/
theorem eq_mul_two_pow {k m : Nat} {d e : Int} (h : (k : ℚ) * 2 ^ d = m * 2 ^ e) (hd : d ≤ e) :
    k = m * 2 ^ (e - d).toNat := by
  have hexponent : e - ((e - d).toNat : Int) = d := by omega
  have hzeros := mul_two_pow_mul_zpow m (e - d).toNat e
  rw [hexponent, ← h] at hzeros
  have hne : (2 : ℚ) ^ d ≠ 0 := zpow_ne_zero d two_ne_zero
  exact_mod_cast (mul_right_cancel₀ hne hzeros).symm

/-- `m * 2 ^ e` is the number `n`, written with as many binary digits as a double has. -/
structure Fills (n m : Nat) (e : Int) : Prop where
  digits : m.log2 = 52
  least : -52 ≤ e
  greatest : e ≤ 1
  value : (m : ℚ) * 2 ^ e = n

/-- Numbers from one up to `2 ^ 53` can be written so: those with fewer digits are filled with
zeros, and the last one has a zero too many. -/
theorem exists_fills {n : Nat} (hpos : 0 < n) (hle : n ≤ 2 ^ 53) : ∃ m e, Fills n m e := by
  rcases Nat.lt_or_eq_of_le hle with hlt | rfl
  · have hlog : n.log2 < 53 := (Nat.log2_lt hpos.ne').mpr hlt
    refine ⟨n * 2 ^ (52 - n.log2), -(52 - n.log2 : Nat), ?_, by omega, by omega, ?_⟩
    · rw [log2_mul_two_pow hpos.ne']
      omega
    · push_cast
      rw [zpow_neg, zpow_natCast, mul_assoc, mul_inv_cancel₀ (by positivity), mul_one]
  · exact ⟨2 ^ 52, 1, Nat.log2_two_pow, by omega, by omega, by norm_num⟩

/-! ### Rounding -/

theorem targetExponent_eq (m : Nat) (e : Int) :
    Format.binary64.targetExponent (totalExponent m e) = max (m.log2 + e - 52) (-1074) := by
  simp only [Format.targetExponent, totalExponent, Format.mantissaBits, Format.minExponent]
  norm_num
  omega

/-- Digits that are zero leave no trace when they are shifted out. -/
theorem shiftRight_mul_two_pow (m k : Nat) :
    ExtendedMantissa.mk (m * 2 ^ k) false false >>> k = ⟨m, false, false⟩ := by
  change k.repeat ExtendedMantissa.shiftRightOne _ = _
  induction k generalizing m with
  | zero => simp [Nat.repeat]
  | succ k ih =>
      have hsplit : m * 2 ^ (k + 1) = m * 2 * 2 ^ k := by ring
      rw [Nat.repeat, hsplit, ih (m * 2)]
      simp [ExtendedMantissa.shiftRightOne]

namespace Fills

variable {n m k : Nat} {e d : Int}

theorem pos (h : Fills n m e) : 0 < m := by
  have hdigits := h.digits
  apply Nat.pos_of_ne_zero
  rintro rfl
  simp at hdigits

/-- Whichever way the number is written, rounding brings it to the same exponent. -/
theorem targetExponent (h : Fills n m e) (hvalue : (k : ℚ) * 2 ^ d = n) :
    Format.binary64.targetExponent (totalExponent k d) = e := by
  obtain ⟨hdigits, hleast, hgreatest, hm⟩ := id h
  rw [← hm] at hvalue
  rw [targetExponent_eq]
  rcases Int.le_total d e with hd | hd
  · have hk := eq_mul_two_pow hvalue hd
    rw [hk, log2_mul_two_pow h.pos.ne']
    omega
  · have hk := eq_mul_two_pow hvalue.symm hd
    have hne : k ≠ 0 := by
      rintro rfl
      simp [hk] at hdigits
    rw [hk, log2_mul_two_pow hne] at hdigits
    omega

theorem shiftToTargetExponent (h : Fills n m e) (hvalue : (k : ℚ) * 2 ^ d = n) (hd : d ≤ e) :
    shiftToTargetExponent .binary64 k d .exact = (⟨m, false, false⟩, e) := by
  have hk : k = m * 2 ^ (e - d).toNat := eq_mul_two_pow (hvalue.trans h.value.symm) hd
  have htarget := h.targetExponent hvalue
  have hshift := shiftRight_mul_two_pow m (e - d).toNat
  have hexponent : d + ((e - d).toNat : Int) = e := by omega
  rw [← hk] at hshift
  simp only [UnpackedFloat.shiftToTargetExponent, htarget, shiftToExponent, hexponent]
  exact congrArg (·, e) hshift

/-- Rounding changes nothing, at the first shift and at the second. -/
theorem roundWithAccuracy (h : Fills n m e) (sign : Sign) (hvalue : (k : ℚ) * 2 ^ d = n)
    (hd : d ≤ e) :
    roundWithAccuracy .binary64 sign k d .exact = .finite sign m e h.pos := by
  have hfirst := h.shiftToTargetExponent hvalue hd
  have hsecond := h.shiftToTargetExponent h.value (le_refl e)
  have hrounded : (ExtendedMantissa.mk m false false).roundedMantissa = m := rfl
  simp only [UnpackedFloat.roundWithAccuracy, hfirst, hrounded, hsecond, h.pos.ne', dite_false]

theorem pos_of_value (h : Fills n m e) (hvalue : (k : ℚ) * 2 ^ d = n) : 0 < k := by
  have hm : (0 : ℚ) < m := by exact_mod_cast h.pos
  have hn : (0 : ℚ) < k * 2 ^ d := by
    rw [hvalue, ← h.value]
    exact mul_pos hm (zpow_pos two_pos e)
  apply Nat.pos_of_ne_zero
  rintro rfl
  simp at hn

theorem normalize (h : Fills n m e) (hvalue : (k : ℚ) * 2 ^ d = n) :
    normalize .binary64 (k : Int) d .positive = .finite .positive m e h.pos := by
  have hpos := h.pos_of_value hvalue
  have hcompare : compare (k : Int) 0 = .gt := Int.compare_eq_gt.mpr (by omega)
  have htarget := h.targetExponent hvalue
  have hzeros := mul_two_pow_mul_zpow k (d - e).toNat d
  simp only [UnpackedFloat.normalize, hcompare, UnpackedFloat.round, Int.toNat_natCast, htarget,
    decreaseExponent, Nat.shiftLeft_eq]
  exact h.roundWithAccuracy .positive (hzeros.trans hvalue) (by omega)

end Fills

/-! ### Packing -/

theorem toNat_packComponents {spec : Format} {exponent : BitVec spec.exponentBits}
    {mantissa : BitVec spec.mantissaBitsWithoutImplicit} :
    (packComponents spec .positive exponent mantissa).toNat =
      exponent.toNat * 2 ^ spec.mantissaBitsWithoutImplicit + mantissa.toNat := by
  have hor := Nat.shiftLeft_add_eq_or_of_lt mantissa.isLt exponent.toNat
  simpa [packComponents, Sign.toBitVec, Nat.shiftLeft_eq] using hor.symm

namespace Fills

variable {n m : Nat} {e : Int}

theorem toNat_significand (h : Fills n m e) : 2 ^ 52 + m % 2 ^ 52 = m := by
  obtain ⟨hlow, hhigh⟩ := (Nat.log2_eq_iff h.pos.ne').mp h.digits
  omega

theorem pack_eq (h : Fills n m e) :
    UnpackedFloat.pack .binary64 (.finite .positive m e h.pos) =
      packComponents .binary64 .positive (BitVec.ofNat 11 (e + 1075).toNat)
        (BitVec.ofNat 52 m) := by
  obtain ⟨hdigits, hleast, hgreatest, -⟩ := id h
  have hbias : (e + (Format.binary64.exponentBias : Int) + (52 : Nat)).toNat =
      (e + 1075).toNat := by
    change (e + 1023 + 52).toNat = _
    omega
  have hfits : ¬ 2048 ≤ (e + 1075).toNat + 1 := by omega
  simp only [UnpackedFloat.pack, hbias, hdigits]
  rw [if_neg hfits, if_pos (by rfl)]

/-- Nothing is lost in packing. -/
theorem unpack_pack (h : Fills n m e) :
    (Float.Model.pack (.finite .positive m e h.pos)).unpack = .finite .positive m e h.pos := by
  obtain ⟨hdigits, hleast, hgreatest, -⟩ := id h
  have hfield : (BitVec.ofNat 11 (e + 1075).toNat).toNat = (e + 1075).toNat := by
    rw [BitVec.toNat_ofNat, Nat.mod_eq_of_lt (by omega)]
  have hmax : BitVec.ofNat 11 (e + 1075).toNat ≠ -1#11 := by
    intro heq
    have hnat : (e + 1075).toNat = 2047 := hfield.symm.trans (congrArg BitVec.toNat heq)
    omega
  have hzero : BitVec.ofNat 11 (e + 1075).toNat ≠ 0#11 := by
    intro heq
    have hnat : (e + 1075).toNat = 0 := hfield.symm.trans (congrArg BitVec.toNat heq)
    omega
  have hsignificand : (1#1 ++ BitVec.ofNat 52 m).toNat = m := by
    rw [BitVec.toNat_append, ← Nat.shiftLeft_add_eq_or_of_lt (BitVec.isLt _), BitVec.toNat_ofNat]
    exact h.toNat_significand
  have hexponent : ((e + 1075).toNat : Int) - (Format.binary64.exponentBias + (52 : Nat)) = e := by
    change ((e + 1075).toNat : Int) - (1023 + 52) = e
    omega
  unfold Float.Model.unpack Float.Model.pack
  dsimp only
  rw [h.pack_eq]
  simp only [UnpackedFloat.unpack, unpackMantissa_packComponents, unpackExponent_packComponents,
    unpackSign_packComponents, hmax, hzero, hfield, hsignificand, hexponent, if_false]
  rfl

/-- The bits of the packed number give its digits and its exponent back. -/
theorem ofFloat_pack (h : Fills n m e) :
    Binary.ofFloat (.ofModel (.pack (.finite .positive m e h.pos))) = .finite false m e := by
  obtain ⟨hdigits, hleast, hgreatest, -⟩ := id h
  have hbits : (Float.ofModel (.pack (.finite .positive m e h.pos))).toBits.toNat =
      (e + 1075).toNat * 2 ^ 52 + m % 2 ^ 52 := by
    change (UnpackedFloat.pack .binary64 (.finite .positive m e h.pos)).toNat = _
    rw [h.pack_eq, toNat_packComponents, BitVec.toNat_ofNat, BitVec.toNat_ofNat,
      Nat.mod_eq_of_lt (show (e + 1075).toNat < 2 ^ 11 by omega)]
  have hm := h.toNat_significand
  have hmod : m % 2 ^ 52 < 2 ^ 52 := Nat.mod_lt _ (by norm_num)
  generalize hfield : (e + 1075).toNat = field at hbits
  generalize m % 2 ^ 52 = fraction at hbits hm hmod
  have hsign : decide ((field * 2 ^ 52 + fraction) / Nat.pow 2 63 = 1) = false := by
    norm_num
    omega
  have hread : (field * 2 ^ 52 + fraction) / Nat.pow 2 52 % Nat.pow 2 11 = field := by
    norm_num
    omega
  have hfraction : (field * 2 ^ 52 + fraction) % Nat.pow 2 52 = fraction := by
    norm_num
    omega
  have hsum : Nat.pow 2 52 + fraction = m := hm
  have hexponent : (field : Int) - 1075 = e := by omega
  simp only [Binary.ofFloat, hbits, hsign, hread, hfraction, hsum, hexponent]
  rw [if_neg (by omega), if_neg (by omega)]

end Fills

/-! ### Computing with whole numbers -/

namespace Fills

variable {n n' m m' k : Nat} {e e' d : Int}

/-- The product of two numbers has digits enough, and is rounded to itself. -/
theorem mul (h : Fills n m e) (h' : Fills n' m' e') (hprod : Fills (n * n') k d) :
    UnpackedFloat.mul .binary64 (.finite .positive m e h.pos) (.finite .positive m' e' h'.pos) =
      .finite .positive k d hprod.pos := by
  have hvalue : ((m * m' : Nat) : ℚ) * 2 ^ (e + e') = (n * n' : Nat) := by
    rw [zpow_add₀ two_ne_zero]
    push_cast
    rw [← h.value, ← h'.value]
    ring
  have hpos : 0 < m * m' := Nat.mul_pos h.pos h'.pos
  have hdigits : 52 ≤ (m * m').log2 := by
    rw [Nat.le_log2 hpos.ne']
    calc 2 ^ 52 = 2 ^ m.log2 := by rw [h.digits]
      _ ≤ m := Nat.log2_self_le h.pos.ne'
      _ ≤ m * m' := Nat.le_mul_of_pos_right m h'.pos
  have htarget := hprod.targetExponent hvalue
  rw [targetExponent_eq] at htarget
  exact hprod.roundWithAccuracy .positive hvalue (by omega)

/-- A sum is computed with the smaller of the two exponents. -/
theorem add (h : Fills n m e) (h' : Fills n' m' e') (hsum : Fills (n + n') k d) :
    UnpackedFloat.add .binary64 (.finite .positive m e h.pos) (.finite .positive m' e' h'.pos) =
      .finite .positive k d hsum.pos := by
  have hleft := mul_two_pow_mul_zpow m (e - min e e').toNat e
  have hright := mul_two_pow_mul_zpow m' (e' - min e e').toNat e'
  rw [show e - ((e - min e e').toNat : Int) = min e e' by omega, h.value] at hleft
  rw [show e' - ((e' - min e e').toNat : Int) = min e e' by omega, h'.value] at hright
  have hvalue : ((m * 2 ^ (e - min e e').toNat + m' * 2 ^ (e' - min e e').toNat : Nat) : ℚ) *
      2 ^ min e e' = (n + n' : Nat) := by
    push_cast at hleft hright ⊢
    rw [add_mul, hleft, hright]
  simpa only [UnpackedFloat.add, decreaseExponent, Nat.shiftLeft_eq, Sign.apply, Nat.cast_add]
    using hsum.normalize hvalue

theorem one : Fills 1 (2 ^ 52) (-52) :=
  ⟨Nat.log2_two_pow, by omega, by omega, by norm_num⟩

theorem ofUInt64 (h : Fills n m e) (hle : n ≤ 2 ^ 53) :
    Float.Model.ofUInt64 n.toUInt64 = .pack (.finite .positive m e h.pos) := by
  have htoNat : n.toUInt64.toNat = n :=
    UInt64.toNat_ofNat_of_lt (lt_of_le_of_lt hle (by decide))
  have hnormalize := h.normalize (k := n) (d := 0) (by simp)
  simp only [Float.Model.ofUInt64, UnpackedFloat.ofUInt64, UnpackedFloat.ofNat,
    UnpackedFloat.ofInt, htoNat, hnormalize]

theorem ofScientific (h : Fills n m e) :
    UnpackedFloat.ofScientific .binary64 n 0 = .finite .positive m e h.pos := by
  have hleast := h.least
  have hne : n ≠ 0 := (h.pos_of_value (k := n) (d := 0) (by simp)).ne'
  have hvalue : ((n <<< 53 * 1 : Nat) : ℚ) * 2 ^ (-53 : Int) = n := by
    have hzeros := mul_two_pow_mul_zpow n 53 0
    simpa [Nat.shiftLeft_eq] using hzeros
  have hround := h.roundWithAccuracy .positive hvalue (by omega)
  have hbig : ¬ (0 : Int) > 2 ^ Format.binary64.exponentBits := by decide
  have hsmall : ¬ (0 : Int) < -(2 ^ Format.binary64.exponentBits + n.log2) := by
    have hpow : (0 : Int) ≤ 2 ^ Format.binary64.exponentBits := by positivity
    omega
  rw [UnpackedFloat.ofScientific, dif_neg hne, if_neg hbig, if_neg hsmall, if_pos (le_refl _),
    UnpackedFloat.mul]
  exact hround

/-- A whole number becomes the double that it fills.  Below the bound this goes through a product
with one, and at the bound through a decimal exponent. -/
theorem ofNat_eq (h : Fills n m e) (hle : n ≤ 2 ^ 53) :
    Float.ofNat n = .ofModel (.pack (.finite .positive m e h.pos)) := by
  change Float.ofScientific n false 0 = _
  unfold Float.ofScientific
  split
  · have hone : (Float.ofBits 0x3FF0000000000000).toModel.unpack =
        .finite .positive (2 ^ 52) (-52) one.pos := by rfl
    change Float.ofModel (.pack (UnpackedFloat.mul .binary64
      (Float.Model.ofUInt64 n.toUInt64).unpack
      (Float.ofBits 0x3FF0000000000000).toModel.unpack)) = _
    rw [h.ofUInt64 hle, h.unpack_pack, hone, h.mul one (by simpa using h)]
  · change Float.ofModel (.pack (UnpackedFloat.ofScientific .binary64 n 0)) = _
    rw [h.ofScientific]

theorem unpack_ofNat (h : Fills n m e) (hle : n ≤ 2 ^ 53) :
    (Float.ofNat n).toModel.unpack = .finite .positive m e h.pos := by
  rw [h.ofNat_eq hle, h.unpack_pack]

end Fills

theorem ofNat_zero : Float.ofNat 0 = .ofModel (.pack (.zero .positive)) := by rfl

theorem unpack_ofNat_zero : (Float.ofNat 0).toModel.unpack = .zero .positive := by rfl

theorem mul_eq (x y : Float) : x * y =
    .ofModel (.pack (UnpackedFloat.mul .binary64 x.toModel.unpack y.toModel.unpack)) := rfl

theorem add_eq (x y : Float) : x + y =
    .ofModel (.pack (UnpackedFloat.add .binary64 x.toModel.unpack y.toModel.unpack)) := rfl

theorem sub_eq (x y : Float) : x - y =
    .ofModel (.pack (UnpackedFloat.sub .binary64 x.toModel.unpack y.toModel.unpack)) := rfl

theorem ofNat_mul {a b : Nat} (ha : a ≤ 2 ^ 53) (hb : b ≤ 2 ^ 53) (hab : a * b ≤ 2 ^ 53) :
    Float.ofNat a * Float.ofNat b = Float.ofNat (a * b) := by
  rw [mul_eq]
  rcases Nat.eq_zero_or_pos a with rfl | hapos
  · rcases Nat.eq_zero_or_pos b with rfl | hbpos
    · rfl
    · obtain ⟨m, e, hfills⟩ := exists_fills hbpos hb
      rw [hfills.unpack_ofNat hb, unpack_ofNat_zero, Nat.zero_mul, ofNat_zero]
      rfl
  · obtain ⟨m, e, hfills⟩ := exists_fills hapos ha
    rcases Nat.eq_zero_or_pos b with rfl | hbpos
    · rw [hfills.unpack_ofNat ha, unpack_ofNat_zero, Nat.mul_zero, ofNat_zero]
      rfl
    · obtain ⟨m', e', hfills'⟩ := exists_fills hbpos hb
      obtain ⟨k, d, hprod⟩ := exists_fills (Nat.mul_pos hapos hbpos) hab
      rw [hfills.unpack_ofNat ha, hfills'.unpack_ofNat hb, hfills.mul hfills' hprod,
        hprod.ofNat_eq hab]

theorem ofNat_add {a b : Nat} (hab : a + b ≤ 2 ^ 53) :
    Float.ofNat a + Float.ofNat b = Float.ofNat (a + b) := by
  rw [add_eq]
  rcases Nat.eq_zero_or_pos a with rfl | hapos
  · rcases Nat.eq_zero_or_pos b with rfl | hbpos
    · rfl
    · obtain ⟨m, e, hfills⟩ := exists_fills hbpos (by omega)
      rw [hfills.unpack_ofNat (by omega), unpack_ofNat_zero, Nat.zero_add,
        hfills.ofNat_eq (by omega)]
      rfl
  · obtain ⟨m, e, hfills⟩ := exists_fills hapos (by omega)
    rcases Nat.eq_zero_or_pos b with rfl | hbpos
    · rw [hfills.unpack_ofNat (by omega), unpack_ofNat_zero, Nat.add_zero,
        hfills.ofNat_eq (by omega)]
      rfl
    · obtain ⟨m', e', hfills'⟩ := exists_fills hbpos (by omega)
      obtain ⟨k, d, hsum⟩ := exists_fills (Nat.add_pos_left hapos b) hab
      rw [hfills.unpack_ofNat (by omega), hfills'.unpack_ofNat (by omega), hfills.add hfills' hsum,
        hsum.ofNat_eq hab]

/-- The bits of a whole number stand for that number. -/
theorem rational?_ofNat {n : Nat} (hle : n ≤ 2 ^ 53) :
    (Binary.ofFloat (Float.ofNat n)).rational? = some (n : ℚ) := by
  rcases Nat.eq_zero_or_pos n with rfl | hpos
  · have hzero : Binary.ofFloat (Float.ofNat 0) = .finite false 0 (-1074) := by rfl
    simp [hzero, Binary.rational?]
  · obtain ⟨m, e, hfills⟩ := exists_fills hpos hle
    rw [hfills.ofNat_eq hle, hfills.ofFloat_pack]
    simp [Binary.rational?, hfills.value]

/-! ### One less -/

theorem apply_neg_eq_neg_apply (s : Sign) (m : Int) : (-s).apply m = -s.apply m := by
  cases s with
  | negative => exact (Int.neg_neg m).symm
  | positive => rfl

/-- A difference is the sum with the opposite number, down to the signs of its zeros. -/
theorem sub_eq_add_opposite (spec : Format) (a b : UnpackedFloat) :
    UnpackedFloat.sub spec a b = UnpackedFloat.add spec a b.neg := by
  cases a <;> cases b <;>
    simp [UnpackedFloat.sub, UnpackedFloat.add, UnpackedFloat.neg, apply_neg_eq_neg_apply,
      Int.sub_eq_add_neg]

theorem add_neg_one (x : Float) : x + -1 = x - 1 := by
  have hone : (-1 : Float).toModel.unpack = (1 : Float).toModel.unpack.neg := rfl
  rw [add_eq, sub_eq, hone, sub_eq_add_opposite]

end Sigil
