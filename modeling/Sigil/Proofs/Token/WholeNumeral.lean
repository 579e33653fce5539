import Mathlib.Data.Nat.Digits.Defs
import Sigil.Proofs.Decimal.Whole
import Sigil.Proofs.Token.LongestMatch
import Sigil.Proofs.Token.Quotation

/-!
# Numerals of whole numbers

A whole number can be written in base sixteen, eight or ten.  The form of the numeral
decides the base, and the value is computed digit by digit in doubles.  Up to `2 ^ 53`
every step is exact, so the literal is the number that was written.
-/

namespace Sigil

/-- The character is the digit `d` of a base.  Letters may be of either case. -/
def IsDigitOf (radix : Nat) (c : Char) (d : Nat) : Prop :=
  d < radix ∧ (c = Nat.digitChar d ∨ c = (Nat.digitChar d).toUpper)

/-- The characters write `n` in a base, the last one counting least. -/
def Writes (radix : Nat) (text : List Char) (n : Nat) : Prop :=
  ∃ digits, List.Forall₂ (IsDigitOf radix) text digits ∧ Nat.ofDigits radix digits.reverse = n

/-- The numerals that stand for the whole number `n`. -/
inductive SpellsWhole : List Char → Nat → Prop
  | hexadecimal {text : List Char} {n : Nat} (hne : text ≠ []) (h : Writes 16 text n) :
      SpellsWhole ('0' :: 'x' :: text) n
  | octal {text : List Char} {n : Nat} (h : Writes 8 text n) : SpellsWhole ('0' :: text) n
  | decimal {c : Char} {text : List Char} {n : Nat} (hc : c ≠ '0') (h : Writes 10 (c :: text) n) :
      SpellsWhole (c :: text) n
  | zeroDecimal {text : List Char} {n : Nat} (hmem : '8' ∈ text ∨ '9' ∈ text)
      (h : Writes 10 ('0' :: text) n) : SpellsWhole ('0' :: text) n

/-! ### Digits -/

namespace IsDigitOf

variable {radix d : Nat} {c : Char}

/-- What holds of the digits in a table holds of every digit. -/
theorem of_table {P : Char → Nat → Prop} (h : IsDigitOf radix c d)
    (htable : ∀ d ∈ List.range radix, P (Nat.digitChar d) d ∧ P (Nat.digitChar d).toUpper d) :
    P c d := by
  obtain ⟨hlower, hupper⟩ := htable d (List.mem_range.mpr h.1)
  rcases h.2 with rfl | rfl
  · exact hlower
  · exact hupper

theorem mono (h : IsDigitOf radix c d) {greater : Nat} (hradix : radix ≤ greater) :
    IsDigitOf greater c d :=
  ⟨h.1.trans_le hradix, h.2⟩

theorem hexadecimal (h : IsDigitOf 16 c d) : isHexDigit c = true ∧ digitValue? c = some d :=
  h.of_table (P := fun c d ↦ isHexDigit c = true ∧ digitValue? c = some d) (by decide)

theorem octal (h : IsDigitOf 8 c d) : isOctalDigit c = true :=
  h.of_table (P := fun c _ ↦ isOctalDigit c = true) (by decide)

theorem decimal (h : IsDigitOf 10 c d) : c.isDigit = true ∧ c.toNat - '0'.toNat = d :=
  h.of_table (P := fun c d ↦ c.isDigit = true ∧ c.toNat - '0'.toNat = d) (by decide)

theorem digitIn?_eq (h : IsDigitOf radix c d) (hradix : radix ≤ 16) :
    digitIn? radix c = some d := by
  rw [digitIn?, (h.mono hradix).hexadecimal.2]
  simpa [Option.filter_some] using h.1

end IsDigitOf

namespace Writes

variable {radix n : Nat} {text : List Char} {c : Char}

theorem exists_digit (h : Writes radix text n) (hc : c ∈ text) : ∃ d, IsDigitOf radix c d := by
  obtain ⟨digits, hdigits, -⟩ := h
  induction hdigits with
  | nil => cases hc
  | cons hdigit _ ih =>
      rcases List.mem_cons.mp hc with rfl | hc
      · exact ⟨_, hdigit⟩
      · exact ih hc

theorem isHexDigit_of_mem (h : Writes 16 text n) (hc : c ∈ text) : isHexDigit c = true := by
  obtain ⟨d, hd⟩ := h.exists_digit hc
  exact hd.hexadecimal.1

theorem isOctalDigit_of_mem (h : Writes 8 text n) (hc : c ∈ text) : isOctalDigit c = true := by
  obtain ⟨d, hd⟩ := h.exists_digit hc
  exact hd.octal

theorem isDigit_of_mem (h : Writes 10 text n) (hc : c ∈ text) : c.isDigit = true := by
  obtain ⟨d, hd⟩ := h.exists_digit hc
  exact hd.decimal.1

end Writes

/-! ### Values -/

/-- Within the bound, each step from one digit to the next is exact. -/
theorem foldl_ofNat {radix : Nat} (hpos : 0 < radix) (hradix : radix ≤ 16) (digits : List Nat)
    (hle : Nat.ofDigits radix digits.reverse ≤ 2 ^ 53) :
    digits.foldl (fun value digit ↦ value * Float.ofNat radix + Float.ofNat digit) 0 =
      Float.ofNat (Nat.ofDigits radix digits.reverse) := by
  induction digits using List.reverseRecOn with
  | nil => rfl
  | append_singleton digits digit ih =>
      rw [List.reverse_append, List.reverse_singleton, List.singleton_append,
        Nat.ofDigits_cons] at hle ⊢
      generalize Nat.ofDigits radix digits.reverse = n at hle ih ⊢
      rw [Nat.mul_comm radix n, Nat.add_comm] at hle ⊢
      have hn : n ≤ n * radix := Nat.le_mul_of_pos_right n hpos
      rw [List.foldl_append, ih (by omega), List.foldl_cons, List.foldl_nil,
        ofNat_mul (by omega) (by omega) (by omega), ofNat_add hle]

theorem Writes.foldDigits_eq {radix n : Nat} {text : List Char} (h : Writes radix text n)
    (hpos : 0 < radix) (hradix : radix ≤ 16) (hle : n ≤ 2 ^ 53) :
    foldDigits radix text = Float.ofNat n := by
  obtain ⟨digits, hdigits, rfl⟩ := h
  have hread : text.filterMap (digitIn? radix) = digits := by
    clear hle
    induction hdigits with
    | nil => rfl
    | cons hdigit _ ih => rw [List.filterMap_cons, hdigit.digitIn?_eq hradix, ih]
  rw [foldDigits, hread, foldl_ofNat hpos hradix digits hle]

theorem Writes.decimalValue_eq {n : Nat} {text : List Char} (h : Writes 10 text n) :
    decimalValue text = n := by
  obtain ⟨digits, hdigits, rfl⟩ := h
  have hread : text.map (fun c ↦ c.toNat - '0'.toNat) = digits := by
    induction hdigits with
    | nil => rfl
    | cons hdigit _ ih => rw [List.map_cons, ih, hdigit.decimal.2]
  rw [decimalValue, ← hread, Nat.ofDigits_eq_foldr, List.foldr_reverse, List.foldl_map]
  simp [Nat.add_comm]

/-! ### Reading -/

section Reading

variable {c : Char} {text : List Char} {n : Nat}

theorem read_hexadecimal (h : Writes 16 text n) :
    Numeral.read '0' ('x' :: text) = (.hexadecimal text, []) := by
  have hall : ∀ c ∈ text, isHexDigit c = true := fun c hc ↦ h.isHexDigit_of_mem hc
  unfold Numeral.read
  simp only [if_true, List.takeWhile_eq_self_iff.mpr hall, List.dropWhile_eq_nil_iff.mpr hall]

theorem head?_ne_x (h : ∀ c ∈ text, c.isDigit = true) : text.head? ≠ some 'x' := by
  intro hx
  exact absurd (h 'x' (List.mem_of_mem_head? hx)) (by decide)

theorem read_octal (h : Writes 8 text n) : Numeral.read '0' text = (.octal text, []) := by
  have hoctal : ∀ c ∈ text, isOctalDigit c = true := fun c hc ↦ h.isOctalDigit_of_mem hc
  have hall : ∀ c ∈ text, c.isDigit = true := fun c hc ↦
    Pattern.isDigit_of_isOctalDigit (hoctal c hc)
  rw [Lexeme.read_zero (head?_ne_x hall), List.takeWhile_eq_self_iff.mpr hall,
    List.dropWhile_eq_nil_iff.mpr hall, if_pos (List.all_eq_true.mpr hoctal)]

theorem read_decimal (hc : c ≠ '0') (h : Writes 10 (c :: text) n) :
    Numeral.read c text = (.decimal (c :: text) [], []) := by
  have hall : ∀ d ∈ text, d.isDigit = true := fun d hd ↦
    h.isDigit_of_mem (List.mem_cons_of_mem c hd)
  unfold Numeral.read
  simp only [if_neg hc, List.takeWhile_eq_self_iff.mpr hall, List.dropWhile_eq_nil_iff.mpr hall]
  rfl

/-- An eight or a nine anywhere makes the numeral decimal. -/
theorem read_zeroDecimal (hmem : '8' ∈ text ∨ '9' ∈ text) (h : Writes 10 ('0' :: text) n) :
    Numeral.read '0' text = (.decimal ('0' :: text) [], []) := by
  have hall : ∀ d ∈ text, d.isDigit = true := fun d hd ↦
    h.isDigit_of_mem (List.mem_cons_of_mem '0' hd)
  have hoctal : ¬ text.all isOctalDigit = true := by
    rw [List.all_eq_true]
    intro hoctal
    rcases hmem with hmem | hmem
    · exact absurd (hoctal '8' hmem) (by decide)
    · exact absurd (hoctal '9' hmem) (by decide)
  rw [Lexeme.read_zero (head?_ne_x hall), List.takeWhile_eq_self_iff.mpr hall,
    List.dropWhile_eq_nil_iff.mpr hall, if_neg hoctal]
  rfl

/-- The form of the numeral decides its base, and its value is the number. -/
theorem SpellsWhole.exists_read (h : SpellsWhole text n) (hle : n ≤ 2 ^ 53) :
    ∃ c cs numeral, text = c :: cs ∧ c.isDigit = true ∧ Numeral.read c cs = (numeral, []) ∧
      numeral.value? = some (Float.ofNat n) := by
  cases h with
  | @hexadecimal text _ hne h =>
      refine ⟨'0', 'x' :: text, .hexadecimal text, rfl, rfl, read_hexadecimal h, ?_⟩
      cases text with
      | nil => exact absurd rfl hne
      | cons c text => exact congrArg some (h.foldDigits_eq (by omega) (by omega) hle)
  | @octal text _ h =>
      exact ⟨'0', text, .octal text, rfl, rfl, read_octal h,
        congrArg some (h.foldDigits_eq (by omega) (by omega) hle)⟩
  | @decimal c text _ hc h =>
      exact ⟨c, text, .decimal (c :: text) [], rfl, h.isDigit_of_mem List.mem_cons_self,
        read_decimal hc h, congrArg (some ∘ Float.ofNat) h.decimalValue_eq⟩
  | @zeroDecimal text _ hmem h =>
      exact ⟨'0', text, .decimal ('0' :: text) [], rfl, rfl, read_zeroDecimal hmem h,
        congrArg (some ∘ Float.ofNat) h.decimalValue_eq⟩

end Reading

theorem Lexeme.scan_of_isDigit {c : Char} (h : c.isDigit = true) (cs : List Char) :
    scan c cs = numeral c cs := by
  have hothers : ∀ d ∈ Pattern.skipped ++ Pattern.openings, (!d.isDigit) = true :=
    List.all_eq_true.mp rfl
  have hform : c ∉ Pattern.skipped ++ Pattern.openings := fun hmem ↦ by
    simpa [h] using hothers c hmem
  obtain ⟨hskipped, hopening⟩ := not_or.mp (List.mem_append.not.mp hform)
  rw [Pattern.scan_of_notMem hskipped hopening, if_pos h]

/-- A numeral of a whole number up to `2 ^ 53` is one token, in whichever base it is written, and
its literal is the double with exactly that value. -/
theorem tokenize_whole_numeral {text : List Char} {n : Nat} (h : SpellsWhole text n)
    (hle : n ≤ 2 ^ 53) :
    tokenize text = ⟨[⟨.number, .number (Float.ofNat n), ⟨0, byteSize text⟩⟩], []⟩ ∧
      (Binary.ofFloat (Float.ofNat n)).rational? = some (n : ℚ) := by
  refine ⟨?_, rational?_ofNat hle⟩
  obtain ⟨c, cs, numeral, rfl, hc, hread, hvalue⟩ := h.exists_read hle
  have htext : numeral.text = c :: cs := by
    have happend := Numeral.read_append c cs
    rwa [hread, List.append_nil] at happend
  have hscan : Lexeme.scan c cs = ⟨.token .number (.number (Float.ofNat n)), c :: cs, []⟩ := by
    rw [Lexeme.scan_of_isDigit hc, Lexeme.numeral, hread]
    simp only [hvalue, htext]
  rw [tokenize, Segment.all_of_token hscan (by decide), Segment.all]
  simp [Lexed.ofSegments]

theorem tokenize_of_nine_after_zero :
    SpellsWhole "09007199254740992".toList (2 ^ 53) ∧
      tokenize "09007199254740992".toList =
        ⟨[⟨.number, .number (Float.ofNat (2 ^ 53)), ⟨0, 17⟩⟩], []⟩ ∧
      (Binary.ofFloat (Float.ofNat (2 ^ 53))).rational? = some ((2 ^ 53 : Nat) : ℚ) := by
  have hdigits : List.Forall₂ (IsDigitOf 10) "09007199254740992".toList
      [0, 9, 0, 0, 7, 1, 9, 9, 2, 5, 4, 7, 4, 0, 9, 9, 2] := by
    simp [IsDigitOf, Nat.digitChar]
  have hwrites : Writes 10 "09007199254740992".toList (2 ^ 53) :=
    ⟨_, hdigits, by norm_num [Nat.ofDigits]⟩
  have hspells : SpellsWhole "09007199254740992".toList (2 ^ 53) :=
    .zeroDecimal (.inr (by decide)) hwrites
  exact ⟨hspells, tokenize_whole_numeral hspells (le_refl _)⟩

end Sigil
