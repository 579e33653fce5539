import Mathlib
import Sigil.Proofs.Token.SigilName

/-!
# The table of lexemes

Outside of comments, quoted literals and sigil names, lexemes are given by a table:
the spellings of punctuation and keywords, and the patterns of numerals and words.  It
is written down here by itself, apart from what the scanner looks for, and a text that
an entry matches is described in the scanner's terms.  The first character of a text
shows which entries may match it.
-/

namespace Sigil

open scoped Computability

/-! ### The table -/

namespace Pattern

/-- One character, from `first` to `last`. -/
def range (first last : Char) : Language Char := {text | ∃ c, first ≤ c ∧ c ≤ last ∧ text = [c]}

def digit : Language Char := range '0' '9'

def octalDigit : Language Char := range '0' '7'

def hexDigit : Language Char := range '0' '9' + range 'a' 'f' + range 'A' 'F'

def letter : Language Char := range 'A' 'Z' + range 'a' 'z'

def wordChar : Language Char := letter + digit + {['_']}

/-- `0x[0-9a-fA-F]*` -/
def hexadecimal : Language Char := {['0', 'x']} * hexDigit∗

/-- `0[0-7]*` -/
def octal : Language Char := {['0']} * octalDigit∗

/-- `(\.[0-9]+)?` -/
def fraction : Language Char := 1 + {['.']} * (digit * digit∗)

/-- `[1-9][0-9]*(\.[0-9]+)?` -/
def decimal : Language Char := range '1' '9' * (digit∗ * fraction)

/-- `0[0-7]*[89][0-9]*(\.[0-9]+)?` -/
def zeroDecimal : Language Char :=
  {['0']} * (octalDigit∗ * (({['8']} + {['9']}) * (digit∗ * fraction)))

/-- `[A-Za-z][A-Za-z0-9_]*` -/
def word : Language Char := letter * wordChar∗

def numerals : List (Language Char) := [hexadecimal, octal, decimal, zeroDecimal]

/-- The spellings of the language.  They are listed apart from those that the scanner looks for. -/
def punctuation : List (String × TokenKind) :=
  [("(", .leftParen), (")", .rightParen), ("\x7b", .leftBrace), ("\x7d", .rightBrace),
    ("[", .leftBracket), ("]", .rightBracket), ("<\x7b", .objectOpening),
    ("\x7d>", .objectClosing), (",", .comma), (".", .dot), (";", .semicolon), (":", .colon),
    ("?", .questionMark), ("-", .minus), ("-=", .minusEqual), ("--", .minusMinus), ("+", .plus),
    ("+=", .plusEqual), ("++", .plusPlus), ("*", .star), ("*=", .starEqual), ("**", .starStar),
    ("**=", .starStarEqual), ("/", .slash), ("/=", .slashEqual), ("%", .percent),
    ("%=", .percentEqual), ("!", .bang), ("!=", .bangEqual), ("=", .equal), ("==", .equalEqual),
    ("<", .less), ("<=", .lessEqual), (">", .greater), (">=", .greaterEqual)]

def keywords : List (String × TokenKind) :=
  [("console", .kwConsole), ("let", .kwLet), ("const", .kwConst), ("fun", .kwFun),
    ("return", .kwReturn), ("if", .kwIf), ("else", .kwElse), ("while", .kwWhile), ("for", .kwFor),
    ("break", .kwBreak), ("continue", .kwContinue), ("true", .kwTrue), ("false", .kwFalse),
    ("null", .kwNull), ("typeof", .kwTypeof), ("or", .kwOr), ("and", .kwAnd)]

/-- The patterns that lexemes match, each with the kind of the lexeme. -/
def table : List (Language Char × TokenKind) :=
  (punctuation ++ keywords).map (fun entry ↦ ({entry.1.toList}, entry.2)) ++
    numerals.map (·, .number) ++ [(word, .word)]

/-- An entry of the table that has this kind matches the text. -/
def Matches (kind : TokenKind) (text : List Char) : Prop :=
  ∃ pattern, (pattern, kind) ∈ table ∧ text ∈ pattern

/-- The texts that an entry matches. -/
def entries : Language Char := {text | ∃ kind, Matches kind text}

/-! ### Classes of characters -/

section Classes

variable {p q : Char → Bool} {text : List Char}

/-- One character that passes a test. -/
def oneOf (p : Char → Bool) : Language Char := {text | ∃ c, p c = true ∧ text = [c]}

theorem mem_oneOf : text ∈ oneOf p ↔ ∃ c, p c = true ∧ text = [c] := Iff.rfl

theorem range_eq (first last : Char) : range first last = oneOf fun c ↦ first ≤ c && c ≤ last := by
  ext text
  simp [range, oneOf, and_assoc]

theorem singleton_eq (c : Char) : ({[c]} : Language Char) = oneOf (· == c) := by
  ext text
  rw [mem_oneOf]
  constructor
  · intro h
    exact ⟨c, beq_self_eq_true c, h⟩
  · rintro ⟨d, hd, rfl⟩
    rw [beq_iff_eq] at hd
    exact hd ▸ rfl

theorem oneOf_add : oneOf p + oneOf q = oneOf fun c ↦ p c || q c := by
  ext text
  rw [Language.mem_add, mem_oneOf, mem_oneOf, mem_oneOf]
  simp only [Bool.or_eq_true, or_and_right, exists_or]

theorem oneOf_congr (h : ∀ c, p c = q c) : oneOf p = oneOf q := congrArg oneOf (funext h)

theorem digit_eq : digit = oneOf Char.isDigit := by
  rw [digit, range_eq]
  rfl

theorem octalDigit_eq : octalDigit = oneOf isOctalDigit := by
  rw [octalDigit, range_eq]
  rfl

theorem hexDigit_eq : hexDigit = oneOf isHexDigit := by
  rw [hexDigit, range_eq, range_eq, range_eq, oneOf_add, oneOf_add]
  rfl

theorem letter_eq : letter = oneOf Char.isAlpha := by
  rw [letter, range_eq, range_eq, oneOf_add]
  refine oneOf_congr fun c ↦ ?_
  simp [Char.isAlpha, Char.isUpper, Char.isLower, Char.le_def]

theorem wordChar_eq : wordChar = oneOf isWordChar := by
  rw [wordChar, letter_eq, digit_eq, singleton_eq, oneOf_add, oneOf_add]
  rfl

theorem nonzero_eq : range '1' '9' = oneOf fun c ↦ c.isDigit && c != '0' := by
  rw [range_eq]
  refine oneOf_congr fun c ↦ ?_
  have hcode : c.toNat = c.val.toNat := rfl
  have hzero : '0'.toNat = 48 := rfl
  rw [Bool.eq_iff_iff]
  simp only [Char.isDigit, Char.le_def, UInt32.le_iff_toNat_le, Bool.and_eq_true, decide_eq_true_eq,
    bne_iff_ne, ne_eq, ← Char.toNat_inj, Char.reduceVal, UInt32.reduceToNat]
  omega

theorem eightOrNine_eq :
    ({['8']} + {['9']} : Language Char) = oneOf fun c ↦ c == '8' || c == '9' := by
  rw [singleton_eq, singleton_eq, oneOf_add]

end Classes

/-! ### What the patterns match -/

section Membership

variable {p : Char → Bool} {c : Char} {text front : List Char} {later : Language Char}

theorem mem_kstar_oneOf : text ∈ (oneOf p)∗ ↔ ∀ c ∈ text, p c = true := by
  rw [Language.mem_kstar]
  constructor
  · rintro ⟨parts, rfl, hparts⟩ c hc
    obtain ⟨part, hpart, hc⟩ := List.mem_flatten.mp hc
    obtain ⟨d, hd, rfl⟩ := hparts part hpart
    rwa [List.mem_singleton.mp hc]
  · intro h
    refine ⟨text.map fun c ↦ [c], ?_, ?_⟩
    · rw [← List.flatMap_def, List.flatMap_singleton']
    · intro part hpart
      obtain ⟨c, hc, rfl⟩ := List.mem_map.mp hpart
      exact ⟨c, h c hc, rfl⟩

theorem mem_singleton_mul : text ∈ {front} * later ↔ ∃ back ∈ later, text = front ++ back := by
  rw [Language.mem_mul]
  constructor
  · rintro ⟨_, rfl, back, hback, rfl⟩
    exact ⟨back, hback, rfl⟩
  · rintro ⟨back, hback, rfl⟩
    exact ⟨front, rfl, back, hback, rfl⟩

theorem mem_oneOf_mul :
    text ∈ oneOf p * later ↔ ∃ c back, p c = true ∧ back ∈ later ∧ text = c :: back := by
  rw [Language.mem_mul]
  constructor
  · rintro ⟨_, ⟨c, hc, rfl⟩, back, hback, rfl⟩
    exact ⟨c, back, hc, hback, rfl⟩
  · rintro ⟨c, back, hc, hback, rfl⟩
    exact ⟨[c], ⟨c, hc, rfl⟩, back, hback, rfl⟩

theorem mem_kstar_oneOf_mul : text ∈ (oneOf p)∗ * later ↔
    ∃ run back, (∀ c ∈ run, p c = true) ∧ back ∈ later ∧ text = run ++ back := by
  rw [Language.mem_mul]
  constructor
  · rintro ⟨run, hrun, back, hback, rfl⟩
    exact ⟨run, back, mem_kstar_oneOf.mp hrun, hback, rfl⟩
  · rintro ⟨run, back, hrun, hback, rfl⟩
    exact ⟨run, mem_kstar_oneOf.mpr hrun, back, hback, rfl⟩

theorem mem_hexadecimal : text ∈ hexadecimal ↔
    ∃ digits, (∀ d ∈ digits, isHexDigit d = true) ∧ text = '0' :: 'x' :: digits := by
  rw [hexadecimal, hexDigit_eq, mem_singleton_mul]
  simp only [mem_kstar_oneOf, List.cons_append, List.nil_append]

theorem mem_octal : text ∈ octal ↔
    ∃ digits, (∀ d ∈ digits, isOctalDigit d = true) ∧ text = '0' :: digits := by
  rw [octal, octalDigit_eq, mem_singleton_mul]
  simp only [mem_kstar_oneOf, List.cons_append, List.nil_append]

theorem mem_fraction : text ∈ fraction ↔
    text = [] ∨ ∃ digits, digits ≠ [] ∧ (∀ d ∈ digits, d.isDigit = true) ∧
      text = '.' :: digits := by
  rw [fraction, digit_eq, Language.mem_add, Language.mem_one, mem_singleton_mul]
  simp only [mem_oneOf_mul, mem_kstar_oneOf]
  refine or_congr_right ?_
  constructor
  · rintro ⟨_, ⟨d, digits, hd, hdigits, rfl⟩, rfl⟩
    exact ⟨d :: digits, List.cons_ne_nil _ _, List.forall_mem_cons.mpr ⟨hd, hdigits⟩, rfl⟩
  · rintro ⟨digits, hne, hdigits, rfl⟩
    obtain ⟨d, digits, rfl⟩ := List.exists_cons_of_ne_nil hne
    obtain ⟨hd, hdigits⟩ := List.forall_mem_cons.mp hdigits
    exact ⟨_, ⟨d, digits, hd, hdigits, rfl⟩, rfl⟩

theorem mem_decimal : text ∈ decimal ↔
    ∃ d digits back, d.isDigit = true ∧ d ≠ '0' ∧ (∀ d ∈ digits, d.isDigit = true) ∧
      back ∈ fraction ∧ text = d :: (digits ++ back) := by
  rw [decimal, nonzero_eq, digit_eq, mem_oneOf_mul]
  simp only [mem_kstar_oneOf_mul, Bool.and_eq_true, bne_iff_ne]
  constructor
  · rintro ⟨d, _, ⟨hd, hne⟩, ⟨digits, back, hdigits, hback, rfl⟩, rfl⟩
    exact ⟨d, digits, back, hd, hne, hdigits, hback, rfl⟩
  · rintro ⟨d, digits, back, hd, hne, hdigits, hback, rfl⟩
    exact ⟨d, _, ⟨hd, hne⟩, ⟨digits, back, hdigits, hback, rfl⟩, rfl⟩

theorem isDigit_of_isOctalDigit (h : isOctalDigit c = true) : c.isDigit = true := by
  simp only [isOctalDigit, Char.isDigit, Bool.and_eq_true, decide_eq_true_eq] at h ⊢
  exact ⟨h.1, h.2.trans (by decide)⟩

/-- The digits that are not octal are an eight and a nine. -/
theorem eight_or_nine_iff : c = '8' ∨ c = '9' ↔ c.isDigit = true ∧ isOctalDigit c = false := by
  constructor
  · rintro (rfl | rfl)
    · exact ⟨rfl, rfl⟩
    · exact ⟨rfl, rfl⟩
  · rintro ⟨hdigit, hoctal⟩
    simp only [Char.isDigit, Bool.and_eq_true, decide_eq_true_eq, UInt32.le_iff_toNat_le]
      at hdigit
    simp only [isOctalDigit, Bool.and_eq_false_iff, decide_eq_false_iff_not, Char.le_def,
      UInt32.le_iff_toNat_le] at hoctal
    have hzero : '0'.val.toNat = 48 := rfl
    have hseven : '7'.val.toNat = 55 := rfl
    have hlast : '9'.val.toNat = 57 := rfl
    have height : '8'.toNat = 56 := rfl
    have hnine : '9'.toNat = 57 := rfl
    have hcode : c.toNat = c.val.toNat := rfl
    rw [← Char.toNat_inj, ← Char.toNat_inj]
    omega

theorem mem_zeroDecimal : text ∈ zeroDecimal ↔
    ∃ digits back, (∀ d ∈ digits, d.isDigit = true) ∧ (∃ d ∈ digits, isOctalDigit d = false) ∧
      back ∈ fraction ∧ text = '0' :: (digits ++ back) := by
  rw [zeroDecimal, octalDigit_eq, eightOrNine_eq, digit_eq, mem_singleton_mul]
  simp only [mem_kstar_oneOf_mul, mem_oneOf_mul, Bool.or_eq_true, beq_iff_eq]
  constructor
  · rintro ⟨_, ⟨front, _, hfront, ⟨d, _, hd, ⟨digits, back, hdigits, hback, rfl⟩, rfl⟩, rfl⟩, rfl⟩
    obtain ⟨hdigit, hoctal⟩ := eight_or_nine_iff.mp hd
    refine ⟨front ++ d :: digits, back, ?_, ⟨d, by simp, hoctal⟩, hback, by simp⟩
    rw [List.forall_mem_append, List.forall_mem_cons]
    exact ⟨fun d hd ↦ isDigit_of_isOctalDigit (hfront d hd), hdigit, hdigits⟩
  · rintro ⟨digits, back, hdigits, ⟨d, hd, hoctal⟩, hback, rfl⟩
    -- The digits are cut at the first one that is not octal.
    have hcut := List.takeWhile_append_dropWhile (p := isOctalDigit) (l := digits)
    cases hrest : digits.dropWhile isOctalDigit with
    | nil =>
        rw [List.dropWhile_eq_nil_iff] at hrest
        simp [hrest d hd] at hoctal
    | cons e rest =>
        have hhead : e ∈ (digits.dropWhile isOctalDigit).head? := by
          rw [hrest]
          rfl
        have hstop := eq_false_of_mem_head?_dropWhile hhead
        have hfront : ∀ d ∈ digits.takeWhile isOctalDigit, isOctalDigit d = true :=
          fun d ↦ List.mem_takeWhile_imp
        rw [hrest] at hcut
        generalize digits.takeWhile isOctalDigit = front at hcut hfront
        subst hcut
        rw [List.forall_mem_append, List.forall_mem_cons] at hdigits
        exact ⟨_, ⟨front, _, hfront, ⟨e, _, eight_or_nine_iff.mpr ⟨hdigits.2.1, hstop⟩,
          ⟨rest, back, hdigits.2.2, hback, rfl⟩, rfl⟩, rfl⟩, by simp⟩

theorem mem_word : text ∈ word ↔ IsWord text := by
  rw [word, letter_eq, wordChar_eq, mem_oneOf_mul, IsWord]
  simp only [mem_kstar_oneOf]
  constructor
  · rintro ⟨c, run, hc, hrun, rfl⟩
    exact ⟨c, run, rfl, hc, hrun⟩
  · rintro ⟨c, run, rfl, hc, hrun⟩
    exact ⟨c, run, hc, hrun, rfl⟩

end Membership

/-! ### The first character decides which entries come into question -/

section FirstCharacter

variable {kind : TokenKind} {pattern : Language Char} {c : Char} {cs text : List Char}

/-- The entries with their spellings as lists of characters. -/
def spelled (entries : List (String × TokenKind)) : List (List Char × TokenKind) :=
  entries.map fun entry ↦ (entry.1.toList, entry.2)

theorem spelled_punctuation : (spelled punctuation).Perm TokenKind.punctuation := by decide

theorem spelled_keywords : (spelled keywords).Perm TokenKind.keywords := by decide

theorem matches_iff : Matches kind text ↔
    (text, kind) ∈ TokenKind.punctuation ∨ (text, kind) ∈ TokenKind.keywords ∨
      (kind = .number ∧ ∃ pattern ∈ numerals, text ∈ pattern) ∨ kind = .word ∧ IsWord text := by
  have hspelling (entries : List (String × TokenKind)) :
      (∃ pattern, (pattern, kind) ∈
          entries.map (fun entry ↦ (({entry.1.toList} : Language Char), entry.2)) ∧
        text ∈ pattern) ↔ (text, kind) ∈ spelled entries := by
    constructor
    · rintro ⟨_, hmem, htext⟩
      obtain ⟨⟨spelling, _⟩, hentry, heq⟩ := List.mem_map.mp hmem
      obtain ⟨rfl, rfl⟩ := Prod.mk.inj heq
      obtain rfl : text = spelling.toList := htext
      exact List.mem_map.mpr ⟨_, hentry, rfl⟩
    · intro hmem
      obtain ⟨entry, hentry, heq⟩ := List.mem_map.mp hmem
      obtain ⟨rfl, rfl⟩ := Prod.mk.inj heq
      exact ⟨_, List.mem_map.mpr ⟨_, hentry, rfl⟩, rfl⟩
  rw [Matches, ← spelled_punctuation.mem_iff, ← spelled_keywords.mem_iff, ← hspelling, ← hspelling,
    ← mem_word]
  simp only [table, List.map_append, List.mem_append, List.mem_singleton, Prod.mk.injEq,
    or_and_right, exists_or, or_assoc]
  refine or_congr_right (or_congr_right (or_congr ?_ ?_))
  · constructor
    · rintro ⟨_, hmem, htext⟩
      obtain ⟨pattern, hpattern, heq⟩ := List.mem_map.mp hmem
      obtain ⟨rfl, rfl⟩ := Prod.mk.inj heq
      exact ⟨rfl, pattern, hpattern, htext⟩
    · rintro ⟨rfl, pattern, hpattern, htext⟩
      exact ⟨pattern, List.mem_map.mpr ⟨_, hpattern, rfl⟩, htext⟩
  · constructor
    · rintro ⟨_, ⟨rfl, rfl⟩, htext⟩
      exact ⟨rfl, htext⟩
    · rintro ⟨rfl, htext⟩
      exact ⟨word, ⟨rfl, rfl⟩, htext⟩

theorem exists_digit_of_mem_numerals (hpattern : pattern ∈ numerals) (h : text ∈ pattern) :
    ∃ d digits, text = d :: digits ∧ d.isDigit = true := by
  simp only [numerals, List.mem_cons, List.not_mem_nil, or_false] at hpattern
  rcases hpattern with rfl | rfl | rfl | rfl
  · obtain ⟨digits, -, rfl⟩ := mem_hexadecimal.mp h
    exact ⟨_, _, rfl, rfl⟩
  · obtain ⟨digits, -, rfl⟩ := mem_octal.mp h
    exact ⟨_, _, rfl, rfl⟩
  · obtain ⟨d, digits, back, hd, -, -, -, rfl⟩ := mem_decimal.mp h
    exact ⟨_, _, rfl, hd⟩
  · obtain ⟨digits, back, -, -, -, rfl⟩ := mem_zeroDecimal.mp h
    exact ⟨_, _, rfl, rfl⟩

theorem isDigit_eq_false_of_isAlpha (h : c.isAlpha = true) : c.isDigit = false := by
  simp only [Char.isAlpha, Char.isUpper, Char.isLower, Char.isDigit] at h ⊢
  grind

theorem first_of_mem_punctuation (h : (text, kind) ∈ TokenKind.punctuation) :
    ∃ d tail, text = d :: tail ∧ d.isDigit = false ∧ d.isAlpha = false := by
  have hfirst : ∀ entry ∈ TokenKind.punctuation, entry.1 ≠ [] ∧
      (entry.1.all fun d ↦ !d.isDigit && !d.isAlpha) = true := by decide
  obtain ⟨hne, hall⟩ := hfirst _ h
  obtain ⟨d, tail, rfl⟩ := List.exists_cons_of_ne_nil hne
  have hd := List.all_eq_true.mp hall d List.mem_cons_self
  rw [Bool.and_eq_true, Bool.not_eq_true', Bool.not_eq_true'] at hd
  exact ⟨d, tail, rfl, hd⟩

theorem isWord_of_mem_keywords (h : (text, kind) ∈ TokenKind.keywords) : IsWord text := by
  have hletters : ∀ entry ∈ TokenKind.keywords, entry.1 ≠ [] ∧
      (entry.1.all fun d ↦ d.isAlpha && isWordChar d) = true := by decide
  obtain ⟨hne, hall⟩ := hletters _ h
  obtain ⟨c, cs, rfl⟩ := List.exists_cons_of_ne_nil hne
  rw [List.all_eq_true] at hall
  simp only [Bool.and_eq_true] at hall
  exact ⟨c, cs, rfl, (hall c List.mem_cons_self).1, fun d hd ↦ (hall d (.tail _ hd)).2⟩

theorem Matches.exists_cons (h : Matches kind text) : ∃ c cs, text = c :: cs := by
  rcases matches_iff.mp h with h | h | ⟨-, pattern, hpattern, h⟩ | ⟨-, h⟩
  · obtain ⟨c, cs, rfl, -⟩ := first_of_mem_punctuation h
    exact ⟨c, cs, rfl⟩
  · obtain ⟨c, cs, rfl, -⟩ := isWord_of_mem_keywords h
    exact ⟨c, cs, rfl⟩
  · obtain ⟨c, cs, rfl, -⟩ := exists_digit_of_mem_numerals hpattern h
    exact ⟨c, cs, rfl⟩
  · obtain ⟨c, cs, rfl, -⟩ := h
    exact ⟨c, cs, rfl⟩

theorem Matches.exists_tail (h : Matches kind text) (hfront : text <+: c :: cs) :
    ∃ tail, text = c :: tail ∧ tail <+: cs := by
  obtain ⟨_, tail, rfl⟩ := h.exists_cons
  obtain ⟨rfl, htail⟩ := List.cons_prefix_cons.mp hfront
  exact ⟨tail, rfl, htail⟩

theorem isAlpha_of_isWord (h : IsWord (c :: cs)) : c.isAlpha = true := by
  obtain ⟨_, _, heq, hc, -⟩ := h
  rwa [(List.cons.inj heq).1]

theorem isDigit_of_mem_numerals (hpattern : pattern ∈ numerals) (h : c :: cs ∈ pattern) :
    c.isDigit = true := by
  obtain ⟨_, _, heq, hd⟩ := exists_digit_of_mem_numerals hpattern h
  rwa [(List.cons.inj heq).1]

theorem class_of_mem_punctuation (h : (c :: cs, kind) ∈ TokenKind.punctuation) :
    c.isDigit = false ∧ c.isAlpha = false := by
  obtain ⟨_, _, heq, hclass⟩ := first_of_mem_punctuation h
  rwa [(List.cons.inj heq).1]

/-- An entry that matches is one for punctuation, for numerals or for words, as its first character
shows. -/
theorem Matches.first (h : Matches kind (c :: cs)) :
    (c.isDigit = false ∧ c.isAlpha = false ∧ (c :: cs, kind) ∈ TokenKind.punctuation) ∨
      (c.isDigit = true ∧ kind = .number ∧ ∃ pattern ∈ numerals, c :: cs ∈ pattern) ∨
      (c.isAlpha = true ∧ IsWord (c :: cs) ∧
        ((c :: cs, kind) ∈ TokenKind.keywords ∨ kind = .word)) := by
  rcases matches_iff.mp h with hmem | hmem | ⟨hkind, pattern, hpattern, hmem⟩ | ⟨hkind, hword⟩
  · exact .inl ⟨(class_of_mem_punctuation hmem).1, (class_of_mem_punctuation hmem).2, hmem⟩
  · have hword := isWord_of_mem_keywords hmem
    exact .inr (.inr ⟨isAlpha_of_isWord hword, hword, .inl hmem⟩)
  · exact .inr (.inl ⟨isDigit_of_mem_numerals hpattern hmem, hkind, pattern, hpattern, hmem⟩)
  · exact .inr (.inr ⟨isAlpha_of_isWord hword, hword, .inr hkind⟩)

theorem Matches.number (h : Matches kind (c :: cs)) (hc : c.isDigit = true) :
    kind = .number ∧ ∃ pattern ∈ numerals, c :: cs ∈ pattern := by
  rcases h.first with ⟨hdigit, -⟩ | ⟨-, hnumeral⟩ | ⟨halpha, -⟩
  · rw [hc] at hdigit
    cases hdigit
  · exact hnumeral
  · rw [isDigit_eq_false_of_isAlpha halpha] at hc
    cases hc

theorem Matches.word (h : Matches kind (c :: cs)) (hc : c.isAlpha = true) :
    IsWord (c :: cs) ∧ ((c :: cs, kind) ∈ TokenKind.keywords ∨ kind = .word) := by
  rcases h.first with ⟨-, halpha, -⟩ | ⟨hdigit, -⟩ | ⟨-, hword⟩
  · rw [hc] at halpha
    cases halpha
  · rw [isDigit_eq_false_of_isAlpha hc] at hdigit
    cases hdigit
  · exact hword

theorem Matches.punctuation (h : Matches kind (c :: cs)) (hdigit : c.isDigit = false)
    (halpha : c.isAlpha = false) : (c :: cs, kind) ∈ TokenKind.punctuation := by
  rcases h.first with ⟨-, -, hmem⟩ | ⟨hc, -⟩ | ⟨hc, -⟩
  · exact hmem
  · rw [hdigit] at hc
    cases hc
  · rw [halpha] at hc
    cases hc

end FirstCharacter

end Pattern

end Sigil
