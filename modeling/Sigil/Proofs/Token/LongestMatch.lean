import Mathlib
import Sigil.Proofs.Token.Rendering
import Sigil.Proofs.Token.Table

/-!
# The longest match

Scanning cuts off the longest text that an entry of the table matches.  A text that
matches two entries is a keyword and also a word; it is a keyword then.
-/

namespace Sigil

open scoped Computability

namespace Pattern

/-- The text is the longest one at the front of a source that the pattern matches. -/
structure IsLongest (pattern : Language Char) (source text : List Char) : Prop where
  front : text <+: source
  matched : text ∈ pattern
  longest : ∀ other ∈ pattern, other <+: source → other.length ≤ text.length

/-- The kind of the entry that matches the text; any other entry that does is the one for words. -/
structure IsKindOf (kind : TokenKind) (text : List Char) : Prop where
  matched : Matches kind text
  others : ∀ other, Matches other text → other = kind ∨ other = .word

/-- What the table makes of the front of a source.  `0x` is a match without being a numeral. -/
inductive Cuts (source : List Char) : Scanned → Prop
  | token {kind : TokenKind} {literal : Value} {text rest : List Char}
      (hsource : source = text ++ rest) (hlongest : IsLongest entries source text)
      (hkind : IsKindOf kind text) (hdigits : text ≠ ['0', 'x']) :
      Cuts source ⟨.token kind literal, text, rest⟩
  | noDigits {rest : List Char} (hsource : source = ['0', 'x'] ++ rest)
      (hlongest : IsLongest entries source ['0', 'x']) :
      Cuts source ⟨.fault .invalidHexLiteral, ['0', 'x'], rest⟩
  | unexpected {c : Char} {rest : List Char} (hsource : source = c :: rest)
      (hnone : ∀ kind text, text <+: source → ¬ Matches kind text) :
      Cuts source ⟨.fault .unexpectedCharacter, [c], rest⟩

/-- The characters between lexemes. -/
def skipped : List Char :=
  [' ', '\t', '\r', '\n', '\u00a0', '\u1680', '\u180e', '\u2000', '\u200a', '\u202f', '\u205f',
    '\u3000']

/-- The marks that start the other forms of lexemes: comments, quoted literals and sigil names. -/
def openings : List Char := ['#', '\x22', '\x60', '\x27', '@']

/-! ### Runs are longest -/

section Longest

variable {p : Char → Bool} {c : Char} {cs run back text : List Char}

theorem isPrefix_takeWhile (hrun : ∀ c ∈ run, p c = true) (h : run <+: cs) :
    run <+: cs.takeWhile p := by
  obtain ⟨rest, rfl⟩ := h
  rw [List.takeWhile_append_of_pos hrun]
  exact List.prefix_append _ _

theorem length_le_of_run (hrun : ∀ c ∈ run, p c = true) (h : run <+: cs) :
    run.length ≤ (cs.takeWhile p).length :=
  (isPrefix_takeWhile hrun h).length_le

/-- The point and the digits of a fraction, if it has any. -/
def pointed : List Char → List Char
  | [] => []
  | digits => '.' :: digits

theorem text_decimal (whole digits : List Char) :
    (Numeral.decimal whole digits).text = whole ++ pointed digits := by
  cases digits with
  | nil => exact (List.append_nil whole).symm
  | cons d digits => rfl

theorem fraction_mem (rest : List Char) : pointed (Numeral.fraction rest).1 ∈ fraction := by
  rw [mem_fraction]
  unfold Numeral.fraction
  split
  · rename_i cs
    split
    · exact .inl rfl
    · rename_i hne
      rw [List.isEmpty_iff] at hne
      refine .inr ⟨_, hne, fun d ↦ List.mem_takeWhile_imp, ?_⟩
      generalize cs.takeWhile Char.isDigit = digits at hne
      cases digits with
      | nil => exact absurd rfl hne
      | cons d digits => rfl
  · exact .inl rfl

theorem length_le_of_fraction {rest : List Char} (hback : back ∈ fraction) (h : back <+: rest) :
    back.length ≤ (pointed (Numeral.fraction rest).1).length := by
  rcases mem_fraction.mp hback with rfl | ⟨digits, hne, hdigits, rfl⟩
  · exact Nat.zero_le _
  · obtain ⟨tail, rfl⟩ := h
    have hrun := isPrefix_takeWhile hdigits (List.prefix_append digits tail)
    have hlength := hrun.length_le
    rw [List.cons_append, Numeral.fraction]
    generalize (digits ++ tail).takeWhile Char.isDigit = run at hrun hlength
    cases run with
    | nil => exact absurd (List.prefix_nil.mp hrun) hne
    | cons d run => simpa [pointed] using hlength

/-- A fraction only follows digits that no other digit follows, so the longest digits and the
longest fraction after them are the longest decimal. -/
theorem length_le_of_decimal (hrun : ∀ d ∈ run, d.isDigit = true) (hback : back ∈ fraction)
    (h : run ++ back <+: cs) : (run ++ back).length ≤ (cs.takeWhile Char.isDigit ++
      pointed (Numeral.fraction (cs.dropWhile Char.isDigit)).1).length := by
  rw [List.length_append, List.length_append]
  have hlength := length_le_of_run hrun ((List.prefix_append run back).trans h)
  rcases mem_fraction.mp hback with rfl | ⟨digits, -, -, rfl⟩
  · exact Nat.le_add_right_of_le hlength
  · obtain ⟨tail, rfl⟩ := h
    have hstop : ∀ c ∈ ('.' :: digits ++ tail).head?, c.isDigit = false := by
      rintro c ⟨⟩
      rfl
    rw [List.append_assoc, takeWhile_append_of_stop hrun hstop,
      dropWhile_append_of_stop hrun hstop]
    exact Nat.add_le_add_left (length_le_of_fraction hback (List.prefix_append _ _)) _

/-- A character and what follows it in a numeral. -/
inductive NumeralForm : Char → List Char → Prop
  | hexadecimal {digits : List Char} (hdigits : ∀ d ∈ digits, isHexDigit d = true) :
      NumeralForm '0' ('x' :: digits)
  | octal {digits : List Char} (hdigits : ∀ d ∈ digits, isOctalDigit d = true) :
      NumeralForm '0' digits
  | decimal {c : Char} {digits back : List Char} (hc : c.isDigit = true)
      (hdigits : ∀ d ∈ digits, d.isDigit = true)
      (hzero : c = '0' → ∃ d ∈ digits, isOctalDigit d = false) (hback : back ∈ fraction) :
      NumeralForm c (digits ++ back)

theorem numeralForm_iff : NumeralForm c cs ↔ ∃ pattern ∈ numerals, c :: cs ∈ pattern := by
  simp only [numerals, List.mem_cons, List.not_mem_nil, or_false, exists_eq_or_imp,
    exists_eq_left, mem_hexadecimal, mem_octal, mem_decimal, mem_zeroDecimal, List.cons.injEq]
  constructor
  · rintro (hdigits | hdigits | ⟨hc, hdigits, hzero, hback⟩)
    · exact .inl ⟨_, hdigits, rfl, rfl⟩
    · exact .inr (.inl ⟨_, hdigits, rfl, rfl⟩)
    · by_cases h : c = '0'
      · exact .inr (.inr (.inr ⟨_, _, hdigits, hzero h, hback, h, rfl⟩))
      · exact .inr (.inr (.inl ⟨c, _, _, hc, h, hdigits, hback, rfl, rfl⟩))
  · rintro (⟨digits, hdigits, rfl, rfl⟩ | ⟨digits, hdigits, rfl, rfl⟩ |
      ⟨_, digits, back, hc, hne, hdigits, hback, rfl, rfl⟩ |
      ⟨digits, back, hdigits, hzero, hback, rfl, rfl⟩)
    · exact .hexadecimal hdigits
    · exact .octal hdigits
    · exact .decimal hc hdigits (absurd · hne) hback
    · exact .decimal rfl hdigits (fun _ ↦ hzero) hback

/-- The text is a numeral that starts with `c`, and no numeral in front of `c :: cs` is longer. -/
def IsLongestNumeral (c : Char) (cs text : List Char) : Prop :=
  ∃ tail, text = c :: tail ∧ NumeralForm c tail ∧
    ∀ other, NumeralForm c other → other <+: cs → other.length ≤ tail.length

theorem isLongestNumeral_hexadecimal (hex : List Char) :
    IsLongestNumeral '0' ('x' :: hex) ('0' :: 'x' :: hex.takeWhile isHexDigit) := by
  refine ⟨_, rfl, .hexadecimal fun d ↦ List.mem_takeWhile_imp, fun other hform hfront ↦ ?_⟩
  cases hform with
  | hexadecimal hdigits =>
      have hlength := length_le_of_run hdigits (List.cons_prefix_cons.mp hfront).2
      exact Nat.succ_le_succ hlength
  | octal hdigits =>
      cases other with
      | nil => exact Nat.zero_le _
      | cons d digits =>
          obtain ⟨rfl, -⟩ := List.cons_prefix_cons.mp hfront
          exact absurd (hdigits _ List.mem_cons_self) (by decide)
  | @decimal _ digits back _ hdigits hzero _ =>
      obtain ⟨d, hd, -⟩ := hzero rfl
      obtain ⟨e, digits, rfl⟩ := List.exists_cons_of_ne_nil (List.ne_nil_of_mem hd)
      obtain ⟨rfl, -⟩ := List.cons_prefix_cons.mp hfront
      exact absurd (hdigits _ List.mem_cons_self) (by decide)

theorem isLongestNumeral_octal (hhex : cs.head? ≠ some 'x')
    (hoctal : ∀ d ∈ cs.takeWhile Char.isDigit, isOctalDigit d = true) :
    IsLongestNumeral '0' cs ('0' :: cs.takeWhile Char.isDigit) := by
  refine ⟨_, rfl, .octal hoctal, fun other hform hfront ↦ ?_⟩
  cases hform with
  | hexadecimal hdigits =>
      obtain ⟨rest, rfl⟩ := hfront
      exact absurd rfl hhex
  | octal hdigits =>
      exact length_le_of_run (fun d hd ↦ isDigit_of_isOctalDigit (hdigits d hd)) hfront
  | @decimal _ digits back _ hdigits hzero _ =>
      obtain ⟨d, hd, hnine⟩ := hzero rfl
      have hrun := isPrefix_takeWhile hdigits ((List.prefix_append digits back).trans hfront)
      simp [hoctal d (hrun.mem hd)] at hnine

theorem isLongestNumeral_decimal (hc : c.isDigit = true)
    (hzero : c = '0' → cs.head? ≠ some 'x' ∧
      ∃ d ∈ cs.takeWhile Char.isDigit, isOctalDigit d = false) :
    IsLongestNumeral c cs (Numeral.withFraction (c :: cs.takeWhile Char.isDigit)
      (cs.dropWhile Char.isDigit)).1.text := by
  rw [Numeral.withFraction, text_decimal]
  refine ⟨cs.takeWhile Char.isDigit ++ pointed _, rfl, .decimal hc (fun d ↦ List.mem_takeWhile_imp)
    (fun h ↦ (hzero h).2) (fraction_mem _), fun other hform hfront ↦ ?_⟩
  cases hform with
  | hexadecimal hdigits =>
      obtain ⟨rest, rfl⟩ := hfront
      exact absurd rfl (hzero rfl).1
  | octal hdigits =>
      rw [List.length_append]
      exact Nat.le_add_right_of_le
        (length_le_of_run (fun d hd ↦ isDigit_of_isOctalDigit (hdigits d hd)) hfront)
  | decimal _ hdigits _ hback => exact length_le_of_decimal hdigits hback hfront

/-- A numeral is read to its end, and its end is as far on as that of any numeral at its place. -/
theorem isLongestNumeral_read (hc : c.isDigit = true) (cs : List Char) :
    IsLongestNumeral c cs (Numeral.read c cs).1.text := by
  by_cases hzero : c = '0'
  · subst hzero
    by_cases hhex : cs.head? = some 'x'
    · obtain ⟨hex, rfl⟩ := List.head?_eq_some_iff.mp hhex
      exact isLongestNumeral_hexadecimal hex
    · rw [Lexeme.read_zero hhex]
      split
      · rename_i hoctal
        exact isLongestNumeral_octal hhex (List.all_eq_true.mp hoctal)
      · rename_i hoctal
        rw [Bool.not_eq_true, List.all_eq_false] at hoctal
        obtain ⟨d, hd, hnine⟩ := hoctal
        exact isLongestNumeral_decimal hc fun _ ↦ ⟨hhex, d, hd, by simpa using hnine⟩
  · unfold Numeral.read
    rw [if_neg hzero]
    exact isLongestNumeral_decimal hc (absurd · hzero)

end Longest

/-! ### What is scanned is what the table cuts off -/

section Scan

variable {kind : TokenKind} {c : Char} {cs text : List Char}

theorem isLongest_read (hc : c.isDigit = true) (cs : List Char) :
    IsLongest entries (c :: cs) (Numeral.read c cs).1.text ∧
      IsKindOf .number (Numeral.read c cs).1.text := by
  have happend := Numeral.read_append c cs
  obtain ⟨tail, htext, hform, hlongest⟩ := isLongestNumeral_read hc cs
  have hmatched : Matches .number (c :: tail) :=
    matches_iff.mpr (.inr (.inr (.inl ⟨rfl, numeralForm_iff.mp hform⟩)))
  rw [htext] at happend ⊢
  refine ⟨⟨⟨_, happend⟩, ⟨_, hmatched⟩, ?_⟩,
    ⟨hmatched, fun other hother ↦ .inl (hother.number hc).1⟩⟩
  rintro other ⟨kind, hother⟩ hfront
  obtain ⟨others, rfl, hothers⟩ := hother.exists_tail hfront
  exact Nat.succ_le_succ (hlongest others (numeralForm_iff.mpr (hother.number hc).2) hothers)

theorem value?_of_text {numeral : Numeral} (h : numeral.WellFormed)
    (htext : numeral.text = ['0', 'x']) : numeral.value? = none := by
  cases numeral with
  | hexadecimal digits =>
      obtain rfl : digits = [] := by simpa [Numeral.text] using htext
      rfl
  | octal digits =>
      obtain rfl : digits = ['x'] := by simpa [Numeral.text] using htext
      exact absurd (h 'x' (by simp)) (by decide)
  | decimal whole digits =>
      obtain ⟨-, hwhole, hdigits⟩ := h
      rw [text_decimal] at htext
      have hmem : 'x' ∈ whole ++ pointed digits := by simp [htext]
      rcases List.mem_append.mp hmem with hmem | hmem
      · exact absurd (hwhole 'x' hmem) (by decide)
      · cases digits with
        | nil => cases hmem
        | cons d digits =>
            rcases List.mem_cons.mp hmem with heq | hmem
            · exact absurd heq (by decide)
            · exact absurd (hdigits 'x' hmem) (by decide)

theorem cuts_numeral (hc : c.isDigit = true) (cs : List Char) :
    Cuts (c :: cs) (Lexeme.numeral c cs) := by
  have happend := Numeral.read_append c cs
  obtain ⟨hlongest, hkind⟩ := isLongest_read hc cs
  unfold Lexeme.numeral
  dsimp only
  split
  · rename_i x hvalue
    refine .token happend.symm hlongest hkind fun hdigits ↦ ?_
    rw [value?_of_text (Lexeme.wellFormed_read hc cs) hdigits] at hvalue
    cases hvalue
  · rename_i hvalue
    rw [Lexeme.text_of_value?_eq_none hvalue] at happend hlongest ⊢
    exact .noDigits happend.symm hlongest

theorem isWord_takeWhile (hc : c.isAlpha = true) (cs : List Char) :
    IsWord (c :: cs.takeWhile isWordChar) :=
  ⟨c, _, rfl, hc, fun _ ↦ List.mem_takeWhile_imp⟩

theorem isLongest_word (hc : c.isAlpha = true) (cs : List Char) :
    IsLongest word (c :: cs) (c :: cs.takeWhile isWordChar) where
  front := List.cons_prefix_cons.mpr ⟨rfl, List.takeWhile_prefix _⟩
  matched := mem_word.mpr (isWord_takeWhile hc cs)
  longest other hother hfront := by
    obtain ⟨d, run, rfl, -, hrun⟩ := mem_word.mp hother
    exact Nat.succ_le_succ (length_le_of_run hrun (List.cons_prefix_cons.mp hfront).2)

theorem isLongest_entries (hc : c.isAlpha = true) (cs : List Char) :
    IsLongest entries (c :: cs) (c :: cs.takeWhile isWordChar) where
  front := (isLongest_word hc cs).front
  matched := ⟨.word, matches_iff.mpr (.inr (.inr (.inr ⟨rfl, isWord_takeWhile hc cs⟩)))⟩
  longest := by
    rintro other ⟨kind, hother⟩ hfront
    obtain ⟨others, rfl, -⟩ := hother.exists_tail hfront
    exact (isLongest_word hc cs).longest _ (mem_word.mpr (hother.word hc).1) hfront

theorem IsLongest.unique {pattern : Language Char} {source text' : List Char}
    (h : IsLongest pattern source text) (h' : IsLongest pattern source text') : text = text' := by
  have hlength : text.length = text'.length :=
    Nat.le_antisymm (h'.longest _ h.matched h.front) (h.longest _ h'.matched h'.front)
  exact (List.prefix_of_prefix_length_le h.front h'.front hlength.le).eq_of_length hlength

theorem ofWord_of_mem_keywords (h : (text, kind) ∈ TokenKind.keywords) :
    TokenKind.ofWord text = kind := by
  have hall : ∀ entry ∈ TokenKind.keywords, TokenKind.ofWord entry.1 = entry.2 := by decide
  exact hall _ h

theorem isKindOf_word (h : IsWord text) : IsKindOf (TokenKind.ofWord text) text := by
  obtain ⟨c, cs, rfl, hc, hcs⟩ := id h
  refine ⟨matches_iff.mpr ?_, fun other hother ↦ ?_⟩
  · cases hlookup : TokenKind.keywords.lookup (c :: cs) with
    | none =>
        have hword : TokenKind.ofWord (c :: cs) = .word := by
          rw [TokenKind.ofWord, hlookup, Option.getD_none]
        exact .inr (.inr (.inr ⟨hword, h⟩))
    | some kind =>
        obtain ⟨before, after, htable, -⟩ := List.lookup_eq_some_iff.mp hlookup
        have hmem : (c :: cs, kind) ∈ TokenKind.keywords := by simp [htable]
        rw [ofWord_of_mem_keywords hmem]
        exact .inr (.inl hmem)
  · rcases (hother.word hc).2 with hmem | hword
    · exact .inl (ofWord_of_mem_keywords hmem).symm
    · exact .inr hword

theorem cuts_bareWord (hc : c.isAlpha = true) (cs : List Char) :
    Cuts (c :: cs) (Lexeme.bareWord c cs) := by
  refine .token (by simp) (isLongest_entries hc cs) (isKindOf_word (isWord_takeWhile hc cs))
    fun hdigits ↦ ?_
  obtain ⟨rfl, -⟩ := List.cons.inj hdigits
  exact absurd hc (by decide)

/-- In a list of spellings that get shorter, the first one that matches is the longest. -/
theorem length_le_of_find? {entries : List (List Char × TokenKind)}
    {entry other : List Char × TokenKind}
    (hsorted : entries.Pairwise fun a b ↦ b.1.length ≤ a.1.length)
    (hfind : entries.find? (fun entry ↦ entry.1.isPrefixOf text) = some entry)
    (hother : other ∈ entries) (hfront : other.1 <+: text) : other.1.length ≤ entry.1.length := by
  induction entries with
  | nil => cases hother
  | cons first entries ih =>
      obtain ⟨hfirst, hsorted⟩ := List.pairwise_cons.mp hsorted
      rw [List.find?_cons] at hfind
      split at hfind
      · obtain rfl := Option.some.inj hfind
        rcases List.mem_cons.mp hother with rfl | hother
        · exact Nat.le_refl _
        · exact hfirst other hother
      · rename_i hno
        rcases List.mem_cons.mp hother with rfl | hother
        · rw [List.isPrefixOf_iff_prefix.mpr hfront] at hno
          cases hno
        · exact ih hsorted hfind hother

theorem cuts_punctuation (hdigit : c.isDigit = false) (halpha : c.isAlpha = false)
    (cs : List Char) : Cuts (c :: cs) (Lexeme.punctuation c cs) := by
  have hsorted : TokenKind.punctuation.Pairwise fun a b ↦ b.1.length ≤ a.1.length := by decide
  have hspellings : (TokenKind.punctuation.map Prod.fst).Nodup := by decide
  unfold Lexeme.punctuation
  split
  · rename_i text kind hfind
    have happend := Lexeme.punctuationAt?_append hfind
    have hmem := List.mem_of_find?_eq_some hfind
    have hmatched : Matches kind text := matches_iff.mpr (.inl hmem)
    have hfront : text <+: c :: cs := ⟨_, happend⟩
    obtain ⟨tail, rfl, -⟩ := hmatched.exists_tail hfront
    refine .token happend.symm ⟨hfront, ⟨_, hmatched⟩, ?_⟩
      ⟨hmatched, fun other hother ↦ .inl ?_⟩ fun hdigits ↦ ?_
    · rintro spelling ⟨other, hother⟩ hspelling
      obtain ⟨others, rfl, -⟩ := hother.exists_tail hspelling
      exact length_le_of_find? hsorted hfind (hother.punctuation hdigit halpha) hspelling
    · have heq := List.inj_on_of_nodup_map hspellings (hother.punctuation hdigit halpha) hmem rfl
      exact congrArg Prod.snd heq
    · obtain ⟨rfl, -⟩ := List.cons.inj hdigits
      cases hdigit
  · rename_i hfind
    refine .unexpected rfl fun kind text hfront htext ↦ ?_
    obtain ⟨tail, rfl, -⟩ := htext.exists_tail hfront
    have hno := List.find?_eq_none.mp hfind _ (htext.punctuation hdigit halpha)
    exact hno (List.isPrefixOf_iff_prefix.mpr hfront)

theorem scan_of_notMem (hskipped : c ∉ skipped) (hopening : c ∉ openings) (cs : List Char) :
    Lexeme.scan c cs =
      if c.isDigit then Lexeme.numeral c cs
      else if c.isAlpha then Lexeme.bareWord c cs
      else Lexeme.punctuation c cs := by
  have hblank : isBlank c = false := by
    have hblanks : blanks = skipped := rfl
    rwa [← Bool.not_eq_true, isBlank, List.contains_iff_mem, hblanks]
  simp only [openings, List.mem_cons, List.not_mem_nil, or_false, not_or] at hopening
  obtain ⟨hcomment, hstring, hinterpolated, htemplate, hsigil⟩ := hopening
  rw [Lexeme.scan, hblank, if_neg Bool.false_ne_true, if_neg hcomment, if_neg hstring,
    if_neg hinterpolated, if_neg htemplate, if_neg hsigil]

theorem cuts_scan (hskipped : c ∉ skipped) (hopening : c ∉ openings) (cs : List Char) :
    Cuts (c :: cs) (Lexeme.scan c cs) := by
  rw [scan_of_notMem hskipped hopening]
  by_cases hdigit : c.isDigit = true
  · rw [if_pos hdigit]
    exact cuts_numeral hdigit cs
  · rw [if_neg hdigit]
    rw [Bool.not_eq_true] at hdigit
    by_cases halpha : c.isAlpha = true
    · rw [if_pos halpha]
      exact cuts_bareWord halpha cs
    · rw [if_neg halpha]
      rw [Bool.not_eq_true] at halpha
      exact cuts_punctuation hdigit halpha cs

theorem ofWord_eq_iff (h : (text, kind) ∈ TokenKind.keywords) {run : List Char} :
    TokenKind.ofWord run = kind ↔ run = text := by
  have hkinds : (TokenKind.keywords.map Prod.snd).Nodup := by decide
  have hnoWord : ∀ entry ∈ TokenKind.keywords, entry.2 ≠ .word := by decide
  constructor
  · rintro rfl
    cases hlookup : TokenKind.keywords.lookup run with
    | none =>
        rw [TokenKind.ofWord, hlookup] at h
        exact absurd rfl (hnoWord _ h)
    | some kind =>
        obtain ⟨before, after, htable, -⟩ := List.lookup_eq_some_iff.mp hlookup
        have hmem : (run, kind) ∈ TokenKind.keywords := by simp [htable]
        rw [TokenKind.ofWord, hlookup] at h
        exact congrArg Prod.fst (List.inj_on_of_nodup_map hkinds hmem h rfl)
  · rintro rfl
    exact ofWord_of_mem_keywords h

/-- No other lexeme has the kind of a keyword. -/
theorem isWord_of_spells {literal : Value} {spelling : List Char}
    (h : Spells (.token kind literal) text) (hkeyword : (spelling, kind) ∈ TokenKind.keywords) :
    IsWord text := by
  have hothers : ∀ entry ∈ TokenKind.keywords, entry.2 ∉ TokenKind.punctuation.map Prod.snd ∧
      entry.2 ∉ [.number, .string, .interpolatedString, .templateString, .identifier] := by decide
  obtain ⟨hpunctuation, hvalues⟩ := hothers _ hkeyword
  cases h with
  | punctuation hmem => exact absurd (List.mem_map.mpr ⟨_, hmem, rfl⟩) hpunctuation
  | keyword hmem => exact isWord_of_mem_keywords hmem
  | member hword => exact hword
  | _ => simp at hvalues

theorem isAlpha_of_scan_keyword {literal : Value} {spelling : List Char}
    (h : (Lexeme.scan c cs).lexeme = .token kind literal)
    (hkeyword : (spelling, kind) ∈ TokenKind.keywords) : c.isAlpha = true := by
  have hspells := Segment.spells_settle false c cs
  have hself : Segment.settle false (Lexeme.scan c cs) = Lexeme.scan c cs := by
    refine Segment.settle_eq_self (fun other hother ↦ ?_) (by simp [h])
    rw [h] at hother
    injection hother with hkind
    exact Segment.kind_ne_word_of_mem (List.mem_append_right _ hkeyword) hkind
  rw [hself, h] at hspells
  obtain ⟨d, run, htext, hd, -⟩ := isWord_of_spells hspells hkeyword
  have happend := Lexeme.scan_append c cs
  rw [htext] at happend
  exact (List.cons.inj happend).1 ▸ hd

/-- A keyword is scanned where it is the longest word. -/
theorem scan_keyword_iff {spelling : String} (h : (spelling, kind) ∈ keywords) :
    (∃ literal, (Lexeme.scan c cs).lexeme = .token kind literal) ↔
      IsLongest word (c :: cs) spelling.toList := by
  have hkeyword : (spelling.toList, kind) ∈ TokenKind.keywords :=
    spelled_keywords.mem_iff.mp (List.mem_map.mpr ⟨_, h, rfl⟩)
  constructor
  · rintro ⟨literal, hlexeme⟩
    have hc := isAlpha_of_scan_keyword hlexeme hkeyword
    rw [Lexeme.scan_of_isAlpha hc] at hlexeme
    injection hlexeme with hkind
    rw [← (ofWord_eq_iff hkeyword).mp hkind]
    exact isLongest_word hc cs
  · intro hlongest
    obtain ⟨d, run, htext, hd, -⟩ := mem_word.mp hlongest.matched
    have hfront := hlongest.front
    rw [htext] at hfront
    obtain ⟨rfl, -⟩ := List.cons_prefix_cons.mp hfront
    rw [Lexeme.scan_of_isAlpha hd, ← (ofWord_eq_iff hkeyword).mpr
      ((isLongest_word hd cs).unique hlongest)]
    exact ⟨_, rfl⟩

/-- An eight or a nine follows the octal digits at the front of a text. -/
def NineFollows (cs : List Char) : Prop :=
  ∃ digits ∈ octalDigit∗, ∃ d rest, cs = digits ++ d :: rest ∧ (d = '8' ∨ d = '9')

theorem nineFollows_iff :
    NineFollows cs ↔ ∃ d ∈ (cs.dropWhile isOctalDigit).head?, d = '8' ∨ d = '9' := by
  rw [NineFollows, octalDigit_eq]
  simp only [mem_kstar_oneOf]
  constructor
  · rintro ⟨digits, hdigits, d, rest, rfl, hd⟩
    have hstop : ∀ e ∈ (d :: rest).head?, isOctalDigit e = false := by
      rintro e ⟨⟩
      exact (eight_or_nine_iff.mp hd).2
    rw [dropWhile_append_of_stop hdigits hstop]
    exact ⟨d, rfl, hd⟩
  · rintro ⟨d, hhead, hd⟩
    obtain ⟨rest, hrest⟩ := List.head?_eq_some_iff.mp hhead
    refine ⟨cs.takeWhile isOctalDigit, fun _ ↦ List.mem_takeWhile_imp, d, rest, ?_, hd⟩
    rw [← hrest, List.takeWhile_append_dropWhile]

theorem all_isOctalDigit_eq_false_iff : (cs.takeWhile Char.isDigit).all isOctalDigit = false ↔
    ∃ d ∈ (cs.dropWhile isOctalDigit).head?, d = '8' ∨ d = '9' := by
  induction cs with
  | nil => simp
  | cons c cs ih =>
      by_cases hoctal : isOctalDigit c = true
      · simpa [hoctal, isDigit_of_isOctalDigit hoctal] using ih
      · rw [Bool.not_eq_true] at hoctal
        simp only [List.dropWhile_cons, hoctal, Bool.false_eq_true, if_false, List.head?_cons,
          Option.mem_some_iff, exists_eq_left', eight_or_nine_iff, and_true]
        by_cases hdigit : c.isDigit = true
        · simp [hdigit, hoctal]
        · simp [hdigit]

theorem read_decimal_iff (cs : List Char) :
    (∃ whole digits, (Numeral.read '0' cs).1 = .decimal whole digits) ↔
      ∃ d ∈ (cs.dropWhile isOctalDigit).head?, d = '8' ∨ d = '9' := by
  rw [← all_isOctalDigit_eq_false_iff]
  by_cases hhex : cs.head? = some 'x'
  · obtain ⟨hex, rfl⟩ := List.head?_eq_some_iff.mp hhex
    constructor
    · rintro ⟨whole, digits, h⟩
      cases h
    · intro h
      cases h
  · rw [Lexeme.read_zero hhex]
    split
    · rename_i hoctal
      rw [hoctal]
      constructor
      · rintro ⟨whole, digits, h⟩
        cases h
      · intro h
        cases h
    · rename_i hoctal
      exact iff_of_true ⟨_, _, rfl⟩ (Bool.not_eq_true _ ▸ hoctal)

theorem text_read_mem_zeroDecimal_iff (cs : List Char) :
    (Numeral.read '0' cs).1.text ∈ zeroDecimal ↔
      (cs.takeWhile Char.isDigit).all isOctalDigit = false := by
  rw [mem_zeroDecimal]
  by_cases hhex : cs.head? = some 'x'
  · obtain ⟨hex, rfl⟩ := List.head?_eq_some_iff.mp hhex
    refine iff_of_false ?_ Bool.true_eq_false.mp
    rintro ⟨digits, back, hdigits, ⟨d, hd, -⟩, -, htext⟩
    obtain ⟨e, digits, rfl⟩ := List.exists_cons_of_ne_nil (List.ne_nil_of_mem hd)
    obtain ⟨-, hcons⟩ := List.cons.inj htext
    obtain ⟨rfl, -⟩ := List.cons.inj hcons
    exact absurd (hdigits 'x' List.mem_cons_self) (by decide)
  · rw [Lexeme.read_zero hhex]
    split
    · rename_i hoctal
      refine iff_of_false ?_ (by simp [hoctal])
      rintro ⟨digits, back, -, ⟨d, hd, hnine⟩, -, htext⟩
      have hmem : d ∈ cs.takeWhile Char.isDigit := by
        rw [(List.cons.inj htext).2]
        exact List.mem_append_left _ hd
      simp [List.all_eq_true.mp hoctal d hmem] at hnine
    · rename_i hoctal
      rw [Bool.not_eq_true] at hoctal
      refine iff_of_true ?_ hoctal
      obtain ⟨d, hd, hnine⟩ := List.all_eq_false.mp hoctal
      exact ⟨cs.takeWhile Char.isDigit, _, fun _ ↦ List.mem_takeWhile_imp,
        ⟨d, hd, by simpa using hnine⟩, fraction_mem _, text_decimal _ _⟩

theorem text_scan_zero (cs : List Char) :
    (Lexeme.scan '0' cs).text = (Numeral.read '0' cs).1.text := by
  have hscan : Lexeme.scan '0' cs = Lexeme.numeral '0' cs := rfl
  rw [hscan, Lexeme.numeral]
  dsimp only
  split <;> rfl

end Scan

end Pattern

/-! ### What stands before a lexeme -/

/-- The last token that ends before an offset is a dot. -/
def followsDot (text : List Char) (offset : Nat) : Bool :=
  ((tokenize text).tokens.filter (·.span.stop ≤ offset)).getLast?.any (·.kind == .dot)

section Places

open Segment

variable {text : List Char} {place : Placed} {before after : List Placed}

theorem placed_of_append {offset : Nat} {segments : List Segment}
    (h : placed offset segments = before ++ after) :
    placed offset (before.map Placed.segment) = before := by
  induction before generalizing offset segments with
  | nil => rfl
  | cons first before ih =>
      cases segments with
      | nil => cases h
      | cons segment segments =>
          obtain ⟨rfl, htail⟩ := List.cons.inj h
          rw [List.map_cons, placed, ih htail]

theorem stop_le_of_placed (h : placed 0 (all false text) = before ++ place :: after)
    {earlier : Placed} (hmem : earlier ∈ before) : earlier.stop ≤ place.start := by
  obtain ⟨front, back, rfl⟩ := List.append_of_mem hmem
  rw [List.append_assoc, List.cons_append] at h
  have hearlier := start_of_placed h
  rw [← List.cons_append, ← List.append_assoc] at h
  have hplace := start_of_placed h
  simp only [List.flatMap_append, List.flatMap_cons, byteSize_append] at hplace
  rw [Placed.stop]
  omega

theorem start_le_of_placed (h : placed 0 (all false text) = before ++ place :: after)
    {later : Placed} (hmem : later ∈ place :: after) : place.start ≤ later.start := by
  obtain ⟨front, back, hafter⟩ := List.append_of_mem hmem
  have hplace := start_of_placed h
  rw [hafter, ← List.append_assoc] at h
  have hlater := start_of_placed h
  rw [List.flatMap_append, byteSize_append] at hlater
  omega

theorem filter_tokens_of_placed (h : placed 0 (all false text) = before ++ place :: after) :
    (tokenize text).tokens.filter (·.span.stop ≤ place.start) =
      before.filterMap Placed.token? := by
  rw [tokenize, tokens_ofSegments, h, List.filterMap_append, List.filter_append,
    List.filter_eq_self.mpr, List.filter_eq_nil_iff.mpr, List.append_nil]
  · intro token htoken
    obtain ⟨later, hlater, htoken⟩ := List.mem_filterMap.mp htoken
    have hstart := start_le_of_placed h hlater
    have hpos : later.start < later.stop :=
      start_lt_stop_of_mem_placed (h ▸ List.mem_append_right _ hlater)
    rw [Placed.span_of_token? htoken, decide_eq_true_eq, Nat.not_le]
    exact Nat.lt_of_le_of_lt hstart hpos
  · intro token htoken
    obtain ⟨earlier, hearlier, htoken⟩ := List.mem_filterMap.mp htoken
    rw [Placed.span_of_token? htoken, decide_eq_true_eq]
    exact stop_le_of_placed h hearlier

theorem followsDot_of_placed (h : placed 0 (all false text) = before ++ place :: after) :
    Lexed.dotAfter false (before.map Placed.segment) = followsDot text place.start := by
  rw [Lexed.dotAfter_eq 0, tokens_ofSegments, placed_of_append h, followsDot,
    filter_tokens_of_placed h]
  cases (before.filterMap Placed.token?).getLast? <;> rfl

end Places

/-- Where no other form starts, the scanner takes the longest text that the table matches.  A word
is a keyword exactly if it is one as a whole, and a numeral that starts with zero is decimal exactly
if an eight or a nine follows its octal digits.  Every place of a script holds what is scanned
there, where a dot before it settles what a bare word is. -/
theorem scan_takes_longest :
    (∀ c cs, c ∉ Pattern.skipped → c ∉ Pattern.openings →
      Pattern.Cuts (c :: cs) (Lexeme.scan c cs)) ∧
    (∀ c cs spelling kind, (spelling, kind) ∈ Pattern.keywords →
      ((∃ literal, (Lexeme.scan c cs).lexeme = .token kind literal) ↔
        Pattern.IsLongest Pattern.word (c :: cs) spelling.toList)) ∧
    (∀ cs, ((Lexeme.scan '0' cs).text ∈ Pattern.zeroDecimal ↔ Pattern.NineFollows cs) ∧
      ((∃ whole fraction, (Numeral.read '0' cs).1 = .decimal whole fraction) ↔
        Pattern.NineFollows cs)) ∧
    (∀ text, ∀ place ∈ Segment.placed 0 (Segment.all false text), ∃ before c cs,
      text = before ++ c :: cs ∧ place.start = byteSize before ∧ place.segment =
        ⟨(Segment.settle (followsDot text place.start) (Lexeme.scan c cs)).lexeme,
          (Segment.settle (followsDot text place.start) (Lexeme.scan c cs)).text⟩) := by
  refine ⟨fun c cs hskipped hopening ↦ Pattern.cuts_scan hskipped hopening cs,
    fun c cs spelling kind h ↦ Pattern.scan_keyword_iff h, fun cs ↦ ⟨?_, ?_⟩,
    fun text place hplace ↦ ?_⟩
  · rw [Pattern.text_scan_zero, Pattern.text_read_mem_zeroDecimal_iff,
      Pattern.all_isOctalDigit_eq_false_iff, Pattern.nineFollows_iff]
  · rw [Pattern.read_decimal_iff, Pattern.nineFollows_iff]
  · obtain ⟨before, after, hplaced⟩ := List.append_of_mem hplace
    obtain ⟨c, cs, htext, hsegment⟩ := Segment.exists_scan_of_placed 0 hplaced
    rw [followsDot_of_placed hplaced] at hsegment
    exact ⟨_, c, cs, htext, by rw [Segment.start_of_placed hplaced, Nat.zero_add], hsegment⟩

example : (Lexeme.scan '0' "178.5;".toList).text = "0178.5".toList ∧
    (Lexeme.scan '0' "17.5;".toList).text = "017".toList := by decide

end Sigil
