import Mathlib
import Sigil.Proofs.Token.Segmentation

/-!
# Texts in double quotes

A text is put in double quotes by writing its characters one after the other, each as
itself or escaped.  Where a literal ends is found by looking one character back, and
its escapes are resolved from the left.  Both readings agree on a text if what is
written has no newline, each quote in it follows a backslash, and it does not end with
a backslash: then the quote that closes the literal would be taken for an escaped one.
-/

namespace Sigil

/-! ### Where a literal ends -/

namespace IsQuotable

variable {delimiter : Char} {a b : List Char}

theorem nil (delimiter : Char) : IsQuotable delimiter [] := ⟨by simp, by simp⟩

theorem append (ha : IsQuotable delimiter a) (hb : IsQuotable delimiter b) :
    IsQuotable delimiter (a ++ b) := by
  constructor
  · rw [List.mem_append, not_or]
    exact ⟨ha.1, hb.1⟩
  · intro u v heq
    rcases List.append_eq_append_iff.mp heq with ⟨middle, rfl, hmiddle⟩ | ⟨middle, rfl, hmiddle⟩
    · rw [List.getLast?_append, hb.2 middle v hmiddle]
      rfl
    · cases middle with
      | nil => cases hb.2 [] v hmiddle.symm
      | cons c middle =>
          obtain ⟨rfl, -⟩ := List.cons.inj hmiddle
          exact ha.2 u middle rfl

theorem flatMap {write : Char → List Char} (h : ∀ c, IsQuotable delimiter (write c))
    (s : List Char) : IsQuotable delimiter (s.flatMap write) := by
  induction s with
  | nil => exact nil delimiter
  | cons c s ih =>
      rw [List.flatMap_cons]
      exact (h c).append ih

theorem of_notMem (hline : '\n' ∉ a) (hdelimiter : delimiter ∉ a) : IsQuotable delimiter a := by
  refine ⟨hline, ?_⟩
  rintro u v rfl
  exact absurd List.mem_append_cons_self hdelimiter

end IsQuotable

namespace Lexeme

variable {delimiter : Char} {body : List Char}

theorem quotedBody_append_of_forall {previous : Char} (hline : '\n' ∉ body)
    (h : ∀ u v, body = u ++ delimiter :: v → (previous :: u).getLast? = some '\\')
    (rest : List Char) :
    quotedBody delimiter previous (body ++ rest) =
      { quotedBody delimiter (body.getLast?.getD previous) rest with
        body := body ++ (quotedBody delimiter (body.getLast?.getD previous) rest).body } := by
  induction body generalizing previous with
  | nil => rfl
  | cons c body ih =>
      rw [List.mem_cons, not_or] at hline
      have hpassed : ¬(c = delimiter ∧ previous ≠ '\\') := by
        rintro ⟨rfl, hne⟩
        have hlast := h [] body rfl
        exact hne (by simpa using hlast)
      have hbody := ih hline.2 fun u v huv ↦ by
        rw [← List.getLast?_cons_cons]
        exact h (c :: u) v (by rw [huv, List.cons_append])
      rw [List.cons_append, quotedBody, if_neg (Ne.symm hline.1), if_neg hpassed, hbody,
        List.getLast?_cons]
      rfl

/-- A body in which each delimiter follows a backslash is passed over, and its last character is
what the scanner looks back to. -/
theorem quotedBody_append_of_isQuotable (h : IsQuotable delimiter body) (rest : List Char) :
    quotedBody delimiter delimiter (body ++ rest) =
      { quotedBody delimiter (body.getLast?.getD delimiter) rest with
        body := body ++ (quotedBody delimiter (body.getLast?.getD delimiter) rest).body } := by
  refine quotedBody_append_of_forall h.1 (fun u v huv ↦ ?_) rest
  rw [List.getLast?_cons, h.2 u v huv]
  rfl

theorem scan_quote (cs : List Char) :
    scan '\x22' cs = quotedLiteral .string '\x22' unescape cs := rfl

theorem scan_quote_of_closed (h : IsQuotable '\x22' body) (hlast : body.getLast? ≠ some '\\')
    (rest : List Char) :
    scan '\x22' (body ++ '\x22' :: rest) =
      ⟨.token .string (.text (String.ofList (unescape body))), '\x22' :: body ++ ['\x22'],
        rest⟩ := by
  have hback : body.getLast?.getD '\x22' ≠ '\\' := by
    cases hbody : body.getLast? with
    | none => decide
    | some c => simpa [hbody] using hlast
  have hclosed : quotedBody '\x22' (body.getLast?.getD '\x22') ('\x22' :: rest) =
      ⟨true, [], rest⟩ := by
    rw [quotedBody, if_neg (by decide), if_pos ⟨rfl, hback⟩]
  rw [scan_quote, quotedLiteral, quotedBody_append_of_isQuotable h, hclosed, List.append_nil]
  rfl

theorem scan_quote_of_open (h : IsQuotable '\x22' body) (hlast : body.getLast? = some '\\') :
    scan '\x22' (body ++ ['\x22']) =
      ⟨.fault (.unterminatedString '\x22'), '\x22' :: (body ++ ['\x22']), []⟩ := by
  have hopen : quotedBody '\x22' (body.getLast?.getD '\x22') ['\x22'] =
      ⟨false, ['\x22'], []⟩ := by
    rw [hlast]
    rfl
  rw [scan_quote, quotedLiteral, quotedBody_append_of_isQuotable h, hopen]
  rfl

end Lexeme

/-! ### Reading a text back -/

theorem unescape_cons {c : Char} (h : c ≠ '\\') (cs : List Char) :
    unescape (c :: cs) = c :: unescape cs := by
  rw [unescape.eq_def]
  split <;> simp_all

/-- What is written for each character can stand in double quotes and is read as that character,
whatever follows. -/
structure Escapes (write : Char → List Char) : Prop where
  quotable : ∀ c, IsQuotable '\x22' (write c)
  reads : ∀ c rest, unescape (write c ++ rest) = c :: unescape rest

namespace Escapes

variable {write : Char → List Char}

theorem unescape_flatMap (h : Escapes write) (s : List Char) : unescape (s.flatMap write) = s := by
  induction s with
  | nil => rfl
  | cons c s ih => rw [List.flatMap_cons, h.reads, ih]

theorem scan_closed (h : Escapes write) {s : List Char}
    (hlast : (s.flatMap write).getLast? ≠ some '\\') (rest : List Char) :
    Lexeme.scan '\x22' (s.flatMap write ++ '\x22' :: rest) =
      ⟨.token .string (.text (String.ofList s)), '\x22' :: s.flatMap write ++ ['\x22'], rest⟩ := by
  rw [Lexeme.scan_quote_of_closed (.flatMap h.quotable s) hlast, h.unescape_flatMap]

end Escapes

theorem Segment.all_of_token {c : Char} {cs text rest : List Char} {kind : TokenKind}
    {literal : Value} (h : Lexeme.scan c cs = ⟨.token kind literal, text, rest⟩)
    (hword : kind ≠ .word) (afterDot : Bool) :
    all afterDot (c :: cs) = ⟨.token kind literal, text⟩ :: all (kind == .dot) rest := by
  rw [all, h, settle_eq_self (by simp [hword]) (by simp)]
  rfl

/-! ### Short escapes -/

/-- A text between double quotes. -/
def inQuotes (body : List Char) : List Char := '\x22' :: (body ++ ['\x22'])

/-- A character in double quotes: a backslash is put before a backslash and before a quote, and a
newline and a tab have letters. -/
def shortEscape (c : Char) : List Char :=
  if c = '\\' then ['\\', '\\']
  else if c = '\x22' then ['\\', '\x22']
  else if c = '\n' then ['\\', 'n']
  else if c = '\t' then ['\\', 't']
  else [c]

theorem shortEscape_cases {motive : Char → List Char → Prop}
    (backslash : motive '\\' ['\\', '\\']) (quote : motive '\x22' ['\\', '\x22'])
    (newline : motive '\n' ['\\', 'n']) (tab : motive '\t' ['\\', 't'])
    (plain : ∀ c, c ≠ '\\' → c ≠ '\x22' → c ≠ '\n' → motive c [c]) (c : Char) :
    motive c (shortEscape c) := by
  unfold shortEscape
  split
  · subst_vars
    exact backslash
  · split
    · subst_vars
      exact quote
    · split
      · subst_vars
        exact newline
      · split
        · subst_vars
          exact tab
        · exact plain c (by assumption) (by assumption) (by assumption)

theorem escapes_shortEscape : Escapes shortEscape := by
  constructor
  · refine shortEscape_cases (motive := fun _ written ↦ IsQuotable '\x22' written) ?_ ?_ ?_ ?_ ?_
    · exact .of_notMem (by decide) (by decide)
    · refine ⟨by decide, fun u v huv ↦ ?_⟩
      -- The only quote in this text is its second character.
      obtain _ | ⟨d, _ | ⟨e, u⟩⟩ := u
      · cases huv
      · cases huv
        rfl
      · simp at huv
    · exact .of_notMem (by decide) (by decide)
    · exact .of_notMem (by decide) (by decide)
    · intro c _ hquote hline
      exact .of_notMem (by simpa using Ne.symm hline) (by simpa using Ne.symm hquote)
  · refine shortEscape_cases
      (motive := fun c written ↦ ∀ rest, unescape (written ++ rest) = c :: unescape rest)
      ?_ ?_ ?_ ?_ ?_
    · exact fun _ ↦ rfl
    · exact fun _ ↦ rfl
    · exact fun _ ↦ rfl
    · exact fun _ ↦ rfl
    · intro c hbackslash _ _ rest
      exact unescape_cons hbackslash rest

theorem getLast?_shortEscape :
    ∀ c, ∃ last, (shortEscape c).getLast? = some last ∧ (last = '\\' ↔ c = '\\') := by
  refine shortEscape_cases
    (motive := fun c written ↦ ∃ last, written.getLast? = some last ∧ (last = '\\' ↔ c = '\\'))
    ?_ ?_ ?_ ?_ ?_
  · exact ⟨'\\', rfl, by decide⟩
  · exact ⟨'\x22', rfl, by decide⟩
  · exact ⟨'n', rfl, by decide⟩
  · exact ⟨'t', rfl, by decide⟩
  · intro c _ _ _
    exact ⟨c, rfl, Iff.rfl⟩

theorem getLast?_flatMap_shortEscape (s : List Char) :
    (s.flatMap shortEscape).getLast? = some '\\' ↔ s.getLast? = some '\\' := by
  rcases List.eq_nil_or_concat s with rfl | ⟨front, c, rfl⟩
  · simp
  · obtain ⟨last, hlast, hiff⟩ := getLast?_shortEscape c
    rw [List.concat_eq_append, List.flatMap_append, List.flatMap_singleton, List.getLast?_append,
      hlast, List.getLast?_concat]
    simpa using hiff

/-- A text written with short escapes in double quotes is one token, which is the text, unless it
ends with a backslash.  Then the quote that should close it is taken for an escaped one, and there
is nothing but a literal that is not closed. -/
theorem tokenize_inQuotes_shortEscape (s : String) :
    tokenize (inQuotes (s.toList.flatMap shortEscape)) =
      if s.toList.getLast? = some '\\' then ⟨[], [⟨.unterminatedString '\x22', 0⟩]⟩
      else ⟨[⟨.string, .text s, ⟨0, byteSize (inQuotes (s.toList.flatMap shortEscape))⟩⟩], []⟩ := by
  have hquotable := IsQuotable.flatMap escapes_shortEscape.quotable s.toList
  split
  · rename_i hlast
    have hscan := Lexeme.scan_quote_of_open hquotable
      ((getLast?_flatMap_shortEscape s.toList).mpr hlast)
    rw [inQuotes, tokenize, Segment.all, hscan, Segment.settle_eq_self (by simp) (by simp),
      Segment.all]
    rfl
  · rename_i hlast
    have hscan := escapes_shortEscape.scan_closed
      ((getLast?_flatMap_shortEscape s.toList).not.mpr hlast) []
    rw [inQuotes, tokenize, Segment.all_of_token hscan (by decide), Segment.all, Lexed.ofSegments,
      String.ofList_toList]
    simp [Lexed.ofSegments]

theorem tokenize_of_final_backslash :
    tokenize (inQuotes ("\\".toList.flatMap shortEscape)) =
        ⟨[], [⟨.unterminatedString '\x22', 0⟩]⟩ ∧
      ¬∀ s : String, tokenize (inQuotes (s.toList.flatMap shortEscape)) =
        ⟨[⟨.string, .text s, ⟨0, byteSize (inQuotes (s.toList.flatMap shortEscape))⟩⟩], []⟩ := by
  have hopen : tokenize (inQuotes ("\\".toList.flatMap shortEscape)) =
      ⟨[], [⟨.unterminatedString '\x22', 0⟩]⟩ := by cbv
  refine ⟨hopen, fun h ↦ ?_⟩
  cases congrArg Lexed.tokens (hopen.symm.trans (h "\\"))

/-! ### Codes -/

/-- A hexadecimal digit of either case. -/
def hexDigit (upper : Bool) (digit : Nat) : Char :=
  if upper then digit.digitChar.toUpper else digit.digitChar

/-- The last four hexadecimal digits of a number. -/
def codeDigits (upper : Bool) (code : Nat) : List Char :=
  [code / 4096 % 16, code / 256 % 16, code / 16 % 16, code % 16].map (hexDigit upper)

/-- A character in double quotes: backslashes, quotes and newlines are written by their codes. -/
def codeEscape (upper : Bool) (c : Char) : List Char :=
  if c ∈ ['\\', '\x22', '\n'] then '\\' :: 'u' :: codeDigits upper c.toNat else [c]

theorem isHexDigit_hexDigit : ∀ upper, ∀ digit < 16, isHexDigit (hexDigit upper digit) = true := by
  decide

theorem digitValue?_hexDigit :
    ∀ upper, ∀ digit < 16, digitValue? (hexDigit upper digit) = some digit := by
  decide

section Codes

variable {upper : Bool} {code : Nat}

theorem isHexDigit_of_mem_codeDigits : ∀ d ∈ codeDigits upper code, isHexDigit d = true := by
  intro d hd
  obtain ⟨digit, hdigit, rfl⟩ := List.mem_map.mp hd
  refine isHexDigit_hexDigit upper digit ?_
  simp only [List.mem_cons, List.not_mem_nil, or_false] at hdigit
  omega

theorem hexValue_codeDigits (h : code < 65536) : hexValue (codeDigits upper code) = code := by
  have hmod (n : Nat) : n % 16 < 16 := Nat.mod_lt n (by decide)
  simp only [hexValue, codeDigits, List.map_cons, List.map_nil, List.foldl_cons, List.foldl_nil,
    digitValue?_hexDigit upper _ (hmod _), Option.getD_some]
  omega

theorem charOfCode_toNat (c : Char) : charOfCode c.toNat = c := by
  have hvalid : c.toNat.isValidChar := c.valid
  rw [charOfCode, if_pos hvalid, Char.ofNat_toNat]

theorem unescape_code (rest : List Char) :
    unescape ('\\' :: 'u' :: codeDigits upper code ++ rest) =
      charOfCode (hexValue (codeDigits upper code)) :: unescape rest := by
  have hdigits := List.all_eq_true.mpr (@isHexDigit_of_mem_codeDigits upper code)
  obtain ⟨a, b, c, d, hcode⟩ : ∃ a b c d, codeDigits upper code = [a, b, c, d] :=
    ⟨_, _, _, _, rfl⟩
  rw [hcode] at hdigits ⊢
  simp only [List.cons_append, List.nil_append, unescape, if_pos hdigits]

theorem escapes_codeEscape (upper : Bool) : Escapes (codeEscape upper) := by
  constructor
  · intro c
    unfold codeEscape
    split
    · have hchars : ∀ d ∈ ['\n', '\x22'], d ∉ '\\' :: 'u' :: codeDigits upper c.toNat := by
        intro d hd hmem
        have hkinds : ∀ d ∈ ['\n', '\x22'], d ≠ '\\' ∧ d ≠ 'u' ∧ isHexDigit d = false := by
          rw [List.forall_mem_cons, List.forall_mem_singleton]
          decide
        obtain ⟨hbackslash, hletter, hdigit⟩ := hkinds d hd
        rcases List.mem_cons.mp hmem with rfl | hmem
        · exact hbackslash rfl
        · rcases List.mem_cons.mp hmem with rfl | hmem
          · exact hletter rfl
          · simp [isHexDigit_of_mem_codeDigits d hmem] at hdigit
      exact .of_notMem (hchars _ (by decide)) (hchars _ (by decide))
    · rename_i hplain
      simp only [List.mem_cons, List.not_mem_nil, or_false, not_or] at hplain
      exact .of_notMem (by simpa using Ne.symm hplain.2.2) (by simpa using Ne.symm hplain.2.1)
  · intro c rest
    unfold codeEscape
    split
    · rename_i hspecial
      have hcodes : ∀ d ∈ ['\\', '\x22', '\n'], d.toNat < 65536 := by simp
      rw [unescape_code, hexValue_codeDigits (hcodes c hspecial), charOfCode_toNat]
    · rename_i hplain
      refine unescape_cons ?_ rest
      rintro rfl
      exact hplain List.mem_cons_self

theorem getLast?_codeEscape (upper : Bool) (c : Char) :
    (codeEscape upper c).getLast? ≠ some '\\' := by
  intro hlast
  unfold codeEscape at hlast
  split at hlast
  · have hdigits : (codeDigits upper c.toNat).getLast? = some '\\' := hlast
    exact absurd (isHexDigit_of_mem_codeDigits _ (List.mem_of_getLast? hdigits)) (by decide)
  · rename_i hplain
    cases hlast
    exact hplain List.mem_cons_self

theorem getLast?_flatMap_codeEscape (upper : Bool) (s : List Char) :
    (s.flatMap (codeEscape upper)).getLast? ≠ some '\\' := by
  induction s with
  | nil => simp
  | cons c s ih =>
      rw [List.flatMap_cons, List.getLast?_append]
      cases hlast : (s.flatMap (codeEscape upper)).getLast? with
      | none => exact getLast?_codeEscape upper c
      | some d =>
          rw [hlast] at ih
          exact ih

end Codes

end Sigil
