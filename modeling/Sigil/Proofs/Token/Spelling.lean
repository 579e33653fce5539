import Mathlib.Data.List.TakeWhile
import Sigil.Token.Segment

/-!
# How segments are written

Each kind of segment has a form: a run of blanks, a comment, a spelling from a table,
a numeral, a quoted body, a name, or one of the forms that are errors.  Whatever is
cut off a script has the form of what it is said to be.
-/

namespace Sigil

namespace Lexeme

/-! ### Block comments -/

/-- What follows the mark that closes a block comment, with `depth` more comments to close first,
or `none` if the text ends before that. -/
def afterComment? : Nat → List Char → Option (List Char)
  | _, [] => none
  | depth, '#' :: '\x7b' :: cs => afterComment? (depth + 1) cs
  | 0, '\x7d' :: '#' :: cs => some cs
  | depth + 1, '\x7d' :: '#' :: cs => afterComment? depth cs
  | depth, _ :: cs => afterComment? depth cs

/-- No mark of a block comment starts with `c`. -/
def Unmarked (c : Char) (cs : List Char) : Prop :=
  (c = '#' → cs.head? ≠ some '\x7b') ∧ (c = '\x7d' → cs.head? ≠ some '#')

theorem unmarked_of_forall {depth : Nat} {c : Char} {cs : List Char}
    (hopen : ∀ tail, c = '#' → cs = '\x7b' :: tail → False)
    (hlast : ∀ tail, depth = 0 → c = '\x7d' → cs = '#' :: tail → False)
    (hinner : ∀ outer tail, depth = Nat.succ outer → c = '\x7d' → cs = '#' :: tail → False) :
    Unmarked c cs := by
  constructor
  · intro hc hhead
    obtain ⟨tail, htail⟩ := List.head?_eq_some_iff.mp hhead
    exact hopen tail hc htail
  · intro hc hhead
    obtain ⟨tail, htail⟩ := List.head?_eq_some_iff.mp hhead
    cases depth with
    | zero => exact hlast tail rfl hc htail
    | succ outer => exact hinner outer tail rfl hc htail

theorem afterComment?_cons {c : Char} {cs : List Char} (h : Unmarked c cs) (depth : Nat) :
    afterComment? depth (c :: cs) = afterComment? depth cs := by
  obtain ⟨hopen, hclose⟩ := h
  rw [afterComment?.eq_5]
  · rintro tail rfl rfl
    exact hopen rfl rfl
  · rintro tail - rfl rfl
    exact hclose rfl rfl
  · rintro outer tail - rfl rfl
    exact hclose rfl rfl

theorem head?_closeComment (depth : Nat) (cs : List Char) :
    (closeComment depth cs).1.head? = cs.head? := by
  fun_cases closeComment depth cs <;> rfl

/-- The comment that is cut off is closed at its end or not at all. -/
theorem afterComment?_closeComment (depth : Nat) (cs : List Char) :
    afterComment? depth (closeComment depth cs).1 = (afterComment? depth cs).map fun _ ↦ [] := by
  fun_induction closeComment depth cs with
  | case1 => rfl
  | case2 depth cs text rest heq ih => rwa [heq] at ih
  | case3 => rfl
  | case4 depth cs text rest heq ih => rwa [heq] at ih
  | case5 depth c cs hopen hlast hinner text rest heq ih =>
      have hunmarked : Unmarked c cs := unmarked_of_forall hopen hlast hinner
      have hhead : text.head? = cs.head? := by
        rw [← head?_closeComment depth cs, heq]
      rw [heq] at ih
      rw [afterComment?_cons hunmarked, ← ih]
      exact afterComment?_cons (by rwa [Unmarked, hhead]) depth

/-- A comment that is not closed runs to the end. -/
theorem closeComment_rest (depth : Nat) (cs : List Char) :
    (closeComment depth cs).2 = (afterComment? depth cs).getD [] := by
  fun_induction closeComment depth cs with
  | case1 => rfl
  | case2 depth cs text rest heq ih => rwa [heq] at ih
  | case3 => rfl
  | case4 depth cs text rest heq ih => rwa [heq] at ih
  | case5 depth c cs hopen hlast hinner text rest heq ih =>
      rw [heq] at ih
      rwa [afterComment?_cons (unmarked_of_forall hopen hlast hinner)]

end Lexeme

/-! ### Forms -/

/-- The digits of a numeral are digits of its base, and a decimal one has some. -/
def Numeral.WellFormed : Numeral → Prop
  | .hexadecimal digits => ∀ d ∈ digits, isHexDigit d = true
  | .octal digits => ∀ d ∈ digits, isOctalDigit d = true
  | .decimal whole fraction =>
    whole ≠ [] ∧ (∀ d ∈ whole, d.isDigit = true) ∧ ∀ d ∈ fraction, d.isDigit = true

/-- A bare word. -/
def IsWord (text : List Char) : Prop :=
  ∃ c cs, text = c :: cs ∧ c.isAlpha = true ∧ ∀ d ∈ cs, isWordChar d = true

/-- A text on one line in which each delimiter follows a backslash. -/
def IsQuotable (delimiter : Char) (body : List Char) : Prop :=
  '\n' ∉ body ∧ ∀ u v, body = u ++ delimiter :: v → u.getLast? = some '\\'

/-- The text has the form of what it is said to be. -/
inductive Spells : Lexeme → List Char → Prop
  | blanks {text : List Char} (hne : text ≠ []) (h : ∀ c ∈ text, isBlank c = true) :
      Spells .layout text
  | lineComment {body : List Char} (hhead : body.head? ≠ some '\x7b') (h : '\n' ∉ body) :
      Spells .layout ('#' :: body)
  | blockComment {body : List Char} (h : Lexeme.afterComment? 0 body = some []) :
      Spells .layout ('#' :: '\x7b' :: body)
  | openComment {body : List Char} (h : Lexeme.afterComment? 0 body = none) :
      Spells .layout ('#' :: '\x7b' :: body)
  | punctuation {text : List Char} {kind : TokenKind} (h : (text, kind) ∈ TokenKind.punctuation) :
      Spells (.token kind .null) text
  | keyword {text : List Char} {kind : TokenKind} (h : (text, kind) ∈ TokenKind.keywords) :
      Spells (.token kind (Lexeme.keywordLiteral kind)) text
  | numeral {numeral : Numeral} {x : Float} (hform : numeral.WellFormed)
      (hvalue : numeral.value? = some x) : Spells (.token .number (.number x)) numeral.text
  | string {body : List Char} (h : IsQuotable '\x22' body) :
      Spells (.token .string (.text (String.ofList (unescape body)))) ('\x22' :: body ++ ['\x22'])
  | interpolated {body : List Char} (h : IsQuotable '\x60' body) :
      Spells (.token .interpolatedString (.text (String.ofList body))) ('\x60' :: body ++ ['\x60'])
  | template {body : List Char} (h : IsQuotable '\x27' body) :
      Spells (.token .templateString (.text (String.ofList body))) ('\x27' :: body ++ ['\x27'])
  | sigil {run : List Char} (hne : run ≠ []) (hdigit : ∀ c ∈ run.head?, c.isDigit = false)
      (h : ∀ c ∈ run, isNameChar c = true) :
      Spells (.token .identifier (.text (String.ofList ('@' :: run)))) ('@' :: run)
  | member {text : List Char} (h : IsWord text) (hword : TokenKind.ofWord text = .word) :
      Spells (.token .identifier (.text (String.ofList text))) text
  | unknownKeyword {text : List Char} (h : IsWord text) (hword : TokenKind.ofWord text = .word) :
      Spells (.fault .unknownKeyword) text
  | unexpected {text : List Char} (hne : text ≠ []) (h : ∀ c ∈ text, isBlank c = false) :
      Spells (.fault .unexpectedCharacter) text
  | unterminated {delimiter : Char} {body stop : List Char}
      (hdelimiter : delimiter ∈ ['\x22', '\x60', '\x27']) (h : IsQuotable delimiter body)
      (hstop : stop = [] ∨ stop = ['\n']) :
      Spells (.fault (.unterminatedString delimiter)) (delimiter :: body ++ stop)
  | invalidNameStart {run : List Char} (h : ∀ c ∈ run, isNameChar c = true) :
      Spells (.fault .invalidNameStart) ('@' :: run)
  | emptyName : Spells (.fault .emptyName) ['@']
  | invalidHexLiteral : Spells (.fault .invalidHexLiteral) ['0', 'x']

namespace Lexeme

theorem spells_comment (cs : List Char) : Spells (comment cs).lexeme (comment cs).text := by
  unfold comment
  split
  · rename_i body
    have hclose := afterComment?_closeComment 0 body
    cases hafter : afterComment? 0 body with
    | none => exact .openComment (by simpa [hafter] using hclose)
    | some rest => exact .blockComment (by simpa [hafter] using hclose)
  · rename_i hbrace
    refine .lineComment (fun hhead ↦ ?_) (fun hmem ↦ ?_)
    · obtain ⟨tail, htail⟩ := List.head?_eq_some_iff.mp hhead
      obtain ⟨rest, hrest⟩ := List.takeWhile_prefix (· != '\n') (l := cs)
      rw [htail] at hrest
      exact hbrace (tail ++ rest) hrest.symm
    · simpa using List.mem_takeWhile_imp hmem

theorem exists_body_of_quotedBody (delimiter previous : Char) (cs : List Char) :
    ∃ body stop, (quotedBody delimiter previous cs).body = body ++ stop ∧ '\n' ∉ body ∧
      (∀ u v, body = u ++ delimiter :: v → (previous :: u).getLast? = some '\\') ∧
      (stop = [] ∨ stop = ['\n'] ∧ (quotedBody delimiter previous cs).closed = false) := by
  fun_induction quotedBody delimiter previous cs with
  | case1 previous => exact ⟨[], [], rfl, by simp, by simp, .inl rfl⟩
  | case2 previous cs => exact ⟨[], ['\n'], rfl, by simp, by simp, .inr ⟨rfl, rfl⟩⟩
  | case3 previous cs _ => exact ⟨[], [], rfl, by simp, by simp, .inl rfl⟩
  | case4 previous c cs hline hdelimiter quote ih =>
      obtain ⟨body, stop, hbody, hlines, hdelimiters, hstop⟩ := ih
      refine ⟨c :: body, stop, congrArg (c :: ·) hbody, ?_, ?_, hstop⟩
      · simpa using ⟨Ne.symm hline, hlines⟩
      · intro u v huv
        cases u with
        | nil =>
            obtain ⟨rfl, -⟩ := List.cons.inj huv
            simpa using hdelimiter
        | cons d u =>
            obtain ⟨rfl, htail⟩ := List.cons.inj huv
            rw [List.getLast?_cons_cons]
            exact hdelimiters u v htail

/-- What is read after a delimiter is a body on one line, and possibly the newline that ends it too
early. -/
theorem isQuotable_quotedBody {delimiter : Char} (h : delimiter ≠ '\\') (cs : List Char) :
    ∃ body stop, (quotedBody delimiter delimiter cs).body = body ++ stop ∧
      IsQuotable delimiter body ∧
      (stop = [] ∨ stop = ['\n'] ∧ (quotedBody delimiter delimiter cs).closed = false) := by
  obtain ⟨body, stop, hbody, hlines, hdelimiters, hstop⟩ :=
    exists_body_of_quotedBody delimiter delimiter cs
  refine ⟨body, stop, hbody, ⟨hlines, fun u v huv ↦ ?_⟩, hstop⟩
  have hlast := hdelimiters u v huv
  cases u with
  | nil => exact absurd (Option.some.inj hlast) h
  | cons d u => rwa [List.getLast?_cons_cons] at hlast

theorem spells_quotedLiteral {kind : TokenKind} {delimiter : Char}
    {decode : List Char → List Char} (hdelimiter : delimiter ∈ ['\x22', '\x60', '\x27'])
    (hspells : ∀ body, IsQuotable delimiter body →
      Spells (.token kind (.text (String.ofList (decode body))))
        (delimiter :: body ++ [delimiter])) (cs : List Char) :
    Spells (quotedLiteral kind delimiter decode cs).lexeme
      (quotedLiteral kind delimiter decode cs).text := by
  have hne : delimiter ≠ '\\' := by
    rintro rfl
    revert hdelimiter
    decide
  obtain ⟨body, stop, hbody, hquotable, hstop⟩ := isQuotable_quotedBody hne cs
  unfold quotedLiteral
  dsimp only
  rw [hbody]
  obtain rfl | ⟨rfl, hopen⟩ := hstop
  · rw [List.append_nil]
    split
    · exact hspells body hquotable
    · simpa using Spells.unterminated hdelimiter hquotable (.inl rfl)
  · rw [if_neg (by simp [hopen])]
    exact .unterminated hdelimiter hquotable (.inr rfl)

theorem lexeme_quotedLiteral_ne (kind : TokenKind) (delimiter : Char)
    (decode : List Char → List Char) (cs : List Char) :
    (quotedLiteral kind delimiter decode cs).lexeme ≠ .fault .unexpectedCharacter := by
  unfold quotedLiteral
  dsimp only
  split <;> simp

theorem spells_sigilName (cs : List Char) : Spells (sigilName cs).lexeme (sigilName cs).text := by
  have hrun : ∀ c ∈ cs.takeWhile isNameChar, isNameChar c = true :=
    fun c hc ↦ List.mem_takeWhile_imp hc
  unfold sigilName
  dsimp only
  split
  · exact .invalidNameStart hrun
  · rename_i hfirst
    split
    · exact .emptyName
    · rename_i hempty
      refine .sigil (by simpa using hempty) (fun c hc ↦ ?_) hrun
      rw [List.head?_takeWhile, Option.mem_def, Option.filter_eq_some_iff] at hc
      rw [hc.1] at hfirst
      have hkinds : c.isDigit = false ∧ isNameStop c = false := by simpa using hfirst
      exact hkinds.1

theorem wellFormed_withFraction {whole : List Char} (hne : whole ≠ [])
    (h : ∀ d ∈ whole, d.isDigit = true) (rest : List Char) :
    (Numeral.withFraction whole rest).1.WellFormed := by
  refine ⟨hne, h, ?_⟩
  unfold Numeral.fraction
  split
  · split
    · simp
    · exact fun d hd ↦ List.mem_takeWhile_imp hd
  · simp

theorem wellFormed_read {c : Char} (hc : c.isDigit = true) (cs : List Char) :
    (Numeral.read c cs).1.WellFormed := by
  have hwhole : ∀ d ∈ c :: cs.takeWhile Char.isDigit, d.isDigit = true := by
    intro d hd
    obtain rfl | hd := List.mem_cons.mp hd
    · exact hc
    · exact List.mem_takeWhile_imp hd
  unfold Numeral.read
  dsimp only
  split
  · split
    · exact fun d hd ↦ List.mem_takeWhile_imp hd
    · split
      · rename_i hoctal
        exact List.all_eq_true.mp hoctal
      · exact wellFormed_withFraction (List.cons_ne_nil _ _) hwhole _
  · exact wellFormed_withFraction (List.cons_ne_nil _ _) hwhole _

theorem text_of_value?_eq_none {numeral : Numeral} (h : numeral.value? = none) :
    numeral.text = ['0', 'x'] := by
  unfold Numeral.value? at h
  split at h <;> cases h
  rfl

theorem spells_numeral {c : Char} (hc : c.isDigit = true) (cs : List Char) :
    Spells (numeral c cs).lexeme (numeral c cs).text := by
  have hform := wellFormed_read hc cs
  unfold numeral
  dsimp only
  split
  · rename_i x hvalue
    exact .numeral hform hvalue
  · rename_i hvalue
    rw [text_of_value?_eq_none hvalue]
    exact .invalidHexLiteral

end Lexeme

namespace Segment

open Lexeme

theorem settle_eq_self {afterDot : Bool} {scanned : Scanned}
    (hword : ∀ literal, scanned.lexeme ≠ .token .word literal)
    (hunexpected : scanned.lexeme ≠ .fault .unexpectedCharacter) :
    settle afterDot scanned = scanned := by
  unfold settle
  split
  · exact absurd ‹_› (hword _)
  · exact absurd ‹_› hunexpected
  · rfl

theorem kind_ne_word_of_mem {text : List Char} {kind : TokenKind}
    (h : (text, kind) ∈ TokenKind.punctuation ++ TokenKind.keywords) : kind ≠ .word := by
  have hall : ∀ entry ∈ TokenKind.punctuation ++ TokenKind.keywords, entry.2 ≠ .word := by decide
  exact hall (text, kind) h

/-- Forms that are final are not changed by what stands before them. -/
theorem spells_settle_of_spells {scanned : Scanned} (afterDot : Bool)
    (h : Spells scanned.lexeme scanned.text)
    (hunexpected : scanned.lexeme ≠ .fault .unexpectedCharacter) :
    Spells (settle afterDot scanned).lexeme (settle afterDot scanned).text := by
  rw [settle_eq_self ?_ hunexpected]
  · exact h
  · intro literal hword
    rw [hword] at h
    cases h with
    | punctuation hmem => exact kind_ne_word_of_mem (List.mem_append_left _ hmem) rfl
    | keyword hmem => exact kind_ne_word_of_mem (List.mem_append_right _ hmem) rfl

theorem spells_bareWord {c : Char} (hc : c.isAlpha = true) (afterDot : Bool) (cs : List Char) :
    Spells (settle afterDot (bareWord c cs)).lexeme (settle afterDot (bareWord c cs)).text := by
  have hisWord : IsWord (c :: cs.takeWhile isWordChar) :=
    ⟨c, _, rfl, hc, fun d hd ↦ List.mem_takeWhile_imp hd⟩
  cases hlookup : TokenKind.keywords.lookup (c :: cs.takeWhile isWordChar) with
  | none =>
      have hword : TokenKind.ofWord (c :: cs.takeWhile isWordChar) = .word := by
        rw [TokenKind.ofWord, hlookup, Option.getD_none]
      rw [bareWord, hword]
      cases afterDot with
      | false => exact .unknownKeyword hisWord hword
      | true => exact .member hisWord hword
  | some kind =>
      have hkind : TokenKind.ofWord (c :: cs.takeWhile isWordChar) = kind := by
        rw [TokenKind.ofWord, hlookup, Option.getD_some]
      obtain ⟨before, after, htable, -⟩ := List.lookup_eq_some_iff.mp hlookup
      have hmem : (c :: cs.takeWhile isWordChar, kind) ∈ TokenKind.keywords := by
        rw [htable]
        exact List.mem_append_cons_self
      have hne := kind_ne_word_of_mem (List.mem_append_right TokenKind.punctuation hmem)
      rw [settle_eq_self (by simp [bareWord, hkind, hne]) (by simp [bareWord]), bareWord, hkind]
      exact .keyword hmem

theorem spells_punctuation {c : Char} (hc : isBlank c = false) (afterDot : Bool)
    (cs : List Char) :
    Spells (settle afterDot (Lexeme.punctuation c cs)).lexeme
      (settle afterDot (Lexeme.punctuation c cs)).text := by
  unfold Lexeme.punctuation
  split
  · rename_i text kind hfind
    have hmem := List.mem_of_find?_eq_some hfind
    have hne := kind_ne_word_of_mem (List.mem_append_left TokenKind.keywords hmem)
    rw [settle_eq_self (by simp [hne]) (by simp)]
    exact .punctuation hmem
  · refine .unexpected (List.cons_ne_nil _ _) fun d hd ↦ ?_
    obtain rfl | hd := List.mem_cons.mp hd
    · exact hc
    · simpa using List.mem_takeWhile_imp hd

/-- Whatever is cut off a script has the form of what it is said to be. -/
theorem spells_settle (afterDot : Bool) (c : Char) (cs : List Char) :
    Spells (settle afterDot (scan c cs)).lexeme (settle afterDot (scan c cs)).text := by
  unfold scan
  split
  · rename_i hblank
    refine .blanks (List.cons_ne_nil _ _) fun d hd ↦ ?_
    obtain rfl | hd := List.mem_cons.mp hd
    · exact hblank
    · exact List.mem_takeWhile_imp hd
  · rename_i hblank
    repeat' split
    · refine spells_settle_of_spells afterDot (spells_comment cs) ?_
      unfold comment
      split <;> simp
    · subst_vars
      exact spells_settle_of_spells afterDot
        (spells_quotedLiteral (by simp) (fun _ ↦ .string) cs) (lexeme_quotedLiteral_ne _ _ _ cs)
    · subst_vars
      exact spells_settle_of_spells afterDot
        (spells_quotedLiteral (by simp) (fun _ ↦ .interpolated) cs)
        (lexeme_quotedLiteral_ne _ _ _ cs)
    · subst_vars
      exact spells_settle_of_spells afterDot
        (spells_quotedLiteral (by simp) (fun _ ↦ .template) cs) (lexeme_quotedLiteral_ne _ _ _ cs)
    · refine spells_settle_of_spells afterDot (spells_sigilName cs) ?_
      unfold sigilName
      dsimp only
      split
      · simp
      · split <;> simp
    · rename_i hdigit
      refine spells_settle_of_spells afterDot (spells_numeral hdigit cs) ?_
      unfold numeral
      dsimp only
      split <;> simp
    · rename_i halpha
      exact spells_bareWord halpha afterDot cs
    · exact spells_punctuation (by simpa using hblank) afterDot cs

end Segment

end Sigil
