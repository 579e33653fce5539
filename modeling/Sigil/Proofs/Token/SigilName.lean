import Mathlib
import Sigil.Proofs.Token.Lines

/-!
# Sigil names

A sigil name is a sigil and the longest run of name characters after it.  What ends a
name and what separates lexemes is said by two tables that differ: U+180E is a blank,
but a name goes on over it.  Every other separator ends a name, so a script has the
names that its separators show wherever it does not put this one inside a name or
right after it.
-/

namespace Sigil

/-! ### Runs of name characters -/

section Runs

variable {p : Char → Bool} {c : Char} {cs run rest : List Char}

theorem takeWhile_append_of_stop (hrun : ∀ c ∈ run, p c = true)
    (hstop : ∀ c ∈ rest.head?, p c = false) : (run ++ rest).takeWhile p = run := by
  rw [List.takeWhile_append_of_pos hrun]
  cases rest with
  | nil => simp
  | cons c rest => simp [hstop c rfl]

theorem dropWhile_append_of_stop (hrun : ∀ c ∈ run, p c = true)
    (hstop : ∀ c ∈ rest.head?, p c = false) : (run ++ rest).dropWhile p = rest := by
  rw [List.dropWhile_append_of_pos hrun]
  cases rest with
  | nil => rfl
  | cons c rest => simp [hstop c rfl]

theorem eq_false_of_mem_head?_dropWhile (h : c ∈ (cs.dropWhile p).head?) : p c = false := by
  have hhead := List.head?_dropWhile_not p cs
  rw [Option.mem_def.mp h] at hhead
  exact hhead

end Runs

/-- The name characters at the front of `run ++ rest` are those of `run`, and there are some. -/
structure IsNameRun (run rest : List Char) : Prop where
  ne_nil : run ≠ []
  chars : ∀ c ∈ run, isNameChar c = true
  stop : ∀ c ∈ rest.head?, isNameChar c = false

namespace IsNameRun

variable {run rest cs : List Char}

theorem takeWhile_append (h : IsNameRun run rest) :
    (run ++ rest).takeWhile isNameChar = run := takeWhile_append_of_stop h.chars h.stop

theorem dropWhile_append (h : IsNameRun run rest) :
    (run ++ rest).dropWhile isNameChar = rest := dropWhile_append_of_stop h.chars h.stop

theorem of_takeWhile (h : cs.takeWhile isNameChar ≠ []) :
    IsNameRun (cs.takeWhile isNameChar) (cs.dropWhile isNameChar) :=
  ⟨h, fun _ ↦ List.mem_takeWhile_imp, fun _ ↦ eq_false_of_mem_head?_dropWhile⟩

end IsNameRun

namespace Lexeme

variable {run rest cs : List Char}

theorem scan_sigil (cs : List Char) : scan '@' cs = sigilName cs := rfl

theorem sigilName_of_run (h : IsNameRun run rest) (hdigit : ∀ c ∈ run.head?, c.isDigit = false) :
    sigilName (run ++ rest) =
      ⟨.token .identifier (.text (String.ofList ('@' :: run))), '@' :: run, rest⟩ := by
  obtain ⟨c, tail, rfl⟩ := List.exists_cons_of_ne_nil h.ne_nil
  have hname := h.chars c List.mem_cons_self
  have hstop : isNameStop c = false := by
    rw [isNameChar, Bool.and_eq_true, Bool.not_eq_true', Bool.not_eq_true'] at hname
    exact hname.2
  have hfirst : ((c :: tail ++ rest).head?.any fun first ↦ first.isDigit || isNameStop first) =
      false := by
    simp [hdigit c rfl, hstop]
  unfold sigilName
  simp only [hfirst, h.takeWhile_append, h.dropWhile_append]
  rfl

/-- A sigil is read as a token only in front of a name. -/
theorem exists_run_of_sigilName {kind : TokenKind} {literal : Value}
    (h : (sigilName cs).lexeme = .token kind literal) :
    ∃ run rest, cs = run ++ rest ∧ IsNameRun run rest ∧
      (∀ c ∈ run.head?, c.isDigit = false) ∧ kind = .identifier ∧
      literal = .text (String.ofList ('@' :: run)) := by
  unfold sigilName at h
  dsimp only at h
  split at h
  · cases h
  · rename_i hfirst
    split at h
    · cases h
    · rename_i hempty
      cases h
      refine ⟨_, _, List.takeWhile_append_dropWhile.symm,
        IsNameRun.of_takeWhile (by simpa using hempty), fun c hc ↦ ?_, rfl, rfl⟩
      rw [List.head?_takeWhile, Option.mem_def, Option.filter_eq_some_iff] at hc
      rw [hc.1] at hfirst
      have hkinds : c.isDigit = false ∧ isNameStop c = false := by simpa using hfirst
      exact hkinds.1

end Lexeme

/-! ### What is read at a place -/

theorem append_eq_of_byteSize {before before' after after' : List Char}
    (h : before ++ after = before' ++ after') (hsize : byteSize before = byteSize before') :
    before = before' ∧ after = after' := by
  have hafter : after = after' := by
    have hdrop := dropBytes?_append before after
    rw [h, hsize, dropBytes?_append] at hdrop
    exact (Option.some.inj hdrop).symm
  subst hafter
  exact ⟨List.append_cancel_right h, rfl⟩

namespace Segment

open Lexeme

variable {offset : Nat} {afterDot : Bool} {text : List Char} {place place' : Placed}

theorem settle_sigilName (afterDot : Bool) (cs : List Char) :
    settle afterDot (sigilName cs) = sigilName cs := by
  refine settle_eq_self (fun literal h ↦ ?_) ?_
  · obtain ⟨run, rest, -, -, -, hkind, -⟩ := exists_run_of_sigilName h
    cases hkind
  · unfold sigilName
    dsimp only
    split
    · simp
    · split <;> simp

/-- A place holds what is scanned there; of what stands before it only matters whether the last
token is a dot. -/
theorem exists_scan_of_placed : ∀ offset {before after : List Placed},
    placed offset (all afterDot text) = before ++ place :: after →
    ∃ c cs, text = before.flatMap (·.segment.text) ++ c :: cs ∧ place.segment =
      ⟨(settle (Lexed.dotAfter afterDot (before.map Placed.segment)) (scan c cs)).lexeme,
        (settle (Lexed.dotAfter afterDot (before.map Placed.segment)) (scan c cs)).text⟩ := by
  fun_induction all afterDot text with
  | case1 =>
      intro offset before after h
      cases before <;> cases h
  | case2 afterDot c cs scanned ih =>
      intro offset before after h
      cases before with
      | nil =>
          obtain ⟨rfl, -⟩ := List.cons.inj h
          exact ⟨c, cs, rfl, rfl⟩
      | cons first before =>
          obtain ⟨rfl, htail⟩ := List.cons.inj h
          obtain ⟨d, ds, hrest, hsegment⟩ := ih _ htail
          have hcut : scanned.text ++ scanned.rest = c :: cs :=
            (settle_append _ _).trans (scan_append c cs)
          refine ⟨d, ds, ?_, hsegment⟩
          rw [← hcut, hrest, List.flatMap_cons, List.append_assoc]

theorem exists_scan_of_mem_placed (h : place ∈ placed 0 (all afterDot text)) :
    ∃ before c cs dot, text = before ++ c :: cs ∧ place.start = byteSize before ∧
      place.segment = ⟨(settle dot (scan c cs)).lexeme, (settle dot (scan c cs)).text⟩ := by
  obtain ⟨before, after, hplaced⟩ := List.append_of_mem h
  obtain ⟨c, cs, htext, hsegment⟩ := exists_scan_of_placed 0 hplaced
  exact ⟨_, c, cs, _, htext, by rw [start_of_placed hplaced, Nat.zero_add], hsegment⟩

theorem le_start_of_mem_placed {segments : List Segment} (h : place ∈ placed offset segments) :
    offset ≤ place.start := by
  induction segments generalizing offset with
  | nil => cases h
  | cons segment segments ih =>
      rcases List.mem_cons.mp h with rfl | h
      · exact Nat.le_refl _
      · exact (Nat.le_add_right _ _).trans (ih h)

theorem start_lt_stop_of_mem_placed (h : place ∈ placed 0 (all false text)) :
    place.start < place.stop := by
  have hne := text_ne_nil_of_mem_all (mem_all_of_placed h)
  obtain ⟨c, cs, htext⟩ := List.exists_cons_of_ne_nil hne
  have hpos := c.utf8Size_pos
  rw [Placed.stop, htext, byteSize_cons]
  omega

/-- Places do not overlap. -/
theorem eq_or_stop_le_of_mem_placed {segments : List Segment}
    (h : place ∈ placed offset segments) (h' : place' ∈ placed offset segments) :
    place = place' ∨ place.stop ≤ place'.start ∨ place'.stop ≤ place.start := by
  induction segments generalizing offset with
  | nil => cases h
  | cons segment segments ih =>
      rcases List.mem_cons.mp h with rfl | h
      · rcases List.mem_cons.mp h' with rfl | h'
        · exact .inl rfl
        · exact .inr (.inl (le_start_of_mem_placed h'))
      · rcases List.mem_cons.mp h' with rfl | h'
        · exact .inr (.inr (le_start_of_mem_placed h))
        · exact ih h h'

/-- After a sigil, a place holds what the sigil makes of the text. -/
theorem segment_of_sigil {before cs : List Char} (h : place ∈ placed 0 (all false text))
    (hstart : place.start = byteSize before) (htext : text = before ++ '@' :: cs) :
    place.segment = ⟨(sigilName cs).lexeme, (sigilName cs).text⟩ := by
  obtain ⟨front, c, tail, dot, hcut, hfront, hsegment⟩ := exists_scan_of_mem_placed h
  obtain ⟨-, hrest⟩ := append_eq_of_byteSize (htext.symm.trans hcut) (hstart.symm.trans hfront)
  obtain ⟨rfl, rfl⟩ := List.cons.inj hrest
  rw [hsegment, scan_sigil, settle_sigilName]

theorem token?_eq_some_iff {token : Token} : place.token? = some token ↔
    place.segment.lexeme = .token token.kind token.literal ∧
      token.span = ⟨place.start, place.stop⟩ := by
  unfold Placed.token?
  constructor
  · intro h
    split at h <;> cases h
    exact ⟨by assumption, rfl⟩
  · rintro ⟨hlexeme, hspan⟩
    rw [hlexeme]
    exact congrArg some (by rw [← hspan])

theorem mem_tokens_iff {token : Token} : token ∈ (tokenize text).tokens ↔
    ∃ place ∈ placed 0 (all false text), place.token? = some token := by
  rw [tokenize, tokens_ofSegments, List.mem_filterMap]

theorem exists_place_of_mem_errors {error : LexicalError} (h : error ∈ (tokenize text).errors) :
    ∃ place ∈ placed 0 (all false text), place.start = error.offset ∧
      place.token? = none := by
  rw [tokenize, errors_ofSegments, List.mem_filterMap] at h
  obtain ⟨place, hplace, herror⟩ := h
  refine ⟨place, hplace, ?_⟩
  unfold Placed.error? at herror
  split at herror
  · rename_i hlexeme
    cases herror
    exact ⟨rfl, by rw [Placed.token?, hlexeme]⟩
  · cases herror

theorem literal_of_spells {literal : Value} {spelling : List Char}
    (h : Spells (.token .identifier literal) spelling) :
    literal = .text (String.ofList spelling) := by
  have hkinds : ∀ entry ∈ TokenKind.punctuation ++ TokenKind.keywords, entry.2 ≠ .identifier := by
    decide
  cases h with
  | punctuation hmem => exact absurd rfl (hkinds _ (List.mem_append_left _ hmem))
  | keyword hmem => exact absurd rfl (hkinds _ (List.mem_append_right _ hmem))
  | sigil => rfl
  | member => rfl

end Segment

/-! ### Names and separators -/

/-- The character stands in a table of separators: punctuation, blanks or spaces. -/
def isSeparator (c : Char) : Bool := isNameStop c || isBlank c || isSpace c

/-- A run that the separators show to be a name: it has no separator, does not start with a digit,
and ends at a separator or at the end. -/
structure IsFreeRun (run rest : List Char) : Prop where
  ne_nil : run ≠ []
  digit : ∀ c ∈ run.head?, c.isDigit = false
  free : ∀ c ∈ run, isSeparator c = false
  stop : ∀ c ∈ rest.head?, isSeparator c = true

/-- A lexeme of the script starts at the offset. -/
def StartsLexeme (text : List Char) (offset : Nat) : Prop :=
  ∃ place ∈ Segment.placed 0 (Segment.all false text), place.start = offset

/-- The token of a name that stands after `before`. -/
def sigilToken (before run : List Char) : Token :=
  ⟨.identifier, .text (String.ofList ('@' :: run)),
    ⟨byteSize before, byteSize before + byteSize ('@' :: run)⟩⟩

/-- The tables differ on names in one character. -/
theorem isSeparator_eq_false_iff {c : Char} :
    isSeparator c = false ↔ isNameChar c = true ∧ c ≠ '\u180e' := by
  have hblanks : ∀ d ∈ blanks, isSpace d = true ∨ d = '\u180e' := by
    have hall : ∀ d ∈ blanks, (isSpace d || d == '\u180e') = true := List.all_eq_true.mp rfl
    simpa using hall
  constructor
  · intro h
    have hkinds : (isNameStop c = false ∧ isBlank c = false) ∧ isSpace c = false := by
      simpa [isSeparator] using h
    refine ⟨by simp [isNameChar, hkinds], ?_⟩
    rintro rfl
    exact absurd hkinds.1.2 (by decide)
  · rintro ⟨hname, hne⟩
    have hkinds : isSpace c = false ∧ isNameStop c = false := by simpa [isNameChar] using hname
    have hblank : isBlank c = false := by
      rw [← Bool.not_eq_true]
      intro hblank
      rcases hblanks c (by simpa [isBlank] using hblank) with hspace | heq
      · exact absurd hspace (by simp [hkinds.1])
      · exact hne heq
    simp [isSeparator, hkinds, hblank]

theorem isSeparator_of_not_isNameChar {c : Char} (h : isNameChar c = false) :
    isSeparator c = true := by
  rw [← Bool.not_eq_false, isSeparator_eq_false_iff]
  simp [h]

section Names

variable {text before run rest : List Char}

theorem IsFreeRun.isNameRun (h : IsFreeRun run rest) (hne : rest.head? ≠ some '\u180e') :
    IsNameRun run rest := by
  refine ⟨h.ne_nil, fun c hc ↦ (isSeparator_eq_false_iff.mp (h.free c hc)).1, fun c hc ↦ ?_⟩
  have hstop := h.stop c hc
  rw [← Bool.not_eq_true]
  intro hname
  have hfree : isSeparator c = false := isSeparator_eq_false_iff.mpr ⟨hname, by
    rintro rfl
    exact hne hc⟩
  simp [hfree] at hstop

theorem IsNameRun.isFreeRun_iff (h : IsNameRun run rest)
    (hdigit : ∀ c ∈ run.head?, c.isDigit = false) : IsFreeRun run rest ↔ '\u180e' ∉ run := by
  constructor
  · intro hfree hmem
    exact (isSeparator_eq_false_iff.mp (hfree.free _ hmem)).2 rfl
  · intro hmem
    refine ⟨h.ne_nil, hdigit, fun c hc ↦ isSeparator_eq_false_iff.mpr ⟨h.chars c hc, ?_⟩,
      fun c hc ↦ isSeparator_of_not_isNameChar (h.stop c hc)⟩
    rintro rfl
    exact hmem hc

open Segment

theorem exists_run_of_mem_tokens {token : Token} (h : token ∈ (tokenize text).tokens)
    (hkind : token.kind = .identifier) (hsigil : token.text.toList.head? = some '@') :
    ∃ before run rest, text = before ++ '@' :: (run ++ rest) ∧ token = sigilToken before run ∧
      IsNameRun run rest ∧ ∀ c ∈ run.head?, c.isDigit = false := by
  obtain ⟨place, hplace, htoken⟩ := mem_tokens_iff.mp h
  obtain ⟨hlexeme, hspan⟩ := token?_eq_some_iff.mp htoken
  obtain ⟨before, c, cs, dot, htext, hstart, hsegment⟩ := exists_scan_of_mem_placed hplace
  have hliteral : token.literal = .text (String.ofList place.segment.text) := by
    have hspells := spells_of_mem_all (mem_all_of_placed hplace)
    rw [hlexeme, hkind] at hspells
    exact literal_of_spells hspells
  -- The name is the text of its place, so that the place starts with a sigil.
  have hc : c = '@' := by
    have hhead : place.segment.text.head? = some '@' := by
      simpa [Token.text, hliteral] using hsigil
    obtain ⟨tail, htail⟩ := List.head?_eq_some_iff.mp hhead
    have hcut := (settle_append dot _).trans (Lexeme.scan_append c cs)
    have hscanned : (settle dot (Lexeme.scan c cs)).text = '@' :: tail := by
      rw [← htail, hsegment]
    rw [hscanned, List.cons_append] at hcut
    exact (List.cons.inj hcut).1.symm
  subst hc
  have hsigilName := segment_of_sigil hplace hstart htext
  rw [hsigilName] at hlexeme
  obtain ⟨run, rest, rfl, hrun, hdigit, -, hname⟩ := Lexeme.exists_run_of_sigilName hlexeme
  refine ⟨before, run, rest, htext, ?_, hrun, hdigit⟩
  obtain ⟨kind, literal, span⟩ := token
  rw [Lexeme.sigilName_of_run hrun hdigit] at hsigilName
  dsimp only at hkind hname hspan
  rw [hkind, hname, hspan, sigilToken, Placed.stop, hstart, hsigilName]

theorem mem_tokens_of_isNameRun (htext : text = before ++ '@' :: (run ++ rest))
    (hplace : StartsLexeme text (byteSize before)) (hrun : IsNameRun run rest)
    (hdigit : ∀ c ∈ run.head?, c.isDigit = false) :
    sigilToken before run ∈ (tokenize text).tokens ∧
      ∀ error ∈ (tokenize text).errors, error.offset < byteSize before ∨
        byteSize before + byteSize ('@' :: run) ≤ error.offset := by
  obtain ⟨place, hplace, hstart⟩ := hplace
  have hsegment := segment_of_sigil hplace hstart htext
  rw [Lexeme.sigilName_of_run hrun hdigit] at hsegment
  have hstop : place.stop = byteSize before + byteSize ('@' :: run) := by
    rw [Placed.stop, hstart, hsegment]
  have htoken : place.token? = some (sigilToken before run) :=
    token?_eq_some_iff.mpr ⟨by rw [hsegment]; rfl, by rw [hstart, hstop]; rfl⟩
  constructor
  · exact mem_tokens_iff.mpr ⟨place, hplace, htoken⟩
  · intro error herror
    obtain ⟨other, hother, hoffset, hnone⟩ := exists_place_of_mem_errors herror
    have hpos := start_lt_stop_of_mem_placed hother
    rcases eq_or_stop_le_of_mem_placed hplace hother with rfl | hlater | hearlier
    · cases htoken.symm.trans hnone
    · right
      omega
    · left
      omega

theorem isNameRun_of_mem_tokens (htext : text = before ++ '@' :: (run ++ rest))
    (h : sigilToken before run ∈ (tokenize text).tokens) : IsNameRun run rest := by
  obtain ⟨place, hplace, htoken⟩ := mem_tokens_iff.mp h
  obtain ⟨hlexeme, hspan⟩ := token?_eq_some_iff.mp htoken
  have hstart : place.start = byteSize before := (congrArg Span.start hspan).symm
  rw [segment_of_sigil hplace hstart htext] at hlexeme
  obtain ⟨run', rest', happend, hrun, -, -, hname⟩ := Lexeme.exists_run_of_sigilName hlexeme
  have hrunEq : run = run' := by
    have hlist := congrArg String.toList (Value.text.inj hname)
    simpa using hlist
  subst hrunEq
  rwa [List.append_cancel_left happend]

/-- A sigil name is not empty, does not start with a digit, has no punctuation and no space, and
ends where one of these follows; it has no separator at all exactly if U+180E is not in it.  Where
the separators show a name after a sigil that starts a lexeme, that name is read, and no error in
it, exactly if U+180E does not follow it. -/
theorem sigil_names_of_separators (text : List Char) :
    (∀ token ∈ (tokenize text).tokens, token.kind = .identifier →
      token.text.toList.head? = some '@' →
      ∃ before run rest, text = before ++ '@' :: (run ++ rest) ∧ token = sigilToken before run ∧
        IsNameRun run rest ∧ (∀ c ∈ run.head?, c.isDigit = false) ∧
        (IsFreeRun run rest ↔ '\u180e' ∉ run)) ∧
      ∀ before run rest, text = before ++ '@' :: (run ++ rest) →
        StartsLexeme text (byteSize before) → IsFreeRun run rest →
        ((sigilToken before run ∈ (tokenize text).tokens ∧
          ∀ error ∈ (tokenize text).errors, error.offset < byteSize before ∨
            byteSize before + byteSize ('@' :: run) ≤ error.offset) ↔
          rest.head? ≠ some '\u180e') := by
  constructor
  · intro token htoken hkind hsigil
    obtain ⟨before, run, rest, htext, hname, hrun, hdigit⟩ :=
      exists_run_of_mem_tokens htoken hkind hsigil
    exact ⟨before, run, rest, htext, hname, hrun, hdigit, hrun.isFreeRun_iff hdigit⟩
  · intro before run rest htext hplace hfree
    constructor
    · rintro ⟨hmem, -⟩ hnext
      have hstop := (isNameRun_of_mem_tokens htext hmem).stop _ hnext
      exact absurd hstop (by decide)
    · intro hnext
      exact mem_tokens_of_isNameRun htext hplace (hfree.isNameRun hnext) hfree.digit

theorem sigil_name_after_unexpected_character :
    (sigilToken ['~', ' '] ['\u00e9'] ∈ (tokenize "~ @\u00e9;".toList).tokens ∧
      ∀ error ∈ (tokenize "~ @\u00e9;".toList).errors, error.offset < 2 ∨ 5 ≤ error.offset) ∧
      ∃ before run rest, "~ @\u00e9;".toList = before ++ '@' :: (run ++ rest) ∧
        sigilToken ['~', ' '] ['\u00e9'] = sigilToken before run ∧ IsNameRun run rest ∧
        (∀ c ∈ run.head?, c.isDigit = false) ∧ (IsFreeRun run rest ↔ '\u180e' ∉ run) := by
  have hall : Segment.all false "~ @\u00e9;".toList =
      [⟨.fault .unexpectedCharacter, ['~']⟩, ⟨.layout, [' ']⟩,
        ⟨.token .identifier (.text "@\u00e9"), ['@', '\u00e9']⟩,
        ⟨.token .semicolon .null, [';']⟩] := by
    cbv
  have hplace : StartsLexeme "~ @\u00e9;".toList 2 := by
    rw [StartsLexeme, hall]
    exact ⟨⟨2, _⟩, .tail _ (.tail _ (.head _)), rfl⟩
  have hfree : IsFreeRun ['\u00e9'] [';'] := by
    refine ⟨by simp, ?_, List.forall_mem_singleton.mpr (by decide), ?_⟩
    · rintro c ⟨⟩
      rfl
    · rintro c ⟨⟩
      rfl
  obtain ⟨hnames, hreads⟩ := sigil_names_of_separators "~ @\u00e9;".toList
  have hread := (hreads ['~', ' '] ['\u00e9'] [';'] rfl hplace hfree).mpr (by decide)
  exact ⟨hread, hnames _ hread.1 rfl rfl⟩

/-- A blank inside a name, and a name that does not end at a blank. -/
theorem sigil_name_over_blank :
    isBlank '\u180e' = true ∧ IsFreeRun ['a'] ['\u180e'] ∧
      tokenize "@a\u180e".toList = ⟨[sigilToken [] ['a', '\u180e']], []⟩ := by
  refine ⟨by decide, ⟨by simp, ?_, List.forall_mem_singleton.mpr (by decide), ?_⟩, by cbv⟩
  · rintro c ⟨⟩
    rfl
  · rintro c ⟨⟩
    rfl

end Names

end Sigil
