import Mathlib.Data.List.Find
import Sigil.Proofs.Text.Position
import Sigil.Proofs.Token.Segmentation

/-!
# A newline ends whatever stands before it

No lexeme reaches over a newline, except a block comment.  A run of blanks and a quoted
literal that is not closed take the newline with them, and they take the blanks after
it at most; everything else stops before it, exactly as it stops at the end of a text.
So the lines of a script can be scanned one by one.
-/

namespace Sigil

theorem takeWhile_append_stop {p : Char → Bool} {s : Char} (h : p s = false) (l r : List Char) :
    (l ++ s :: r).takeWhile p = l.takeWhile p := by
  induction l with
  | nil => simp [h]
  | cons c l ih => simp [List.takeWhile_cons, ih]

theorem dropWhile_append_stop {p : Char → Bool} {s : Char} (h : p s = false) (l r : List Char) :
    (l ++ s :: r).dropWhile p = l.dropWhile p ++ s :: r := by
  induction l with
  | nil => simp [h]
  | cons c l ih =>
      simp only [List.cons_append, List.dropWhile_cons, ih]
      split <;> rfl

theorem head?_append_ne {s x : Char} {l : List Char} (h : l.head? ≠ some x) (hs : s ≠ x)
    (r : List Char) : (l ++ s :: r).head? ≠ some x := by
  cases l with
  | nil => simpa using hs
  | cons c l => exact h

theorem isBlank_newline : isBlank '\n' = true := rfl

/-- The same token, `bytes` later. -/
def Token.shift (bytes : Nat) (token : Token) : Token :=
  { token with span := ⟨token.span.start + bytes, token.span.stop + bytes⟩ }

/-- The same cut of a text that goes on. -/
def Scanned.followedBy (scanned : Scanned) (text : List Char) : Scanned :=
  { scanned with rest := scanned.rest ++ text }

namespace Lexeme

/-- The character continues no lexeme that is a run of characters of one class, and no
punctuation. -/
structure Stops (s : Char) : Prop where
  name : isNameChar s = false
  digit : s.isDigit = false
  hex : isHexDigit s = false
  word : isWordChar s = false
  spelling : ∀ entry ∈ TokenKind.punctuation, s ∉ entry.1

theorem stops_newline : Stops '\n' := ⟨by decide, by decide, by decide, by decide, by decide⟩

theorem isPrefixOf_append_stop {s : Char} {spelling : List Char} (h : s ∉ spelling)
    (text b : List Char) : spelling.isPrefixOf (text ++ s :: b) = spelling.isPrefixOf text := by
  induction spelling generalizing text with
  | nil => cases text <;> rfl
  | cons c spelling ih =>
      obtain ⟨hc, htail⟩ := not_or.mp (List.mem_cons.not.mp h)
      cases text with
      | nil => simp [List.isPrefixOf, Ne.symm hc]
      | cons d text => simp [List.isPrefixOf, ih htail text]

theorem fraction_of_head?_ne {cs : List Char} (h : cs.head? ≠ some '.') :
    Numeral.fraction cs = ([], cs) := by
  unfold Numeral.fraction
  split
  · exact absurd rfl h
  · rfl

theorem read_zero {cs : List Char} (h : cs.head? ≠ some 'x') : Numeral.read '0' cs =
    if (cs.takeWhile Char.isDigit).all isOctalDigit then
      (.octal (cs.takeWhile Char.isDigit), cs.dropWhile Char.isDigit)
    else Numeral.withFraction ('0' :: cs.takeWhile Char.isDigit) (cs.dropWhile Char.isDigit) := by
  unfold Numeral.read
  rw [if_pos rfl]
  split
  · exact absurd rfl h
  · rfl

section Runs

variable {s : Char} (hs : Stops s)
include hs

theorem sigilName_append_stop {cs : List Char} (h : cs ≠ [] ∨ isNameStop s = false)
    (b : List Char) : sigilName (cs ++ s :: b) = (sigilName cs).followedBy (s :: b) := by
  have hhead : (cs ++ s :: b).head?.any (fun first ↦ first.isDigit || isNameStop first) =
      cs.head?.any fun first ↦ first.isDigit || isNameStop first := by
    cases cs with
    | nil => simpa [hs.digit] using h
    | cons c cs => rfl
  unfold sigilName
  simp only [hhead, takeWhile_append_stop hs.name, dropWhile_append_stop hs.name]
  split
  · rfl
  · split <;> rfl

theorem bareWord_append_stop (c : Char) (cs b : List Char) :
    bareWord c (cs ++ s :: b) = (bareWord c cs).followedBy (s :: b) := by
  simp only [bareWord, takeWhile_append_stop hs.word, dropWhile_append_stop hs.word]
  rfl

theorem fraction_append_stop (cs b : List Char) :
    Numeral.fraction (cs ++ s :: b) =
      ((Numeral.fraction cs).1, (Numeral.fraction cs).2 ++ s :: b) := by
  have hdot : s ≠ '.' := by
    rintro rfl
    exact hs.spelling (['.'], .dot) (by decide) (by decide)
  by_cases hpoint : cs.head? = some '.'
  · obtain ⟨tail, rfl⟩ := List.head?_eq_some_iff.mp hpoint
    rw [List.cons_append, Numeral.fraction, Numeral.fraction, takeWhile_append_stop hs.digit,
      dropWhile_append_stop hs.digit]
    split <;> rfl
  · rw [fraction_of_head?_ne hpoint, fraction_of_head?_ne (head?_append_ne hpoint hdot b)]

theorem withFraction_append_stop (whole cs b : List Char) :
    Numeral.withFraction whole ((cs ++ s :: b).dropWhile Char.isDigit) =
      ((Numeral.withFraction whole (cs.dropWhile Char.isDigit)).1,
        (Numeral.withFraction whole (cs.dropWhile Char.isDigit)).2 ++ s :: b) := by
  rw [dropWhile_append_stop hs.digit, Numeral.withFraction, fraction_append_stop hs]
  rfl

theorem read_append_stop (c : Char) (cs b : List Char) :
    Numeral.read c (cs ++ s :: b) = ((Numeral.read c cs).1, (Numeral.read c cs).2 ++ s :: b) := by
  by_cases hc : c = '0'
  · subst hc
    by_cases hhex : cs.head? = some 'x'
    · obtain ⟨hex, rfl⟩ := List.head?_eq_some_iff.mp hhex
      simp only [List.cons_append, Numeral.read, if_pos, takeWhile_append_stop hs.hex,
        dropWhile_append_stop hs.hex]
    · have hx : s ≠ 'x' := by
        rintro rfl
        exact absurd hs.word (by decide)
      rw [read_zero hhex, read_zero (head?_append_ne hhex hx b), takeWhile_append_stop hs.digit,
        withFraction_append_stop hs, dropWhile_append_stop hs.digit]
      split <;> rfl
  · unfold Numeral.read
    simp only [if_neg hc, takeWhile_append_stop hs.digit, withFraction_append_stop hs]

theorem numeral_append_stop (c : Char) (cs b : List Char) :
    numeral c (cs ++ s :: b) = (numeral c cs).followedBy (s :: b) := by
  unfold numeral
  rw [read_append_stop hs]
  dsimp only
  split <;> rfl

theorem punctuationAt?_append_stop (text b : List Char) :
    TokenKind.punctuationAt? (text ++ s :: b) = TokenKind.punctuationAt? text := by
  refine List.find?_congr fun entry hentry ↦ ?_
  exact isPrefixOf_append_stop (hs.spelling entry hentry) text b

theorem punctuation_append_stop (c : Char) (cs b : List Char) :
    punctuation c (cs ++ s :: b) = (punctuation c cs).followedBy (s :: b) := by
  unfold punctuation
  rw [← List.cons_append, punctuationAt?_append_stop hs]
  split
  · rename_i text kind hfind
    have hlength : text.length ≤ (c :: cs).length := by
      rw [← punctuationAt?_append hfind, List.length_append]
      exact Nat.le_add_right _ _
    rw [List.drop_append_of_le_length hlength]
    rfl
  · rfl

end Runs

theorem closeComment_cons {c : Char} {cs : List Char} (h : Unmarked c cs) (depth : Nat) :
    closeComment depth (c :: cs) =
      (c :: (closeComment depth cs).1, (closeComment depth cs).2) := by
  obtain ⟨hopen, hclose⟩ := h
  rw [closeComment.eq_5]
  · rintro tail rfl rfl
    exact hopen rfl rfl
  · rintro tail - rfl rfl
    exact hclose rfl rfl
  · rintro outer tail - rfl rfl
    exact hclose rfl rfl

/-- A comment that is closed is cut off alike whatever follows. -/
theorem closeComment_append_of_closed {depth : Nat} {cs : List Char}
    (h : afterComment? depth cs ≠ none) (b : List Char) :
    closeComment depth (cs ++ b) = ((closeComment depth cs).1, (closeComment depth cs).2 ++ b) := by
  fun_induction closeComment depth cs with
  | case1 => exact absurd rfl h
  | case2 depth cs text rest heq ih =>
      have hcut := ih h
      rw [heq] at hcut
      simp only [List.cons_append, closeComment, hcut]
  | case3 => rfl
  | case4 depth cs text rest heq ih =>
      have hcut := ih h
      rw [heq] at hcut
      simp only [List.cons_append, closeComment, hcut]
  | case5 depth c cs hopen hlast hinner text rest heq ih =>
      have hunmarked : Unmarked c cs := unmarked_of_forall hopen hlast hinner
      have hcut := ih (by rwa [afterComment?_cons hunmarked] at h)
      rw [heq] at hcut
      have hne : cs ≠ [] := by
        rintro rfl
        exact h (afterComment?_cons hunmarked depth)
      have hhead : (cs ++ b).head? = cs.head? := by
        rw [List.head?_append, Option.or_of_isSome (List.isSome_head?.mpr hne)]
      rw [List.cons_append, closeComment_cons (by rwa [Unmarked, hhead]), hcut]

end Lexeme

/-- A lexeme that may run over a newline. -/
def Lexeme.TakesNewline (lexeme : Lexeme) : Prop :=
  lexeme = .layout ∨ ∃ delimiter, lexeme = .fault (.unterminatedString delimiter)

/-- How a cut of a text becomes a cut of the same text with another line after it: the newline
stays behind, or it is taken with blanks that follow it. -/
inductive BreaksAt (b : List Char) (scanned : Scanned) : Scanned → Prop
  | before : BreaksAt b scanned (scanned.followedBy ('\n' :: b))
  | inside {u v : List Char} (hrest : scanned.rest = []) (hlexeme : scanned.lexeme.TakesNewline)
      (hblanks : ∀ c ∈ u, isBlank c = true) (hb : b = u ++ v) :
      BreaksAt b scanned ⟨scanned.lexeme, scanned.text ++ '\n' :: u, v⟩

namespace Lexeme

theorem quotedBody_append_newline (delimiter previous : Char) (cs b : List Char) :
    quotedBody delimiter previous (cs ++ '\n' :: b) =
        { quotedBody delimiter previous cs with
          rest := (quotedBody delimiter previous cs).rest ++ '\n' :: b } ∨
      (quotedBody delimiter previous cs).closed = false ∧
        (quotedBody delimiter previous cs).rest = [] ∧
        quotedBody delimiter previous (cs ++ '\n' :: b) =
          ⟨false, (quotedBody delimiter previous cs).body ++ ['\n'], b⟩ := by
  fun_induction quotedBody delimiter previous cs with
  | case1 previous => exact .inr ⟨rfl, rfl, rfl⟩
  | case2 previous cs => exact .inl rfl
  | case3 previous c cs hline hdelimiter =>
      left
      simp only [List.cons_append, quotedBody, if_neg hline, if_pos hdelimiter]
  | case4 previous c cs hline hdelimiter quote ih =>
      simp only [List.cons_append, quotedBody, if_neg hline, if_neg hdelimiter]
      obtain hsame | ⟨hclosed, hrest, hbody⟩ := ih
      · rw [hsame]
        exact .inl rfl
      · rw [hbody]
        exact .inr ⟨hclosed, hrest, rfl⟩

theorem breaksAt_quotedLiteral (kind : TokenKind) (delimiter : Char)
    (decode : List Char → List Char) (cs b : List Char) :
    BreaksAt b (quotedLiteral kind delimiter decode cs)
      (quotedLiteral kind delimiter decode (cs ++ '\n' :: b)) := by
  unfold quotedLiteral
  obtain hsame | ⟨hclosed, hrest, hbody⟩ := quotedBody_append_newline delimiter delimiter cs b
  · rw [hsame]
    dsimp only
    split <;> exact .before
  · rw [hbody]
    dsimp only
    rw [if_neg Bool.false_ne_true, if_neg (by rw [hclosed]; exact Bool.false_ne_true)]
    exact .inside (u := []) hrest (.inr ⟨delimiter, rfl⟩) (by simp) rfl

theorem comment_of_head?_ne {cs : List Char} (h : cs.head? ≠ some '\x7b') :
    comment cs = ⟨.layout, '#' :: cs.takeWhile (· != '\n'), cs.dropWhile (· != '\n')⟩ := by
  unfold comment
  split
  · exact absurd rfl h
  · rfl

theorem breaksAt_comment {cs : List Char}
    (h : Segment.isOpenComment ⟨(comment cs).lexeme, (comment cs).text⟩ = false) (b : List Char) :
    BreaksAt b (comment cs) (comment (cs ++ '\n' :: b)) := by
  by_cases hbrace : cs.head? = some '\x7b'
  · obtain ⟨body, rfl⟩ := List.head?_eq_some_iff.mp hbrace
    have hclosed : afterComment? 0 body ≠ none := by
      intro hopen
      have hcut := afterComment?_closeComment 0 body
      rw [hopen] at hcut
      rw [show comment ('\x7b' :: body) = _ from Segment.scan_openComment body,
        Segment.isOpenComment, hcut] at h
      exact Bool.noConfusion h
    simp only [List.cons_append, comment, closeComment_append_of_closed hclosed]
    exact .before
  · rw [comment_of_head?_ne hbrace, comment_of_head?_ne (head?_append_ne hbrace (by decide) b),
      takeWhile_append_stop (by decide), dropWhile_append_stop (by decide)]
    exact .before

theorem breaksAt_blanks (c : Char) (cs b : List Char) :
    BreaksAt b ⟨.layout, c :: cs.takeWhile isBlank, cs.dropWhile isBlank⟩
      ⟨.layout, c :: (cs ++ '\n' :: b).takeWhile isBlank,
        (cs ++ '\n' :: b).dropWhile isBlank⟩ := by
  -- The run goes on past the newline exactly where nothing but blanks stands before it.
  by_cases hall : ∀ d ∈ cs, isBlank d = true
  · rw [List.takeWhile_append_of_pos hall, List.dropWhile_append_of_pos hall,
      List.takeWhile_cons_of_pos isBlank_newline, List.dropWhile_cons_of_pos isBlank_newline,
      List.takeWhile_eq_self_iff.mpr hall, List.dropWhile_eq_nil_iff.mpr hall]
    refine .inside (u := b.takeWhile isBlank) rfl (.inl rfl) (fun d hd ↦ ?_) ?_
    · exact List.mem_takeWhile_imp hd
    · exact List.takeWhile_append_dropWhile.symm
  · obtain ⟨d, hd, hblank⟩ : ∃ d ∈ cs, isBlank d = false := by simpa using hall
    obtain ⟨l, r, rfl⟩ := List.append_of_mem hd
    rw [List.append_assoc, List.cons_append, takeWhile_append_stop hblank,
      takeWhile_append_stop hblank, dropWhile_append_stop hblank, dropWhile_append_stop hblank,
      ← List.cons_append, ← List.append_assoc]
    exact .before

theorem breaksAt_scan {c : Char} {cs : List Char}
    (h : Segment.isOpenComment ⟨(scan c cs).lexeme, (scan c cs).text⟩ = false) (b : List Char) :
    BreaksAt b (scan c cs) (scan c (cs ++ '\n' :: b)) := by
  unfold scan at h ⊢
  split
  · exact breaksAt_blanks c cs b
  · rename_i hblank
    rw [if_neg hblank] at h
    repeat' split
    · rename_i hmark
      rw [if_pos hmark] at h
      exact breaksAt_comment h b
    · exact breaksAt_quotedLiteral _ _ _ cs b
    · exact breaksAt_quotedLiteral _ _ _ cs b
    · exact breaksAt_quotedLiteral _ _ _ cs b
    · rw [sigilName_append_stop stops_newline (.inr (by decide))]
      exact .before
    · rw [numeral_append_stop stops_newline]
      exact .before
    · rw [bareWord_append_stop stops_newline]
      exact .before
    · rw [punctuation_append_stop stops_newline]
      exact .before

end Lexeme

namespace Segment

theorem settle_followedBy (afterDot : Bool) {s : Char} (hs : isBlank s = true) (scanned : Scanned)
    (b : List Char) :
    settle afterDot (scanned.followedBy (s :: b)) =
      (settle afterDot scanned).followedBy (s :: b) := by
  have hstop : (!isBlank s) = false := by rw [hs]; rfl
  unfold settle
  simp only [Scanned.followedBy]
  split
  · split <;> rfl
  · rw [takeWhile_append_stop hstop, dropWhile_append_stop hstop]
  · rfl

theorem breaksAt_settle (afterDot : Bool) {b : List Char} {scanned scanned' : Scanned}
    (h : BreaksAt b scanned scanned') :
    BreaksAt b (settle afterDot scanned) (settle afterDot scanned') := by
  cases h with
  | before =>
      rw [settle_followedBy afterDot isBlank_newline]
      exact .before
  | inside hrest hlexeme hblanks hb =>
      have hself : ∀ text rest,
          settle afterDot ⟨scanned.lexeme, text, rest⟩ = ⟨scanned.lexeme, text, rest⟩ := by
        intro text rest
        obtain h | ⟨delimiter, h⟩ := hlexeme <;> simp [settle, h]
      rw [hself, hself]
      exact .inside hrest hlexeme hblanks hb

theorem isOpenComment_of_settle {afterDot : Bool} {scanned : Scanned}
    (h : isOpenComment ⟨(settle afterDot scanned).lexeme, (settle afterDot scanned).text⟩ = false) :
    isOpenComment ⟨scanned.lexeme, scanned.text⟩ = false := by
  rw [Bool.eq_false_iff]
  intro hopen
  obtain ⟨body, hsegment, -⟩ := isOpenComment_iff.mp hopen
  have hlayout : scanned.lexeme = .layout := congrArg Segment.lexeme hsegment
  rw [settle_eq_self (by simp [hlayout]) (by simp [hlayout]), hopen] at h
  exact Bool.noConfusion h

end Segment

namespace Lexed

/-- The tokens and errors of two pieces of a script in a row. -/
def append (front back : Lexed) : Lexed :=
  ⟨front.tokens ++ back.tokens, front.errors ++ back.errors⟩

theorem append_assoc (x y z : Lexed) : (x.append y).append z = x.append (y.append z) := by
  simp [append]

theorem ofSegments_cons (offset : Nat) (segment : Segment) (segments : List Segment) :
    ofSegments offset (segment :: segments) =
      (ofSegments offset [segment]).append
        (ofSegments (offset + byteSize segment.text) segments) := by
  rw [ofSegments, ofSegments]
  cases segment.lexeme <;> rfl

/-- Blanks at the front of a script are not seen. -/
theorem ofSegments_dropWhile (offset : Nat) (afterDot : Bool) (text : List Char) :
    ofSegments offset (Segment.all afterDot text) =
      ofSegments (offset + byteSize (text.takeWhile isBlank))
        (Segment.all afterDot (text.dropWhile isBlank)) := by
  cases text with
  | nil => rfl
  | cons c cs =>
      by_cases hc : isBlank c = true
      · rw [List.takeWhile_cons_of_pos hc, List.dropWhile_cons_of_pos hc, Segment.all,
          Lexeme.scan, if_pos hc]
        rfl
      · rw [List.takeWhile_cons_of_neg hc, List.dropWhile_cons_of_neg hc]
        rfl

theorem ofSegments_blanks (offset : Nat) (afterDot : Bool) {u : List Char}
    (h : ∀ c ∈ u, isBlank c = true) (v : List Char) :
    ofSegments offset (Segment.all afterDot (u ++ v)) =
      ofSegments (offset + byteSize u) (Segment.all afterDot v) := by
  rw [ofSegments_dropWhile, List.takeWhile_append_of_pos h, List.dropWhile_append_of_pos h,
    ofSegments_dropWhile (offset + byteSize u), byteSize_append, Nat.add_assoc]

theorem ofSegments_of_takesNewline (offset : Nat) {lexeme : Lexeme} (h : lexeme.TakesNewline)
    (text text' : List Char) :
    ofSegments offset [⟨lexeme, text⟩] = ofSegments offset [⟨lexeme, text'⟩] := by
  obtain rfl | ⟨delimiter, rfl⟩ := h <;> rfl

/-- The token at the end of a row of segments is a dot. -/
def dotAfter (afterDot : Bool) (segments : List Segment) : Bool :=
  segments.foldl (fun afterDot segment ↦ Segment.endsInDot afterDot segment.lexeme) afterDot

theorem dotAfter_eq (offset : Nat) (afterDot : Bool) (segments : List Segment) :
    dotAfter afterDot segments =
      ((ofSegments offset segments).tokens.getLast?.map (·.kind == .dot)).getD afterDot := by
  induction segments generalizing offset afterDot with
  | nil => rfl
  | cons segment segments ih =>
      rw [dotAfter, List.foldl_cons, ← dotAfter, ih (offset + byteSize segment.text), ofSegments]
      cases segment.lexeme with
      | layout => rfl
      | fault fault => rfl
      | token kind literal =>
          rw [List.getLast?_cons, Option.map_some, Option.getD_some]
          cases (ofSegments (offset + byteSize segment.text) segments).tokens.getLast? <;> rfl

/-- The segments after a newline are those of a text that starts there. -/
theorem ofSegments_append_newline (b : List Char) (afterDot : Bool) (a : List Char) :
    ∀ offset, (Segment.all afterDot a).any Segment.isOpenComment = false →
      ofSegments offset (Segment.all afterDot (a ++ '\n' :: b)) =
        (ofSegments offset (Segment.all afterDot a)).append
          (ofSegments (offset + byteSize a + 1)
            (Segment.all (dotAfter afterDot (Segment.all afterDot a)) b)) := by
  fun_induction Segment.all afterDot a with
  | case1 afterDot =>
      intro offset _
      have hblank : ∀ c ∈ ['\n'], isBlank c = true := by simpa using isBlank_newline
      exact ofSegments_blanks offset afterDot hblank b
  | case2 afterDot c cs scanned ih =>
      intro offset hclosed
      obtain ⟨hhead, htail⟩ : Segment.isOpenComment ⟨scanned.lexeme, scanned.text⟩ = false ∧
          (Segment.all (Segment.endsInDot afterDot scanned.lexeme) scanned.rest).any
            Segment.isOpenComment = false := by simpa using hclosed
      have hbreak := Segment.breaksAt_settle afterDot
        (Lexeme.breaksAt_scan (Segment.isOpenComment_of_settle hhead) b)
      have hsize : byteSize scanned.text + byteSize scanned.rest = byteSize (c :: cs) := by
        rw [← byteSize_append, Segment.settle_append, Lexeme.scan_append]
      rw [List.cons_append, Segment.all]
      generalize Segment.settle afterDot (Lexeme.scan c (cs ++ '\n' :: b)) = scanned' at hbreak ⊢
      -- Either the newline is still to come and the rest of `a` is scanned up to it, or `a` ends
      -- with this segment, which takes the newline and some blanks of `b`.
      cases hbreak with
      | before =>
          simp only [Scanned.followedBy]
          rw [ofSegments_cons, ih _ htail, ofSegments_cons offset _ (Segment.all _ _),
            append_assoc, ← hsize, Nat.add_assoc offset]
          rfl
      | @inside u v hrest hlexeme hblanks hb =>
          have hoffset : offset + byteSize (scanned.text ++ '\n' :: u) =
              offset + byteSize (c :: cs) + 1 + byteSize u := by
            rw [← hsize, hrest, byteSize_append, byteSize_cons, show '\n'.utf8Size = 1 from rfl,
              byteSize_nil]
            omega
          rw [ofSegments_cons, ofSegments_of_takesNewline offset hlexeme _ scanned.text, hoffset,
            hrest, hb, ofSegments_blanks _ _ hblanks, Segment.all]
          rfl

/-- The same tokens and errors, `bytes` later. -/
def shift (bytes : Nat) (lexed : Lexed) : Lexed :=
  ⟨lexed.tokens.map (Token.shift bytes),
    lexed.errors.map fun error ↦ { error with offset := error.offset + bytes }⟩

theorem ofSegments_add (bytes offset : Nat) (segments : List Segment) :
    ofSegments (offset + bytes) segments = (ofSegments offset segments).shift bytes := by
  induction segments generalizing offset with
  | nil => rfl
  | cons segment segments ih =>
      rw [ofSegments, ofSegments, Nat.add_right_comm, ih]
      cases segment.lexeme <;> rfl

end Lexed

/-- The text before a newline and the text after it are scanned on their own. -/
theorem tokenize_append {a : List Char} (hcomment : endsInComment a = false)
    (hdot : ∀ token ∈ (tokenize a).tokens.getLast?, token.kind ≠ .dot) (b : List Char) :
    tokenize (a ++ '\n' :: b) = (tokenize a).append ((tokenize b).shift (byteSize a + 1)) := by
  have hlast : Lexed.dotAfter false (Segment.all false a) = false := by
    rw [Lexed.dotAfter_eq 0, ← tokenize]
    cases hlast : (tokenize a).tokens.getLast? with
    | none => rfl
    | some token => simpa using hdot token hlast
  have hjoin := Lexed.ofSegments_append_newline b false a 0 hcomment
  rw [hlast, Nat.add_assoc, Lexed.ofSegments_add] at hjoin
  exact hjoin

theorem exists_append_of_mem_errors {text : List Char} {error : LexicalError}
    (h : error ∈ (tokenize text).errors) :
    ∃ before after, text = before ++ after ∧ error.offset = byteSize before := by
  rw [tokenize, Segment.errors_ofSegments] at h
  obtain ⟨place, hplace, herror⟩ := List.mem_filterMap.mp h
  obtain ⟨before, after, htext, hstart⟩ := Segment.exists_append_of_mem_placed hplace
  refine ⟨before, _, htext, ?_⟩
  rw [← hstart]
  unfold Segment.Placed.error? at herror
  split at herror <;> cases herror
  rfl

/-- Whatever is wrong on the lines before a newline, the lines after it are read as if they stood
alone. -/
theorem tokenize_append_newline {a : List Char} (b : List Char)
    (hcomment : endsInComment a = false)
    (hdot : ∀ token ∈ (tokenize a).tokens.getLast?, token.kind ≠ .dot) :
    (tokenize (a ++ '\n' :: b)).tokens =
        (tokenize a).tokens ++ (tokenize b).tokens.map (Token.shift (byteSize a + 1)) ∧
      diagnoses (a ++ '\n' :: b) =
        diagnoses a ++ (diagnoses b).map fun (fault, position) ↦
          (fault, { position with line := position.line + (1 + a.count '\n') }) := by
  have hjoin := tokenize_append hcomment hdot b
  constructor
  · rw [hjoin]
    rfl
  · simp only [diagnoses, hjoin, Lexed.append, Lexed.shift, List.map_append, List.map_map]
    congr 1
    · refine List.map_congr_left fun error herror ↦ ?_
      obtain ⟨before, after, rfl, hoffset⟩ := exists_append_of_mem_errors herror
      rw [hoffset, List.append_assoc, locate_append, locate_append]
    · refine List.map_congr_left fun error herror ↦ ?_
      obtain ⟨before, after, rfl, hoffset⟩ := exists_append_of_mem_errors herror
      have hsize : byteSize before + (byteSize a + 1) = byteSize (a ++ '\n' :: before) := by
        rw [byteSize_append, byteSize_cons, show '\n'.utf8Size = 1 from rfl]
        omega
      have htext : a ++ '\n' :: (before ++ after) = (a ++ '\n' :: before) ++ after := by simp
      simp only [Function.comp_apply, hoffset]
      rw [htext, hsize, locate_append, locate_append, Position.after_append_newline]

theorem diagnoses_of_open_string_newline :
    diagnoses (['\x22', 'x'] ++ '\n' :: [';', '@']) =
      [(.unterminatedString '\x22', ⟨1, 1⟩), (.emptyName, ⟨2, 2⟩)] := by
  have hcomment : endsInComment ['\x22', 'x'] = false := by decide +kernel
  have htokens : (tokenize ['\x22', 'x']).tokens = [] :=
    List.isEmpty_iff.mp (by decide +kernel)
  rw [(tokenize_append_newline [';', '@'] hcomment (by simp [htokens])).2]
  decide +kernel

end Sigil
