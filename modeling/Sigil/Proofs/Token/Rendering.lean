import Mathlib
import Sigil.Proofs.Token.Lines

/-!
# Tokens are read back from any layout

A script can be laid out freely: between two tokens stands some layout, and it does not
matter which.  Every token stops at the first character of the layout after it, as it
stops at the end of a text, and layout leaves nothing behind but its length.
-/

namespace Sigil

/-- The inside of a block comment: pieces of text without marks, and comments among them. -/
inductive CommentBody where
  | done
  | piece (text : List Char) (plain : ∀ c ∈ text, c ≠ '#' ∧ c ≠ '\x7d') (others : CommentBody)
  | nested (inner others : CommentBody)

def CommentBody.text : CommentBody → List Char
  | .done => []
  | .piece text _ others => text ++ others.text
  | .nested inner others =>
    '#' :: '\x7b' :: (inner.text ++ '\x7d' :: '#' :: others.text)

/-- A piece of layout.  U+180E is a blank too, but names go on over it. -/
inductive LayoutItem where
  | blank (c : Char) (hblank : isBlank c = true) (hname : c ≠ '\u180e')
  | lineComment (body : List Char) (hopen : body.head? ≠ some '\x7b') (hline : '\n' ∉ body)
  | blockComment (body : CommentBody)

def LayoutItem.text : LayoutItem → List Char
  | .blank c _ _ => [c]
  | .lineComment body _ _ => '#' :: (body ++ ['\n'])
  | .blockComment body => '#' :: '\x7b' :: (body.text ++ ['\x7d', '#'])

def layoutText (layout : List LayoutItem) : List Char := layout.flatMap LayoutItem.text

/-- A lexeme with what it is to be read as, and the layout after it. -/
structure Written where
  text : List Char
  kind : TokenKind
  literal : Value
  layout : List LayoutItem

namespace Written

/-- The text is read as this token where it stands alone. -/
def IsToken (written : Written) : Prop :=
  tokenize written.text =
    ⟨[⟨written.kind, written.literal, ⟨0, byteSize written.text⟩⟩], []⟩

/-- The text is a word that names a member. -/
def IsMember (written : Written) : Prop :=
  IsWord written.text ∧ TokenKind.ofWord written.text = .word ∧
    written.kind = .identifier ∧ written.literal = .text (String.ofList written.text)

/-- The lexemes and the layout after each of them. -/
def textAll (items : List Written) : List Char :=
  items.flatMap fun written ↦ written.text ++ layoutText written.layout

/-- The tokens, the first of which starts at `offset`. -/
def tokens (offset : Nat) : List Written → List Token
  | [] => []
  | written :: items =>
    let stop := offset + byteSize written.text
    ⟨written.kind, written.literal, ⟨offset, stop⟩⟩ ::
      tokens (stop + byteSize (layoutText written.layout)) items

/-- Lexemes that can be read after the lexeme `previous`: there is layout between any two, and
words that are no tokens stand after a dot. -/
inductive Legible : List Char → List Written → Prop
  | done (previous : List Char) : Legible previous []
  | token {previous : List Char} {written : Written} {items : List Written}
      (h : written.IsToken) (hlayout : items ≠ [] → written.layout ≠ [])
      (hitems : Legible written.text items) : Legible previous (written :: items)
  | member {written : Written} {items : List Written}
      (h : written.IsMember) (hlayout : items ≠ [] → written.layout ≠ [])
      (hitems : Legible written.text items) : Legible ['.'] (written :: items)

end Written

/-! ### Layout leaves nothing behind -/

namespace Lexeme

theorem closeComment_plain {text : List Char} (h : ∀ c ∈ text, c ≠ '#' ∧ c ≠ '\x7d')
    (depth : Nat) (rest : List Char) :
    closeComment depth (text ++ rest) =
      (text ++ (closeComment depth rest).1, (closeComment depth rest).2) := by
  induction text with
  | nil => rfl
  | cons c text ih =>
      obtain ⟨hc, htext⟩ := List.forall_mem_cons.mp h
      have hunmarked : Unmarked c (text ++ rest) :=
        ⟨fun hopen ↦ absurd hopen hc.1, fun hclose ↦ absurd hclose hc.2⟩
      rw [List.cons_append, closeComment_cons hunmarked, ih htext]
      rfl

/-- Inside a comment, the comments in it are passed whatever the depth. -/
theorem closeComment_body (body : CommentBody) (depth : Nat) (rest : List Char) :
    closeComment depth (body.text ++ rest) =
      (body.text ++ (closeComment depth rest).1, (closeComment depth rest).2) := by
  induction body generalizing depth rest with
  | done => rfl
  | piece text plain others ih =>
      rw [CommentBody.text, List.append_assoc, closeComment_plain plain, ih, List.append_assoc]
  | nested inner others ihInner ihOthers =>
      simp only [CommentBody.text, List.cons_append, List.append_assoc, closeComment, ihInner,
        ihOthers]

theorem scan_blockComment (body : CommentBody) (rest : List Char) :
    scan '#' ('\x7b' :: (body.text ++ '\x7d' :: '#' :: rest)) =
      ⟨.layout, (LayoutItem.blockComment body).text, rest⟩ := by
  rw [scan, if_neg (by decide), if_pos rfl, comment, closeComment_body]
  rfl

theorem scan_lineComment {body : List Char} (hopen : body.head? ≠ some '\x7b')
    (hline : '\n' ∉ body) (rest : List Char) :
    scan '#' (body ++ '\n' :: rest) = ⟨.layout, '#' :: body, '\n' :: rest⟩ := by
  have hbody : ∀ c ∈ body, (c != '\n') = true := by
    intro c hc
    rw [bne_iff_ne]
    rintro rfl
    exact hline hc
  rw [scan, if_neg (by decide), if_pos rfl,
    comment_of_head?_ne (head?_append_ne hopen (by decide) rest),
    List.takeWhile_append_of_pos hbody, List.dropWhile_append_of_pos hbody]
  simp

end Lexeme

namespace Lexed

theorem ofSegments_of_scan {c : Char} {cs text rest : List Char}
    (h : Lexeme.scan c cs = ⟨.layout, text, rest⟩) (offset : Nat) (afterDot : Bool) :
    ofSegments offset (Segment.all afterDot (c :: cs)) =
      ofSegments (offset + byteSize text) (Segment.all afterDot rest) := by
  rw [Segment.all, h]
  rfl

theorem ofSegments_layoutItem (offset : Nat) (afterDot : Bool) (item : LayoutItem)
    (rest : List Char) :
    ofSegments offset (Segment.all afterDot (item.text ++ rest)) =
      ofSegments (offset + byteSize item.text) (Segment.all afterDot rest) := by
  cases item with
  | blank c hblank hname =>
      have hblanks : ∀ d ∈ [c], isBlank d = true := by simpa using hblank
      exact ofSegments_blanks offset afterDot hblanks rest
  | lineComment body hopen hline =>
      have hnewline : ∀ c ∈ ['\n'], isBlank c = true := by simpa using isBlank_newline
      have htext : (LayoutItem.lineComment body hopen hline).text = ('#' :: body) ++ ['\n'] := rfl
      rw [htext, byteSize_append, ← Nat.add_assoc, ← ofSegments_blanks _ afterDot hnewline]
      simp only [List.append_assoc, List.cons_append, List.nil_append]
      exact ofSegments_of_scan (Lexeme.scan_lineComment hopen hline rest) offset afterDot
  | blockComment body =>
      have hscan := Lexeme.scan_blockComment body rest
      rw [← ofSegments_of_scan hscan offset afterDot]
      simp [LayoutItem.text]

/-- Layout moves what follows it, and does nothing else. -/
theorem ofSegments_layout (layout : List LayoutItem) (offset : Nat) (afterDot : Bool)
    (rest : List Char) :
    ofSegments offset (Segment.all afterDot (layoutText layout ++ rest)) =
      ofSegments (offset + byteSize (layoutText layout)) (Segment.all afterDot rest) := by
  induction layout generalizing offset with
  | nil => rfl
  | cons item layout ih =>
      have htext : layoutText (item :: layout) = item.text ++ layoutText layout := rfl
      rw [htext, List.append_assoc, ofSegments_layoutItem, ih, byteSize_append, Nat.add_assoc]

end Lexed

/-! ### A token stops where layout starts -/

namespace Lexeme

theorem stops_mark : Stops '#' := ⟨by decide, by decide, by decide, by decide, by decide⟩

theorem stops_blank {c : Char} (hblank : isBlank c = true) (hname : c ≠ '\u180e') : Stops c := by
  have hmem : c ∈ blanks := by simpa [isBlank] using hblank
  simp only [blanks, List.mem_cons, List.not_mem_nil, or_false] at hmem
  rcases hmem with rfl | rfl | rfl | rfl | rfl | rfl | rfl | rfl | rfl | rfl | rfl | rfl
  all_goals first
    | exact absurd rfl hname
    | exact ⟨by decide, by decide, by decide, by decide, by decide⟩

theorem exists_stop_of_layout {layout : List LayoutItem} (h : layout ≠ []) :
    ∃ s tail, layoutText layout = s :: tail ∧ Stops s := by
  cases layout with
  | nil => exact absurd rfl h
  | cons item layout =>
      cases item with
      | blank c hblank hname => exact ⟨c, _, rfl, stops_blank hblank hname⟩
      | lineComment body hopen hline => exact ⟨'#', _, rfl, stops_mark⟩
      | blockComment body => exact ⟨'#', _, rfl, stops_mark⟩

theorem quotedBody_append_of_closed {delimiter previous : Char} {cs : List Char}
    (h : (quotedBody delimiter previous cs).closed = true) (b : List Char) :
    quotedBody delimiter previous (cs ++ b) =
      { quotedBody delimiter previous cs with
        rest := (quotedBody delimiter previous cs).rest ++ b } := by
  fun_induction quotedBody delimiter previous cs with
  | case1 previous => exact absurd h Bool.false_ne_true
  | case2 previous cs => exact absurd h Bool.false_ne_true
  | case3 previous c cs hline hdelimiter =>
      simp only [List.cons_append, quotedBody, if_neg hline, if_pos hdelimiter]
  | case4 previous c cs hline hdelimiter quote ih =>
      simp only [List.cons_append, quotedBody, if_neg hline, if_neg hdelimiter, ih h]
      rfl

variable {kind : TokenKind} {literal : Value}

theorem quotedLiteral_append_of_token {name : TokenKind} {delimiter : Char}
    {decode : List Char → List Char} {cs : List Char}
    (h : (quotedLiteral name delimiter decode cs).lexeme = .token kind literal) (b : List Char) :
    quotedLiteral name delimiter decode (cs ++ b) =
      (quotedLiteral name delimiter decode cs).followedBy b := by
  unfold quotedLiteral at h ⊢
  dsimp only at h ⊢
  split at h
  · rename_i hclosed
    rw [quotedBody_append_of_closed hclosed, if_pos hclosed, if_pos hclosed]
    rfl
  · cases h

theorem sigilName_append_of_token {cs : List Char} (h : (sigilName cs).lexeme = .token kind literal)
    {s : Char} (hs : Stops s) (b : List Char) :
    sigilName (cs ++ s :: b) = (sigilName cs).followedBy (s :: b) := by
  refine sigilName_append_stop hs (.inl ?_) b
  rintro rfl
  cases h

theorem lexeme_comment (cs : List Char) : (comment cs).lexeme = .layout := by
  unfold comment
  split <;> rfl

/-- A token stops at the first character of the layout after it. -/
theorem scan_append_of_token {c : Char} {cs : List Char}
    (h : (scan c cs).lexeme = .token kind literal) {s : Char} (hs : Stops s) (b : List Char) :
    scan c (cs ++ s :: b) = (scan c cs).followedBy (s :: b) := by
  have hlexeme := h
  unfold scan at hlexeme
  split at hlexeme
  · cases hlexeme
  repeat' split at hlexeme
  · cases (lexeme_comment cs).symm.trans hlexeme
  · subst_vars
    exact quotedLiteral_append_of_token hlexeme (s :: b)
  · subst_vars
    exact quotedLiteral_append_of_token hlexeme (s :: b)
  · subst_vars
    exact quotedLiteral_append_of_token hlexeme (s :: b)
  · subst_vars
    exact sigilName_append_of_token hlexeme hs b
  · have hscan : ∀ cs, scan c cs = numeral c cs := fun cs ↦ by simp [scan, *]
    rw [hscan, hscan, numeral_append_stop hs]
  · have hscan : ∀ cs, scan c cs = bareWord c cs := fun cs ↦ by simp [scan, *]
    rw [hscan, hscan, bareWord_append_stop hs]
  · have hscan : ∀ cs, scan c cs = punctuation c cs := fun cs ↦ by simp [scan, *]
    rw [hscan, hscan, punctuation_append_stop hs]

end Lexeme

/-! ### A text that is one token -/

theorem eq_nil_of_byteSize {text : List Char} (h : byteSize text = 0) : text = [] := by
  cases text with
  | nil => rfl
  | cons c text =>
      have hpos := c.utf8Size_pos
      rw [byteSize_cons] at h
      omega

theorem Lexeme.scan_of_isAlpha {c : Char} (h : c.isAlpha = true) (cs : List Char) :
    scan c cs = bareWord c cs := by
  have hblank : ¬isBlank c = true := by
    have hblanks : ∀ d ∈ blanks, (!d.isAlpha) = true := List.all_eq_true.mp rfl
    intro hblank
    simpa [h] using hblanks c (by simpa [isBlank] using hblank)
  have hmark : ∀ d ∈ ['#', '\x22', '\x60', '\x27', '@'], c ≠ d := by
    have hmarks : ∀ d ∈ ['#', '\x22', '\x60', '\x27', '@'], (!d.isAlpha) = true :=
      List.all_eq_true.mp rfl
    rintro d hd rfl
    simpa [h] using hmarks c hd
  have hdigit : ¬c.isDigit = true := by
    simp only [Char.isAlpha, Char.isUpper, Char.isLower, Char.isDigit] at h ⊢
    grind
  simp only [List.forall_mem_cons] at hmark
  simp [scan, hblank, hdigit, hmark, h]

namespace Segment

open Lexeme

variable {afterDot : Bool} {text : List Char} {kind : TokenKind} {literal : Value}

/-- The whole text is one lexeme, and what stands before it makes it this token. -/
def IsOne (afterDot : Bool) (text : List Char) (kind : TokenKind) (literal : Value) : Prop :=
  ∃ c cs own value, text = c :: cs ∧ scan c cs = ⟨.token own value, text, []⟩ ∧
    settle afterDot ⟨.token own value, text, []⟩ = ⟨.token kind literal, text, []⟩

theorem settle_token_followedBy (afterDot : Bool) (kind : TokenKind) (literal : Value)
    (text b : List Char) :
    settle afterDot ⟨.token kind literal, text, b⟩ =
      (settle afterDot ⟨.token kind literal, text, []⟩).followedBy b := by
  by_cases hword : kind = .word
  · subst hword
    cases afterDot <;> rfl
  · rw [settle_eq_self (by simp [hword]) (by simp), settle_eq_self (by simp [hword]) (by simp)]
    rfl

theorem eq_of_settle_false {scanned : Scanned} {rest : List Char}
    (h : settle false scanned = ⟨.token kind literal, text, rest⟩) :
    scanned = ⟨.token kind literal, text, rest⟩ ∧ kind ≠ .word := by
  unfold settle at h
  split at h
  · cases h
  · rename_i hfault
    rw [hfault] at h
    cases h
  · rename_i hword hunexpected
    subst h
    exact ⟨rfl, fun hkind ↦ hword literal (by rw [hkind])⟩

theorem IsOne.of_word (h : IsWord text) (hword : TokenKind.ofWord text = .word) :
    IsOne true text .identifier (.text (String.ofList text)) := by
  obtain ⟨c, cs, rfl, hc, hcs⟩ := h
  refine ⟨c, cs, .word, .null, rfl, ?_, rfl⟩
  rw [scan_of_isAlpha hc, bareWord, List.takeWhile_eq_self_iff.mpr hcs,
    List.dropWhile_eq_nil_iff.mpr hcs, hword]
  rfl

theorem IsOne.followed (h : IsOne afterDot text kind literal) {r : List Char}
    (hr : r = [] ∨ ∃ s tail, r = s :: tail ∧ Stops s) :
    all afterDot (text ++ r) = ⟨.token kind literal, text⟩ :: all (kind == .dot) r := by
  obtain ⟨c, cs, own, value, rfl, hscan, hsettle⟩ := h
  have hfollowed : scan c (cs ++ r) = ⟨.token own value, c :: cs, r⟩ := by
    rcases hr with rfl | ⟨s, tail, rfl, hs⟩
    · rw [List.append_nil, hscan]
    · rw [scan_append_of_token (by rw [hscan]) hs, hscan]
      rfl
  rw [List.cons_append, all, hfollowed, settle_token_followedBy, hsettle]
  rfl

end Segment

namespace Lexed

theorem le_start_of_mem_tokens {offset : Nat} {segments : List Segment} {token : Token}
    (h : token ∈ (ofSegments offset segments).tokens) : offset ≤ token.span.start := by
  induction segments generalizing offset with
  | nil => cases h
  | cons segment segments ih =>
      rw [ofSegments] at h
      cases hlexeme : segment.lexeme with
      | layout =>
          rw [hlexeme] at h
          exact (Nat.le_add_right _ _).trans (ih h)
      | fault fault =>
          rw [hlexeme] at h
          exact (Nat.le_add_right _ _).trans (ih h)
      | token kind literal =>
          rw [hlexeme] at h
          rcases List.mem_cons.mp h with rfl | h
          · exact Nat.le_refl _
          · exact (Nat.le_add_right _ _).trans (ih h)

/-- If all that is read is one token at the front, then it is the first segment. -/
theorem lexeme_of_ofSegments {segment : Segment} {segments : List Segment} {kind : TokenKind}
    {literal : Value} {stop : Nat} (hne : segment.text ≠ [])
    (h : ofSegments 0 (segment :: segments) = ⟨[⟨kind, literal, ⟨0, stop⟩⟩], []⟩) :
    segment.lexeme = .token kind literal ∧ byteSize segment.text = stop := by
  rw [ofSegments] at h
  cases hlexeme : segment.lexeme with
  | layout =>
      rw [hlexeme] at h
      have htoken : ⟨kind, literal, ⟨0, stop⟩⟩ ∈
          (ofSegments (0 + byteSize segment.text) segments).tokens := by
        dsimp only at h
        rw [h]
        exact List.mem_singleton_self _
      have hstart := le_start_of_mem_tokens htoken
      exact absurd (eq_nil_of_byteSize (by simpa using hstart)) hne
  | fault fault =>
      rw [hlexeme] at h
      cases congrArg Lexed.errors h
  | token kind' literal' =>
      rw [hlexeme] at h
      obtain ⟨hhead, -⟩ := List.cons.inj (congrArg Lexed.tokens h)
      obtain ⟨rfl, rfl, hspan⟩ := Token.mk.inj hhead
      have hstop := (Span.mk.inj hspan).2
      exact ⟨rfl, by omega⟩

end Lexed

namespace Written

open Segment

variable {written : Written} {items : List Written}

theorem IsToken.isOne (h : written.IsToken) (afterDot : Bool) :
    IsOne afterDot written.text written.kind written.literal := by
  unfold IsToken at h
  generalize written.text = text at h ⊢
  cases text with
  | nil =>
      rw [tokenize, Segment.all] at h
      cases h
  | cons c cs =>
      rw [tokenize, Segment.all] at h
      obtain ⟨hlexeme, hsize⟩ := Lexed.lexeme_of_ofSegments (settle_text_ne_nil false c cs) h
      have hcut : (settle false (Lexeme.scan c cs)).text ++
          (settle false (Lexeme.scan c cs)).rest = c :: cs := by
        rw [settle_append, Lexeme.scan_append]
      -- The token has all bytes of the text, so that none are left.
      have hrest : (settle false (Lexeme.scan c cs)).rest = [] := by
        have hbytes := congrArg byteSize hcut
        rw [byteSize_append] at hbytes
        dsimp only at hsize
        exact eq_nil_of_byteSize (by omega)
      rw [hrest, List.append_nil] at hcut
      have hsettle : settle false (Lexeme.scan c cs) =
          ⟨.token written.kind written.literal, c :: cs, []⟩ := by
        rw [← hlexeme, ← hcut, ← hrest]
      obtain ⟨hscan, hword⟩ := eq_of_settle_false hsettle
      exact ⟨c, cs, written.kind, written.literal, rfl, hscan,
        settle_eq_self (by simp [hword]) (by simp)⟩

theorem IsToken.kind_eq_dot (h : written.IsToken) (htext : written.text = ['.']) :
    written.kind = .dot := by
  have hdot : tokenize ['.'] = ⟨[⟨.dot, .null, ⟨0, 1⟩⟩], []⟩ := by cbv
  rw [IsToken, htext, hdot] at h
  obtain ⟨hhead, -⟩ := List.cons.inj (congrArg Lexed.tokens h)
  exact (congrArg Token.kind hhead).symm

theorem eq_nil_or_exists_stop (hlayout : items ≠ [] → written.layout ≠ []) :
    layoutText written.layout ++ textAll items = [] ∨
      ∃ s tail, layoutText written.layout ++ textAll items = s :: tail ∧ Lexeme.Stops s := by
  by_cases hempty : written.layout = []
  · left
    have hitems : items = [] := by
      by_contra hitems
      exact hlayout hitems hempty
    rw [hempty, hitems]
    rfl
  · right
    obtain ⟨s, tail, htext, hs⟩ := Lexeme.exists_stop_of_layout hempty
    exact ⟨s, tail ++ textAll items, by rw [htext, List.cons_append], hs⟩

theorem ofSegments_cons {afterDot : Bool}
    (h : IsOne afterDot written.text written.kind written.literal)
    (hlayout : items ≠ [] → written.layout ≠ []) {offset : Nat}
    (hitems : ∀ offset,
      Lexed.ofSegments offset (Segment.all (written.kind == .dot) (textAll items)) =
        ⟨tokens offset items, []⟩) :
    Lexed.ofSegments offset (Segment.all afterDot (textAll (written :: items))) =
      ⟨tokens offset (written :: items), []⟩ := by
  have htext : textAll (written :: items) =
      written.text ++ (layoutText written.layout ++ textAll items) := by
    simp [textAll]
  rw [htext, h.followed (eq_nil_or_exists_stop hlayout), Lexed.ofSegments, Lexed.ofSegments_layout,
    hitems]
  rfl

theorem ofSegments_textAll {previous : List Char} (h : Legible previous items) :
    ∀ offset afterDot, (previous = ['.'] → afterDot = true) →
      Lexed.ofSegments offset (Segment.all afterDot (textAll items)) =
        ⟨tokens offset items, []⟩ := by
  -- From one lexeme to the next goes only whether it is a dot; layout keeps that.
  induction h with
  | done previous =>
      intro offset afterDot _
      simp [textAll, Segment.all, Lexed.ofSegments, tokens]
  | token h hlayout hitems ih =>
      intro offset afterDot _
      refine ofSegments_cons (h.isOne afterDot) hlayout fun offset ↦ ih offset _ ?_
      intro htext
      rw [h.kind_eq_dot htext]
      rfl
  | member h hlayout hitems ih =>
      intro offset afterDot hdot
      obtain ⟨hword, hkeyword, hkind, hliteral⟩ := h
      have hone := IsOne.of_word hword hkeyword
      rw [← hkind, ← hliteral, ← hdot rfl] at hone
      refine ofSegments_cons hone hlayout fun offset ↦ ih offset _ ?_
      rintro htext
      obtain ⟨c, cs, hcons, hc, -⟩ := hword
      obtain ⟨rfl, -⟩ := List.cons.inj (htext.symm.trans hcons)
      exact absurd hc (by decide)

end Written

/-- Whatever the layout, a script is read as the tokens that it was written with, each at the place
of its text. -/
theorem tokenize_written (layout : List LayoutItem) {items : List Written}
    (h : Written.Legible [] items) :
    tokenize (layoutText layout ++ Written.textAll items) =
      ⟨Written.tokens (byteSize (layoutText layout)) items, []⟩ := by
  rw [tokenize, Lexed.ofSegments_layout, Nat.zero_add]
  exact Written.ofSegments_textAll h _ false (by simp)

theorem tokenize_member_among_comments :
    tokenize "#\n@x#\x7ba#\x7b\x7d#\x7d#. let \t. foo".toList =
      ⟨[⟨.identifier, .text "@x", ⟨2, 4⟩⟩, ⟨.dot, .null, ⟨13, 14⟩⟩, ⟨.kwLet, .null, ⟨15, 18⟩⟩,
        ⟨.dot, .null, ⟨20, 21⟩⟩, ⟨.identifier, .text "foo", ⟨22, 25⟩⟩], []⟩ := by
  have hname : Written.IsToken ⟨['@', 'x'], .identifier, .text "@x",
      [.blockComment (.piece ['a'] (by simp) (.nested .done .done))]⟩ := by
    unfold Written.IsToken
    cbv
  have hdot : Written.IsToken ⟨['.'], .dot, .null, [.blank ' ' rfl (by decide)]⟩ := by
    unfold Written.IsToken
    cbv
  have hlet : Written.IsToken ⟨['l', 'e', 't'], .kwLet, .null,
      [.blank ' ' rfl (by decide), .blank '\t' rfl (by decide)]⟩ := by
    unfold Written.IsToken
    cbv
  have hmember : Written.IsMember ⟨['f', 'o', 'o'], .identifier, .text "foo", []⟩ :=
    ⟨⟨'f', ['o', 'o'], rfl, by decide, List.all_eq_true.mp rfl⟩, by decide, rfl, rfl⟩
  exact tokenize_written [.lineComment [] (by decide) (by decide)]
    (.token hname (by simp) (.token hdot (by simp) (.token hlet (by simp) (.token hdot (by simp)
      (.member hmember (by simp) (.done _))))))

end Sigil
