import Sigil.Proofs.Token.Spelling

/-!
# Segments account for the whole script

The segments of a script follow each other without a gap, so their places are given
by their texts.  The tokens are the segments that are tokens, the errors those that
are errors, each with its place; cutting a segment's place out of the script gives its
text back.
-/

namespace Sigil

/-! ### Bytes -/

theorem dropBytes?_append (a b : List Char) : dropBytes? (byteSize a) (a ++ b) = some b := by
  induction a with
  | nil => cases b <;> rfl
  | cons c a ih =>
      have hpos := c.utf8Size_pos
      have hne : c.utf8Size + byteSize a ≠ 0 := by omega
      have hle : ¬ c.utf8Size + byteSize a < c.utf8Size := by omega
      rw [byteSize_cons, List.cons_append, dropBytes?, if_neg hne, if_neg hle,
        Nat.add_sub_cancel_left, ih]

theorem takeBytes?_append (a b : List Char) : takeBytes? (byteSize a) (a ++ b) = some a := by
  induction a with
  | nil => cases b <;> rfl
  | cons c a ih =>
      have hpos := c.utf8Size_pos
      have hne : c.utf8Size + byteSize a ≠ 0 := by omega
      have hle : ¬ c.utf8Size + byteSize a < c.utf8Size := by omega
      rw [byteSize_cons, List.cons_append, takeBytes?, if_neg hne, if_neg hle,
        Nat.add_sub_cancel_left, ih, Option.map_some]

theorem slice?_append (a b c : List Char) :
    slice? (byteSize a) (byteSize a + byteSize b) (a ++ (b ++ c)) = some b := by
  rw [slice?, dropBytes?_append, Option.bind_some, Nat.add_sub_cancel_left, takeBytes?_append]

namespace Segment

/-! ### Places -/

/-- A segment and the offset where it starts. -/
structure Placed where
  start : Nat
  segment : Segment

/-- Segments in a row, the first of which starts at `offset`. -/
def placed (offset : Nat) : List Segment → List Placed
  | [] => []
  | segment :: segments => ⟨offset, segment⟩ :: placed (offset + byteSize segment.text) segments

namespace Placed

def stop (place : Placed) : Nat := place.start + byteSize place.segment.text

def token? (place : Placed) : Option Token :=
  match place.segment.lexeme with
  | .token kind literal => some ⟨kind, literal, ⟨place.start, place.stop⟩⟩
  | _ => none

def error? (place : Placed) : Option LexicalError :=
  match place.segment.lexeme with
  | .fault fault => some ⟨fault, place.start⟩
  | _ => none

/-- The error at a place of a script, with its position. -/
def diagnosis? (text : List Char) (place : Placed) : Option (LexicalFault × Position) :=
  match place.segment.lexeme with
  | .fault fault => some (fault, locate text place.start)
  | _ => none

theorem diagnosis?_eq (text : List Char) : diagnosis? text = fun place ↦
    place.error?.map fun error ↦ (error.fault, locate text error.offset) := by
  funext place
  unfold diagnosis? error?
  split <;> rfl

theorem span_of_token? {place : Placed} {token : Token} (h : place.token? = some token) :
    token.span = ⟨place.start, place.stop⟩ := by
  unfold token? at h
  split at h <;> cases h
  rfl

end Placed

theorem segment_placed (offset : Nat) (segments : List Segment) :
    (placed offset segments).map Placed.segment = segments := by
  induction segments generalizing offset with
  | nil => rfl
  | cons segment segments ih => rw [placed, List.map_cons, ih]

theorem flatMap_placed (offset : Nat) (segments : List Segment) :
    (placed offset segments).flatMap (·.segment.text) = segments.flatMap Segment.text := by
  have htexts := congrArg (List.flatMap Segment.text) (segment_placed offset segments)
  rwa [List.flatMap_map] at htexts

/-- A place starts where what stands before it ends. -/
theorem start_of_placed {offset : Nat} {segments : List Segment} {before after : List Placed}
    {place : Placed} (h : placed offset segments = before ++ place :: after) :
    place.start = offset + byteSize (before.flatMap (·.segment.text)) := by
  induction segments generalizing offset before with
  | nil => simp [placed] at h
  | cons segment segments ih =>
      cases before with
      | nil =>
          obtain ⟨rfl, -⟩ := List.cons.inj h
          rfl
      | cons first before =>
          obtain ⟨rfl, htail⟩ := List.cons.inj h
          rw [ih htail, List.flatMap_cons, byteSize_append, Nat.add_assoc]

/-- What stands before a place, the text of its segment, and what follows are the script. -/
theorem exists_append_of_mem_placed {text : List Char} {place : Placed}
    (h : place ∈ placed 0 (all false text)) :
    ∃ before after, text = before ++ (place.segment.text ++ after) ∧
      place.start = byteSize before := by
  obtain ⟨before, after, hplaces⟩ := List.append_of_mem h
  refine ⟨before.flatMap (·.segment.text), after.flatMap (·.segment.text), ?_, ?_⟩
  · rw [← List.flatMap_cons (f := fun place : Placed ↦ place.segment.text), ← List.flatMap_append,
      ← hplaces, flatMap_placed, all_flatMap_text]
  · rw [start_of_placed hplaces, Nat.zero_add]

theorem tokens_ofSegments (offset : Nat) (segments : List Segment) :
    (Lexed.ofSegments offset segments).tokens =
      (placed offset segments).filterMap Placed.token? := by
  induction segments generalizing offset with
  | nil => rfl
  | cons segment segments ih =>
      rw [placed, List.filterMap_cons, ← ih, Lexed.ofSegments, Placed.token?]
      cases segment.lexeme <;> rfl

theorem errors_ofSegments (offset : Nat) (segments : List Segment) :
    (Lexed.ofSegments offset segments).errors =
      (placed offset segments).filterMap Placed.error? := by
  induction segments generalizing offset with
  | nil => rfl
  | cons segment segments ih =>
      rw [placed, List.filterMap_cons, ← ih, Lexed.ofSegments, Placed.error?]
      cases segment.lexeme <;> rfl

/-! ### Forms -/

theorem spells_of_mem_all {afterDot : Bool} {text : List Char} {segment : Segment}
    (h : segment ∈ all afterDot text) : Spells segment.lexeme segment.text := by
  fun_induction all afterDot text with
  | case1 => cases h
  | case2 afterDot c cs scanned ih =>
      obtain rfl | h := List.mem_cons.mp h
      · exact spells_settle afterDot c cs
      · exact ih h

theorem settle_text_ne_nil (afterDot : Bool) (c : Char) (cs : List Char) :
    (settle afterDot (Lexeme.scan c cs)).text ≠ [] := by
  have hne := Lexeme.scan_text_ne_nil c cs
  unfold settle
  split
  · split <;> exact hne
  · exact List.append_ne_nil_of_left_ne_nil hne _
  · exact hne

theorem text_ne_nil_of_mem_all {afterDot : Bool} {text : List Char} {segment : Segment}
    (h : segment ∈ all afterDot text) : segment.text ≠ [] := by
  fun_induction all afterDot text with
  | case1 => cases h
  | case2 afterDot c cs scanned ih =>
      obtain rfl | h := List.mem_cons.mp h
      · exact settle_text_ne_nil afterDot c cs
      · exact ih h

/-- A block comment that is not closed. -/
def isOpenComment : Segment → Bool
  | ⟨.layout, '#' :: '\x7b' :: body⟩ => (Lexeme.afterComment? 0 body).isNone
  | _ => false

theorem isOpenComment_iff {segment : Segment} : segment.isOpenComment = true ↔
    ∃ body, segment = ⟨.layout, '#' :: '\x7b' :: body⟩ ∧ Lexeme.afterComment? 0 body = none := by
  unfold isOpenComment
  split
  · simp
  · rename_i hne
    refine ⟨by simp, ?_⟩
    rintro ⟨body, rfl, -⟩
    exact (hne body rfl).elim

theorem settle_eq_self_of_layout {afterDot : Bool} {scanned : Scanned}
    (h : (settle afterDot scanned).lexeme = .layout) : settle afterDot scanned = scanned := by
  refine settle_eq_self (fun literal hword ↦ ?_) (fun hunexpected ↦ ?_)
  · simp only [settle, hword] at h
    split at h <;> cases h
  · simp [settle, hunexpected] at h

theorem scan_eq_comment {c : Char} {cs body : List Char}
    (h : (Lexeme.scan c cs).text = '#' :: '\x7b' :: body) :
    ∃ inside, c :: cs = '#' :: '\x7b' :: inside := by
  have happend := Lexeme.scan_append c cs
  rw [h] at happend
  exact ⟨_, happend.symm⟩

theorem scan_openComment (inside : List Char) :
    Lexeme.scan '#' ('\x7b' :: inside) =
      ⟨.layout, '#' :: '\x7b' :: (Lexeme.closeComment 0 inside).1,
        (Lexeme.closeComment 0 inside).2⟩ := rfl

/-- Nothing follows a comment that is not closed. -/
theorem rest_eq_nil_of_isOpenComment {afterDot : Bool} {c : Char} {cs : List Char}
    (h : isOpenComment ⟨(settle afterDot (Lexeme.scan c cs)).lexeme,
      (settle afterDot (Lexeme.scan c cs)).text⟩ = true) :
    (settle afterDot (Lexeme.scan c cs)).rest = [] := by
  obtain ⟨body, hsegment, hopen⟩ := isOpenComment_iff.mp h
  obtain ⟨hlayout, htext⟩ := Segment.mk.inj hsegment
  rw [settle_eq_self_of_layout hlayout] at htext ⊢
  obtain ⟨inside, hinside⟩ := scan_eq_comment htext
  obtain ⟨rfl, rfl⟩ := List.cons.inj hinside
  rw [scan_openComment] at htext ⊢
  have hbody : (Lexeme.closeComment 0 inside).1 = body := by simpa using htext
  have hnone : Lexeme.afterComment? 0 inside = none := by
    have hclose := Lexeme.afterComment?_closeComment 0 inside
    rw [hbody, hopen] at hclose
    exact Option.map_eq_none_iff.mp hclose.symm
  rw [Lexeme.closeComment_rest, hnone]
  rfl

theorem eq_nil_of_isOpenComment {afterDot : Bool} {text : List Char} {after : List Segment}
    {segment : Segment} (h : segment.isOpenComment = true) :
    ∀ before, all afterDot text = before ++ segment :: after → after = [] := by
  fun_induction all afterDot text with
  | case1 => simp
  | case2 afterDot c cs scanned ih =>
      intro before hall
      cases before with
      | nil =>
          obtain ⟨rfl, rfl⟩ := List.cons.inj hall
          rw [rest_eq_nil_of_isOpenComment h, all]
      | cons first before => exact ih before (List.cons.inj hall).2

end Segment

/-- The script ends inside a block comment that is not closed. -/
def endsInComment (text : List Char) : Bool := (Segment.all false text).any Segment.isOpenComment

/-- The errors of a script, each with its position. -/
def diagnoses (text : List Char) : List (LexicalFault × Position) :=
  (tokenize text).errors.map fun error ↦ (error.fault, locate text error.offset)

/-- The places account for the whole script and for everything that is found in it. -/
structure Accounts (text : List Char) (places : List Segment.Placed) : Prop where
  texts : places.flatMap (·.segment.text) = text
  start : ∀ before place after, places = before ++ place :: after →
    place.start = byteSize (before.flatMap (·.segment.text))
  slice : ∀ place ∈ places, slice? place.start place.stop text = some place.segment.text
  nonempty : ∀ place ∈ places, place.segment.text ≠ []
  spells : ∀ place ∈ places, Spells place.segment.lexeme place.segment.text
  open_last : ∀ before place after, places = before ++ place :: after →
    place.segment.isOpenComment = true → after = []
  tokens : (tokenize text).tokens = places.filterMap Segment.Placed.token?
  errors : (tokenize text).errors = places.filterMap Segment.Placed.error?
  diagnoses : diagnoses text = places.filterMap (Segment.Placed.diagnosis? text)

theorem Segment.mem_all_of_placed {offset : Nat} {text : List Char} {place : Placed}
    (h : place ∈ placed offset (all false text)) : place.segment ∈ all false text := by
  rw [← segment_placed offset (all false text)]
  exact List.mem_map_of_mem h

theorem Segment.slice?_of_placed {text : List Char} {place : Placed}
    (h : place ∈ placed 0 (all false text)) :
    slice? place.start place.stop text = some place.segment.text := by
  obtain ⟨before, after, htext, hstart⟩ := exists_append_of_mem_placed h
  rw [Placed.stop, hstart, htext, slice?_append]

/-- Every script is accounted for by its segments, and the place of every token can be cut out of
it. -/
theorem tokenize_accounts (text : List Char) :
    Accounts text (Segment.placed 0 (Segment.all false text)) ∧
      ∀ token ∈ (tokenize text).tokens,
        ∃ lexeme, slice? token.span.start token.span.stop text = some lexeme ∧ lexeme ≠ [] := by
  have hsegments := Segment.segment_placed 0 (Segment.all false text)
  have htokens := Segment.tokens_ofSegments 0 (Segment.all false text)
  have herrors := Segment.errors_ofSegments 0 (Segment.all false text)
  have hnonempty : ∀ place ∈ Segment.placed 0 (Segment.all false text),
      place.segment.text ≠ [] :=
    fun place hplace ↦ Segment.text_ne_nil_of_mem_all (Segment.mem_all_of_placed hplace)
  constructor
  · exact {
      texts := by rw [Segment.flatMap_placed, Segment.all_flatMap_text]
      start := fun before place after h ↦ by rw [Segment.start_of_placed h, Nat.zero_add]
      slice := fun place hplace ↦ Segment.slice?_of_placed hplace
      nonempty := hnonempty
      spells := fun place hplace ↦ Segment.spells_of_mem_all (Segment.mem_all_of_placed hplace)
      open_last := fun before place after h hopen ↦ by
        rw [h, List.map_append, List.map_cons] at hsegments
        exact List.map_eq_nil_iff.mp (Segment.eq_nil_of_isOpenComment hopen _ hsegments.symm)
      tokens := htokens
      errors := herrors
      diagnoses := by
        rw [diagnoses, tokenize, herrors, List.map_filterMap, Segment.Placed.diagnosis?_eq] }
  · intro token htoken
    rw [tokenize, htokens] at htoken
    obtain ⟨place, hplace, htoken⟩ := List.mem_filterMap.mp htoken
    refine ⟨place.segment.text, ?_, hnonempty place hplace⟩
    rw [Segment.Placed.span_of_token? htoken]
    exact Segment.slice?_of_placed hplace

end Sigil
