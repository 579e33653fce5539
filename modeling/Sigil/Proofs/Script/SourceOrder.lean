import Sigil.Proofs.Syntax.Course
import Sigil.Proofs.Text.Order
import Sigil.Proofs.Token.SigilName

/-!
# Errors are reported in the order of the source

Segments start one after another, so lexical errors and tokens are in order.  A syntax
error may be reported at a token that was read long before.  Still, no error has been
recorded at a later token by then, and after it reading goes on behind that token.
-/

namespace Sigil

/-- Each token starts after the one before it. -/
def InOrder (tokens : List Token) : Prop :=
  tokens.Pairwise fun a b ↦ a.span.start < b.span.start

/-! ### Segments -/

namespace Segment

variable {text : List Char} {place : Placed}

theorem pairwise_start_placed {segments : List Segment}
    (h : ∀ segment ∈ segments, segment.text ≠ []) (offset : Nat) :
    (placed offset segments).Pairwise fun a b ↦ a.start < b.start := by
  induction segments generalizing offset with
  | nil => exact .nil
  | cons segment segments ih =>
      obtain ⟨hne, hothers⟩ := List.forall_mem_cons.mp h
      obtain ⟨c, cs, htext⟩ := List.exists_cons_of_ne_nil hne
      have hpos := c.utf8Size_pos
      refine List.pairwise_cons.mpr ⟨fun place hplace ↦ ?_, ih hothers _⟩
      have hle := le_start_of_mem_placed hplace
      rw [htext, byteSize_cons] at hle
      change offset < place.start
      omega

theorem pairwise_start_all (text : List Char) :
    (placed 0 (all false text)).Pairwise fun a b ↦ a.start < b.start :=
  pairwise_start_placed (fun _ ↦ text_ne_nil_of_mem_all) 0

/-- A place starts with a character. -/
theorem exists_cons_of_mem_placed (h : place ∈ placed 0 (all false text)) :
    ∃ before c cs after, text = before ++ (c :: cs ++ after) ∧ place.start = byteSize before ∧
      place.stop = byteSize (before ++ c :: cs) := by
  obtain ⟨before, after, htext, hstart⟩ := exists_append_of_mem_placed h
  obtain ⟨c, cs, hcons⟩ :=
    List.exists_cons_of_ne_nil (text_ne_nil_of_mem_all (mem_all_of_placed h))
  refine ⟨before, c, cs, after, hcons ▸ htext, hstart, ?_⟩
  rw [Placed.stop, hstart, hcons, byteSize_append]

end Segment

theorem inOrder_tokenize (text : List Char) : InOrder (tokenize text).tokens := by
  rw [tokenize, Segment.tokens_ofSegments]
  refine (Segment.pairwise_start_all text).filterMap _ fun a b hlt token htoken token' htoken' ↦ ?_
  rw [Segment.Placed.span_of_token? htoken, Segment.Placed.span_of_token? htoken']
  exact hlt

theorem exists_cons_of_mem_tokens {text : List Char} {token : Token}
    (h : token ∈ (tokenize text).tokens) :
    ∃ before c cs after, text = before ++ (c :: cs ++ after) ∧
      token.span = ⟨byteSize before, byteSize (before ++ c :: cs)⟩ := by
  obtain ⟨place, hplace, htoken⟩ := Segment.mem_tokens_iff.mp h
  obtain ⟨before, c, cs, after, htext, hstart, hstop⟩ := Segment.exists_cons_of_mem_placed hplace
  refine ⟨before, c, cs, after, htext, ?_⟩
  rw [Segment.Placed.span_of_token? htoken, hstart, hstop]

/-! ### Lexical errors -/

theorem Segment.Placed.offset_of_error? {place : Placed} {error : LexicalError}
    (h : place.error? = some error) : error.offset = place.start := by
  unfold error? at h
  split at h <;> cases h
  rfl

theorem pairwise_errors_tokenize (text : List Char) :
    (tokenize text).errors.Pairwise fun a b ↦ a.offset < b.offset := by
  rw [tokenize, Segment.errors_ofSegments]
  refine (Segment.pairwise_start_all text).filterMap _ fun a b hlt error herror error' herror' ↦ ?_
  rw [Segment.Placed.offset_of_error? herror, Segment.Placed.offset_of_error? herror']
  exact hlt

theorem isBoundary_of_mem_errors {text : List Char} {error : LexicalError}
    (h : error ∈ (tokenize text).errors) : IsBoundary text error.offset := by
  obtain ⟨place, hplace, hstart, -⟩ := Segment.exists_place_of_mem_errors h
  obtain ⟨before, after, htext, hbefore⟩ := Segment.exists_append_of_mem_placed hplace
  exact ⟨before, _, htext, hstart.symm.trans hbefore⟩

/-! ### Syntax errors -/

namespace Cursor

variable {tokens : List Token} {c d r : Cursor} {error : SyntaxError}

/-- The cursor is at a place among the tokens, and the errors recorded so far are in order, at
tokens that have been read. -/
structure Settled (tokens : List Token) (c : Cursor) : Prop where
  place : ∃ read, tokens = read ++ c.rest ∧ c.previous = read.getLast?
  ordered : c.errors.Pairwise fun a b ↦ a.offset ≤ b.offset
  marked : ∀ error ∈ c.errors, (∃ token ∈ tokens, error.offset = token.span.start) ∧
    ∃ token ∈ c.previous, error.offset ≤ token.span.start

theorem settled_ofTokens (tokens : List Token) : Settled tokens (.ofTokens tokens) where
  place := ⟨[], rfl, rfl⟩
  ordered := .nil
  marked := nofun

theorem Settled.around_sublist (h : Settled tokens c) (n : Nat) : (c.around n).Sublist tokens := by
  obtain ⟨read, htokens, hprevious⟩ := h.place
  rw [around, hprevious, htokens]
  refine List.Sublist.append ?_ (List.take_sublist _ _)
  cases hlast : read.getLast? with
  | none => exact List.nil_sublist _
  | some token => exact List.singleton_sublist.mpr (List.mem_of_getLast? hlast)

theorem Settled.around_ne_nil (h : Settled tokens c) (hne : tokens ≠ []) (n : Nat) :
    c.around n ≠ [] := by
  obtain ⟨read, rfl, hprevious⟩ := h.place
  cases hrest : c.rest with
  | nil =>
      rw [hrest, List.append_nil] at hne
      simp [around, hprevious, hne]
  | cons token rest => simp [around, hrest]

section Step

variable (htokens : InOrder tokens)
include htokens

theorem Settled.advance (h : Settled tokens c) : Settled tokens c.advance := by
  cases hrest : c.rest with
  | nil => rwa [advance_of_rest_nil hrest]
  | cons next rest =>
      obtain ⟨read, hread, hprevious⟩ := h.place
      refine ⟨⟨read ++ [next], ?_, ?_⟩, ?_, ?_⟩
      · rw [rest_advance_of_cons hrest, List.append_assoc, List.singleton_append, ← hrest, hread]
      · rw [previous_advance_of_rest hrest, List.getLast?_concat]
      · rw [errors_advance]
        exact h.ordered
      · rw [errors_advance]
        intro error herror
        obtain ⟨hmark, token, htoken, hle⟩ := h.marked error herror
        refine ⟨hmark, next, by rw [previous_advance_of_rest hrest]; rfl, ?_⟩
        rw [InOrder, hread, hrest, List.pairwise_append] at htokens
        have hlast : token ∈ read := List.mem_of_getLast? (hprevious ▸ htoken)
        exact Nat.le_of_lt (Nat.lt_of_le_of_lt hle
          (htokens.2.2 token hlast next List.mem_cons_self))

theorem Settled.skip (h : Settled tokens c) (n : Nat) : Settled tokens (c.skip n) := by
  induction n generalizing c with
  | zero => exact h
  | succ n ih => exact ih (h.advance htokens)

/-- The new error is not before the last token that had been read, and the errors before it are not
after that token. -/
theorem Settled.record (h : Settled tokens c) {n : Nat} {token : Token}
    (htoken : token ∈ c.around n) (hoffset : error.offset = token.span.start) :
    Settled tokens ((c.skip (n + 1)).record error) := by
  have hsettled := h.skip htokens (n + 1)
  have haround : InOrder (c.around n) := htokens.sublist (h.around_sublist n)
  refine ⟨hsettled.place, ?_, ?_⟩
  · refine List.pairwise_append.mpr ⟨hsettled.ordered, List.pairwise_singleton _ _, ?_⟩
    rintro earlier hearlier _ (_ | ⟨_, ⟨⟩⟩)
    rw [errors_skip] at hearlier
    obtain ⟨-, last, hlast, hle⟩ := h.marked earlier hearlier
    rw [hoffset]
    refine hle.trans ?_
    rw [InOrder, around, hlast, Option.toList_some, List.singleton_append,
      List.pairwise_cons] at haround
    rw [around, hlast, Option.toList_some, List.singleton_append, List.mem_cons] at htoken
    rcases htoken with rfl | htoken
    · exact Nat.le_refl _
    · exact Nat.le_of_lt (haround.1 token htoken)
  · intro other hother
    rcases List.mem_append.mp hother with hother | hother
    · exact hsettled.marked other hother
    · obtain rfl := List.mem_singleton.mp hother
      refine ⟨⟨token, (h.around_sublist n).mem htoken, hoffset⟩, ?_⟩
      obtain ⟨front, last, hlast⟩ :=
        (List.eq_nil_or_concat' (c.around n)).resolve_left (List.ne_nil_of_mem htoken)
      refine ⟨last, ?_, ?_⟩
      · change last ∈ (c.skip (n + 1)).previous
        rw [previous_skip_succ, hlast, List.getLast?_concat]
        rfl
      · rw [InOrder, hlast, List.pairwise_append] at haround
        rw [hlast, List.mem_append, List.mem_singleton] at htoken
        rw [hoffset]
        rcases htoken with htoken | rfl
        · exact Nat.le_of_lt (haround.2.2 token htoken last (List.mem_singleton_self _))
        · exact Nat.le_refl _

theorem Settled.recovered (h : Settled tokens c) (hne : tokens ≠ []) (hmarks : c.Marks error r) :
    Settled tokens (r.record error).synchronize := by
  obtain ⟨m, n, hmark, heq⟩ := hmarks.exists_recovered
  obtain ⟨token, htoken, hoffset⟩ := hmark (h.around_ne_nil hne m)
  rw [heq, ← skip_record]
  exact (h.record htokens htoken hoffset).skip htokens n

theorem Settled.of_course (h : Settled tokens c) (hcourse : Course c d) : Settled tokens d := by
  have hne {c : Cursor} (h : Settled tokens c) (hstart : c.rest ≠ []) : tokens ≠ [] := by
    obtain ⟨read, rfl, -⟩ := h.place
    exact List.append_ne_nil_of_right_ne_nil _ hstart
  induction hcourse with
  | refl c => exact h
  | advance _ ih => exact ih (h.advance htokens)
  | skip hstart hmarks _ ih => exact ih (h.recovered htokens (hne h hstart) hmarks)
  | recover hstart _ hmarks _ ih ih' =>
      exact ih' ((ih (h.advance htokens)).recovered htokens (hne h hstart) hmarks)

end Step

end Cursor

theorem settled_parse {tokens : List Token} (h : InOrder tokens) :
    Cursor.Settled tokens (Cursor.ofTokens tokens).readProgram.2 :=
  (Cursor.settled_ofTokens tokens).of_course h (Cursor.course_readProgram _)

/-- Lexical errors are reported at one place after another, and syntax errors in the order of the
source, each at the first character of a token. -/
theorem errors_in_source_order (source : List Char) :
    ((tokenize source).errors.map fun error ↦ locate source error.offset).Pairwise (· < ·) ∧
    ((parse (tokenize source).tokens).errors.map fun error ↦
      locate source error.offset).Pairwise (· ≤ ·) ∧
    ∀ error ∈ (parse (tokenize source).tokens).errors, ∃ token ∈ (tokenize source).tokens,
      ∃ before c cs after, source = before ++ (c :: cs ++ after) ∧
        token.span = ⟨byteSize before, byteSize (before ++ c :: cs)⟩ ∧
        error.offset = byteSize before ∧ locate source error.offset = .after before := by
  have hsettled := settled_parse (inOrder_tokenize source)
  have hmark : ∀ error ∈ (parse (tokenize source).tokens).errors,
      ∃ token ∈ (tokenize source).tokens, ∃ before c cs after,
        source = before ++ (c :: cs ++ after) ∧
        token.span = ⟨byteSize before, byteSize (before ++ c :: cs)⟩ ∧
        error.offset = byteSize before := by
    intro error herror
    obtain ⟨⟨token, htoken, hoffset⟩, -⟩ := hsettled.marked error herror
    obtain ⟨before, c, cs, after, hsource, hspan⟩ := exists_cons_of_mem_tokens htoken
    exact ⟨token, htoken, before, c, cs, after, hsource, hspan, by rw [hoffset, hspan]⟩
  have hboundary : ∀ error ∈ (parse (tokenize source).tokens).errors,
      IsBoundary source error.offset := by
    intro error herror
    obtain ⟨-, -, before, c, cs, after, hsource, -, hoffset⟩ := hmark error herror
    exact ⟨before, _, hsource, hoffset⟩
  refine ⟨?_, ?_, fun error herror ↦ ?_⟩
  · rw [List.pairwise_map]
    refine (pairwise_errors_tokenize source).imp_of_mem fun ha hb hlt ↦ ?_
    exact locate_lt_locate (isBoundary_of_mem_errors ha) (isBoundary_of_mem_errors hb) hlt
  · rw [List.pairwise_map]
    refine hsettled.ordered.imp_of_mem fun ha hb hle ↦ ?_
    exact locate_le_locate (hboundary _ ha) (hboundary _ hb) hle
  · obtain ⟨token, htoken, before, c, cs, after, hsource, hspan, hoffset⟩ := hmark error herror
    refine ⟨token, htoken, before, c, cs, after, hsource, hspan, hoffset, ?_⟩
    rw [hoffset, hsource, locate_append]

end Sigil
