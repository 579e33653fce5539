import Mathlib.Data.List.Induction
import Mathlib.Data.Set.Function
import Mathlib.Order.Monotone.Defs
import Sigil.Proofs.Text.Order

/-!
# Positions by scanning the bytes before them

A position is looked up in a table of line starts.  A scan of the bytes before the offset comes
to the same one: its line counts the newline bytes, and its column what stands behind the last
of them, in characters if the offset is between two characters and in bytes if it is inside of
one.  Any search in the table will do, for its entries ascend and the first of them is zero.
-/

namespace Sigil

/-! ### Bytes -/

/-- The bytes of a text in UTF-8. -/
def utf8 (text : List Char) : List UInt8 := text.flatMap String.utf8EncodeChar

/-- The byte that encodes a newline, and that is part of no other character. -/
def newlineByte : UInt8 := 10

/-- The bytes after the last newline byte, the last one first. -/
def lastLineBytes (bytes : List UInt8) : List UInt8 := bytes.reverse.takeWhile (· != newlineByte)

@[simp] theorem utf8_append (u v : List Char) : utf8 (u ++ v) = utf8 u ++ utf8 v :=
  List.flatMap_append

@[simp] theorem utf8_cons (c : Char) (text : List Char) :
    utf8 (c :: text) = String.utf8EncodeChar c ++ utf8 text :=
  List.flatMap_cons

@[simp] theorem length_utf8 (text : List Char) : (utf8 text).length = byteSize text := by
  induction text with
  | nil => rfl
  | cons c text ih =>
      rw [utf8_cons, List.length_append, String.length_utf8EncodeChar, ih, byteSize_cons]

/-- The bytes of a character of more than one byte are all `0x80` and above. -/
theorem newlineByte_notMem_utf8EncodeChar {c : Char} (hc : c ≠ '\n') :
    newlineByte ∉ String.utf8EncodeChar c := by
  have hne : c.val.toNat ≠ 10 := fun h ↦ hc (Char.ext (UInt32.toNat_inj.mp h))
  intro hmem
  rw [String.utf8EncodeChar] at hmem
  split_ifs at hmem with h₁ h₂ h₃ <;>
    simp only [newlineByte, List.mem_cons, List.not_mem_nil, or_false, ← UInt8.toNat_inj,
      UInt8.toNat_ofNat', UInt8.reduceToNat] at hmem <;> omega

theorem count_utf8EncodeChar (c : Char) :
    (String.utf8EncodeChar c).count newlineByte = [c].count '\n' := by
  by_cases hc : c = '\n'
  · subst hc
    decide
  · have hchar : '\n' ∉ [c] := by simpa using Ne.symm hc
    rw [List.count_eq_zero.mpr (newlineByte_notMem_utf8EncodeChar hc),
      List.count_eq_zero.mpr hchar]

theorem count_utf8 (text : List Char) : (utf8 text).count newlineByte = text.count '\n' := by
  induction text with
  | nil => rfl
  | cons c text ih =>
      rw [utf8_cons, List.count_append, count_utf8EncodeChar, ih, ← List.count_append]
      rfl

theorem lastLineBytes_append_of_notMem (u : List UInt8) {v : List UInt8}
    (h : newlineByte ∉ v) : lastLineBytes (u ++ v) = v.reverse ++ lastLineBytes u :=
  takeWhile_reverse_append_of_notMem u h

/-- The last line of the bytes encodes the last line of the text. -/
theorem length_lastLineBytes_utf8 (text : List Char) :
    (lastLineBytes (utf8 text)).length = byteSize (lastLine text).reverse := by
  induction text using List.reverseRecOn with
  | nil => rfl
  | append_singleton text c ih =>
      by_cases hc : c = '\n'
      · subst hc
        have hcode : utf8 ['\n'] = [newlineByte] := by decide
        rw [utf8_append, hcode, lastLine_append_newline]
        simp [lastLineBytes, lastLine]
      · have hchar : '\n' ∉ [c] := by simpa using Ne.symm hc
        have hcode : utf8 [c] = String.utf8EncodeChar c := List.append_nil _
        rw [utf8_append, hcode,
          lastLineBytes_append_of_notMem _ (newlineByte_notMem_utf8EncodeChar hc),
          lastLine_append_of_notMem _ hchar]
        simp [ih, String.length_utf8EncodeChar, Nat.add_comm]

/-! ### Cuts -/

/-- An offset into a text is between two characters or some bytes into one. -/
theorem exists_cut {text : List Char} {o : Nat} (h : o ≤ byteSize text) :
    IsBoundary text o ∨ ∃ u c v k, text = u ++ c :: v ∧ o = byteSize u + k ∧
      0 < k ∧ k < c.utf8Size := by
  induction text generalizing o with
  | nil => exact .inl ⟨[], [], rfl, Nat.le_zero.mp h⟩
  | cons c text ih =>
      rw [byteSize_cons] at h
      rcases Nat.eq_zero_or_pos o with rfl | hpos
      · exact .inl ⟨[], c :: text, rfl, rfl⟩
      rcases Nat.lt_or_ge o c.utf8Size with hlt | hle
      · exact .inr ⟨[], c, text, o, rfl, (Nat.zero_add o).symm, hpos, hlt⟩
      have hrest : o - c.utf8Size ≤ byteSize text := by omega
      rcases ih hrest with ⟨u, v, rfl, ho⟩ | ⟨u, d, v, k, rfl, ho, hk⟩
      · exact .inl ⟨c :: u, v, rfl, by rw [byteSize_cons]; omega⟩
      · exact .inr ⟨c :: u, d, v, k, rfl, by rw [byteSize_cons]; omega, hk⟩

theorem locate_min (text : List Char) (offset : Nat) :
    locate text (min offset (byteSize text)) = locate text offset := by
  simp only [locate, LineTable.ofText, LineTable.locate, Nat.min_assoc, Nat.min_self]

/-- A newline is a single byte, so no offset is inside of it. -/
theorem ne_newline_of_inside {c : Char} {k : Nat} (hpos : 0 < k) (hlt : k < c.utf8Size) :
    c ≠ '\n' := by
  rintro rfl
  have hsize : '\n'.utf8Size = 1 := rfl
  omega

/-- The position of an offset inside a character counts bytes. -/
theorem locate_inside (u : List Char) (c : Char) (v : List Char) {k : Nat} (hpos : 0 < k)
    (hlt : k < c.utf8Size) :
    locate (u ++ c :: v) (byteSize u + k) =
      ⟨u.count '\n' + 1, byteSize (lastLine u).reverse + k + 1⟩ := by
  have hc := ne_newline_of_inside hpos hlt
  have hsplit : splitLines (byteSize u) (c :: v) =
      (⟨byteSize u, c :: (splitLines (byteSize u + c.utf8Size) v).1.text⟩,
        (splitLines (byteSize u + c.utf8Size) v).2) := by
    rw [splitLines, if_neg hc]
  have hchars (s : List Char) : charsIn? k (c :: s) = none := by
    rw [charsIn?, if_neg (Nat.ne_of_gt hpos), if_pos hlt]
  rw [locate_append_add u (c :: v) k (by rw [byteSize_cons]; omega), hsplit, hchars]
  · rfl
  · intro next hnext
    rw [hsplit] at hnext
    have hstart := start_lt_of_mem_splitLines hnext
    omega

/-! ### Line starts -/

/-- The offsets at which the lines of a table start, in order. -/
def LineTable.starts (table : LineTable) : List Nat :=
  (table.first :: table.others).map Line.start

/-- Line starts ascend: a line starts behind the newline that ends the one before it. -/
theorem pairwise_splitLines (start : Nat) (text : List Char) :
    (((splitLines start text).1 :: (splitLines start text).2).map Line.start).Pairwise (· < ·) := by
  induction text generalizing start with
  | nil => exact List.pairwise_singleton _ _
  | cons c text ih =>
      have hlater : ∀ s ∈ (splitLines start (c :: text)).2.map Line.start, start < s := by
        intro s hs
        obtain ⟨line, hline, rfl⟩ := List.mem_map.mp hs
        exact start_lt_of_mem_splitLines hline
      rw [List.map_cons, start_splitLines]
      refine List.pairwise_cons.mpr ⟨hlater, ?_⟩
      rw [splitLines]
      split
      · exact ih (start + 1)
      · exact (List.pairwise_cons.mp (ih (start + c.utf8Size))).2

/-- The number of a line counts the lines that start at or before the offset. -/
theorem fst_lineAt (offset number : Nat) (line : Line) (lines : List Line) :
    (lineAt offset number line lines).1 =
      number + ((lines.map Line.start).takeWhile (· ≤ offset)).length := by
  induction lines generalizing number line with
  | nil => rfl
  | cons next lines ih =>
      rw [lineAt, List.map_cons]
      split
      · rename_i hle
        rw [ih, List.takeWhile_cons_of_pos (by simpa using hle), List.length_cons]
        omega
      · rename_i hlt
        rw [List.takeWhile_cons_of_neg (by simpa using hlt)]
        rfl

theorem starts_ofText (text : List Char) :
    (LineTable.ofText text).starts =
      ((splitLines 0 text).1 :: (splitLines 0 text).2).map Line.start :=
  rfl

theorem line_locate (text : List Char) (offset : Nat) :
    (locate text offset).line =
      ((LineTable.ofText text).starts.takeWhile (· ≤ min offset (byteSize text))).length := by
  rw [starts_ofText, List.map_cons, start_splitLines,
    List.takeWhile_cons_of_pos (by simp), List.length_cons]
  exact (fst_lineAt _ 1 _ _).trans (Nat.add_comm _ _)

theorem length_takeWhile_of_split {starts : List Nat} {o i : Nat} (hi : i ≤ starts.length)
    (hbefore : ∀ s ∈ starts.take i, s ≤ o) (hafter : ∀ s ∈ starts.drop i, o < s) :
    (starts.takeWhile (· ≤ o)).length = i := by
  have hnone : (starts.drop i).takeWhile (· ≤ o) = [] := by
    cases hdrop : starts.drop i with
    | nil => rfl
    | cons s rest =>
        have hs := hafter s (by simp [hdrop])
        exact List.takeWhile_cons_of_neg (by simpa using hs)
  calc (starts.takeWhile (· ≤ o)).length
      = ((starts.take i ++ starts.drop i).takeWhile (· ≤ o)).length := by
        rw [List.take_append_drop]
    _ = (starts.take i).length := by
        rw [List.takeWhile_append_of_pos (by simpa using hbefore), hnone, List.append_nil]
    _ = i := List.length_take_of_le hi

/-- The first line starts at zero, so at least one line starts at or before any offset. -/
theorem line_locate_pos (text : List Char) (offset : Nat) : 0 < (locate text offset).line := by
  rw [line_locate, starts_ofText, List.map_cons, start_splitLines,
    List.takeWhile_cons_of_pos (by simp)]
  exact Nat.succ_pos _

/-- What any search for `o` in ascending line starts comes to.  It finds `o` at an index, or else
the place where `o` would be put in; the line is the one that starts there, or the one before it,
which exists and does not start beyond `o`. -/
structure SearchAnswer (starts : List Nat) (o line : Nat) : Prop where
  found : ∀ i, starts[i]? = some o → line = i + 1
  missed : ∀ i ≤ starts.length, (∀ s ∈ starts.take i, s < o) → (∀ s ∈ starts.drop i, o < s) →
    0 < i ∧ line = i
  reached : ∃ start ≤ o, starts[line - 1]? = some start

/-- The entry at which a search finds the offset is the last one that is not beyond it. -/
theorem length_takeWhile_of_getElem? {starts : List Nat} (hsorted : starts.Pairwise (· < ·))
    {o i : Nat} (h : starts[i]? = some o) : (starts.takeWhile (· ≤ o)).length = i + 1 := by
  obtain ⟨hi, hget⟩ := List.getElem?_eq_some_iff.mp h
  rw [← List.take_append_drop i starts, List.drop_eq_getElem_cons hi, hget,
    List.pairwise_append] at hsorted
  obtain ⟨-, hlater, hearlier⟩ := hsorted
  refine length_takeWhile_of_split hi ?_ (List.pairwise_cons.mp hlater).1
  intro s hs
  rw [List.take_succ_eq_append_getElem hi, hget, List.mem_append, List.mem_singleton] at hs
  rcases hs with hs | rfl
  · exact Nat.le_of_lt (hearlier s hs _ List.mem_cons_self)
  · exact Nat.le_refl _

theorem exists_getElem?_takeWhile {starts : List Nat} {o : Nat}
    (hpos : 0 < (starts.takeWhile (· ≤ o)).length) :
    ∃ start ≤ o, starts[(starts.takeWhile (· ≤ o)).length - 1]? = some start := by
  set reached := starts.takeWhile (· ≤ o) with hreached
  have hlast : reached.length - 1 < reached.length := by omega
  have hle := List.mem_takeWhile_imp (List.getElem_mem hlast)
  have hget := (List.takeWhile_prefix (l := starts) (· ≤ o)).getElem hlast
  exact ⟨reached[reached.length - 1], by simpa using hle,
    List.getElem?_eq_some_iff.mpr ⟨_, hget.symm⟩⟩

theorem searchAnswer_line_locate (text : List Char) (offset : Nat) :
    SearchAnswer (LineTable.ofText text).starts (min offset (byteSize text))
      (locate text offset).line := by
  have hpos := line_locate_pos text offset
  rw [line_locate] at hpos ⊢
  refine ⟨fun i hi ↦ length_takeWhile_of_getElem? (pairwise_splitLines 0 text) hi, ?_,
    exists_getElem?_takeWhile hpos⟩
  intro i hi hbefore hafter
  have hline := length_takeWhile_of_split hi (fun s hs ↦ Nat.le_of_lt (hbefore s hs)) hafter
  exact ⟨hline ▸ hpos, hline⟩

/-! ### Rescanning -/

/-- The bytes before an offset inside a character end with the first ones of the character. -/
theorem take_utf8_inside (u : List Char) (c : Char) (v : List Char) {k : Nat}
    (hlt : k < c.utf8Size) :
    (utf8 (u ++ c :: v)).take (byteSize u + k) = utf8 u ++ (String.utf8EncodeChar c).take k := by
  have hle : k ≤ (String.utf8EncodeChar c).length := by
    rw [String.length_utf8EncodeChar]
    omega
  rw [utf8_append, utf8_cons, ← length_utf8, List.take_length_add_append,
    List.take_append_of_le_length hle]

theorem newlineByte_notMem_take {c : Char} {k : Nat} (hpos : 0 < k) (hlt : k < c.utf8Size) :
    newlineByte ∉ (String.utf8EncodeChar c).take k := fun hmem ↦
  newlineByte_notMem_utf8EncodeChar (ne_newline_of_inside hpos hlt) (List.mem_of_mem_take hmem)

/-- What a scan of the first `o` bytes of a text counts. -/
structure Rescanned (text : List Char) (o : Nat) (p : Position) : Prop where
  line : p.line = ((utf8 text).take o).count newlineByte + 1
  column_of_boundary : ∀ before after, text = before ++ after → o = (utf8 before).length →
    p.column = (lastLine before).length + 1
  column_of_not_boundary : ¬ IsBoundary text o →
    p.column = (lastLineBytes ((utf8 text).take o)).length + 1

theorem rescanned_locate {text : List Char} {o : Nat} (ho : o ≤ byteSize text) :
    Rescanned text o (locate text o) where
  line := by
    rcases exists_cut ho with ⟨u, v, rfl, rfl⟩ | ⟨u, c, v, k, rfl, rfl, hpos, hlt⟩
    · rw [locate_append, utf8_append, ← length_utf8, List.take_left, count_utf8]
      rfl
    · have hnone := newlineByte_notMem_take hpos hlt
      rw [locate_inside u c v hpos hlt, take_utf8_inside u c v hlt, List.count_append, count_utf8,
        List.count_eq_zero.mpr hnone]
  column_of_boundary := by
    rintro before after rfl rfl
    rw [length_utf8, locate_append]
    rfl
  column_of_not_boundary h := by
    obtain ⟨u, c, v, k, rfl, rfl, hpos, hlt⟩ := (exists_cut ho).resolve_left h
    have hnone := newlineByte_notMem_take hpos hlt
    have hlength : ((String.utf8EncodeChar c).take k).length = k :=
      List.length_take_of_le (by simpa [String.length_utf8EncodeChar] using Nat.le_of_lt hlt)
    rw [locate_inside u c v hpos hlt, take_utf8_inside u c v hlt,
      lastLineBytes_append_of_notMem _ hnone, List.length_append, List.length_reverse, hlength,
      length_lastLineBytes_utf8, Nat.add_comm k]

/-- A lookup in the line table comes to the position that a scan of the text before the offset
counts, a search for its line always has one to answer, and positions between characters are
told apart in the order of their offsets. -/
theorem locate_eq_rescan (text : List Char) :
    (∀ offset, Rescanned text (min offset (utf8 text).length) (locate text offset)) ∧
    (∀ offset, SearchAnswer (LineTable.ofText text).starts (min offset (utf8 text).length)
      (locate text offset).line) ∧
    Set.InjOn (locate text) {o | IsBoundary text o} ∧
    StrictMonoOn (locate text) {o | IsBoundary text o} := by
  have hmono : StrictMonoOn (locate text) {o | IsBoundary text o} :=
    fun _ ha _ hb hlt ↦ locate_lt_locate ha hb hlt
  refine ⟨fun offset ↦ ?_, fun offset ↦ ?_, hmono.injOn, hmono⟩
  · rw [length_utf8, ← locate_min]
    exact rescanned_locate (Nat.min_le_right _ _)
  · rw [length_utf8]
    exact searchAnswer_line_locate text offset

example : locate ['a', '\n', '\u3000', 'x'] 4 = ⟨2, 3⟩ := by decide

end Sigil
