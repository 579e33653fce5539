import Mathlib.Data.List.TakeWhile
import Sigil.Text.Position

/-!
# Positions count what stands before them

The position of an offset between two characters follows from the text before it: its
line is the number of newlines, and its column the number of characters after the last
one, both counted from one.  What stands after the offset does not matter.  Written
out, a position takes one line.
-/

namespace Sigil

/-- The characters after the last newline of a text, the last one first. -/
def lastLine (text : List Char) : List Char := text.reverse.takeWhile (· != '\n')

/-- What stands behind the last `x` is found from the end, so a part without it is all there. -/
theorem takeWhile_reverse_append_of_notMem {α : Type*} [BEq α] [LawfulBEq α] {x : α} (u : List α)
    {v : List α} (h : x ∉ v) :
    (u ++ v).reverse.takeWhile (· != x) = v.reverse ++ u.reverse.takeWhile (· != x) := by
  rw [List.reverse_append]
  refine List.takeWhile_append_of_pos fun y hy ↦ ?_
  have hne : y ≠ x := fun heq ↦ h (heq ▸ List.mem_reverse.mp hy)
  simpa using hne

theorem lastLine_append_of_notMem (u : List Char) {v : List Char} (h : '\n' ∉ v) :
    lastLine (u ++ v) = v.reverse ++ lastLine u :=
  takeWhile_reverse_append_of_notMem u h

theorem lastLine_of_notMem {v : List Char} (h : '\n' ∉ v) : lastLine v = v.reverse := by
  simpa [lastLine] using lastLine_append_of_notMem [] h

theorem lastLine_append_newline (u v : List Char) : lastLine (u ++ '\n' :: v) = lastLine v := by
  have hreverse : (u ++ '\n' :: v).reverse = v.reverse ++ '\n' :: u.reverse := by simp
  rw [lastLine, hreverse, List.takeWhile_append]
  split
  · rename_i hlength
    rw [List.takeWhile_cons_of_neg (by simp), List.append_nil]
    exact ((List.takeWhile_prefix _).eq_of_length hlength).symm
  · rfl

/-- The position right after a text. -/
def Position.after (text : List Char) : Position :=
  ⟨text.count '\n' + 1, (lastLine text).length + 1⟩

/-- A newline starts a new line and a new count of characters. -/
theorem Position.after_append_newline (u v : List Char) :
    after (u ++ '\n' :: v) = { after v with line := (after v).line + (1 + u.count '\n') } := by
  rw [after, after, lastLine_append_newline, List.count_append, List.count_cons_self]
  simp only [Position.mk.injEq, and_true]
  omega

/-! ### Lines -/

@[simp] theorem charsIn?_zero (text : List Char) : charsIn? 0 text = some 0 := by
  cases text <;> rfl

/-- A cut behind a whole text falls as far into what follows it. -/
theorem charsIn?_append (v : List Char) (k : Nat) (s : List Char) :
    charsIn? (byteSize v + k) (v ++ s) = (charsIn? k s).map (· + v.length) := by
  induction v with
  | nil => simp
  | cons c v ih =>
      have hpos := c.utf8Size_pos
      have hne : c.utf8Size + byteSize v + k ≠ 0 := by omega
      have hle : ¬ c.utf8Size + byteSize v + k < c.utf8Size := by omega
      have hsub : c.utf8Size + byteSize v + k - c.utf8Size = byteSize v + k := by omega
      rw [byteSize_cons, List.cons_append, charsIn?, if_neg hne, if_neg hle, hsub, ih,
        Option.map_map]
      rfl

theorem start_splitLines (start : Nat) (text : List Char) :
    (splitLines start text).1.start = start := by
  cases text with
  | nil => rfl
  | cons c text =>
      rw [splitLines]
      split <;> rfl

/-- Each later line starts behind the newline that ends the one before it. -/
theorem start_lt_of_mem_splitLines {start : Nat} {text : List Char} {line : Line}
    (h : line ∈ (splitLines start text).2) : start < line.start := by
  induction text generalizing start with
  | nil => cases h
  | cons c text ih =>
      rw [splitLines] at h
      split at h
      · obtain rfl | h := List.mem_cons.mp h
        · rw [start_splitLines]
          exact Nat.lt_succ_self start
        · exact Nat.lt_of_succ_lt (ih h)
      · exact Nat.lt_of_le_of_lt (Nat.le_add_right _ _) (ih h)

/-- Characters other than newlines belong to the first line. -/
theorem splitLines_append_of_notMem (start : Nat) {v : List Char} (h : '\n' ∉ v) (s : List Char) :
    splitLines start (v ++ s) =
      (⟨start, v ++ (splitLines (start + byteSize v) s).1.text⟩,
        (splitLines (start + byteSize v) s).2) := by
  induction v generalizing start with
  | nil =>
      have hfirst : (splitLines start s).1 = ⟨start, (splitLines start s).1.text⟩ :=
        congrArg (Line.mk · _) (start_splitLines start s)
      exact Prod.ext hfirst rfl
  | cons c v ih =>
      obtain ⟨hc, hv⟩ := not_or.mp (List.mem_cons.not.mp h)
      rw [List.cons_append, splitLines, if_neg (Ne.symm hc), ih _ hv, byteSize_cons, Nat.add_assoc]
      rfl

theorem lineAt_of_forall_lt {offset number : Nat} {line : Line} {lines : List Line}
    (h : ∀ next ∈ lines, offset < next.start) :
    lineAt offset number line lines = (number, line) := by
  cases lines with
  | nil => rfl
  | cons next lines => rw [lineAt, if_neg (Nat.not_le.mpr (h next List.mem_cons_self))]

/-- The line of an offset is the one that the newlines before it lead to: it starts with what
stands behind the last of them.  The text before the offset is cut at its first newline, as the
table is made. -/
theorem exists_lineAt (start number k : Nat) (u v : List Char)
    (h : ∀ next ∈ (splitLines (start + byteSize u) v).2, start + byteSize u + k < next.start) :
    ∃ line, lineAt (start + byteSize u + k) number (splitLines start (u ++ v)).1
        (splitLines start (u ++ v)).2 = (number + u.count '\n', line) ∧
      line.start + byteSize (lastLine u).reverse = start + byteSize u ∧
      line.text = (lastLine u).reverse ++ (splitLines (start + byteSize u) v).1.text := by
  by_cases hmem : '\n' ∈ u
  · obtain ⟨x, y, rfl, hx⟩ := List.eq_append_cons_of_mem hmem
    have hoffset : start + byteSize (x ++ '\n' :: y) = start + byteSize x + 1 + byteSize y := by
      rw [byteSize_append, byteSize_cons, show '\n'.utf8Size = 1 from rfl]
      omega
    rw [hoffset] at h ⊢
    obtain ⟨line, hline, hrest⟩ := exists_lineAt (start + byteSize x + 1) (number + 1) k y v h
    refine ⟨line, ?_, by rwa [lastLine_append_newline]⟩
    have hsplit : splitLines start (x ++ '\n' :: y ++ v) =
        (⟨start, x⟩, (splitLines (start + byteSize x + 1) (y ++ v)).1 ::
          (splitLines (start + byteSize x + 1) (y ++ v)).2) := by
      rw [List.append_assoc, List.cons_append, splitLines_append_of_notMem start hx, splitLines,
        if_pos rfl, List.append_nil]
    have hle : start + byteSize x + 1 ≤ start + byteSize x + 1 + byteSize y + k := by omega
    rw [hsplit, lineAt, start_splitLines, if_pos hle, hline, List.count_append,
      List.count_cons_self, List.count_eq_zero.mpr hx]
    congr 1
    omega
  · refine ⟨⟨start, u ++ (splitLines (start + byteSize u) v).1.text⟩, ?_, ?_⟩
    · rw [splitLines_append_of_notMem start hmem, List.count_eq_zero.mpr hmem]
      exact lineAt_of_forall_lt h
    · rw [lastLine_of_notMem hmem, List.reverse_reverse]
      exact ⟨rfl, rfl⟩
termination_by u.length
decreasing_by
  subst_vars
  simp
  omega

/-- The position of an offset that is `k` bytes into the line that follows a text. -/
theorem locate_append_add (u v : List Char) (k : Nat) (hk : k ≤ byteSize v)
    (h : ∀ next ∈ (splitLines (byteSize u) v).2, byteSize u + k < next.start) :
    locate (u ++ v) (byteSize u + k) =
      ⟨u.count '\n' + 1, (((charsIn? k (splitLines (byteSize u) v).1.text).map
        (· + (lastLine u).length)).getD (byteSize (lastLine u).reverse + k)) + 1⟩ := by
  obtain ⟨line, hline, hstart, htext⟩ := exists_lineAt 0 1 k u v (by simpa using h)
  rw [Nat.zero_add] at hline hstart htext
  have hoffset : min (byteSize u + k) (byteSize (u ++ v)) = byteSize u + k := by
    rw [byteSize_append]
    omega
  have hbytes : byteSize u + k - line.start = byteSize (lastLine u).reverse + k := by omega
  simp only [locate, LineTable.ofText, LineTable.locate, hoffset, hline, hbytes, htext,
    charsIn?_append, List.length_reverse, Nat.add_comm 1]

/-- The position of an offset between two characters is the one after the text before it. -/
theorem locate_append (u v : List Char) : locate (u ++ v) (byteSize u) = .after u := by
  have hlocate := locate_append_add u v 0 (Nat.zero_le _) fun next hnext ↦
    start_lt_of_mem_splitLines hnext
  simpa [Position.after] using hlocate

/-! ### Texts on one line -/

def IsLine (text : String) : Prop := '\n' ∉ text.toList

instance : DecidablePred IsLine := fun text ↦ inferInstanceAs (Decidable ('\n' ∉ text.toList))

@[simp] theorem isLine_append {a b : String} : IsLine (a ++ b) ↔ IsLine a ∧ IsLine b := by
  simp [IsLine]

theorem isLine_toString (n : Nat) : IsLine (toString n) := by
  intro hmem
  have hdigits : (toString n).toList = Nat.toDigits 10 n := by simp [toString, Nat.repr]
  rw [hdigits] at hmem
  exact absurd (Nat.isDigit_of_mem_toDigits (by decide) (by decide) hmem) (by decide)

theorem Position.isLine_text (p : Position) : IsLine p.text := by
  rw [Position.text, isLine_append, isLine_append]
  exact ⟨⟨isLine_toString p.line, by decide⟩, isLine_toString p.column⟩

end Sigil
