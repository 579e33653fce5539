import Mathlib.Data.Prod.Lex
import Sigil.Proofs.Text.Position

/-!
# Positions in order

Positions are ordered as they are read: by their lines, and on one line by their columns.
Further on in a text is further on in this order.
-/

namespace Sigil

namespace Position

def key (p : Position) : Nat ×ₗ Nat := toLex (p.line, p.column)

instance : LinearOrder Position := LinearOrder.lift' key fun p q h ↦ by
  obtain ⟨hline, hcolumn⟩ := Prod.mk.inj h
  cases p
  cases q
  exact congrArg₂ mk hline hcolumn

theorem lt_iff {p q : Position} :
    p < q ↔ p.line < q.line ∨ p.line = q.line ∧ p.column < q.column :=
  Prod.Lex.toLex_lt_toLex

/-- More text is on a later line if there is a newline in it, and has more columns if there is
none. -/
theorem after_lt_after_append (u : List Char) {v : List Char} (hv : v ≠ []) :
    after u < after (u ++ v) := by
  rw [lt_iff]
  by_cases hmem : '\n' ∈ v
  · left
    have hpos := List.count_pos_iff.mpr hmem
    rw [after, after, List.count_append]
    exact Nat.succ_lt_succ (Nat.lt_add_of_pos_right hpos)
  · right
    have hline := lastLine_append_of_notMem u hmem
    have hpos := List.length_pos_iff.mpr hv
    rw [after, after, List.count_append, List.count_eq_zero.mpr hmem, hline, List.length_append,
      List.length_reverse]
    exact ⟨rfl, Nat.succ_lt_succ (Nat.lt_add_of_pos_left hpos)⟩

end Position

/-- The offset is between two characters of the text, or at one of its ends. -/
def IsBoundary (text : List Char) (offset : Nat) : Prop :=
  ∃ before after, text = before ++ after ∧ offset = byteSize before

theorem locate_lt_locate {text : List Char} {a b : Nat} (ha : IsBoundary text a)
    (hb : IsBoundary text b) (h : a < b) : locate text a < locate text b := by
  obtain ⟨u, x, rfl, rfl⟩ := ha
  obtain ⟨w, y, htext, rfl⟩ := hb
  rcases List.append_eq_append_iff.mp htext with ⟨v, rfl, rfl⟩ | ⟨v, rfl, rfl⟩
  · have hv : v ≠ [] := by
      rintro rfl
      simp at h
    rw [locate_append, ← List.append_assoc, locate_append]
    exact Position.after_lt_after_append u hv
  · rw [byteSize_append] at h
    omega

theorem locate_le_locate {text : List Char} {a b : Nat} (ha : IsBoundary text a)
    (hb : IsBoundary text b) (h : a ≤ b) : locate text a ≤ locate text b := by
  rcases Nat.lt_or_eq_of_le h with hlt | rfl
  · exact le_of_lt (locate_lt_locate ha hb hlt)
  · exact le_refl _

end Sigil
