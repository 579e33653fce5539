import Mathlib.Algebra.Group.Even
import Mathlib.Algebra.Group.Nat.Even
import Mathlib.Data.List.Basic
import Mathlib.Logic.Function.Basic
import Sigil.Value.Basic

/-!
# Protected text

Text is substituted into a template so that it can stand between quotes there: control
characters and backslashes become escapes of two characters, and quotes are doubled.  So a quote
that stands alone, before or behind the text, is never taken for a part of it.  Nothing is lost,
since the text can be read back.
-/

namespace Sigil

/-! ### The code -/

/-- The control characters that do not occur in protected text. -/
def protectedControls : List Char := ['\x00', '\n', '\r', '\x08', '\t', '\x1a']

/-- The escapes of protected text: the letter behind the backslash, and what it stands for. -/
def protectEscapes : List (Char × Char) :=
  [('0', '\x00'), ('n', '\n'), ('r', '\r'), ('b', '\x08'), ('t', '\t'), ('Z', '\x1a'), ('\\', '\\')]

/-- The characters that protected text has twice. -/
def doubledQuotes : List Char := ['\x27', '\x22']

/-- The letters of the escapes. -/
def escapeLetters : List Char := protectEscapes.map Prod.fst

theorem of_mem_protectEscapes {letter c : Char} (h : (letter, c) ∈ protectEscapes) :
    protectChar c = ['\\', letter] ∧ protectEscapes.lookup letter = some c ∧
      letter ∉ doubledQuotes ∧ letter ∉ protectedControls := by
  simp only [protectEscapes, List.mem_cons, Prod.mk.injEq, List.not_mem_nil, or_false] at h
  rcases h with ⟨rfl, rfl⟩ | ⟨rfl, rfl⟩ | ⟨rfl, rfl⟩ | ⟨rfl, rfl⟩ | ⟨rfl, rfl⟩ | ⟨rfl, rfl⟩ |
    ⟨rfl, rfl⟩ <;> decide

theorem of_mem_doubledQuotes {q : Char} (h : q ∈ doubledQuotes) :
    protectChar q = [q, q] ∧ q ≠ '\\' ∧ q ∉ protectedControls := by
  simp only [doubledQuotes, List.mem_cons, List.not_mem_nil, or_false] at h
  rcases h with rfl | rfl <;> decide

theorem exists_mem_protectEscapes {c : Char} (h : c ∈ protectedControls ∨ c = '\\') :
    ∃ letter, (letter, c) ∈ protectEscapes := by
  have htable : protectEscapes.map Prod.snd = protectedControls ++ ['\\'] := rfl
  have hmem : c ∈ protectEscapes.map Prod.snd := by simpa [htable] using h
  obtain ⟨⟨letter, _⟩, hpair, rfl⟩ := List.mem_map.mp hmem
  exact ⟨letter, hpair⟩

/-- A character is escaped, doubled or kept. -/
theorem protectChar_cases (c : Char) :
    (∃ letter, (letter, c) ∈ protectEscapes ∧ protectChar c = ['\\', letter]) ∨
    (c ∈ doubledQuotes ∧ protectChar c = [c, c]) ∨
    (c ∉ protectedControls ∧ c ∉ doubledQuotes ∧ c ≠ '\\' ∧ protectChar c = [c]) := by
  by_cases hescape : c ∈ protectedControls ∨ c = '\\'
  · obtain ⟨letter, hmem⟩ := exists_mem_protectEscapes hescape
    exact .inl ⟨letter, hmem, (of_mem_protectEscapes hmem).1⟩
  by_cases hquote : c ∈ doubledQuotes
  · exact .inr (.inl ⟨hquote, (of_mem_doubledQuotes hquote).1⟩)
  obtain ⟨hcontrol, hslash⟩ := not_or.mp hescape
  refine .inr (.inr ⟨hcontrol, hquote, hslash, ?_⟩)
  simp only [protectedControls, doubledQuotes, List.mem_cons, List.not_mem_nil, or_false,
    not_or] at hcontrol hquote
  simp [protectChar, hcontrol, hquote, hslash]

/-- Reads protected text back: an escape is its character, and a doubled quote a single one. -/
def unprotect : List Char → List Char
  | [] => []
  | [c] => [c]
  | c :: d :: text =>
    if c = '\\' then (protectEscapes.lookup d).getD d :: unprotect text
    else if c ∈ doubledQuotes then c :: unprotect text
    else c :: unprotect (d :: text)

theorem unprotect_protectChar_append (c : Char) (text : List Char) :
    unprotect (protectChar c ++ text) = c :: unprotect text := by
  rcases protectChar_cases c with ⟨letter, hmem, hc⟩ | ⟨hmem, hc⟩ | ⟨-, hquote, hslash, hc⟩
  · simp [hc, unprotect, (of_mem_protectEscapes hmem).2.1]
  · have hslash := (of_mem_doubledQuotes hmem).2.1
    simp [hc, unprotect, hslash, hmem]
  · cases text with
    | nil => simp [hc, unprotect]
    | cons d text => simp [hc, unprotect, hslash, hquote]

theorem unprotect_protect (text : List Char) : unprotect (protect text) = text := by
  induction text with
  | nil => rfl
  | cons c text ih =>
      rw [protect, List.flatMap_cons, unprotect_protectChar_append]
      exact congrArg (c :: ·) ih

/-! ### Pairs -/

/-- Read from left to right, each `lead` starts a pair that one of `seconds` completes. -/
inductive Paired (lead : Char) (seconds : List Char) : List Char → Prop where
  | nil : Paired lead seconds []
  | other {c : Char} {text : List Char} (hc : c ≠ lead) (h : Paired lead seconds text) :
      Paired lead seconds (c :: text)
  | pair {c : Char} {text : List Char} (hc : c ∈ seconds) (h : Paired lead seconds text) :
      Paired lead seconds (lead :: c :: text)

variable {lead q : Char} {seconds : List Char}

theorem Paired.append {u v : List Char} (hu : Paired lead seconds u) (hv : Paired lead seconds v) :
    Paired lead seconds (u ++ v) := by
  induction hu with
  | nil => exact hv
  | other hc _ ih => exact .other hc ih
  | pair hc _ ih => exact .pair hc ih

theorem paired_protect (h : ∀ c, Paired lead seconds (protectChar c)) (text : List Char) :
    Paired lead seconds (protect text) := by
  induction text with
  | nil => exact .nil
  | cons c text ih => exact (h c).append ih

theorem paired_escapes (c : Char) : Paired '\\' escapeLetters (protectChar c) := by
  rcases protectChar_cases c with ⟨letter, hmem, hc⟩ | ⟨hmem, hc⟩ | ⟨-, -, hslash, hc⟩
  · rw [hc]
    exact .pair (List.mem_map_of_mem hmem) .nil
  · have hslash := (of_mem_doubledQuotes hmem).2.1
    rw [hc]
    exact .other hslash (.other hslash .nil)
  · rw [hc]
    exact .other hslash .nil

theorem paired_quotes (hq : q ∈ doubledQuotes) (c : Char) : Paired q [q] (protectChar c) := by
  rcases protectChar_cases c with ⟨letter, hmem, hc⟩ | ⟨-, hc⟩ | ⟨-, hquote, -, hc⟩
  · have hletter : letter ≠ q := fun heq ↦ (of_mem_protectEscapes hmem).2.2.1 (heq ▸ hq)
    rw [hc]
    exact .other (of_mem_doubledQuotes hq).2.1.symm (.other hletter .nil)
  · rw [hc]
    by_cases heq : c = q
    · subst heq
      exact .pair List.mem_cons_self .nil
    · exact .other heq (.other heq .nil)
  · rw [hc]
    exact .other (fun heq ↦ hquote (heq ▸ hq)) .nil

/-- Each run of `q`, taken as far as it goes to both sides, has an even length. -/
def EvenRuns (q : Char) (text : List Char) : Prop :=
  ∀ u k v, text = u ++ List.replicate k q ++ v → u.getLast? ≠ some q → v.head? ≠ some q → Even k

theorem getLast?_ne_of_cons {c : Char} {u : List Char} (h : (c :: u).getLast? ≠ some q) :
    u.getLast? ≠ some q := by
  intro hlast
  rw [List.getLast?_cons, hlast] at h
  exact h rfl

/-- What stands behind a part that does not end with `q` is paired by itself. -/
theorem Paired.of_append {u w : List Char} (h : Paired q [q] (u ++ w)) (hu : u.getLast? ≠ some q) :
    Paired q [q] w := by
  generalize htext : u ++ w = text at h
  induction h generalizing u with
  | nil =>
      obtain ⟨-, rfl⟩ := List.append_eq_nil_iff.mp htext
      exact .nil
  | other hc h ih =>
      cases u with
      | nil =>
          obtain rfl : w = _ := htext
          exact .other hc h
      | cons d u => exact ih (getLast?_ne_of_cons hu) (List.cons.inj htext).2
  | pair hc h ih =>
      match u with
      | [] =>
          obtain rfl : w = _ := htext
          exact .pair hc h
      | [d] =>
          -- the part would end inside the pair, with its lead
          obtain ⟨rfl, -⟩ := List.cons.inj htext
          exact absurd rfl hu
      | d :: e :: u =>
          have hrest := (List.cons.inj (List.cons.inj htext).2).2
          exact ih (getLast?_ne_of_cons (getLast?_ne_of_cons hu)) hrest

/-- A run at the front of a paired text is made of whole pairs. -/
theorem Paired.even_replicate {k : Nat} {v : List Char} (h : Paired q [q] (List.replicate k q ++ v))
    (hv : v.head? ≠ some q) : Even k := by
  match k with
  | 0 => exact Even.zero
  | 1 =>
      cases h with
      | other hc _ => exact absurd rfl hc
      | pair hc _ => exact absurd (congrArg some (List.mem_singleton.mp hc)) hv
  | k + 2 =>
      cases h with
      | other hc _ => exact absurd rfl hc
      | pair _ h => exact (h.even_replicate hv).add ⟨1, rfl⟩

theorem Paired.evenRuns {text : List Char} (h : Paired q [q] text) : EvenRuns q text := by
  rintro u k v rfl hu hv
  rw [List.append_assoc] at h
  exact (h.of_append hu).even_replicate hv

/-! ### Substituted text -/

theorem notMem_protect {c : Char} (hc : c ∈ protectedControls) (text : List Char) :
    c ∉ protect text := by
  intro hmem
  obtain ⟨d, -, hd⟩ := List.mem_flatMap.mp hmem
  rcases protectChar_cases d with ⟨letter, hletter, heq⟩ | ⟨hquote, heq⟩ | ⟨hcontrol, -, -, heq⟩
  · obtain rfl | rfl : c = '\\' ∨ c = letter := by simpa [heq] using hd
    · simp [protectedControls] at hc
    · exact (of_mem_protectEscapes hletter).2.2.2 hc
  · have hcd : c = d := by simpa [heq] using hd
    exact (of_mem_doubledQuotes hquote).2.2 (hcd ▸ hc)
  · have hcd : c = d := by simpa [heq] using hd
    exact hcontrol (hcd ▸ hc)

/-- Reads back the text that was substituted for a text value. -/
def unsubstituted (text : String) : String := String.ofList (unprotect text.toList)

/-- Substituted text can stand between quotes: it has no control characters, its quotes come in
pairs and its backslashes start escapes.  It can be read back, so no two texts have it in
common. -/
theorem substituted_text_readable :
    (∀ s : String, (∀ c ∈ protectedControls, c ∉ (Value.text s).substituted.toList) ∧
      (∀ q ∈ doubledQuotes, EvenRuns q (Value.text s).substituted.toList) ∧
      Paired '\\' escapeLetters (Value.text s).substituted.toList ∧
      unsubstituted (Value.text s).substituted = s) ∧
    Function.Injective fun s : String ↦ (Value.text s).substituted := by
  have htext (s : String) : (Value.text s).substituted.toList = protect s.toList :=
    String.toList_ofList
  have hread : Function.LeftInverse unsubstituted fun s : String ↦ (Value.text s).substituted := by
    intro s
    rw [unsubstituted, htext, unprotect_protect, String.ofList_toList]
  refine ⟨fun s ↦ ⟨?_, ?_, ?_, hread s⟩, hread.injective⟩
  · intro c hc
    rw [htext]
    exact notMem_protect hc s.toList
  · intro q hq
    rw [htext]
    exact (paired_protect (paired_quotes hq) s.toList).evenRuns
  · rw [htext]
    exact paired_protect paired_escapes s.toList

example : (Value.text "it's\n").substituted = "it''s\\n" := by decide

end Sigil
