import Sigil.Proofs.Evaluation.Template
import Sigil.Proofs.Token.SigilName

/-!
# Interpolation substitutes once

A template splits in one way into text, sigils that no name follows, and references.
Each piece gives its own part of the result, so what has been substituted for one is
not looked at again.  A reference reaches as far as the name that a script would have
there.
-/

namespace Sigil

theorem exists_append_of_notMem {s : Char} {chars rest before after : List Char} (h : s ∉ chars)
    (heq : chars ++ rest = before ++ s :: after) :
    ∃ middle, before = chars ++ middle ∧ rest = middle ++ s :: after := by
  rcases List.append_eq_append_iff.mp heq with ⟨middle, hbefore, hrest⟩ | ⟨middle, hchars, hrest⟩
  · exact ⟨middle, hbefore, hrest⟩
  · cases middle with
    | nil => exact ⟨[], by simpa using hchars.symm, by simpa using hrest.symm⟩
    | cons c middle =>
        obtain ⟨rfl, -⟩ := List.cons.inj hrest
        rw [hchars] at h
        exact absurd List.mem_append_cons_self h

namespace TemplatePiece

/-! ### One split -/

/-- The pieces are a split of the template.  Text has no sigil and goes on up to the next one; no
name character follows a sigil that is alone, nor the run of a reference. -/
inductive Splits : List TemplatePiece → List Char → Prop
  | done : Splits [] []
  | text {chars rest : List Char} {pieces : List TemplatePiece} (hne : chars ≠ [])
      (hplain : '@' ∉ chars) (hstop : ∀ c ∈ rest.head?, c = '@') (hrest : Splits pieces rest) :
      Splits (.text chars :: pieces) (chars ++ rest)
  | sigil {rest : List Char} {pieces : List TemplatePiece}
      (hstop : ∀ c ∈ rest.head?, isNameChar c = false) (hrest : Splits pieces rest) :
      Splits (.sigil :: pieces) ('@' :: rest)
  | reference {run rest : List Char} {pieces : List TemplatePiece} (hrun : IsNameRun run rest)
      (hrest : Splits pieces rest) : Splits (.reference run :: pieces) ('@' :: (run ++ rest))

variable {pieces : List TemplatePiece} {template : List Char}

theorem splits_all (template : List Char) : Splits (all template) template := by
  fun_induction all template with
  | case1 => exact .done
  | case2 cs hempty ih =>
      refine .sigil (fun c hc ↦ ?_) ih
      obtain ⟨tail, rfl⟩ := List.head?_eq_some_iff.mp hc
      by_contra hname
      simp [List.takeWhile_cons, hname] at hempty
  | case3 cs hempty ih =>
      have hsplit := Splits.reference (IsNameRun.of_takeWhile (by simpa using hempty)) ih
      rwa [List.takeWhile_append_dropWhile] at hsplit
  | case4 c cs hc ih =>
      have hplain : '@' ∉ c :: cs.takeWhile (· != '@') := by
        rw [List.mem_cons, not_or]
        refine ⟨Ne.symm hc, fun hmem ↦ ?_⟩
        simpa using List.mem_takeWhile_imp hmem
      have hstop : ∀ d ∈ (cs.dropWhile (· != '@')).head?, d = '@' := by
        intro d hd
        simpa using eq_false_of_mem_head?_dropWhile hd
      have hsplit := Splits.text (List.cons_ne_nil _ _) hplain hstop ih
      rwa [List.cons_append, List.takeWhile_append_dropWhile] at hsplit

theorem Splits.eq_all (h : Splits pieces template) : pieces = all template := by
  induction h with
  | done => rw [all]
  | @text chars rest pieces hne hplain hstop hrest ih =>
      obtain ⟨c, cs, rfl⟩ := List.exists_cons_of_ne_nil hne
      rw [List.mem_cons, not_or] at hplain
      have hcs : ∀ d ∈ cs, (d != '@') = true := by
        intro d hd
        rw [bne_iff_ne]
        rintro rfl
        exact hplain.2 hd
      have hend : ∀ d ∈ rest.head?, (d != '@') = false := by
        intro d hd
        simpa using hstop d hd
      rw [List.cons_append, all, if_neg (Ne.symm hplain.1), takeWhile_append_of_stop hcs hend,
        dropWhile_append_of_stop hcs hend, ← ih]
  | @sigil rest pieces hstop hrest ih =>
      have hempty : (rest.takeWhile isNameChar).isEmpty = true := by
        have hnil := @takeWhile_append_of_stop isNameChar [] rest (by simp) hstop
        rw [List.nil_append] at hnil
        rw [hnil, List.isEmpty_nil]
      rw [all, if_pos rfl, if_pos hempty, ← ih]
  | reference hrun hrest ih =>
      rw [all, if_pos rfl, hrun.takeWhile_append, hrun.dropWhile_append,
        if_neg (by simpa using hrun.ne_nil), ← ih]

theorem splits_iff : Splits pieces template ↔ pieces = all template := by
  constructor
  · exact Splits.eq_all
  · rintro rfl
    exact splits_all template

/-- Every sigil of a template starts a piece. -/
theorem Splits.exists_front (h : Splits pieces template) :
    ∀ {before after : List Char}, template = before ++ '@' :: after →
      ∃ front back, pieces = front ++ back ∧ front.flatMap source = before ∧
        Splits back ('@' :: after) := by
  induction h with
  | done =>
      intro before after heq
      simp at heq
  | text hne hplain hstop hrest ih =>
      intro before after heq
      obtain ⟨middle, rfl, hmiddle⟩ := exists_append_of_notMem hplain heq
      obtain ⟨front, back, rfl, rfl, hback⟩ := ih hmiddle
      exact ⟨_ :: front, back, rfl, rfl, hback⟩
  | sigil hstop hrest ih =>
      intro before after heq
      cases before with
      | nil =>
          obtain ⟨-, rfl⟩ := List.cons.inj heq
          exact ⟨[], _, rfl, rfl, .sigil hstop hrest⟩
      | cons c before =>
          obtain ⟨rfl, htail⟩ := List.cons.inj heq
          obtain ⟨front, back, rfl, rfl, hback⟩ := ih htail
          exact ⟨_ :: front, back, rfl, rfl, hback⟩
  | @reference run rest pieces hrun hrest ih =>
      intro before after heq
      cases before with
      | nil =>
          obtain ⟨-, rfl⟩ := List.cons.inj heq
          exact ⟨[], _, rfl, rfl, .reference hrun hrest⟩
      | cons c before =>
          obtain ⟨rfl, htail⟩ := List.cons.inj heq
          have hplain : '@' ∉ run := fun hmem ↦ absurd (hrun.chars _ hmem) (by decide)
          obtain ⟨middle, rfl, hmiddle⟩ := exists_append_of_notMem hplain htail
          obtain ⟨front, back, rfl, rfl, hback⟩ := ih hmiddle
          exact ⟨_ :: front, back, rfl, rfl, hback⟩

/-! ### What pieces give -/

/-- The part of a result that a piece gives.  Text and a sigil by itself stay as they are, and so
does a reference to a name that there is not; otherwise the value of the name takes its place. -/
inductive Gives (env : Environment) : TemplatePiece → List Char → Prop
  | text (chars : List Char) : Gives env (.text chars) chars
  | sigil : Gives env .sigil ['@']
  | value {run : List Char} {value : Value} (hhas : env.has (String.ofList ('@' :: run)) = true)
      (hget : env.get (String.ofList ('@' :: run)) = .ok value) :
      Gives env (.reference run) value.substituted.toList
  | unbound {run : List Char} (hhas : env.has (String.ofList ('@' :: run)) = false) :
      Gives env (.reference run) ('@' :: run)

theorem gives_expansion (env : Environment) (piece : TemplatePiece) :
    Gives env piece (piece.expansion env) := by
  cases piece with
  | text chars => exact .text chars
  | sigil => exact .sigil
  | reference run =>
      have hlookups := env.has_iff_get (String.ofList ('@' :: run))
      rw [expansion]
      cases hget : env.get (String.ofList ('@' :: run)) with
      | ok value => exact .value (hlookups.mpr ⟨value, hget⟩) hget
      | error e =>
          refine .unbound (Bool.eq_false_iff.mpr fun hhas ↦ ?_)
          obtain ⟨value, hvalue⟩ := hlookups.mp hhas
          cases hget.symm.trans hvalue

end TemplatePiece

open TemplatePiece

/-- Interpolation succeeds.  The template has one split, and the result is what its pieces give, one
after the other.  Where a script would have a name at a sigil of the template, the piece that starts
there is the reference to that name. -/
theorem interpolate_substitutes_once (env : Environment) (template : String) :
    ∃ pieces texts, (∀ others, Splits others template.toList ↔ others = pieces) ∧
      List.Forall₂ (Gives env) pieces texts ∧
      interpolate env template = .ok (String.ofList texts.flatten) ∧
      (Expr.template template).eval env = .value (.text (String.ofList texts.flatten)) env ∧
      ∀ before after name, template.toList = before ++ '@' :: after →
        (Lexeme.scan '@' after).lexeme = .token .identifier (.text name) →
        ∃ front run back, pieces = front ++ .reference run :: back ∧
          front.flatMap source = before ∧ name = String.ofList ('@' :: run) := by
  have hgives : List.Forall₂ (Gives env) (all template.toList)
      ((all template.toList).map (TemplatePiece.expansion env)) :=
    List.forall₂_map_right_iff.mpr (List.forall₂_same.mpr fun piece _ ↦ gives_expansion env piece)
  refine ⟨all template.toList, _, fun others ↦ splits_iff, hgives, interpolate_eq env template,
    Expr.eval_template template env, ?_⟩
  intro before after name htemplate hscan
  obtain ⟨front, back, hpieces, hfront, hback⟩ :=
    (splits_all template.toList).exists_front htemplate
  rw [Lexeme.scan_sigil] at hscan
  obtain ⟨run, rest, rfl, hrun, -, -, hname⟩ := Lexeme.exists_run_of_sigilName hscan
  have hreference := (Splits.reference hrun (splits_all rest)).eq_all
  refine ⟨front, run, all rest, ?_, hfront, Value.text.inj hname⟩
  rw [hpieces, hback.eq_all, hreference]

/-- What takes the place of the first name has the second one in it. -/
theorem interpolate_between_names :
    let env : Environment := ⟨[⟨[("@a", .text "@b's")], [("@b", .boolean true)], none⟩], 0⟩
    interpolate env "@a@b @" = .ok "@b''strue @" ∧
      ∃ pieces, (∀ others, Splits others "@a@b @".toList ↔ others = pieces) ∧
        ∃ front run back, pieces = front ++ .reference run :: back ∧
          front.flatMap source = ['@', 'a'] ∧ "@b" = String.ofList ('@' :: run) := by
  intro env
  refine ⟨by cbv, ?_⟩
  obtain ⟨pieces, texts, hsplit, -, -, -, hnames⟩ := interpolate_substitutes_once env "@a@b @"
  exact ⟨pieces, hsplit, hnames ['@', 'a'] ['b', ' ', '@'] "@b" rfl rfl⟩

end Sigil
