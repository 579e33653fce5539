import Mathlib.Data.List.TakeWhile
import Sigil.Evaluation.Expression
import Sigil.Proofs.Environment.Owner
import Sigil.Proofs.Tree.Nodes

/-!
# The names a template looks up

A reference is looked up twice, first whether it has a value and then which.  The two
look-ups agree, so that a template always expands to a text.  A template is cut into
pieces, and the pieces that are references are its names, so what it expands to depends
only on the values of these.
-/

namespace Sigil

theorem mem_templateNames_append (before : List Char) {chars : List Char} {name : String}
    (h : name ∈ templateNames (String.ofList chars)) :
    name ∈ templateNames (String.ofList (before ++ chars)) := by
  obtain ⟨front, run, after, hchars, hrun⟩ := h
  refine ⟨before ++ front, run, after, ?_, hrun⟩
  rw [String.toList_ofList] at hchars ⊢
  rw [hchars, List.append_assoc]

namespace TemplatePiece

theorem mem_templateNames_of_mem_all {chars run : List Char} (h : .reference run ∈ all chars) :
    String.ofList ('@' :: run) ∈ templateNames (String.ofList chars) := by
  fun_induction all chars with
  | case1 => cases h
  | case2 cs hempty ih =>
      rcases List.mem_cons.mp h with h | h
      · cases h
      · exact mem_templateNames_append ['@'] (ih h)
  | case3 cs hempty ih =>
      have happend := List.takeWhile_append_dropWhile (p := isNameChar) (l := cs)
      rcases List.mem_cons.mp h with h | h
      · cases h
        refine ⟨[], cs.takeWhile isNameChar, cs.dropWhile isNameChar, ?_, ?_, ?_, ?_, rfl⟩
        · rw [String.toList_ofList, happend, List.nil_append]
        · simpa using hempty
        · intro c hc
          exact List.mem_takeWhile_imp hc
        · intro c hc
          have hhead := List.head?_dropWhile_not isNameChar cs
          rw [Option.mem_def.mp hc] at hhead
          exact hhead
      · rw [← happend]
        exact mem_templateNames_append ('@' :: cs.takeWhile isNameChar) (ih h)
  | case4 c cs hc ih =>
      have happend := List.takeWhile_append_dropWhile (p := (· != '@')) (l := cs)
      rcases List.mem_cons.mp h with h | h
      · cases h
      · rw [← happend]
        exact mem_templateNames_append (c :: cs.takeWhile (· != '@')) (ih h)

/-- The text that a piece gives, by one look-up. -/
def expansion (env : Environment) : TemplatePiece → List Char
  | .reference run =>
    match env.get (String.ofList ('@' :: run)) with
    | .ok value => value.substituted.toList
    | .error _ => '@' :: run
  | piece => piece.source

/-- The two look-ups agree, so that neither fails. -/
theorem expand_eq (env : Environment) (piece : TemplatePiece) :
    piece.expand env = .ok (piece.expansion env) := by
  cases piece with
  | text chars => rfl
  | sigil => rfl
  | reference run =>
      have hlookups := env.has_iff_get (String.ofList ('@' :: run))
      rw [expand, expansion]
      cases hget : env.get (String.ofList ('@' :: run)) with
      | ok value =>
          rw [if_pos (hlookups.mpr ⟨value, hget⟩)]
          rfl
      | error e =>
          have hnone : ¬env.has (String.ofList ('@' :: run)) = true := by
            rw [hlookups, hget]
            rintro ⟨value, hvalue⟩
            cases hvalue
          rw [if_neg hnone]

end TemplatePiece

/-- The text that a template expands to. -/
def expansion (env : Environment) (template : String) : String :=
  String.ofList ((TemplatePiece.all template.toList).map (TemplatePiece.expansion env)).flatten

theorem interpolate_eq (env : Environment) (template : String) :
    interpolate env template = .ok (expansion env template) := by
  have hexpand : TemplatePiece.expand env = fun piece ↦ .ok (piece.expansion env) :=
    funext (TemplatePiece.expand_eq env)
  have htexts : (TemplatePiece.all template.toList).mapM (TemplatePiece.expand env) =
      .ok ((TemplatePiece.all template.toList).map (TemplatePiece.expansion env)) := by
    rw [hexpand]
    exact List.mapM_pure
  rw [interpolate, htexts]
  rfl

theorem Expr.eval_template (text : String) (env : Environment) :
    (Expr.template text).eval env = .value (.text (expansion env text)) env := by
  rw [eval, interpolate_eq]
  rfl

theorem expansion_congr {env env' : Environment} {text : String}
    (h : ∀ name ∈ templateNames text, env.get name = env'.get name) :
    expansion env text = expansion env' text := by
  have hexpansion : ∀ piece ∈ TemplatePiece.all text.toList,
      piece.expansion env = piece.expansion env' := by
    intro piece hpiece
    cases piece with
    | text chars => rfl
    | sigil => rfl
    | reference run =>
        have hname := TemplatePiece.mem_templateNames_of_mem_all hpiece
        rw [String.ofList_toList] at hname
        rw [TemplatePiece.expansion, TemplatePiece.expansion, h _ hname]
  rw [expansion, expansion, List.map_congr_left hexpansion]

end Sigil
