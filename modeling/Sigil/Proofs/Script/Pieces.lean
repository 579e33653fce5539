import Mathlib
import Sigil.Proofs.Evaluation.Bound
import Sigil.Proofs.Evaluation.Erasure
import Sigil.Proofs.Grammar.Concatenation
import Sigil.Proofs.Token.Lines

/-!
# A script runs as its pieces do

Two scripts without errors, one below the other, are a script without errors.  Running
it is running the first and then, if that succeeded, the second: a newline ends every
token of the first, no statement of the first reaches over its end, and that the second
one has moved makes no difference.
-/

namespace Sigil

/-- The statements of a script. -/
def statementsOf (text : List Char) : List Stmt := (parse (tokenize text).tokens).statements

/-- A script without lexical errors and syntax errors. -/
structure IsClean (text : List Char) : Prop where
  lexical : (tokenize text).errors = []
  syntactic : (parse (tokenize text).tokens).errors = []

/-- Tokens that have been moved are read alike. -/
theorem parse_shift_erase (bytes : Nat) (tokens : List Token) :
    (parse (tokens.map (Token.shift bytes))).erase = (parse tokens).erase := by
  rw [← parse_erase, ← parse_erase, List.map_map]
  rfl

theorem errors_parse_shift (bytes : Nat) {tokens : List Token} (h : (parse tokens).errors = []) :
    (parse (tokens.map (Token.shift bytes))).errors = [] := by
  have herrors := congrArg Parsed.errors (parse_shift_erase bytes tokens)
  simpa [Parsed.erase, h] using herrors

/-- A newline between two scripts without errors makes them one, of the statements of both. -/
theorem IsClean.append_newline {a b : List Char} (ha : IsClean a) (hb : IsClean b)
    (hcomment : endsInComment a = false) :
    IsClean (a ++ '\n' :: b) ∧
      Stmt.eraseAll (statementsOf (a ++ '\n' :: b)) =
        Stmt.eraseAll (statementsOf a ++ statementsOf b) := by
  have hdot : ∀ token ∈ (tokenize a).tokens.getLast?, token.kind ≠ .dot := by
    intro token htoken hkind
    have hlast := Grammar.kind_getLast?_of_parse ha.syntactic token htoken
    simp [hkind] at hlast
  have htokens := tokenize_append hcomment hdot b
  have hparse := Grammar.parse_append ha.syntactic
    (errors_parse_shift (byteSize a + 1) hb.syntactic)
  refine ⟨⟨?_, ?_⟩, ?_⟩
  · rw [htokens]
    simp [Lexed.append, Lexed.shift, ha.lexical, hb.lexical]
  · rw [htokens]
    exact congrArg Parsed.errors hparse
  · have hmoved := congrArg Parsed.statements
      (parse_shift_erase (byteSize a + 1) (tokenize b).tokens)
    have hstatements := congrArg Parsed.statements hparse
    rw [statementsOf, htokens, Stmt.eraseAll_append]
    refine (congrArg Stmt.eraseAll hstatements).trans ?_
    rw [Stmt.eraseAll_append]
    exact congrArg _ hmoved

theorem runsTo_congr {statements statements' : List Stmt}
    (h : Stmt.eraseAll statements = Stmt.eraseAll statements') {state : State}
    {result : Run Unit} : RunsTo statements state result ↔ RunsTo statements' state result := by
  simp only [RunsTo, runProgram_congr h]

/-- A script of two pieces without errors has no errors either.  Within every bound on its loops it
runs as its pieces do one after the other; and it ends as the first piece does, if that fails, or
as the second one does from where the first one ended. -/
theorem runProgram_append_newline {a b : List Char} (ha : IsClean a) (hb : IsClean b)
    (hcomment : endsInComment a = false) :
    IsClean (a ++ '\n' :: b) ∧
      (∀ bound state, runProgram bound (statementsOf (a ++ '\n' :: b)) state =
        (runProgram bound (statementsOf a) state).andThen fun _ state ↦
          runProgram bound (statementsOf b) state) ∧
      ∀ state result, RunsTo (statementsOf (a ++ '\n' :: b)) state result ↔
        (∃ e after, result = .failed e after ∧ RunsTo (statementsOf a) state result) ∨
          ∃ middle, RunsTo (statementsOf a) state (.done () middle) ∧
            RunsTo (statementsOf b) middle result := by
  obtain ⟨hclean, hstatements⟩ := ha.append_newline hb hcomment
  refine ⟨hclean, ?_, ?_⟩
  · intro bound state
    rw [runProgram_congr hstatements, runProgram_append]
  · intro state result
    rw [runsTo_congr hstatements, runsTo_append_iff]

theorem runsTo_failed_of_second_piece :
    RunsTo (statementsOf ("let @x;#".toList ++ '\n' :: "@y;".toList)) (.initial .unlimited)
      (.failed (.undefinedVariable "@y")
        ⟨⟨[⟨[("@x", .null)], [], none⟩], 0⟩, .unlimited⟩) := by
  have ha : IsClean "let @x;#".toList := ⟨by cbv, by cbv⟩
  have hb : IsClean "@y;".toList := ⟨by cbv, by cbv⟩
  have hjoin := (runProgram_append_newline ha hb (by cbv)).2.2
  refine (hjoin _ _).mpr (.inr ⟨?_, ⟨?_, 0, ?_⟩, ?_, 0, ?_⟩)
  · exact ⟨⟨[⟨[("@x", .null)], [], none⟩], 0⟩, .unlimited⟩
  · simp
  · cbv
  · simp
  · cbv

end Sigil
