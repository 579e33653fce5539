import Mathlib
import Sigil.Proofs.Grammar.Concatenation
import Sigil.Proofs.Syntax.Context

/-!
# A program without errors and whatever follows it

After a program without errors reading goes on as if the tokens that follow stood
alone.  Only an `else` could still belong to the program, and the errors in what
follows are reported at tokens of its own.
-/

namespace Sigil

namespace Grammar

variable {tokens r : List Token}

theorem skip_ofTokens_append (tokens r : List Token) :
    (Cursor.ofTokens (tokens ++ r)).skip tokens.length =
      (Cursor.ofTokens r).behind
        ((Cursor.ofTokens (tokens ++ r)).skip tokens.length).previous := by
  have hrest : ((Cursor.ofTokens (tokens ++ r)).skip tokens.length).rest = r :=
    Cursor.rest_skip_of_append rfl
  have hdepth := Cursor.loopDepth_skip (Cursor.ofTokens (tokens ++ r)) tokens.length
  have herrors := Cursor.errors_skip (Cursor.ofTokens (tokens ++ r)) tokens.length
  generalize (Cursor.ofTokens (tokens ++ r)).skip tokens.length = d at *
  cases d
  simp_all [Cursor.behind, Cursor.ofTokens]

/-- Reading passes a program without errors, and goes on as if it had started behind it. -/
theorem readProgram_append_of_parse (h : (parse tokens).errors = []) (helse : NoElse r) :
    (Cursor.ofTokens (tokens ++ r)).readProgram.1 =
        (parse tokens).statements ++ (Cursor.ofTokens r).readProgram.1 ∧
      (Cursor.ofTokens (tokens ++ r)).readProgram.2.errors =
        (Cursor.ofTokens r).readProgram.2.errors := by
  obtain ⟨program, rfl, hstmts⟩ := exists_phrase_of_parse h
  have hread := program.readProgram_append (Cursor.ofTokens (program.tokens ++ r)) r rfl nofun helse
  rw [skip_ofTokens_append, hstmts] at hread
  obtain ⟨hstatements, herrors⟩ := Cursor.readProgram_behind
    ((Cursor.ofTokens (program.tokens ++ r)).skip program.tokens.length).previous (.ofTokens r)
  rw [hread]
  exact ⟨congrArg _ hstatements, herrors⟩

/-- A program without errors and tokens that do not start with an `else` are read one after the
other, and the errors are those of the second. -/
theorem parse_append_of_noElse (h : (parse tokens).errors = []) (helse : NoElse r) :
    parse (tokens ++ r) =
      ⟨(parse tokens).statements ++ (parse r).statements, (parse r).errors⟩ := by
  obtain ⟨hstatements, herrors⟩ := readProgram_append_of_parse h helse
  rw [parse, hstatements, herrors]
  rfl

theorem parse_if_before_open_name :
    parse ([⟨.kwIf, .null, ⟨0, 2⟩⟩, ⟨.leftParen, .null, ⟨3, 4⟩⟩, ⟨.identifier, .text "x", ⟨4, 6⟩⟩,
        ⟨.rightParen, .null, ⟨6, 7⟩⟩, ⟨.semicolon, .null, ⟨7, 8⟩⟩] ++
      [⟨.identifier, .text "y", ⟨9, 11⟩⟩]) =
      ⟨[.ifThen (.reference "x" ⟨4, 6⟩) none none],
        [⟨.expected "Expect ';' after expression.", 9⟩]⟩ := by
  rw [parse_append_of_noElse (by cbv) (by simp [NoElse])]
  cbv

end Grammar

end Sigil
