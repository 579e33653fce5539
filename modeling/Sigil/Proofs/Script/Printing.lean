import Sigil.Proofs.Grammar.Concatenation
import Sigil.Proofs.Script.Diagnostics
import Sigil.Proofs.Token.Quotation
import Sigil.Proofs.Token.Rendering

/-!
# Every text can be printed

A script of one statement prints a text that it has in double quotes.  It goes through
all stages: the script has three tokens, they are a statement by the grammar, and
running the statement writes the text and a newline, within every bound on loops since
there are none.  What remains is how to write a text such that its literal is closed
and is read as that text; the codes of its backslashes, quotes and newlines will do.
-/

namespace Sigil

namespace Grammar

/-- A token that is an expression by itself is one on every level. -/
def Phrase.ofAtom {token : Token} {expr : Expr} (h : Atom token expr) : Phrase .assignment :=
  let unary : Phrase .unary := .unsigned (.unsuffixed (.atom token expr h))
  let additive : Phrase (.chain .additive) := .chain (.chain unary .none) .none
  let equality : Phrase (.chain .equality) := .chain (.chain additive .none) .none
  .unassigned (.chain (.chain (.unconditional equality) .none) .none)

theorem parse_console {keyword token semicolon : Token} {expr : Expr}
    (hkeyword : keyword.kind = .kwConsole) (h : Atom token expr)
    (hsemicolon : semicolon.kind = .semicolon) :
    parse [keyword, token, semicolon] = ⟨[.console expr], []⟩ := by
  let program : ItemsPhrase false := .item (.statement
    (.console ⟨keyword, hkeyword⟩ (.ofAtom h) ⟨semicolon, hsemicolon⟩)) .none
  have htokens : program.tokens = [keyword, token, semicolon] := rfl
  have hstmts : program.stmts = [.console expr] := rfl
  rw [← htokens, ← hstmts]
  exact program.parse_eq

end Grammar

/-- A statement that prints what stands in double quotes. -/
def consoleOf (body : List Char) : String := "console " ++ String.ofList (inQuotes body) ++ ";"

theorem toList_consoleOf (body : List Char) :
    (consoleOf body).toList =
      'c' :: ("onsole".toList ++ ' ' :: '\x22' :: (body ++ '\x22' :: [';'])) := by
  simp [consoleOf, inQuotes]

theorem Channel.writeLine_eq_record {channel : Channel} (h : channel.limit = none)
    (text : String) : channel.writeLine text = (channel.record (text ++ "\n"), true) := by
  have hwritten : (channel.record text).limit = none := h
  rw [writeLine, write_eq_record h]
  dsimp only
  rw [write_eq_record hwritten, record, record, record, String.append_assoc]

theorem runProgram_console (bound : Nat) (value : Value) {state : State}
    (h : state.output.limit = none) :
    runProgram bound [.console (.literal value)] state =
      .done () { state with output := state.output.record (value.display ++ "\n") } := by
  have hprint : state.print value.display =
      .done .normal { state with output := state.output.record (value.display ++ "\n") } := by
    rw [State.print, Channel.writeLine_eq_record h]
  have hrun : (Stmt.console (.literal value)).run bound state = state.print value.display := by
    rw [Stmt.run]
    rfl
  rw [runProgram, Stmt.runOuter, hrun, hprint]
  rfl

section Stages

variable {write : Char → List Char} {s : List Char}

theorem tokenize_consoleOf (h : Escapes write)
    (hlast : (s.flatMap write).getLast? ≠ some '\\') :
    ∃ stop, tokenize (consoleOf (s.flatMap write)).toList =
      ⟨[⟨.kwConsole, .null, ⟨0, 7⟩⟩, ⟨.string, .text (String.ofList s), ⟨8, stop⟩⟩,
        ⟨.semicolon, .null, ⟨stop, stop + 1⟩⟩], []⟩ := by
  have hkeyword (cs : List Char) : Lexeme.scan 'c' ("onsole".toList ++ ' ' :: cs) =
      ⟨.token .kwConsole .null, "console".toList, ' ' :: cs⟩ := rfl
  have hblank (cs : List Char) : Lexeme.scan ' ' ('\x22' :: cs) =
      ⟨.layout, [' '], '\x22' :: cs⟩ := rfl
  have hsemicolon : Lexeme.scan ';' [] = ⟨.token .semicolon .null, [';'], []⟩ := rfl
  refine ⟨8 + byteSize ('\x22' :: s.flatMap write ++ ['\x22']), ?_⟩
  rw [toList_consoleOf, tokenize, Segment.all_of_token (hkeyword _) (by decide), Lexed.ofSegments,
    Lexed.ofSegments_of_scan (hblank _),
    Segment.all_of_token (h.scan_closed hlast [';']) (by decide),
    Segment.all_of_token hsemicolon (by decide), Segment.all]
  rfl

/-- A text that is written such that its literal is closed and is read as that text is printed. -/
theorem report_consoleOf (h : Escapes write) (hlast : (s.flatMap write).getLast? ≠ some '\\')
    (bound : Nat) :
    report bound (consoleOf (s.flatMap write)) =
      some ⟨⟨String.ofList s ++ "\n", none⟩, .unlimited, some .completed⟩ := by
  obtain ⟨stop, htokens⟩ := tokenize_consoleOf h hlast
  have hparse : parse (tokenize (consoleOf (s.flatMap write)).toList).tokens =
      ⟨[.console (.literal (.text (String.ofList s)))], []⟩ := by
    rw [htokens]
    exact Grammar.parse_console rfl (.string rfl) rfl
  have hclean : IsClean (consoleOf (s.flatMap write)).toList :=
    ⟨congrArg Lexed.errors htokens, congrArg Parsed.errors hparse⟩
  have hrun := runProgram_console bound (.text (String.ofList s))
    (rfl : (State.initial .unlimited).output.limit = none)
  rw [report_of_clean hclean, statementsOf, hparse, hrun, State.initial, Channel.unlimited]
  simp [Channel.record, Value.display]

end Stages

theorem report_consoleOf_codeEscape (upper : Bool) (s : String) (bound : Nat) :
    report bound (consoleOf (s.toList.flatMap (codeEscape upper))) =
      some ⟨⟨s ++ "\n", none⟩, .unlimited, some .completed⟩ := by
  have hreport := report_consoleOf (escapes_codeEscape upper)
    (getLast?_flatMap_codeEscape upper s.toList) bound
  rwa [String.ofList_toList] at hreport

end Sigil
