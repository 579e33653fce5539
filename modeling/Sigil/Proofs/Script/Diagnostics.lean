import Sigil.Proofs.Evaluation.Footprint
import Sigil.Proofs.Evaluation.Simulation
import Sigil.Proofs.Script.Places
import Sigil.Proofs.Syntax.WellFormed
import Sigil.Proofs.Token.Segmentation

/-!
# One line for each error

A script stops at the first stage that finds errors, and there is one line of
diagnostics for each of them.  A line has no newline in it: positions and wordings have
none, and neither has a name, wherever it comes from.
-/

namespace Sigil

/-! ### Names -/

theorem isNameChar_ne_newline {c : Char} (h : isNameChar c = true) : c ≠ '\n' := by
  rintro rfl
  exact absurd h (by decide)

theorem isLine_of_nameChars {run : List Char} (h : ∀ c ∈ run, isNameChar c = true) :
    IsLine (String.ofList ('@' :: run)) := by
  intro hmem
  rw [String.toList_ofList] at hmem
  rcases List.mem_cons.mp hmem with hsigil | hmem
  · exact absurd hsigil (by decide)
  · exact isNameChar_ne_newline (h _ hmem) rfl

theorem isLine_of_isWord {text : List Char} (h : IsWord text) : IsLine (String.ofList text) := by
  obtain ⟨c, cs, rfl, hc, hcs⟩ := h
  intro hmem
  rw [String.toList_ofList] at hmem
  rcases List.mem_cons.mp hmem with rfl | hmem
  · exact absurd hc (by decide)
  · exact absurd (hcs _ hmem) (by decide)

/-- The text of an identifier is spelled by a sigil name or by a word. -/
theorem isLine_of_spells {literal : Value} {text : List Char} {name : String}
    (h : Spells (.token .identifier literal) text) (hname : literal = .text name) :
    IsLine name := by
  generalize hlexeme : Lexeme.token .identifier literal = lexeme at h
  cases h with
  | sigil hne hdigit hrun =>
      cases hlexeme
      cases hname
      exact isLine_of_nameChars hrun
  | member hword _ =>
      cases hlexeme
      cases hname
      exact isLine_of_isWord hword
  | punctuation _ =>
      cases hlexeme
      cases hname
  | keyword _ =>
      cases hlexeme
      cases hname
  | _ => cases hlexeme

theorem isLine_of_isName {text : List Char} {name : String}
    (h : IsName (tokenize text).tokens name) : IsLine name := by
  obtain ⟨⟨kind, literal, span⟩, htoken, rfl, rfl⟩ := h
  rw [tokenize, Segment.tokens_ofSegments] at htoken
  obtain ⟨place, hplace, htoken⟩ := List.mem_filterMap.mp htoken
  have hspells := Segment.spells_of_mem_all (Segment.mem_all_of_placed hplace)
  unfold Segment.Placed.token? at htoken
  split at htoken
  · rename_i hlexeme
    cases htoken
    rw [hlexeme] at hspells
    -- A token without a text has the empty name.
    cases literal with
    | text name => exact isLine_of_spells hspells rfl
    | _ => exact (by decide : IsLine "")
  · cases htoken

/-- Names in a tree come from identifiers, and names in a template from its text. -/
theorem isLine_of_mem_programNames {text : List Char} {name : String}
    (h : name ∈ programNames (statementsOf text)) : IsLine name := by
  obtain ⟨node, hnode, hname⟩ := h
  have hwellFormed := wellFormed_parse (tokenize text).tokens node hnode
  cases node with
  | expr expr =>
      cases expr with
      | reference other span =>
          obtain rfl : name = other := hname
          exact isLine_of_isName hwellFormed
      | assign other span value timing =>
          obtain rfl : name = other := hname
          cases timing with
          | before => exact isLine_of_isName hwellFormed.1
          | after => exact isLine_of_isName hwellFormed
      | template body =>
          obtain ⟨before, run, after, -, -, hrun, -, rfl⟩ := hname
          exact isLine_of_nameChars hrun
      | _ => cases hname
  | stmt statement =>
      cases statement with
      | declaration other span initializer mutability =>
          obtain rfl : name = other := hname
          exact isLine_of_isName hwellFormed.1
      | _ => cases hname

/-! ### Wordings -/

theorem isLine_around {front middle back : String} (hfront : IsLine front)
    (hmiddle : IsLine middle) (hback : IsLine back) : IsLine (front ++ middle ++ back) :=
  isLine_append.mpr ⟨isLine_append.mpr ⟨hfront, hmiddle⟩, hback⟩

theorem RuntimeError.isLine_message {names : Set String} {e : RuntimeError}
    (hnames : ∀ name ∈ names, IsLine name) (h : e.IsAbout names) : IsLine e.message := by
  cases e with
  | undefinedVariable name =>
      exact isLine_around (by decide +kernel) (hnames name h) (by decide +kernel)
  | undefinedAssignment name =>
      exact isLine_around (by decide +kernel) (hnames name h) (by decide +kernel)
  | redeclared name =>
      exact isLine_around (by decide +kernel) (hnames name h) (by decide +kernel)
  | constantAssignment name =>
      exact isLine_around (by decide +kernel) (hnames name h) (by decide +kernel)
  | output cause =>
      obtain rfl : cause = Channel.refusal := h
      decide
  | _ => decide +kernel

theorem isLine_located (table : LineTable) (offset : Nat) {message : String}
    (h : IsLine message) : IsLine (located table offset message) :=
  isLine_append.mpr
    ⟨isLine_around (by decide +kernel) (Position.isLine_text _) (by decide +kernel), h⟩

theorem LexicalFault.isLine_message {fault : LexicalFault} {text : List Char}
    (h : Spells (.fault fault) text) : IsLine fault.message := by
  cases h with
  | unterminated hdelimiter hbody hstop =>
      refine isLine_append.mpr ⟨by decide +kernel, ?_⟩
      simp only [List.mem_cons, List.not_mem_nil, or_false] at hdelimiter
      rcases hdelimiter with rfl | rfl | rfl <;> decide
  | _ => decide +kernel

theorem isLine_of_mem_lexicalErrors {text : List Char} {error : LexicalError}
    (h : error ∈ (tokenize text).errors) : IsLine error.fault.message := by
  rw [tokenize, Segment.errors_ofSegments] at h
  obtain ⟨place, hplace, herror⟩ := List.mem_filterMap.mp h
  have hspells := Segment.spells_of_mem_all (Segment.mem_all_of_placed hplace)
  unfold Segment.Placed.error? at herror
  split at herror
  · rename_i hlexeme
    cases herror
    rw [hlexeme] at hspells
    exact LexicalFault.isLine_message hspells
  · cases herror

/-! ### What is written -/

/-- Lines in a row, with a newline after each. -/
def unlines (lines : List String) : String := String.join (lines.map (· ++ "\n"))

theorem unlines_eq_empty_iff {lines : List String} : unlines lines = "" ↔ lines = [] := by
  cases lines with
  | nil => simp [unlines]
  | cons line lines => simp [unlines, String.join_cons]

namespace Channel

variable {channel : Channel}

theorem write_eq_record (h : channel.limit = none) (text : String) :
    channel.write text = (channel.record text, true) := by
  unfold write
  split
  · rename_i hempty
    simp [record, hempty]
  · rw [if_neg (by simp [isFull, h]), record]

theorem writeLines_eq_record (h : channel.limit = none) (lines : List String) :
    channel.writeLines lines = (channel.record (unlines lines), true) := by
  induction lines generalizing channel with
  | nil => simp [writeLines, unlines, record]
  | cons line lines ih =>
      have hwritten : (channel.record line).limit = none := h
      have hline : channel.writeLine line = ((channel.record line).record "\n", true) := by
        rw [writeLine, write_eq_record h]
        exact write_eq_record hwritten "\n"
      have hlater : ((channel.record line).record "\n").limit = none := h
      rw [writeLines, hline]
      refine (ih hlater).trans ?_
      simp [record, unlines, String.join_cons, String.append_assoc]

theorem writeLines_unlimited (lines : List String) :
    unlimited.writeLines lines = (⟨unlines lines, none⟩, true) := by
  have hlimit : unlimited.limit = none := rfl
  rw [writeLines_eq_record hlimit]
  simp [record, unlimited]

end Channel

theorem Report.diagnose_eq (output : Channel) (lines : List String) (outcome : Outcome) :
    diagnose output .unlimited lines outcome = ⟨output, ⟨unlines lines, none⟩, some outcome⟩ := by
  rw [diagnose, Channel.writeLines_unlimited]

/-- The lines are the diagnostics of a report on a script, and account for its outcome. -/
structure Report.Accounts (source : String) (r : Report) (outcome : Outcome)
    (lines : List String) : Prop where
  ends : r.outcome = some outcome
  lexical : (tokenize source.toList).errors ≠ [] →
    outcome = .lexicalErrors (tokenize source.toList).errors.length ∧ r.output.text = "" ∧
      lines = (tokenize source.toList).errors.map fun error ↦
        "Lexical Error: " ++ error.report (.ofText source.toList)
  syntactic : (tokenize source.toList).errors = [] →
    (parse (tokenize source.toList).tokens).errors ≠ [] →
    outcome = .syntaxErrors (parse (tokenize source.toList).tokens).errors.length ∧
      r.output.text = "" ∧
      lines = (parse (tokenize source.toList).tokens).errors.map fun error ↦
        "Syntactical Error: " ++ error.report (.ofText source.toList)
  running : IsClean source.toList →
    (outcome = .completed ∧ lines = [] ∧ ∃ state, r.output = state.output ∧
      RunsTo (statementsOf source.toList) (.initial .unlimited) (.done () state)) ∨
    (outcome = .runtimeFailure ∧ ∃ e state, lines = [e.message] ∧ r.output = state.output ∧
      RunsTo (statementsOf source.toList) (.initial .unlimited) (.failed e state))
  text : r.diagnostics.text = unlines lines
  isLine : ∀ line ∈ lines, IsLine line
  silent : r.diagnostics.text = "" ↔ outcome = .completed
  success : outcome.isSuccess = true ↔ outcome = .completed

theorem Outcome.isSuccess_iff (outcome : Outcome) :
    outcome.isSuccess = true ↔ outcome = .completed := by
  cases outcome <;> simp [isSuccess]

section Stages

variable {source : String} {r : Report} {bound : Nat}

theorem accounts_of_lexicalErrors (h : (tokenize source.toList).errors ≠ [])
    (hr : report bound source = some r) : ∃ outcome lines, r.Accounts source outcome lines := by
  rw [report, runScript, if_pos (by simpa using h), Report.diagnose_eq] at hr
  cases hr
  refine ⟨_, _, rfl, fun _ ↦ ⟨rfl, rfl, rfl⟩, fun hnil ↦ absurd hnil h,
    fun hclean ↦ absurd hclean.lexical h, rfl, ?_, ?_, Outcome.isSuccess_iff _⟩
  · intro line hline
    obtain ⟨error, herror, rfl⟩ := List.mem_map.mp hline
    exact isLine_append.mpr
      ⟨by decide +kernel, isLine_located _ _ (isLine_of_mem_lexicalErrors herror)⟩
  · simp [unlines_eq_empty_iff, h]

theorem accounts_of_syntaxErrors (hlexical : (tokenize source.toList).errors = [])
    (h : (parse (tokenize source.toList).tokens).errors ≠ [])
    (hr : report bound source = some r) : ∃ outcome lines, r.Accounts source outcome lines := by
  rw [report, runScript, hlexical, if_neg (by simp), if_pos (by simpa using h),
    Report.diagnose_eq] at hr
  cases hr
  refine ⟨_, _, rfl, fun hne ↦ absurd hlexical hne, fun _ _ ↦ ⟨rfl, rfl, rfl⟩,
    fun hclean ↦ absurd hclean.syntactic h, rfl, ?_, ?_, Outcome.isSuccess_iff _⟩
  · intro line hline
    obtain ⟨error, herror, rfl⟩ := List.mem_map.mp hline
    exact isLine_append.mpr
      ⟨by decide +kernel, isLine_located _ _ (isLine_of_mem_errors herror)⟩
  · simp [unlines_eq_empty_iff, h]

/-- The error of a run is about a name of the script, if it is about a name. -/
theorem isLine_of_failed {e : RuntimeError} {state : State}
    (h : runProgram bound (statementsOf source.toList) (.initial .unlimited) = .failed e state) :
    IsLine e.message := by
  have hlayered : (State.initial .unlimited).environment.Layered := Environment.layered_initial
  have htouches := touches_runProgram bound (statementsOf source.toList) hlayered
  rw [h] at htouches
  exact RuntimeError.isLine_message (fun _ ↦ isLine_of_mem_programNames) htouches.2

theorem accounts_of_clean (h : IsClean source.toList) (hr : report bound source = some r) :
    ∃ outcome lines, r.Accounts source outcome lines := by
  rw [report_of_clean h] at hr
  cases hrun : runProgram bound (statementsOf source.toList) (.initial .unlimited) with
  | done _ state =>
      rw [hrun] at hr
      cases hr
      exact ⟨.completed, [], rfl, fun hne ↦ absurd h.lexical hne,
        fun _ hne ↦ absurd h.syntactic hne,
        fun _ ↦ .inl ⟨rfl, rfl, state, rfl, nofun, bound, hrun⟩, rfl, nofun,
        by simp [Channel.unlimited], Outcome.isSuccess_iff _⟩
  | failed e state =>
      rw [hrun] at hr
      cases hr
      refine ⟨.runtimeFailure, [e.message], rfl, fun hne ↦ absurd h.lexical hne,
        fun _ hne ↦ absurd h.syntactic hne,
        fun _ ↦ .inr ⟨rfl, e, state, rfl, rfl, nofun, bound, hrun⟩, ?_, ?_, ?_,
        Outcome.isSuccess_iff _⟩
      · rw [Channel.writeLines_unlimited]
      · rw [List.forall_mem_singleton]
        exact isLine_of_failed hrun
      · simp [Channel.writeLines_unlimited, unlines_eq_empty_iff]
  | unfinished =>
      rw [hrun] at hr
      cases hr

/-- Whatever a script does, its first stage with errors is its last.  Then there is no output, and
one line of diagnostics for each error, in order.  A script without such errors completes, or fails
with one line.  There are no diagnostics exactly if it completes. -/
theorem Reports.diagnostics_account (h : Reports source r) :
    ∃ outcome lines, r.Accounts source outcome lines := by
  obtain ⟨bound, hr⟩ := h
  by_cases hlexical : (tokenize source.toList).errors = []
  · by_cases hsyntactic : (parse (tokenize source.toList).tokens).errors = []
    · exact accounts_of_clean ⟨hlexical, hsyntactic⟩ hr
    · exact accounts_of_syntaxErrors hlexical hsyntactic hr
  · exact accounts_of_lexicalErrors hlexical hr

theorem diagnostics_account_of_redeclared :
    ∃ outcome lines, Report.Accounts "let @x,\n@x;"
      ⟨.unlimited, ⟨"\"@x\" already defined.\n", none⟩, some .runtimeFailure⟩ outcome lines := by
  have hclean : IsClean "let @x,\n@x;".toList := ⟨by cbv, by cbv⟩
  have hrun : runProgram 0 (statementsOf "let @x,\n@x;".toList) (.initial .unlimited) =
      .failed (.redeclared "@x") ⟨⟨[⟨[("@x", .null)], [], none⟩], 0⟩, .unlimited⟩ := by cbv
  refine Reports.diagnostics_account ⟨0, ?_⟩
  rw [report_of_clean hclean, hrun]
  simp only [Channel.writeLines_unlimited]
  rfl

end Stages

end Sigil
