import Sigil.Proofs.Script.Pieces
import Sigil.Script

/-!
# Places make no difference to what a script does

Two scripts of the same tokens, however they are laid out, have the same statements and
the same syntax errors but for places.  So they end in the same way, and with the same
output.  Places show only where syntax errors are reported.
-/

namespace Sigil

/-- What a token is, wherever it stands. -/
def Token.content (token : Token) : TokenKind × Value := (token.kind, token.literal)

/-- Two scripts without lexical errors that are the same but for the places of their tokens. -/
structure SameTokens (a b : String) : Prop where
  left : (tokenize a.toList).errors = []
  right : (tokenize b.toList).errors = []
  contents : (tokenize a.toList).tokens.map Token.content =
    (tokenize b.toList).tokens.map Token.content

/-- Running the script ends, and gives this report. -/
def Reports (source : String) (r : Report) : Prop := ∃ bound, report bound source = some r

/-- The reports have the same outcome and output, and the same diagnostics if they are about an
error at run time. -/
structure Report.Agrees (r r' : Report) : Prop where
  outcome : ∃ outcome, r.outcome = some outcome ∧ r'.outcome = some outcome
  output : r.output = r'.output
  failure : r.outcome = some .runtimeFailure → r.diagnostics = r'.diagnostics

/-! ### Nothing is refused -/

namespace Channel

variable {channel : Channel}

theorem write_of_unlimited (h : channel.limit = none) (text : String) :
    ∃ channel', channel.write text = (channel', true) ∧ channel'.limit = none := by
  unfold write
  split
  · exact ⟨channel, rfl, h⟩
  · rw [if_neg (by simp [isFull, h])]
    exact ⟨_, rfl, h⟩

theorem writeLine_of_unlimited (h : channel.limit = none) (text : String) :
    ∃ channel', channel.writeLine text = (channel', true) ∧ channel'.limit = none := by
  obtain ⟨written, hwrite, hlimit⟩ := write_of_unlimited h text
  rw [writeLine, hwrite]
  exact write_of_unlimited hlimit "\n"

theorem writeLines_of_unlimited (h : channel.limit = none) (lines : List String) :
    (channel.writeLines lines).2 = true := by
  induction lines generalizing channel with
  | nil => rfl
  | cons line lines ih =>
      obtain ⟨written, hwrite, hlimit⟩ := writeLine_of_unlimited h line
      rw [writeLines, hwrite]
      exact ih hlimit

end Channel

theorem Report.diagnose_unlimited (output : Channel) (lines : List String) (outcome : Outcome) :
    diagnose output .unlimited lines outcome =
      ⟨output, (Channel.unlimited.writeLines lines).1, some outcome⟩ := by
  have haccepted : (Channel.unlimited.writeLines lines).2 = true :=
    Channel.writeLines_of_unlimited rfl lines
  unfold diagnose
  split
  · rename_i hwrite
    rw [hwrite]
  · rename_i hwrite
    rw [hwrite] at haccepted
    cases haccepted

/-! ### What a script without lexical errors reports -/

variable {a b source : String} {r r' : Report}

theorem report_of_not_clean (hlexical : (tokenize source.toList).errors = [])
    (h : ¬IsClean source.toList) (bound : Nat) :
    ∃ diagnostics, report bound source = some ⟨.unlimited, diagnostics,
      some (.syntaxErrors (parse (tokenize source.toList).tokens).errors.length)⟩ := by
  have hsome : (parse (tokenize source.toList).tokens).errors ≠ [] := fun hnil ↦
    h ⟨hlexical, hnil⟩
  rw [report, runScript, hlexical, if_neg (by simp), if_pos (by simpa using hsome),
    Report.diagnose_unlimited]
  exact ⟨_, rfl⟩

theorem report_of_clean (h : IsClean source.toList) (bound : Nat) :
    report bound source =
      match runProgram bound (statementsOf source.toList) (.initial .unlimited) with
      | .done _ state => some ⟨state.output, .unlimited, some .completed⟩
      | .failed e state =>
        some ⟨state.output, (Channel.unlimited.writeLines [e.message]).1, some .runtimeFailure⟩
      | .unfinished => none := by
  rw [report, runScript, h.lexical, h.syntactic, if_neg (by simp), if_neg (by simp)]
  simp only [Report.diagnose_unlimited]
  rfl

theorem Reports.unique_of_clean (hclean : IsClean source.toList) (h : Reports source r)
    (h' : Reports source r') : r = r' := by
  obtain ⟨bound, hr⟩ := h
  obtain ⟨bound', hr'⟩ := h'
  have hends : ∀ bound r, report bound source = some r →
      RunsTo (statementsOf source.toList) (.initial .unlimited)
        (runProgram bound (statementsOf source.toList) (.initial .unlimited)) := by
    intro bound r hr
    refine ⟨?_, bound, rfl⟩
    intro hrun
    rw [report_of_clean hclean, hrun] at hr
    cases hr
  have hrun := (hends bound r hr).unique (hends bound' r' hr')
  rw [report_of_clean hclean] at hr hr'
  rw [hrun] at hr
  exact Option.some.inj (hr.symm.trans hr')

theorem Reports.exists_outcome_of_clean (hclean : IsClean source.toList) (h : Reports source r) :
    ∃ outcome, r.outcome = some outcome := by
  obtain ⟨bound, hr⟩ := h
  rw [report_of_clean hclean] at hr
  split at hr
  · cases hr
    exact ⟨_, rfl⟩
  · cases hr
    exact ⟨_, rfl⟩
  · cases hr

/-! ### Two scripts of the same tokens -/

namespace SameTokens

theorem parse_erase_eq (h : SameTokens a b) :
    (parse (tokenize a.toList).tokens).erase = (parse (tokenize b.toList).tokens).erase := by
  have hcontents := congrArg
    (List.map fun content : TokenKind × Value ↦ (⟨content.1, content.2, .erased⟩ : Token))
    h.contents
  rw [List.map_map, List.map_map] at hcontents
  rw [← parse_erase, ← parse_erase]
  exact congrArg parse hcontents

theorem faults_eq (h : SameTokens a b) :
    (parse (tokenize a.toList).tokens).errors.map SyntaxError.fault =
      (parse (tokenize b.toList).tokens).errors.map SyntaxError.fault := by
  have herrors := congrArg (fun parsed ↦ parsed.errors.map SyntaxError.fault) h.parse_erase_eq
  simpa [Parsed.erase, Function.comp_def, SyntaxError.erase] using herrors

theorem length_errors_eq (h : SameTokens a b) :
    (parse (tokenize a.toList).tokens).errors.length =
      (parse (tokenize b.toList).tokens).errors.length := by
  simpa using congrArg List.length h.faults_eq

theorem isClean_iff (h : SameTokens a b) : IsClean a.toList ↔ IsClean b.toList := by
  have hlength := h.length_errors_eq
  constructor
  · intro ha
    refine ⟨h.right, List.length_eq_zero_iff.mp ?_⟩
    rw [← hlength, ha.syntactic, List.length_nil]
  · intro hb
    refine ⟨h.left, List.length_eq_zero_iff.mp ?_⟩
    rw [hlength, hb.syntactic, List.length_nil]

theorem reports_iff_of_clean (h : SameTokens a b) (ha : IsClean a.toList) :
    Reports a r ↔ Reports b r := by
  have hstatements : Stmt.eraseAll (statementsOf a.toList) =
      Stmt.eraseAll (statementsOf b.toList) := congrArg Parsed.statements h.parse_erase_eq
  simp only [Reports, report_of_clean ha, report_of_clean (h.isClean_iff.mp ha),
    runProgram_congr hstatements]

/-- Scripts of the same tokens have the same statements and the same faults but for places.  One
of them ends if the other does, and their reports agree. -/
theorem reports_agree (h : SameTokens a b) :
    Stmt.eraseAll (statementsOf a.toList) = Stmt.eraseAll (statementsOf b.toList) ∧
      (parse (tokenize a.toList).tokens).errors.map SyntaxError.fault =
        (parse (tokenize b.toList).tokens).errors.map SyntaxError.fault ∧
      ((∃ r, Reports a r) ↔ ∃ r, Reports b r) ∧
      ∀ r r', Reports a r → Reports b r' → r.Agrees r' := by
  refine ⟨congrArg Parsed.statements h.parse_erase_eq, h.faults_eq, ?_⟩
  by_cases hclean : IsClean a.toList
  · -- Both give the very same report, places included: there are none in it.
    refine ⟨exists_congr fun _ ↦ h.reports_iff_of_clean hclean, fun r r' hr hr' ↦ ?_⟩
    obtain rfl := hr.unique_of_clean hclean ((h.reports_iff_of_clean hclean).mpr hr')
    obtain ⟨outcome, houtcome⟩ := hr.exists_outcome_of_clean hclean
    exact ⟨⟨outcome, houtcome, houtcome⟩, rfl, fun _ ↦ rfl⟩
  · have ha := report_of_not_clean h.left hclean
    have hb := report_of_not_clean h.right (h.isClean_iff.not.mp hclean)
    rw [← h.length_errors_eq] at hb
    constructor
    · obtain ⟨diagnostics, hr⟩ := ha 0
      obtain ⟨diagnostics', hr'⟩ := hb 0
      exact ⟨fun _ ↦ ⟨_, 0, hr'⟩, fun _ ↦ ⟨_, 0, hr⟩⟩
    · rintro r r' ⟨bound, hr⟩ ⟨bound', hr'⟩
      obtain ⟨diagnostics, hreport⟩ := ha bound
      obtain ⟨diagnostics', hreport'⟩ := hb bound'
      obtain rfl := Option.some.inj (hreport.symm.trans hr)
      obtain rfl := Option.some.inj (hreport'.symm.trans hr')
      exact ⟨⟨_, rfl, rfl⟩, rfl, nofun⟩

theorem reports_of_moved_name :
    Reports "\n@x ;#" ⟨.unlimited,
      (Channel.unlimited.writeLines [(RuntimeError.undefinedVariable "@x").message]).1,
      some .runtimeFailure⟩ := by
  have hsame : SameTokens "@x;" "\n@x ;#" := ⟨by cbv, by cbv, by cbv⟩
  have hrun : runProgram 0 (statementsOf "@x;".toList) (.initial .unlimited) =
      .failed (.undefinedVariable "@x") (.initial .unlimited) := by cbv
  have hreport : report 0 "@x;" = some ⟨.unlimited,
      (Channel.unlimited.writeLines [(RuntimeError.undefinedVariable "@x").message]).1,
      some .runtimeFailure⟩ := by
    rw [report_of_clean ⟨hsame.left, by cbv⟩, hrun]
    rfl
  obtain ⟨-, -, hends, hagree⟩ := reports_agree hsame
  obtain ⟨r, hr⟩ := hends.mp ⟨_, 0, hreport⟩
  obtain ⟨⟨outcome, houtcome, hmoved⟩, houtput, hfailure⟩ := hagree _ r ⟨0, hreport⟩ hr
  have hdiagnostics := hfailure rfl
  obtain ⟨output, diagnostics, outcome⟩ := r
  cases houtcome
  cases hmoved
  cases houtput
  cases hdiagnostics
  exact hr

end SameTokens

end Sigil
