import Sigil.Proofs.Grammar.StatementDerivation

/-!
# Programs in a row are a program

No rule of the grammar reaches from the end of a program into what follows it, since a
declaration never starts with an `else`.  A program that is not empty ends with a
semicolon or a closing brace.
-/

namespace Sigil

namespace Grammar

variable {looped pending : Bool} {mutability : Mutability} {tokens tokens' : List Token}

def ItemsPhrase.append : ItemsPhrase looped → ItemsPhrase looped → ItemsPhrase looped
  | .none, back => back
  | .item first others, back => .item first (others.append back)

theorem ItemsPhrase.tokens_append (front back : ItemsPhrase looped) :
    (front.append back).tokens = front.tokens ++ back.tokens := by
  match front with
  | .none => rw [append, tokens, List.nil_append]
  | .item first others => rw [append, tokens, tokens, tokens_append others, List.append_assoc]

theorem ItemsPhrase.stmts_append (front back : ItemsPhrase looped) :
    (front.append back).stmts = front.stmts ++ back.stmts := by
  match front with
  | .none => rw [append, stmts, List.nil_append]
  | .item first others => rw [append, stmts, stmts, stmts_append others, List.append_assoc]

/-- A program that is read without errors has a derivation. -/
theorem exists_phrase_of_parse (h : (parse tokens).errors = []) :
    ∃ program : ItemsPhrase false,
      program.tokens = tokens ∧ program.stmts = (parse tokens).statements := by
  obtain ⟨program, hstmts, htokens⟩ :=
    exists_phrase_of_readProgram (Cursor.ofTokens tokens) rfl h
  exact ⟨program, htokens.symm, hstmts⟩

theorem ItemsPhrase.parse_eq (program : ItemsPhrase false) :
    parse program.tokens = ⟨program.stmts, []⟩ := by
  have hread := program.readProgram_eq (Cursor.ofTokens program.tokens) rfl nofun
  rw [parse, hread]
  exact congrArg (Parsed.mk _) (Cursor.errors_skip _ _)

/-- Two programs in a row are read one after the other. -/
theorem parse_append (h : (parse tokens).errors = []) (h' : (parse tokens').errors = []) :
    parse (tokens ++ tokens') = ⟨(parse tokens).statements ++ (parse tokens').statements, []⟩ := by
  obtain ⟨front, rfl, hfront⟩ := exists_phrase_of_parse h
  obtain ⟨back, rfl, hback⟩ := exists_phrase_of_parse h'
  rw [← ItemsPhrase.tokens_append, ItemsPhrase.parse_eq, ItemsPhrase.stmts_append, hfront, hback]

/-! ### Last tokens -/

/-- The last token is a semicolon or a closing brace. -/
def Closed (tokens : List Token) : Prop :=
  ∃ front last, tokens = front ++ [last] ∧ last.kind ∈ [TokenKind.semicolon, .rightBrace]

theorem Closed.append {back : List Token} (h : Closed back) (front : List Token) :
    Closed (front ++ back) := by
  obtain ⟨middle, last, rfl, hkind⟩ := h
  exact ⟨front ++ middle, last, (List.append_assoc ..).symm, hkind⟩

theorem Closed.cons {back : List Token} (h : Closed back) (first : Token) :
    Closed (first :: back) :=
  h.append [first]

theorem closed_semicolon (front : List Token) (semicolon : Terminal .semicolon) :
    Closed (front ++ [semicolon.val]) :=
  ⟨front, semicolon.val, rfl, by simp [semicolon.property]⟩

theorem BindingsPhrase.closed : (phrase : BindingsPhrase mutability) → Closed phrase.tokens
  | .last binding semicolon => closed_semicolon binding.tokens semicolon
  | .more binding comma others => (others.closed.cons comma.val).append binding.tokens

theorem StatementPhrase.closed :
    {looped pending : Bool} → (phrase : StatementPhrase looped pending) → Closed phrase.tokens
  | _, _, .empty semicolon => closed_semicolon [] semicolon
  | _, _, .block opening items closing =>
      ⟨opening.val :: items.tokens, closing.val, rfl, by simp [closing.property]⟩
  | _, _, .console keyword value semicolon =>
      closed_semicolon (keyword.val :: value.tokens) semicolon
  | _, _, .ifThen keyword condition branch =>
      (branch.closed.append condition.tokens).cons keyword.val
  | _, _, .ifElse keyword condition branch otherwise other =>
      (((other.closed.cons otherwise.val).append branch.tokens).append condition.tokens).cons
        keyword.val
  | _, _, .whileLoop keyword condition body =>
      (body.closed.append condition.tokens).cons keyword.val
  | _, _, .forLoop keyword clauses body => (body.closed.append clauses.tokens).cons keyword.val
  | _, _, .breakLoop keyword semicolon => closed_semicolon [keyword.val] semicolon
  | _, _, .continueLoop keyword semicolon => closed_semicolon [keyword.val] semicolon
  | _, _, .expression value semicolon => closed_semicolon value.tokens semicolon

theorem DeclarationPhrase.closed (phrase : DeclarationPhrase looped) : Closed phrase.tokens := by
  cases phrase with
  | letList keyword bindings => exact bindings.closed.cons keyword.val
  | constList keyword bindings => exact bindings.closed.cons keyword.val
  | statement statement => exact statement.closed

theorem ItemsPhrase.closed :
    (phrase : ItemsPhrase looped) → phrase.tokens = [] ∨ Closed phrase.tokens
  | .none => .inl rfl
  | .item first others => by
      right
      obtain hnil | hclosed := others.closed
      · rw [tokens, hnil, List.append_nil]
        exact first.closed
      · exact hclosed.append first.tokens

/-- The last token of a program, if it has one, is a semicolon or a closing brace. -/
theorem kind_getLast?_of_parse (h : (parse tokens).errors = []) :
    ∀ token ∈ tokens.getLast?, token.kind ∈ [TokenKind.semicolon, .rightBrace] := by
  obtain ⟨program, rfl, -⟩ := exists_phrase_of_parse h
  intro token htoken
  obtain hnil | ⟨front, last, hlast, hkind⟩ := program.closed
  · simp [hnil] at htoken
  · rw [hlast, List.getLast?_concat] at htoken
    obtain rfl := Option.some.inj htoken
    exact hkind

end Grammar

end Sigil
