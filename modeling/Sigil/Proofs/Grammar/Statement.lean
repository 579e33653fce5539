import Sigil.Proofs.Grammar.ExpressionUnique

/-!
# The grammar of programs

    program     := declaration*
    declaration := "let" variables | "const" constants | statement
    variables   := variable ("," variable)* ";"
    variable    := IDENTIFIER ("=" expression)?
    constants   := constant ("," constant)* ";"
    constant    := IDENTIFIER "=" expression
    statement   := ";" | "{" declaration* "}" | "console" expression ";"
                 | "if" "(" expression ")" statement ("else" statement)?
                 | "while" "(" expression ")" statement
                 | "for" "(" (";" | "let" variables | expression ";")
                     expression? ";" expression? ")" statement
                 | "break" ";" | "continue" ";" | expression ";"

Two rules are not in this form.  A `break` or a `continue` stands in the body of a
loop.  An `else` belongs to the nearest `if` before it that has none, so what
stands between an `if` and its `else` does not end with an `if` that lacks one.
Phrases of statements carry both: whether they stand in the body of a loop, and
whether an `else` after them would be theirs.
-/

namespace Sigil

namespace Grammar

inductive BindingPhrase : Mutability → Type
  | bare (name : Terminal .identifier) : BindingPhrase .mutable
  | initialized {mutability : Mutability} (name : Terminal .identifier) (sign : Terminal .equal)
      (value : Phrase .assignment) : BindingPhrase mutability

inductive BindingsPhrase (mutability : Mutability) : Type
  | last (binding : BindingPhrase mutability) (semicolon : Terminal .semicolon)
  | more (binding : BindingPhrase mutability) (comma : Terminal .comma)
      (others : BindingsPhrase mutability)

/-- An expression in parentheses, as `if` and `while` have it. -/
structure ConditionPhrase where
  opening : Terminal .leftParen
  condition : Phrase .assignment
  closing : Terminal .rightParen

inductive InitializerPhrase : Type
  | none (semicolon : Terminal .semicolon)
  | letList (keyword : Terminal .kwLet) (bindings : BindingsPhrase .mutable)
  | expression (value : Phrase .assignment) (semicolon : Terminal .semicolon)

/-- The head of a for loop. -/
structure ClausesPhrase where
  opening : Terminal .leftParen
  initializer : InitializerPhrase
  condition : Option (Phrase .assignment)
  semicolon : Terminal .semicolon
  increment : Option (Phrase .assignment)
  closing : Terminal .rightParen

mutual
/-- A derivation of a statement.  The flags say whether it stands in the body of a loop, and whether
it ends with an `if` that has no `else`. -/
inductive StatementPhrase : (looped pending : Bool) → Type
  | empty {looped : Bool} (semicolon : Terminal .semicolon) : StatementPhrase looped false
  | block {looped : Bool} (opening : Terminal .leftBrace) (items : ItemsPhrase looped)
      (closing : Terminal .rightBrace) : StatementPhrase looped false
  | console {looped : Bool} (keyword : Terminal .kwConsole) (value : Phrase .assignment)
      (semicolon : Terminal .semicolon) : StatementPhrase looped false
  | ifThen {looped pending : Bool} (keyword : Terminal .kwIf) (condition : ConditionPhrase)
      (branch : StatementPhrase looped pending) : StatementPhrase looped true
  | ifElse {looped pending : Bool} (keyword : Terminal .kwIf) (condition : ConditionPhrase)
      (branch : StatementPhrase looped false) (otherwise : Terminal .kwElse)
      (other : StatementPhrase looped pending) : StatementPhrase looped pending
  | whileLoop {looped pending : Bool} (keyword : Terminal .kwWhile) (condition : ConditionPhrase)
      (body : StatementPhrase true pending) : StatementPhrase looped pending
  | forLoop {looped pending : Bool} (keyword : Terminal .kwFor) (clauses : ClausesPhrase)
      (body : StatementPhrase true pending) : StatementPhrase looped pending
  | breakLoop (keyword : Terminal .kwBreak) (semicolon : Terminal .semicolon) :
      StatementPhrase true false
  | continueLoop (keyword : Terminal .kwContinue) (semicolon : Terminal .semicolon) :
      StatementPhrase true false
  | expression {looped : Bool} (value : Phrase .assignment) (semicolon : Terminal .semicolon) :
      StatementPhrase looped false

/-- A derivation of a declaration. -/
inductive DeclarationPhrase : (looped : Bool) → Type
  | letList {looped : Bool} (keyword : Terminal .kwLet) (bindings : BindingsPhrase .mutable) :
      DeclarationPhrase looped
  | constList {looped : Bool} (keyword : Terminal .kwConst) (bindings : BindingsPhrase .constant) :
      DeclarationPhrase looped
  | statement {looped pending : Bool} (statement : StatementPhrase looped pending) :
      DeclarationPhrase looped

/-- A derivation of declarations in a row. -/
inductive ItemsPhrase : (looped : Bool) → Type
  | none {looped : Bool} : ItemsPhrase looped
  | item {looped : Bool} (first : DeclarationPhrase looped) (others : ItemsPhrase looped) :
      ItemsPhrase looped
end

/-! ### Tokens -/

def BindingPhrase.tokens : {mutability : Mutability} → BindingPhrase mutability → List Token
  | _, .bare name => [name.val]
  | _, .initialized name sign value => name.val :: sign.val :: value.tokens

def BindingsPhrase.tokens {mutability : Mutability} : BindingsPhrase mutability → List Token
  | .last binding semicolon => binding.tokens ++ [semicolon.val]
  | .more binding comma others => binding.tokens ++ comma.val :: others.tokens

def ConditionPhrase.tokens (phrase : ConditionPhrase) : List Token :=
  phrase.opening.val :: (phrase.condition.tokens ++ [phrase.closing.val])

def InitializerPhrase.tokens : InitializerPhrase → List Token
  | .none semicolon => [semicolon.val]
  | .letList keyword bindings => keyword.val :: bindings.tokens
  | .expression value semicolon => value.tokens ++ [semicolon.val]

def optionalTokens : Option (Phrase .assignment) → List Token
  | none => []
  | some phrase => phrase.tokens

def ClausesPhrase.tokens (phrase : ClausesPhrase) : List Token :=
  phrase.opening.val :: (phrase.initializer.tokens ++ (optionalTokens phrase.condition ++
    phrase.semicolon.val :: (optionalTokens phrase.increment ++ [phrase.closing.val])))

mutual
def StatementPhrase.tokens : {looped pending : Bool} → StatementPhrase looped pending → List Token
  | _, _, .empty semicolon => [semicolon.val]
  | _, _, .block opening items closing => opening.val :: (items.tokens ++ [closing.val])
  | _, _, .console keyword value semicolon => keyword.val :: (value.tokens ++ [semicolon.val])
  | _, _, .ifThen keyword condition branch => keyword.val :: (condition.tokens ++ branch.tokens)
  | _, _, .ifElse keyword condition branch otherwise other =>
      keyword.val :: (condition.tokens ++ (branch.tokens ++ otherwise.val :: other.tokens))
  | _, _, .whileLoop keyword condition body => keyword.val :: (condition.tokens ++ body.tokens)
  | _, _, .forLoop keyword clauses body => keyword.val :: (clauses.tokens ++ body.tokens)
  | _, _, .breakLoop keyword semicolon => [keyword.val, semicolon.val]
  | _, _, .continueLoop keyword semicolon => [keyword.val, semicolon.val]
  | _, _, .expression value semicolon => value.tokens ++ [semicolon.val]

def DeclarationPhrase.tokens : {looped : Bool} → DeclarationPhrase looped → List Token
  | _, .letList keyword bindings => keyword.val :: bindings.tokens
  | _, .constList keyword bindings => keyword.val :: bindings.tokens
  | _, .statement statement => statement.tokens

def ItemsPhrase.tokens : {looped : Bool} → ItemsPhrase looped → List Token
  | _, .none => []
  | _, .item first others => first.tokens ++ others.tokens
end

/-! ### Statements -/

def BindingPhrase.stmt : {mutability : Mutability} → BindingPhrase mutability → Stmt
  | _, .bare ⟨name, _⟩ => .declaration name.text name.span none .mutable
  | mutability, .initialized ⟨name, _⟩ _ value =>
      .declaration name.text name.span (some value.expr) mutability

/-- One declaration for each binding, in order. -/
def BindingsPhrase.stmts {mutability : Mutability} : BindingsPhrase mutability → List Stmt
  | .last binding _ => [binding.stmt]
  | .more binding _ others => binding.stmt :: others.stmts

def InitializerPhrase.stmts : InitializerPhrase → List Stmt
  | .none _ => []
  | .letList _ bindings => bindings.stmts
  | .expression value _ => [.expression value.expr]

/-- The condition of a for loop; a missing one is true. -/
def conditionExpr : Option (Phrase .assignment) → Expr
  | none => .literal (.boolean true)
  | some condition => condition.expr

mutual
/-- The statement that a phrase stands for; an empty one is absent. -/
def StatementPhrase.stmt? : {looped pending : Bool} → StatementPhrase looped pending → Option Stmt
  | _, _, .empty _ => none
  | _, _, .block _ items _ => some (.block items.stmts)
  | _, _, .console _ value _ => some (.console value.expr)
  | _, _, .ifThen _ condition branch => some (.ifThen condition.condition.expr branch.stmt? none)
  | _, _, .ifElse _ condition branch _ other =>
      some (.ifThen condition.condition.expr branch.stmt? other.stmt?)
  | _, _, .whileLoop _ condition body => some (.whileLoop condition.condition.expr body.stmt?)
  | _, _, .forLoop _ clauses body =>
      some (.forLoop clauses.initializer.stmts (conditionExpr clauses.condition)
        (clauses.increment.map Phrase.expr) body.stmt?)
  | _, _, .breakLoop keyword _ => some (.breakLoop keyword.val.span)
  | _, _, .continueLoop keyword _ => some (.continueLoop keyword.val.span)
  | _, _, .expression value _ => some (.expression value.expr)

def DeclarationPhrase.stmts : {looped : Bool} → DeclarationPhrase looped → List Stmt
  | _, .letList _ bindings => bindings.stmts
  | _, .constList _ bindings => bindings.stmts
  | _, .statement statement => statement.stmt?.toList

def ItemsPhrase.stmts : {looped : Bool} → ItemsPhrase looped → List Stmt
  | _, .none => []
  | _, .item first others => first.stmts ++ others.stmts
end

/-- The tokens are a program by the grammar. -/
def DerivesProgram (tokens : List Token) (statements : List Stmt) : Prop :=
  ∃ program : ItemsPhrase false, program.tokens = tokens ∧ program.stmts = statements

end Grammar

end Sigil
