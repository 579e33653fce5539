import Sigil.Proofs.Syntax.Movement

/-!
# The grammar of expressions

    assignment  := IDENTIFIER ("=" | "+=" | "-=" | "*=" | "/=") assignment | disjunction
    disjunction := conjunction ("or" conjunction)*
    conjunction := conditional ("and" conditional)*
    conditional := equality ("?" conditional ":" conditional)?
    equality    := comparison (("==" | "!=") comparison)*
    comparison  := additive ((">" | ">=" | "<" | "<=") additive)*
    additive    := multiplicative (("+" | "-") multiplicative)*
    multiplicative := unary (("*" | "/") unary)*
    unary       := ("+" | "-" | "!" | "typeof") unary | ("++" | "--") IDENTIFIER | suffixed
    suffixed    := IDENTIFIER ("++" | "--") | primary
    primary     := LITERAL | IDENTIFIER | "(" assignment ")"

A phrase is a derivation in this grammar: it says which rule was used at every
place.  It has tokens, and it stands for an expression.
-/

namespace Sigil

namespace Grammar

/-- A token of a given kind. -/
abbrev Terminal (kind : TokenKind) := { token : Token // token.kind = kind }

/-- A token that a table of operators lists, with what the table says about it. -/
structure Sign {α : Type} (table : List (TokenKind × α)) where
  token : Token
  meaning : α
  listed : table.lookup token.kind = some meaning

def assignments : List (TokenKind × AssignForm) :=
  [(.equal, .plain), (.plusEqual, .compound .add), (.minusEqual, .compound .sub),
    (.starEqual, .compound .mul), (.slashEqual, .compound .div)]

def connectives : ChainLevel → List (TokenKind × Connective)
  | .disjunction => [(.kwOr, .logical .or)]
  | .conjunction => [(.kwAnd, .logical .and)]
  | .equality => [(.equalEqual, .binary .equal), (.bangEqual, .binary .notEqual)]
  | .comparison =>
      [(.greater, .binary .greater), (.greaterEqual, .binary .greaterEqual),
        (.less, .binary .less), (.lessEqual, .binary .lessEqual)]
  | .additive => [(.plus, .binary .add), (.minus, .binary .sub)]
  | .multiplicative => [(.star, .binary .mul), (.slash, .binary .div)]

/-- The level of the operands of a chain. -/
def operands : ChainLevel → Level
  | .disjunction => .chain .conjunction
  | .conjunction => .conditional
  | .equality => .chain .comparison
  | .comparison => .chain .additive
  | .additive => .chain .multiplicative
  | .multiplicative => .unary

def signs : List (TokenKind × UnaryOperator) :=
  [(.plus, .plus), (.minus, .negate), (.bang, .not), (.kwTypeof, .typeof)]

def updates : List (TokenKind × UnaryOperator) :=
  [(.plusPlus, .increment), (.minusMinus, .decrement)]

def suffixes : List (TokenKind × BinaryOperator) :=
  [(.plusPlus, .add), (.minusMinus, .sub)]

/-- A token that is an expression by itself. -/
inductive Atom : Token → Expr → Prop
  | null {token : Token} (h : token.kind = .kwNull) : Atom token (.literal .null)
  | true {token : Token} (h : token.kind = .kwTrue) : Atom token (.literal token.literal)
  | false {token : Token} (h : token.kind = .kwFalse) : Atom token (.literal token.literal)
  | number {token : Token} (h : token.kind = .number) : Atom token (.literal token.literal)
  | string {token : Token} (h : token.kind = .string) : Atom token (.literal token.literal)
  | template {token : Token} (h : token.kind = .interpolatedString) :
      Atom token (.template token.text)
  | reference {token : Token} (h : token.kind = .identifier) :
      Atom token (.reference token.text token.span)

mutual
/-- A derivation of an expression of a level. -/
inductive Phrase : Level → Type
  | assign (target : Terminal .identifier) (sign : Sign assignments)
      (value : Phrase .assignment) : Phrase .assignment
  | unassigned (inner : Phrase (.chain .disjunction)) : Phrase .assignment
  | chain {level : ChainLevel} (first : Phrase (operands level)) (links : Links level) :
      Phrase (.chain level)
  | choice (condition : Phrase (.chain .equality)) (mark : Terminal .questionMark)
      (left : Phrase .conditional) (colon : Terminal .colon) (right : Phrase .conditional) :
      Phrase .conditional
  | unconditional (inner : Phrase (.chain .equality)) : Phrase .conditional
  | signed (sign : Sign signs) (operand : Phrase .unary) : Phrase .unary
  | updating (sign : Sign updates) (target : Terminal .identifier) : Phrase .unary
  | unsigned (inner : Phrase .suffixed) : Phrase .unary
  | suffixed (target : Terminal .identifier) (sign : Sign suffixes) : Phrase .suffixed
  | unsuffixed (inner : Phrase .primary) : Phrase .suffixed
  | atom (token : Token) (expr : Expr) (h : Atom token expr) : Phrase .primary
  | group (opening : Terminal .leftParen) (inner : Phrase .assignment)
      (closing : Terminal .rightParen) : Phrase .primary

/-- What follows the first operand of a chain. -/
inductive Links : ChainLevel → Type
  | none {level : ChainLevel} : Links level
  | link {level : ChainLevel} (sign : Sign (connectives level)) (operand : Phrase (operands level))
      (others : Links level) : Links level
end

mutual
def Phrase.tokens : {level : Level} → Phrase level → List Token
  | _, .assign target sign value => target.val :: sign.token :: value.tokens
  | _, .unassigned inner => inner.tokens
  | _, .chain first links => first.tokens ++ links.tokens
  | _, .choice condition mark left colon right =>
      condition.tokens ++ mark.val :: (left.tokens ++ colon.val :: right.tokens)
  | _, .unconditional inner => inner.tokens
  | _, .signed sign operand => sign.token :: operand.tokens
  | _, .updating sign target => [sign.token, target.val]
  | _, .unsigned inner => inner.tokens
  | _, .suffixed target sign => [target.val, sign.token]
  | _, .unsuffixed inner => inner.tokens
  | _, .atom token _ _ => [token]
  | _, .group opening inner closing => opening.val :: (inner.tokens ++ [closing.val])

def Links.tokens : {level : ChainLevel} → Links level → List Token
  | _, .none => []
  | _, .link sign operand others => sign.token :: (operand.tokens ++ others.tokens)
end

/-- The variable that an identifier stands for. -/
def reference (target : Token) : Expr := .reference target.text target.span

mutual
/-- The expression that a phrase stands for. -/
def Phrase.expr : {level : Level} → Phrase level → Expr
  | _, .assign ⟨target, _⟩ ⟨_, .plain, _⟩ value =>
      .assign target.text target.span value.expr .after
  | _, .assign ⟨target, _⟩ ⟨operator, .compound op, _⟩ value =>
      .assign target.text target.span
        (.binary (reference target) op value.expr operator.span) .after
  | _, .unassigned inner => inner.expr
  | _, .chain first links => links.join first.expr
  | _, .choice condition _ left _ right => .conditional condition.expr left.expr right.expr
  | _, .unconditional inner => inner.expr
  | _, .signed sign operand => .unary sign.meaning operand.expr sign.token.span
  | _, .updating sign target => .unary sign.meaning (reference target.val) sign.token.span
  | _, .unsigned inner => inner.expr
  | _, .suffixed ⟨target, _⟩ sign =>
      .assign target.text target.span
        (.binary (reference target) sign.meaning (.literal (.number 1)) sign.token.span) .before
  | _, .unsuffixed inner => inner.expr
  | _, .atom _ expr _ => expr
  | _, .group _ inner _ => .grouping inner.expr

/-- The expression that a chain with a given beginning stands for: operators group to the left. -/
def Links.join : {level : ChainLevel} → Links level → Expr → Expr
  | _, .none, left => left
  | _, .link ⟨operator, .logical op, _⟩ operand others, left =>
      others.join (.logical left op operand.expr operator.span)
  | _, .link ⟨operator, .binary op, _⟩ operand others, left =>
      others.join (.binary left op operand.expr operator.span)
end

/-- The tokens are an expression by the grammar. -/
def Derives (tokens : List Token) (expr : Expr) : Prop :=
  ∃ phrase : Phrase .assignment, phrase.tokens = tokens ∧ phrase.expr = expr

end Grammar

end Sigil
