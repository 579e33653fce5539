/-!
# Kinds of tokens

Every kind of token, its name in listings, and the spellings of those that have
a fixed one.
-/

namespace Sigil

/-- The kinds of tokens.  A `word` is a bare word that is no keyword; whether it may stand depends
on what comes before it.  A `comment` is layout. -/
inductive TokenKind where
  | leftParen
  | rightParen
  | leftBrace
  | rightBrace
  | leftBracket
  | rightBracket
  | objectOpening
  | objectClosing
  | comma
  | dot
  | semicolon
  | colon
  | questionMark
  | minus
  | minusEqual
  | minusMinus
  | plus
  | plusEqual
  | plusPlus
  | star
  | starEqual
  | starStar
  | starStarEqual
  | slash
  | slashEqual
  | percent
  | percentEqual
  | bang
  | bangEqual
  | equal
  | equalEqual
  | less
  | lessEqual
  | greater
  | greaterEqual
  | number
  | string
  | interpolatedString
  | templateString
  | identifier
  | kwConsole
  | kwLet
  | kwConst
  | kwFun
  | kwReturn
  | kwIf
  | kwElse
  | kwWhile
  | kwFor
  | kwBreak
  | kwContinue
  | kwTrue
  | kwFalse
  | kwNull
  | kwTypeof
  | kwOr
  | kwAnd
  | word
  | comment
  deriving DecidableEq, Repr

namespace TokenKind

/-- Every kind with its name in listings. -/
def names : List (TokenKind × String) :=
  [(.leftParen, "LeftParen"), (.rightParen, "RightParen"), (.leftBrace, "LeftBrace"),
    (.rightBrace, "RightBrace"), (.leftBracket, "LeftBracket"), (.rightBracket, "RightBracket"),
    (.objectOpening, "ObjectOpening"), (.objectClosing, "ObjectClosing"), (.comma, "Comma"),
    (.dot, "Dot"), (.semicolon, "Semicolon"), (.colon, "Colon"),
    (.questionMark, "QuestionMark"), (.minus, "Minus"), (.minusEqual, "MinusEqual"),
    (.minusMinus, "MinusMinus"), (.plus, "Plus"), (.plusEqual, "PlusEqual"),
    (.plusPlus, "PlusPlus"), (.star, "Star"), (.starEqual, "StarEqual"),
    (.starStar, "StarStar"), (.starStarEqual, "StarStarEqual"), (.slash, "Slash"),
    (.slashEqual, "SlashEqual"), (.percent, "Percent"), (.percentEqual, "PercentEqual"),
    (.bang, "Bang"), (.bangEqual, "BangEqual"), (.equal, "Equal"),
    (.equalEqual, "EqualEqual"), (.less, "Less"), (.lessEqual, "LessEqual"),
    (.greater, "Greater"), (.greaterEqual, "GreaterEqual"), (.number, "Number"),
    (.string, "String"), (.interpolatedString, "InterpolatedString"),
    (.templateString, "TemplateString"), (.identifier, "Identifier"), (.kwConsole, "Console"),
    (.kwLet, "Let"), (.kwConst, "Const"), (.kwFun, "Fun"), (.kwReturn, "Return"), (.kwIf, "If"),
    (.kwElse, "Else"), (.kwWhile, "While"), (.kwFor, "For"), (.kwBreak, "Break"),
    (.kwContinue, "Continue"), (.kwTrue, "True"), (.kwFalse, "False"), (.kwNull, "Null"),
    (.kwTypeof, "Typeof"), (.kwOr, "Or"), (.kwAnd, "And"), (.word, "Word"),
    (.comment, "Comment")]

/-- The name of a kind in listings. -/
def name (kind : TokenKind) : String := (names.lookup kind).getD ""

/-- The kind with a given name. -/
def ofName? (name : String) : Option TokenKind := (names.find? (·.2 == name)).map (·.1)

/-- The spellings of punctuation, the longer ones first. -/
def punctuation : List (List Char × TokenKind) :=
  [(['*', '*', '='], .starStarEqual),
    (['<', '\x7b'], .objectOpening), (['\x7d', '>'], .objectClosing),
    (['-', '='], .minusEqual), (['-', '-'], .minusMinus),
    (['+', '='], .plusEqual), (['+', '+'], .plusPlus),
    (['*', '='], .starEqual), (['*', '*'], .starStar),
    (['/', '='], .slashEqual), (['%', '='], .percentEqual),
    (['!', '='], .bangEqual), (['=', '='], .equalEqual),
    (['<', '='], .lessEqual), (['>', '='], .greaterEqual),
    (['('], .leftParen), ([')'], .rightParen),
    (['\x7b'], .leftBrace), (['\x7d'], .rightBrace),
    (['['], .leftBracket), ([']'], .rightBracket),
    ([','], .comma), (['.'], .dot), ([';'], .semicolon), ([':'], .colon),
    (['?'], .questionMark), (['-'], .minus), (['+'], .plus), (['*'], .star),
    (['/'], .slash), (['%'], .percent), (['!'], .bang), (['='], .equal),
    (['<'], .less), (['>'], .greater)]

/-- The spellings of keywords. -/
def keywords : List (List Char × TokenKind) :=
  [("console".toList, .kwConsole), ("let".toList, .kwLet), ("const".toList, .kwConst),
    ("fun".toList, .kwFun), ("return".toList, .kwReturn), ("if".toList, .kwIf),
    ("else".toList, .kwElse), ("while".toList, .kwWhile), ("for".toList, .kwFor),
    ("break".toList, .kwBreak), ("continue".toList, .kwContinue), ("true".toList, .kwTrue),
    ("false".toList, .kwFalse), ("null".toList, .kwNull), ("typeof".toList, .kwTypeof),
    ("or".toList, .kwOr), ("and".toList, .kwAnd)]

/-- The longest punctuation at the front of a text. -/
def punctuationAt? (text : List Char) : Option (List Char × TokenKind) :=
  punctuation.find? fun entry ↦ entry.1.isPrefixOf text

/-- The kind of a whole bare word: a keyword if it is spelled like one. -/
def ofWord (text : List Char) : TokenKind := (keywords.lookup text).getD .word

end TokenKind

end Sigil
