/-
# ScriptLang.Token.Basic -- the words of the language

A token is a keyword, a mark, a literal with its value, or an identifier.  Each
has a spelling, which reads back as the token, and a dump, which names its kind.
-/
import ScriptLang.Number.Layout
import ScriptLang.Number.Word
import ScriptLang.Text.Quoted

namespace ScriptLang

set_option autoImplicit false

/-- The reserved words. -/
inductive Keyword where
  | varKw | mutKw | ifKw | elseKw | whileKw | doKw | forKw | toKw | trueKw | falseKw
deriving DecidableEq, Inhabited

/-- Operators and delimiters. -/
inductive Mark where
  | plus | minus | star | slash | starStar | percent | plusPlus | minusMinus | bang | tilde | amp
  | pipe | caret | ampAmp | pipePipe | shl | shr | eqEq | notEq | lt | ltEq | gt | gtEq | eq
  | plusEq | minusEq | starEq | slashEq | starStarEq | percentEq | shrEq | shlEq | ampEq | pipeEq
  | caretEq | lparen | rparen | lbrace | rbrace | comma | colon | semi
deriving DecidableEq, Inhabited

namespace Keyword

/-- All keywords, in the order in which they are listed to the user. -/
def all : List Keyword :=
  [.varKw, .mutKw, .ifKw, .elseKw, .whileKw, .doKw, .forKw, .toKw, .trueKw, .falseKw]

def text : Keyword → String
  | .varKw => "var"
  | .mutKw => "mut"
  | .ifKw => "if"
  | .elseKw => "else"
  | .whileKw => "while"
  | .doKw => "do"
  | .forKw => "for"
  | .toKw => "to"
  | .trueKw => "true"
  | .falseKw => "false"

/-- The name of the kind. -/
def dump : Keyword → String
  | .varKw => "Var"
  | .mutKw => "Mut"
  | .ifKw => "If"
  | .elseKw => "Else"
  | .whileKw => "While"
  | .doKw => "Do"
  | .forKw => "For"
  | .toKw => "To"
  | .trueKw => "True"
  | .falseKw => "False"

end Keyword

namespace Mark

/-- All marks, in the order in which they are listed to the user. -/
def all : List Mark :=
  [.plus, .minus, .star, .slash, .starStar, .percent, .plusPlus, .minusMinus, .bang, .tilde,
   .amp, .pipe, .caret, .ampAmp, .pipePipe, .shl, .shr, .eqEq, .notEq, .lt, .ltEq, .gt, .gtEq,
   .eq, .plusEq, .minusEq, .starEq, .slashEq, .starStarEq, .percentEq, .shrEq, .shlEq, .ampEq,
   .pipeEq, .caretEq, .lparen, .rparen, .lbrace, .rbrace, .comma, .colon, .semi]

def text : Mark → String
  | .plus => "+"
  | .minus => "-"
  | .star => "*"
  | .slash => "/"
  | .starStar => "**"
  | .percent => "%"
  | .plusPlus => "++"
  | .minusMinus => "--"
  | .bang => "!"
  | .tilde => "~"
  | .amp => "&"
  | .pipe => "|"
  | .caret => "^"
  | .ampAmp => "&&"
  | .pipePipe => "||"
  | .shl => "<<"
  | .shr => ">>"
  | .eqEq => "=="
  | .notEq => "!="
  | .lt => "<"
  | .ltEq => "<="
  | .gt => ">"
  | .gtEq => ">="
  | .eq => "="
  | .plusEq => "+="
  | .minusEq => "-="
  | .starEq => "*="
  | .slashEq => "/="
  | .starStarEq => "**="
  | .percentEq => "%="
  | .shrEq => ">>="
  | .shlEq => "<<="
  | .ampEq => "&="
  | .pipeEq => "|="
  | .caretEq => "^="
  | .lparen => "("
  | .rparen => ")"
  | .lbrace => "\x7b"
  | .rbrace => "\x7d"
  | .comma => ","
  | .colon => ":"
  | .semi => ";"

/-- The name of the kind. -/
def dump : Mark → String
  | .plus => "Plus"
  | .minus => "Minus"
  | .star => "Star"
  | .slash => "Slash"
  | .starStar => "StarStar"
  | .percent => "Percent"
  | .plusPlus => "PlusPlus"
  | .minusMinus => "MinusMinus"
  | .bang => "Bang"
  | .tilde => "Tilde"
  | .amp => "Amp"
  | .pipe => "Pipe"
  | .caret => "Caret"
  | .ampAmp => "AmpAmp"
  | .pipePipe => "PipePipe"
  | .shl => "Shl"
  | .shr => "Shr"
  | .eqEq => "EqEq"
  | .notEq => "NotEq"
  | .lt => "Lt"
  | .ltEq => "LtEq"
  | .gt => "Gt"
  | .gtEq => "GtEq"
  | .eq => "Eq"
  | .plusEq => "PlusEq"
  | .minusEq => "MinusEq"
  | .starEq => "StarEq"
  | .slashEq => "SlashEq"
  | .starStarEq => "StarStarEq"
  | .percentEq => "PercentEq"
  | .shrEq => "ShrEq"
  | .shlEq => "ShlEq"
  | .ampEq => "AmpEq"
  | .pipeEq => "PipeEq"
  | .caretEq => "CaretEq"
  | .lparen => "LParen"
  | .rparen => "RParen"
  | .lbrace => "LBrace"
  | .rbrace => "RBrace"
  | .comma => "Comma"
  | .colon => "Colon"
  | .semi => "Semi"

end Mark

/-- A word of the language. -/
inductive Token where
  | keyword (k : Keyword)
  | mark (m : Mark)
  | int (n : Int64)
  | float (x : Float)
  | string (s : String)
  | ident (name : String)
deriving Inhabited

namespace Token

def isKeyword : Token → Bool
  | .keyword _ => true
  | _ => false

/-- The spelling shown to the user. -/
def text : Token → String
  | .keyword k => k.text
  | .mark m => m.text
  | .int n => Word.text n
  | .float x => NumberLayout.shown.float x
  | .string s => Text.quote s
  | .ident name => name

/-- The kind, with the value if it has one. -/
def dump : Token → String
  | .keyword k => k.dump
  | .mark m => m.dump
  | .int n => "IntLit(" ++ Word.text n ++ ")"
  | .float x => "FloatLit(" ++ NumberLayout.dumped.float x ++ ")"
  | .string s => "StringLit(" ++ Text.quote s ++ ")"
  | .ident name => "Ident(" ++ Text.quote name ++ ")"

end Token

end ScriptLang
