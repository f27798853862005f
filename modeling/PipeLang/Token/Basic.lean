import PipeLang.Number.Layout

/-!
# Tokens

A token is a kind, the text it was read from and a line. Symbols and keywords are listed
here with their spellings; `Symbol.single?`, `Symbol.double?` and `Keyword.ofSpelling?`
read those spellings back.

Two tokens are *alike* (`Token.alike`) when kind, text and line agree and the value decoded
from a string or a number is left out of the comparison.
-/

namespace PipeLang

/-- A constant written in a program. -/
inductive Literal where
  | number (x : Float)
  | string (s : String)
  | boolean (b : Bool)
  | nil
deriving DecidableEq

/-! ## Symbols and keywords -/

/-- Punctuation and operators. `pipe` is the arrow that feeds a value to a call. -/
inductive Symbol where
  | leftParen | rightParen | leftBrace | rightBrace | comma | dot | semicolon
  | minus | plus | slash | star
  | bang | bangEqual | equal | equalEqual | greater | greaterEqual | less | lessEqual
  | pipe
deriving DecidableEq

namespace Symbol

/-- The name of a symbol in listings. -/
def name : Symbol → String
  | leftParen => "LEFT_PAREN"
  | rightParen => "RIGHT_PAREN"
  | leftBrace => "LEFT_BRACE"
  | rightBrace => "RIGHT_BRACE"
  | comma => "COMMA"
  | dot => "DOT"
  | semicolon => "SEMICOLON"
  | minus => "MINUS"
  | plus => "PLUS"
  | slash => "SLASH"
  | star => "STAR"
  | bang => "BANG"
  | bangEqual => "BANG_EQUAL"
  | equal => "EQUAL"
  | equalEqual => "EQUAL_EQUAL"
  | greater => "GREATER"
  | greaterEqual => "GREATER_EQUAL"
  | less => "LESS"
  | lessEqual => "LESS_EQUAL"
  | pipe => "PIPE"

/-- The symbol spelled by one character. -/
def single? : Char → Option Symbol
  | '(' => some leftParen
  | ')' => some rightParen
  | '\x7b' => some leftBrace
  | '\x7d' => some rightBrace
  | ',' => some comma
  | '.' => some dot
  | ';' => some semicolon
  | '-' => some minus
  | '+' => some plus
  | '/' => some slash
  | '*' => some star
  | '!' => some bang
  | '=' => some equal
  | '>' => some greater
  | '<' => some less
  | _ => none

/-- The symbol spelled by two characters. -/
def double? : Char → Char → Option Symbol
  | '-', '>' => some pipe
  | '!', '=' => some bangEqual
  | '=', '=' => some equalEqual
  | '>', '=' => some greaterEqual
  | '<', '=' => some lessEqual
  | _, _ => none

end Symbol

/-- Words that are no names. `class`, `for`, `return`, `super`, `this` and `while` are
reserved : no statement uses them. -/
inductive Keyword where
  | andWord | classWord | elseWord | falseWord | funcWord | forWord | ifWord | letWord
  | mutWord | nilWord | orWord | printWord | returnWord | superWord | thisWord | trueWord
  | whileWord
deriving DecidableEq

namespace Keyword

/-- The name of a keyword in listings. -/
def name : Keyword → String
  | andWord => "AND"
  | classWord => "CLASS"
  | elseWord => "ELSE"
  | falseWord => "FALSE"
  | funcWord => "FUNC"
  | forWord => "FOR"
  | ifWord => "IF"
  | letWord => "LET"
  | mutWord => "MUT"
  | nilWord => "NIL"
  | orWord => "OR"
  | printWord => "PRINT"
  | returnWord => "RETURN"
  | superWord => "SUPER"
  | thisWord => "THIS"
  | trueWord => "TRUE"
  | whileWord => "WHILE"

/-- The keyword that a word spells. -/
def ofSpelling? : String → Option Keyword
  | "and" => some andWord
  | "class" => some classWord
  | "else" => some elseWord
  | "false" => some falseWord
  | "for" => some forWord
  | "func" => some funcWord
  | "if" => some ifWord
  | "let" => some letWord
  | "mut" => some mutWord
  | "nil" => some nilWord
  | "or" => some orWord
  | "print" => some printWord
  | "return" => some returnWord
  | "super" => some superWord
  | "this" => some thisWord
  | "true" => some trueWord
  | "while" => some whileWord
  | _ => none

end Keyword

/-! ## Kinds -/

/-- What a token is. Strings and numbers carry their decoded value. -/
inductive Kind where
  | symbol (s : Symbol)
  | keyword (k : Keyword)
  | identifier
  | string (contents : String)
  | number (value : Float)
  | eof
deriving DecidableEq

namespace Kind

/-- The name of a kind in listings, without its value. -/
def name : Kind → String
  | symbol s => s.name
  | keyword k => k.name
  | identifier => "IDENTIFIER"
  | string _ => "STRING"
  | number _ => "NUMBER"
  | eof => "EOF"

/-- The same kind, whatever the decoded values are. -/
def alike : Kind → Kind → Bool
  | symbol s, symbol t => s == t
  | keyword k, keyword l => k == l
  | identifier, identifier => true
  | string _, string _ => true
  | number _, number _ => true
  | eof, eof => true
  | _, _ => false

/-- The constant decoded from a string or a number. -/
def literal? : Kind → Option Literal
  | string s => some (.string s)
  | number x => some (.number x)
  | _ => none

end Kind

/-! ## Tokens -/

/-- A kind, the text it was read from, and the line on which that text ends. -/
structure Token where
  kind : Kind
  lexeme : String
  line : Nat
deriving DecidableEq

namespace Token

/-- Equal but for the decoded values. -/
def alike (t u : Token) : Bool :=
  t.kind.alike u.kind && t.lexeme == u.lexeme && t.line == u.line

/-- A number as the listing shows it : an integer below `10 ^ 15` always with `.0`. -/
def numberText (x : Float) : String :=
  match Number.smallInteger? x with
  | some k => toString k ++ ".0"
  | none => Number.plain x

/-- The decoded value as the listing shows it. -/
def valueText : Kind → String
  | .string s => s
  | .number x => numberText x
  | _ => "null"

/-- The line of a token listing : kind, text, value. -/
def listing (t : Token) : String :=
  t.kind.name ++ " " ++ t.lexeme ++ " " ++ valueText t.kind

end Token

end PipeLang
