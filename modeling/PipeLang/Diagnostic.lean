import PipeLang.Token.Lexer

/-!
# Diagnostics

A diagnostic is an error as it is shown : which stage failed, the message, and the place,
when one is known. `Diagnostic.render` is the line that a session writes,
`[line N] Error: message (context)`.

Each stage has its own type of causes. `LexicalError.diagnostic` words the lexer's; a parser
blames a token with `Diagnostic.blaming`, an evaluator with `Diagnostic.runtimeOn`.
-/

namespace PipeLang

/-- A source line and a short piece of context : the offending token, a name, the operands
of an operator. -/
structure Location where
  line : Nat
  context : String
deriving DecidableEq

/-- An error as it is shown. -/
inductive Diagnostic where
  | lexical (message : String) (line : Nat)
  | syntactic (message : String) (location : Option Location)
  | runtime (message : String) (location : Option Location)
  | io (text : String)
deriving DecidableEq

namespace Diagnostic

/-- The bare message, without place. -/
def message : Diagnostic → String
  | lexical message _ => message
  | syntactic message _ => message
  | runtime message _ => message
  | io text => text

/-- The source line, when one is known. -/
def line? : Diagnostic → Option Nat
  | lexical _ line => some line
  | syntactic _ location => location.map Location.line
  | runtime _ location => location.map Location.line
  | io _ => none

/-- A message with its place. An empty context is left out. -/
def placed (message : String) : Option Location → String
  | none => "Error: " ++ message
  | some ⟨line, context⟩ =>
    "[line " ++ toString line ++ "] Error: " ++ message
      ++ (if context.isEmpty then "" else " (" ++ context ++ ")")

/-- The line that shows the error. -/
def render : Diagnostic → String
  | lexical message line => placed message (some ⟨line, ""⟩)
  | syntactic message location => placed message location
  | runtime message location => placed message location
  | io text => text

/-- A syntax error that blames the token `t`. At the end marker there is no place to show,
and the message says so instead. -/
def blaming (t : Token) (message : String) : Diagnostic :=
  if t.kind = .eof then syntactic (message ++ " at end of file.") none
  else syntactic message (some ⟨t.line, "at token \"" ++ t.lexeme ++ "\""⟩)

/-- A runtime error on the line of the token `t`. -/
def runtimeOn (t : Token) (message context : String) : Diagnostic :=
  runtime message (some ⟨t.line, context⟩)

end Diagnostic

/-- What is wrong with the text. -/
def LexicalCause.message : LexicalCause → String
  | unexpected c => "Unexpected token \"" ++ c.toString ++ "\""
  | unterminatedString => "Unterminated string"

/-- A lexical error as it is shown. -/
def LexicalError.diagnostic (e : LexicalError) : Diagnostic :=
  .lexical e.cause.message e.line

/-- Texts are told apart by how they begin. -/
theorem append_ne_of_start {start text : String} (rest : String)
    (h : ¬ start.toList <+: text.toList) : start ++ rest ≠ text := by
  intro heq
  have htoList : (start ++ rest).toList = start.toList ++ rest.toList := String.toList_append
  exact h (heq ▸ htoList ▸ List.prefix_append _ _)

end PipeLang
