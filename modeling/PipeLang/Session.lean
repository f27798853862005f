import PipeLang.Interpreter.Evaluation
import PipeLang.Syntax.Parser

/-!
# Sessions

A session runs one source text after the other : read the whole text as a program, then
execute it. Nothing is executed of a text that is no program. The first error of a text is
written to the diagnostics, and the mode says what it means : in a batch it is the end, at a
prompt the next text is read.

A failing diagnostics sink changes nothing but what it holds.
-/

namespace PipeLang

/-- The program a source text is, or its first error. -/
def Program.ofSource (source : String) : Except Diagnostic Program := do
  let ts ← (tokens? source).mapError LexicalError.diagnostic
  (parse ts).mapError SyntaxError.diagnostic

/-- What becomes of errors. -/
inductive Mode where
  | batch
  | interactive
deriving DecidableEq

/-- What to do after a text. -/
inductive Status where
  | proceed
  | halt (code : Nat)
deriving DecidableEq

/-- An interpreter with a place for errors. -/
structure Session where
  mode : Mode
  interpreter : Interpreter
  diagnostics : Sink

namespace Session

/-- A session that has run nothing yet. -/
def new (mode : Mode) (out diagnostics : Sink) : Session := ⟨mode, .new out, diagnostics⟩

/-- What an error means. -/
def failed : Mode → Status
  | .batch => .halt 1
  | .interactive => .proceed

/-- Write an error on a line of its own. -/
def report (s : Session) (d : Diagnostic) : Status × Session :=
  (failed s.mode,
    { s with diagnostics := s.diagnostics.write (d.render ++ "\n").toUTF8 })

/-- Execute a program : each in a frame of its own in a batch, all in one at a prompt. -/
def execute (mode : Mode) (p : Program) : Run Unit :=
  match mode with
  | .batch => Interpreter.runFresh p
  | .interactive => Interpreter.runShared p

/-- Run a source text and report its first error. -/
def run (s : Session) (source : String) : Status × Session :=
  match Program.ofSource source with
  | .error d => s.report d
  | .ok p =>
    match execute s.mode p s.interpreter with
    | .ok () i => (.proceed, { s with interpreter := i })
    | .error f i => { s with interpreter := i }.report f.diagnostic

end Session

end PipeLang
