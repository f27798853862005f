import PipeLang.Session
import PipeLang.Text.Blank

/-!
# The prompt

The prompt collects lines until they make up a complete input, and runs that. Between
inputs, blank lines are skipped and the line `exit` leaves the prompt; inside an unfinished
input both are text.

`Prompt.react` decides on one line. `Prompt.sources` is the list of inputs that a list of
lines is run as.
-/

namespace PipeLang

namespace Prompt

/-- What a line does. -/
inductive Reaction where
  /-- Leave the prompt. -/
  | leave
  /-- Nothing : the line is blank. -/
  | skip
  /-- The input is not complete, more lines follow. -/
  | await (input : String)
  /-- The input is complete. -/
  | run (input : String)
deriving DecidableEq

/-- An input so far. -/
def settle (input : String) : Reaction :=
  if isUnfinished input then .await input else .run input

/-- What a line does while the input `pending` is unfinished, or none is. -/
def react (pending : Option String) (line : String) : Reaction :=
  match pending with
  | some input => settle (input ++ "\n" ++ line)
  | none =>
    let word := Text.trim line.toList
    if word = ['e', 'x', 'i', 't'] then .leave
    else if word.isEmpty then .skip
    else settle line

/-- The inputs that the lines are run as. What is unfinished at the end is dropped. -/
def sourcesFrom (pending : Option String) : List String → List String
  | [] => []
  | line :: lines =>
    match react pending line with
    | .leave => []
    | .skip => sourcesFrom none lines
    | .await input => sourcesFrom (some input) lines
    | .run input => input :: sourcesFrom none lines

/-- The inputs that the lines of a prompt are run as. -/
def sources (lines : List String) : List String := sourcesFrom none lines

end Prompt

/-- A session and the input that is unfinished. -/
structure Prompt where
  session : Session
  pending : Option String

namespace Prompt

/-- A prompt at which nothing was typed yet. -/
def new (out diagnostics : Sink) : Prompt := ⟨.new .interactive out diagnostics, none⟩

/-- The prompt after a line, or `none` to leave it. -/
def feed (p : Prompt) (line : String) : Option Prompt :=
  match react p.pending line with
  | .leave => none
  | .skip => some p
  | .await input => some { p with pending := some input }
  | .run input => some ⟨(p.session.run input).2, none⟩

end Prompt

end PipeLang
