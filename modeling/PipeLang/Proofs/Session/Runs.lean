import PipeLang.Proofs.Interpreter.AtRest
import PipeLang.Session

/-!
# Runs of source texts

A run of a source text comes to a first error or to none (`Session.error?`). This alone
decides on the answer and on what is written to the diagnostics (`Session.run_eq`). Between
two texts the interpreter is at rest.
-/

namespace PipeLang

/-- Why a step fails, as it is shown. -/
def Run.failure? {α : Type} (x : Run α) (i : Interpreter) : Option Diagnostic :=
  match x i with
  | .ok _ _ => none
  | .error f _ => some f.diagnostic

section

variable {α β : Type} {x : Run α} {y : Run β} {i j : Interpreter}
  {M : Interpreter → Interpreter → Prop} {Q : α → β → Prop}

/-- Runs that end alike show the same failure. -/
theorem EndAlike.failure?_eq
    (h : EndAlike (fun f g => g.diagnostic = f.diagnostic) M Q (x i) (y j)) :
    y.failure? j = x.failure? i := by
  unfold Run.failure?
  generalize x i = r at h ⊢
  generalize y j = r' at h ⊢
  cases h with
  | ok => rfl
  | error h _ => exact congrArg some h

/-- Or related failures, where related faults are shown so. -/
theorem EndAlike.failure? {E : Fault → Fault → Prop} {D : Diagnostic → Diagnostic → Prop}
    (h : EndAlike E M Q (x i) (y j)) (hE : ∀ f g, E f g → D f.diagnostic g.diagnostic) :
    Option.Rel D (x.failure? i) (y.failure? j) := by
  unfold Run.failure?
  generalize x i = r at h ⊢
  generalize y j = r' at h ⊢
  cases h with
  | ok => exact .none
  | error h _ => exact .some (hE _ _ h)

/-- And they leave related interpreters, whether they fail or not. -/
theorem EndAlike.after {E : Fault → Fault → Prop} (h : EndAlike E M Q (x i) (y j)) :
    M (x.after i) (y.after j) := by
  unfold Run.after
  generalize x i = r at h ⊢
  generalize y j = r' at h ⊢
  cases h with
  | ok _ h => exact h
  | error _ h => exact h

end

namespace Session

/-- The session after source texts, run one after the other. -/
def runAll : List String → Session → Session
  | [], s => s
  | source :: sources, s => runAll sources (s.run source).2

/-- The first error of a source text. -/
def error? (s : Session) (source : String) : Option Diagnostic :=
  match Program.ofSource source with
  | .error d => some d
  | .ok p => (execute s.mode p).failure? s.interpreter

/-- What a session answers to an error, or to none. -/
def status (mode : Mode) : Option Diagnostic → Status
  | none => .proceed
  | some _ => failed mode

/-- At a prompt an error is not the end. -/
@[simp]
theorem status_interactive (e : Option Diagnostic) : status .interactive e = .proceed := by
  cases e <;> rfl

/-- What a session writes to the diagnostics. -/
def reported : Option Diagnostic → ByteArray
  | none => .empty
  | some d => (d.render ++ "\n").toUTF8

/-- The interpreter after a source text. -/
def interpreterAfter (s : Session) (source : String) : Interpreter :=
  match Program.ofSource source with
  | .error _ => s.interpreter
  | .ok p => (execute s.mode p).after s.interpreter

end Session

namespace Session

variable (s : Session) (source : String)

section

variable {source} {d : Diagnostic} {p : Program}

/-- What is no program fails with the error of the scanner or the parser. -/
theorem error?_of_error (h : Program.ofSource source = .error d) : s.error? source = some d := by
  rw [error?, h]

/-- And nothing of it is executed. -/
theorem interpreterAfter_of_error (h : Program.ofSource source = .error d) :
    s.interpreterAfter source = s.interpreter := by
  rw [interpreterAfter, h]

/-- What is a program fails if its execution does. -/
theorem error?_of_ok (h : Program.ofSource source = .ok p) :
    s.error? source = (execute s.mode p).failure? s.interpreter := by
  rw [error?, h]

theorem interpreterAfter_of_ok (h : Program.ofSource source = .ok p) :
    s.interpreterAfter source = (execute s.mode p).after s.interpreter := by
  rw [interpreterAfter, h]

end

/-- A run of a source text in its parts. -/
theorem run_eq :
    s.run source = (status s.mode (s.error? source),
      ⟨s.mode, s.interpreterAfter source, s.diagnostics.write (reported (s.error? source))⟩) := by
  obtain ⟨mode, i, diagnostics⟩ := s
  unfold run error? interpreterAfter
  cases Program.ofSource source with
  | error d => rfl
  | ok p =>
    dsimp only
    unfold Run.failure? Run.after
    cases execute mode p i with
    | ok u j =>
      dsimp only [status, reported]
      rw [Sink.write_empty]
    | error f j => rfl

/-- The status depends on the mode and on whether there is an error. -/
@[simp]
theorem run_fst : (s.run source).1 = status s.mode (s.error? source) := by rw [run_eq]

/-- A session never changes its mode. -/
@[simp]
theorem mode_run : (s.run source).2.mode = s.mode := by rw [run_eq]

@[simp]
theorem interpreter_run : (s.run source).2.interpreter = s.interpreterAfter source := by
  rw [run_eq]

/-- A run writes its error, if it has one, and nothing else. -/
@[simp]
theorem diagnostics_run :
    (s.run source).2.diagnostics = s.diagnostics.write (reported (s.error? source)) := by
  rw [run_eq]

variable {s}

/-- Between two texts nothing is under way. -/
theorem atRest_run (h : s.interpreter.AtRest) : (s.run source).2.interpreter.AtRest := by
  rw [run_eq]
  dsimp only [interpreterAfter]
  split
  · exact h
  · next p _ =>
    cases s.mode with
    | batch => exact h.runFresh p
    | interactive => exact h.runShared p

/-- Where the output cannot fail at first, it cannot fail afterwards. -/
theorem unfailing_run (h : s.interpreter.out.Unfailing) :
    (s.run source).2.interpreter.out.Unfailing := by
  rw [run_eq]
  dsimp only [interpreterAfter]
  split
  · exact h
  · next p _ =>
    cases s.mode with
    | batch => exact history_unfailing.runFresh p s.interpreter h
    | interactive => exact history_unfailing.runShared p s.interpreter h

/-- Texts can be run in two parts. -/
theorem runAll_append (as bs : List String) (s : Session) :
    s.runAll (as ++ bs) = (s.runAll as).runAll bs := by
  induction as generalizing s with
  | nil => rfl
  | cons a as ih => exact ih (s.run a).2

/-- A session that has run some source texts. -/
theorem runAll_induction {P : Session → Prop} (hrun : ∀ s source, P s → P (s.run source).2)
    (sources : List String) (h : P s) : P (s.runAll sources) := by
  induction sources generalizing s with
  | nil => exact h
  | cons source sources ih => exact ih (hrun s source h)

/-- Between two texts of a new session. -/
theorem runAll_new (mode : Mode) {out : Sink} (diagnostics : Sink) (sources : List String)
    (hout : out.Unfailing) :
    let s := (new mode out diagnostics).runAll sources
    s.mode = mode ∧ s.interpreter.AtRest ∧ s.interpreter.out.Unfailing := by
  have hnew : (new mode out diagnostics).interpreter.AtRest := .new out
  refine runAll_induction
    (P := fun s => s.mode = mode ∧ s.interpreter.AtRest ∧ s.interpreter.out.Unfailing)
    ?_ sources ⟨rfl, hnew, hout⟩
  rintro s source ⟨hmode, hrest, hunfailing⟩
  exact ⟨(mode_run s source).trans hmode, atRest_run source hrest, unfailing_run source hunfailing⟩

end Session

end PipeLang
