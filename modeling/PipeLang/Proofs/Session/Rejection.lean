import PipeLang.Proofs.Session.Transcript

/-!
# Rejected texts

A text that is no program is rejected before anything is executed, so the interpreter stays
as it was. What a session answers to a text depends on its mode and its interpreter alone, not
on the place for errors (`Agree`). So rejected texts can be left out of a sequence of texts, and
the answers to the others are the same (`Session.rejected_leave_session`).
-/

namespace PipeLang

/-- The text cannot be cut into tokens, or its tokens are no program. -/
def Rejected (source : String) : Prop := ∃ d, Program.ofSource source = .error d

instance (source : String) : Decidable (Rejected source) :=
  match h : Program.ofSource source with
  | .error d => isTrue ⟨d, h⟩
  | .ok _ => isFalse fun ⟨_, hd⟩ => nomatch h.symm.trans hd

/-- The entries that are marked. -/
def marked {α : Type} (entries : List (α × Bool)) : List α :=
  (entries.filter Prod.snd).map Prod.fst

@[simp]
theorem marked_cons_true {α : Type} (x : α) (entries : List (α × Bool)) :
    marked ((x, true) :: entries) = x :: marked entries := rfl

@[simp]
theorem marked_cons_false {α : Type} (x : α) (entries : List (α × Bool)) :
    marked ((x, false) :: entries) = marked entries := rfl

/-- What a session answers to a text, what it adds to the output, and the error that it
reports. -/
structure Answer where
  status : Status
  output : ByteArray
  error : Option Diagnostic

/-- What is shown for an answer where every error can be written. -/
def Answer.shown (a : Answer) : Shown := ⟨a.status, a.output, Session.reported a.error⟩

namespace Session

/-- What the session answers to a text. -/
def answer (s : Session) (source : String) : Answer :=
  let (status, t) := s.run source
  ⟨status, s.interpreter.out.since t.interpreter.out, s.error? source⟩

/-- What the session answers to texts that are run one after the other. -/
def answers : List String → Session → List Answer
  | [], _ => []
  | source :: sources, s => s.answer source :: answers sources (s.run source).2

/-- The parts of an answer, from the text and the session before. -/
theorem answer_eq (s : Session) (source : String) :
    s.answer source = ⟨status s.mode (s.error? source),
      s.interpreter.out.since (s.interpreterAfter source).out, s.error? source⟩ := by
  rw [answer, run_eq]

/-- Only a batch stops, and only for an error. -/
theorem status_eq_halt_iff (mode : Mode) (e : Option Diagnostic) :
    status mode e = .halt 1 ↔ mode = .batch ∧ e.isSome := by
  cases mode <;> cases e <;> simp [status, failed]

/-- An answer stops the session when the session is a batch and the text has failed. -/
theorem halt_iff_of_mem_answers {s : Session} {sources : List String} {a : Answer}
    (h : a ∈ s.answers sources) : a.status = .halt 1 ↔ s.mode = .batch ∧ a.error.isSome := by
  induction sources generalizing s with
  | nil => cases h
  | cons source sources ih =>
    obtain rfl | h := List.mem_cons.1 h
    · rw [answer_eq]
      exact status_eq_halt_iff _ _
    · rw [← mode_run s source]
      exact ih h

/-! ## Diagnostics that take everything -/

/-- Errors can be written, so what is shown is what is answered. -/
theorem shown_eq_answer {s : Session} (h : s.diagnostics.Unfailing) (source : String) :
    s.shown source = (s.answer source).shown := by
  rw [shown_eq h, answer_eq]
  rfl

/-- The same for texts that are run one after the other. -/
theorem transcript_eq_answers {s : Session} (h : s.diagnostics.Unfailing)
    (sources : List String) : s.transcript sources = (s.answers sources).map Answer.shown := by
  induction sources generalizing s with
  | nil => rfl
  | cons source sources ih =>
    have hrun : (s.run source).2.diagnostics.Unfailing := by
      rw [diagnostics_run]
      exact h.write _
    rw [transcript, answers, List.map_cons, shown_eq_answer h, ih hrun]

/-! ## Sessions but for the place for errors -/

/-- Nothing is executed of a rejected text. -/
theorem interpreter_run_rejected (s : Session) {source : String} (h : Rejected source) :
    (s.run source).2.interpreter = s.interpreter := by
  obtain ⟨d, hd⟩ := h
  rw [interpreter_run, interpreterAfter_of_error s hd]

/-- A text that is no program prints nothing. -/
theorem output_answer_rejected (s : Session) {source : String} (h : Rejected source) :
    (s.answer source).output = .empty := by
  show s.interpreter.out.since (s.run source).2.interpreter.out = .empty
  rw [interpreter_run_rejected s h]
  exact Sink.since_eq (by simp)

/-- The sessions differ in their place for errors at most. -/
structure Agree (s t : Session) : Prop where
  mode_eq : t.mode = s.mode
  interpreter_eq : t.interpreter = s.interpreter

namespace Agree

variable {s t : Session}

theorem error?_eq (h : s.Agree t) (source : String) : t.error? source = s.error? source := by
  rw [error?, error?, h.mode_eq, h.interpreter_eq]

theorem interpreterAfter_eq (h : s.Agree t) (source : String) :
    t.interpreterAfter source = s.interpreterAfter source := by
  rw [interpreterAfter, interpreterAfter, h.mode_eq, h.interpreter_eq]

/-- Sessions that agree give the same answer. -/
theorem answer_eq (h : s.Agree t) (source : String) : t.answer source = s.answer source := by
  rw [Session.answer_eq, Session.answer_eq, h.error?_eq, h.interpreterAfter_eq, h.mode_eq,
    h.interpreter_eq]

/-- And they still agree after it. -/
theorem run (h : s.Agree t) (source : String) : (s.run source).2.Agree (t.run source).2 where
  mode_eq := by rw [mode_run, mode_run, h.mode_eq]
  interpreter_eq := by rw [interpreter_run, interpreter_run, h.interpreterAfter_eq]

/-- So they answer alike to any number of texts. -/
theorem answers_eq (h : s.Agree t) (sources : List String) :
    t.answers sources = s.answers sources := by
  induction sources generalizing s t with
  | nil => rfl
  | cons source sources ih => rw [answers, answers, h.answer_eq, ih (h.run source)]

/-- A rejected text leaves a session that agrees. -/
theorem run_rejected (h : s.Agree t) {source : String} (hsource : Rejected source) :
    (s.run source).2.Agree t where
  mode_eq := by rw [mode_run, h.mode_eq]
  interpreter_eq := by rw [interpreter_run_rejected s hsource, h.interpreter_eq]

/-- Of sessions that agree, one is fed all the texts and the other only those that are
marked. Where the others are rejected, the marked texts get the same answers, and the sessions
agree in the end. -/
theorem answers_marked (h : s.Agree t) {steps : List (String × Bool)}
    (hsteps : ∀ step ∈ steps, step.2 = false → Rejected step.1) :
    t.answers (marked steps)
        = marked ((s.answers (steps.map Prod.fst)).zip (steps.map Prod.snd)) ∧
      (s.runAll (steps.map Prod.fst)).Agree (t.runAll (marked steps)) := by
  induction steps generalizing s t with
  | nil => exact ⟨rfl, h⟩
  | cons step steps ih =>
    have htail := fun step' h' => hsteps step' (.tail _ h')
    obtain ⟨source, mark⟩ := step
    cases mark with
    | true =>
      obtain ⟨hanswers, hagree⟩ := ih (h.run source) htail
      refine ⟨?_, hagree⟩
      rw [marked_cons_true, answers, h.answer_eq, hanswers]
      rfl
    | false =>
      have hsource : Rejected source := hsteps _ (.head _) rfl
      exact ih (h.run_rejected hsource) htail

end Agree

/-- Rejected texts leave a session as it was, whatever its mode and its sinks. Without texts
that are rejected, the others get the same answers, and the interpreter ends up the same ; a
rejected text does not change the interpreter, nor the output. What is shown of a text on
diagnostics that take everything is the line of its error, or nothing. The session stops in a
batch, when a text has failed. And the place for errors makes no difference to the answers. -/
theorem rejected_leave_session (mode : Mode) (out diagnostics : Sink) :
    let s := new mode out diagnostics
    (∀ steps : List (String × Bool), (∀ step ∈ steps, step.2 = false → Rejected step.1) →
      s.answers (marked steps)
          = marked ((s.answers (steps.map Prod.fst)).zip (steps.map Prod.snd)) ∧
        (s.runAll (marked steps)).interpreter = (s.runAll (steps.map Prod.fst)).interpreter) ∧
    (∀ sources source, Rejected source →
      let t := s.runAll sources
      (t.run source).2.interpreter = t.interpreter ∧ (t.answer source).output = .empty) ∧
    ∀ sources,
      (diagnostics.Unfailing →
        s.transcript sources = (s.answers sources).map Answer.shown) ∧
      (∀ a ∈ s.answers sources, a.status = .halt 1 ↔ mode = .batch ∧ a.error.isSome) ∧
      ∀ diagnostics', (new mode out diagnostics').answers sources = s.answers sources := by
  intro s
  refine ⟨fun steps hsteps => ?_, fun sources source hsource => ?_, fun sources => ?_⟩
  · have hself : s.Agree s := ⟨rfl, rfl⟩
    obtain ⟨hanswers, hagree⟩ := hself.answers_marked hsteps
    exact ⟨hanswers, hagree.interpreter_eq⟩
  · exact ⟨interpreter_run_rejected _ hsource, output_answer_rejected _ hsource⟩
  · have hagree : ∀ diagnostics', s.Agree (new mode out diagnostics') := fun _ => ⟨rfl, rfl⟩
    exact ⟨fun h => transcript_eq_answers h sources, fun a ha => halt_iff_of_mem_answers ha,
      fun diagnostics' => (hagree diagnostics').answers_eq sources⟩

/-- Texts at a prompt, of which the second and the third are no programs. -/
def promptSteps : List (String × Bool) :=
  [("let mut n = 1;", true), ("print (n;", false), ("n = #;", false),
    ("n = n + 1; print n;", true), ("print m;", true)]

/-- The prompt goes on as if the second and the third text had not been typed. -/
theorem rejected_leave_session_prompt :
    (∀ step ∈ promptSteps, step.2 = false → Rejected step.1) ∧
      let s := new .interactive .unlimited .unlimited
      s.answers (marked promptSteps)
          = marked ((s.answers (promptSteps.map Prod.fst)).zip (promptSteps.map Prod.snd)) ∧
        s.transcript (marked promptSteps) = (s.answers (marked promptSteps)).map Answer.shown ∧
        (s.answer "n = #;").output = .empty := by
  have hsteps : ∀ step ∈ promptSteps, step.2 = false → Rejected step.1 := by decide +kernel
  obtain ⟨hmarked, hrejected, hshown⟩ :=
    rejected_leave_session .interactive .unlimited .unlimited
  have hrejected' : Rejected "n = #;" := hsteps ("n = #;", false) (by simp [promptSteps]) rfl
  exact ⟨hsteps, (hmarked _ hsteps).1, (hshown _).1 ⟨rfl, rfl⟩, (hrejected [] _ hrejected').2⟩

end Session

end PipeLang
