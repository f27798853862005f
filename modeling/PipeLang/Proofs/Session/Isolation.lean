import PipeLang.Proofs.Session.Runs

/-!
# Programs in frames of their own

A program that runs in a frame of its own comes to the same whatever has been run before, and
so does every source text in a batch (`fresh_runs_isolated`).
-/

namespace PipeLang

/-- Two interpreters at rest whose sinks cannot fail do the same with a program in a frame of
its own. -/
theorem Interpreter.AtRest.runFresh_unfailing {i j : Interpreter} (hi : i.AtRest)
    (hj : j.AtRest) (hi' : i.out.Unfailing) (hj' : j.out.Unfailing) (p : Program) :
    (Interpreter.runFresh p).failure? j = (Interpreter.runFresh p).failure? i ∧
      ∃ bytes, ((Interpreter.runFresh p).after i).out.written = i.out.written ++ bytes ∧
        ((Interpreter.runFresh p).after j).out.written = j.out.written ++ bytes := by
  have hends := hi.runFresh_alike hj (hj'.room_eq.trans hi'.room_eq.symm)
    (hj'.flushes_eq.trans hi'.flushes_eq.symm) p
  exact ⟨hends.failure?_eq, hends.after⟩

/-- In a batch, a source text comes to the same in any two sessions at rest. -/
theorem Session.batch_alike {s t : Session} (hs : s.interpreter.AtRest)
    (ht : t.interpreter.AtRest) (hs' : s.interpreter.out.Unfailing)
    (ht' : t.interpreter.out.Unfailing) (hsmode : s.mode = .batch) (htmode : t.mode = .batch)
    (source : String) :
    t.error? source = s.error? source ∧
      ∃ bytes,
        (s.interpreterAfter source).out.written = s.interpreter.out.written ++ bytes ∧
        (t.interpreterAfter source).out.written = t.interpreter.out.written ++ bytes := by
  unfold error? interpreterAfter
  rw [hsmode, htmode]
  cases Program.ofSource source with
  | error d => exact ⟨rfl, .empty, by simp, by simp⟩
  | ok p => exact hs.runFresh_unfailing ht hs' ht' p

/-- With a sink that cannot fail, a program in a frame of its own comes to what it comes to
in a new interpreter, after any programs : it fails with the same error or not at all, and it
writes the same. So in a batch the answer to a source text, its output and what it adds to
the diagnostics depend on the text alone. -/
theorem fresh_runs_isolated :
    (∀ (out out' : Sink) (ops : List Operation) (p : Program), out.Unfailing →
      out'.Unfailing → (∀ op ∈ ops, op.IsProgram) →
      let i := Operation.performAll ops (.new out)
      (Interpreter.runFresh p).failure? i = (Interpreter.runFresh p).failure? (.new out') ∧
        ∃ bytes, ((Interpreter.runFresh p).after i).out.written = i.out.written ++ bytes ∧
          ((Interpreter.runFresh p).after (.new out')).out.written = out'.written ++ bytes) ∧
    ∀ source : String, ∃ (status : Status) (output report : ByteArray),
      ∀ (out diagnostics : Sink) (sources : List String), out.Unfailing →
      let s := (Session.new .batch out diagnostics).runAll sources
      (s.run source).1 = status ∧
        (s.run source).2.interpreter.out.written = s.interpreter.out.written ++ output ∧
        (s.run source).2.diagnostics = s.diagnostics.write report := by
  constructor
  · intro out out' ops p hout hout' hops i
    have hi : i.AtRest := (Interpreter.AtRest.new out).performAll ops hops
    have hi' : i.out.Unfailing := history_unfailing.performAll ops _ hout
    obtain ⟨hfailure, bytes, hold, hnew⟩ :=
      hi.runFresh_unfailing (Interpreter.AtRest.new out') hi' hout' p
    exact ⟨hfailure.symm, bytes, hold, hnew⟩
  · intro source
    -- A new session stands for all the others.
    let t : Session := .new .batch .unlimited .unlimited
    refine ⟨Session.status .batch (t.error? source), (t.interpreterAfter source).out.written,
      Session.reported (t.error? source), fun out diagnostics sources hout => ?_⟩
    intro s
    obtain ⟨hmode, hrest, hunfailing⟩ := Session.runAll_new .batch diagnostics sources hout
    have hnew : t.interpreter.AtRest := .new .unlimited
    obtain ⟨herror, bytes, hwritten, ht⟩ :=
      Session.batch_alike hrest hnew hunfailing ⟨rfl, rfl⟩ hmode rfl source
    have hbytes : (t.interpreterAfter source).out.written = bytes :=
      ht.trans ByteArray.empty_append
    rw [Session.run_eq, herror, hbytes, hmode]
    exact ⟨rfl, hwritten, rfl⟩

/-- After programs that fail in their deepest calls, one that prints. -/
theorem fresh_runs_isolated_endless :
    (let p : Program := [.print (.literal .nil)]
      let i := Operation.performAll [.runFresh endlessProgram, .runShared endlessProgram]
        (.new .unlimited)
      (Interpreter.runFresh p).failure? i =
        (Interpreter.runFresh p).failure? (.new .unlimited)) ∧
    ∃ status : Status,
      (((Session.new .batch .unlimited .unlimited).runAll ["f();"]).run "print nil;").1 = status ∧
        ((Session.new .batch .unlimited .unlimited).run "print nil;").1 = status := by
  have hsink : Sink.unlimited.Unfailing := ⟨rfl, rfl⟩
  have hops : ∀ op ∈ [.runFresh endlessProgram, .runShared endlessProgram],
      Operation.IsProgram op := by
    simp [Operation.IsProgram]
  obtain ⟨status, output, report, hall⟩ := fresh_runs_isolated.2 "print nil;"
  exact ⟨(fresh_runs_isolated.1 .unlimited .unlimited _ _ hsink hsink hops).1, status,
    (hall .unlimited .unlimited ["f();"] hsink).1, (hall .unlimited .unlimited [] hsink).1⟩

end PipeLang
