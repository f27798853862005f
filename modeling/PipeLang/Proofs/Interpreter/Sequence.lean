import PipeLang.Proofs.Interpreter.AtRest

/-!
# Programs one behind the other

In the frame that prompt inputs share, a program and another one behind it do what the two
do when they are run one after the other, the second only if the first does not fail
(`Interpreter.runShared_append`).
-/

namespace PipeLang

/-! ## Statements -/

/-- The statements of two lists, one list after the other. -/
theorem Stmt.execAll_append (apply : Apply) (v : Value) (p q : List Stmt) :
    Stmt.execAll apply v (p ++ q) = Stmt.execAll apply v p >>= (Stmt.execAll apply · q) := by
  induction p generalizing v with
  | nil => rw [List.nil_append, Stmt.execAll, pure_bind]
  | cons s p ih =>
    rw [List.cons_append, Stmt.execAll, Stmt.execAll, bind_assoc]
    exact congrArg _ (funext ih)

namespace Run

variable {α β : Type}

/-- The step without its value. -/
def discard (x : Run α) : Run Unit := do
  let _ ← x
  pure ()

theorem discard_ok {x : Run α} {i j : Interpreter} {a : α} (h : x i = .ok a j) :
    x.discard i = .ok () j := by
  rw [discard, bind_ok h]
  rfl

theorem discard_error {x : Run α} {i j : Interpreter} {f : Fault} (h : x i = .error f j) :
    x.discard i = .error f j :=
  bind_error h

/-- The value that a list of statements starts from is its value only when it is empty. -/
theorem discard_execAll (apply : Apply) (v w : Value) (p : List Stmt) :
    (Stmt.execAll apply v p).discard = (Stmt.execAll apply w p).discard := by
  cases p with
  | nil => rfl
  | cons s p => rw [Stmt.execAll, Stmt.execAll]

theorem discard_inFrame (frame : FrameId) (x : Run α) :
    (inFrame frame x).discard = inFrame frame x.discard := by
  funext i
  cases h : x { i with current := frame } with
  | ok a j =>
    have hx : inFrame frame x i = .ok a { j with current := i.current } := by
      simp only [inFrame, h]
    rw [discard_ok hx]
    simp only [inFrame, discard_ok h]
  | error f j =>
    have hx : inFrame frame x i = .error f { j with current := i.current } := by
      simp only [inFrame, h]
    rw [discard_error hx]
    simp only [inFrame, discard_error h]

/-- Coming back to a frame is as good as staying in it. -/
theorem inFrame_bind (frame : FrameId) {x : Run α} (hx : Within Restored x) (k : α → Run β) :
    inFrame frame (x >>= k) = inFrame frame x >>= fun a => inFrame frame (k a) := by
  funext i
  have hrestored := hx { i with current := frame }
  cases h : x { i with current := frame } with
  | ok a j =>
    rw [after_ok h] at hrestored
    have hframe : j.current = frame := hrestored.current_eq
    have hj : { j with current := frame } = j := by rw [← hframe]
    have hx : inFrame frame x i = .ok a { j with current := i.current } := by
      simp only [inFrame, h]
    rw [bind_ok hx]
    simp only [inFrame, bind_ok h, hj]
  | error f j =>
    have hx : inFrame frame x i = .error f { j with current := i.current } := by
      simp only [inFrame, h]
    rw [bind_error hx]
    simp only [inFrame, bind_error h]

end Run

/-! ## Programs -/

/-- Programs do not change which frame prompt inputs share. -/
theorem invariant_shared (frame : Option FrameId) :
    Invariant (fun _ => True) fun i => i.shared = frame where
  current _ h := h
  depth _ h := h
  grow _ h := ⟨trivial, h⟩
  declare h _ _ := h
  assign h _ := h
  write _ h := h

namespace Interpreter

variable {i : Interpreter}

/-- When the output cannot fail, a program ends with its last statement. -/
theorem runIn_unfailing (hout : i.out.Unfailing) (frame : FrameId) (p : Program) :
    runIn frame p i = (Run.inFrame frame (Stmt.execAll call .nil p)).discard i := by
  have hafter := history_unfailing.inFrame frame
    (history_unfailing.execAll history_unfailing.call .nil p) i
  unfold runIn
  cases h : Run.inFrame frame (Stmt.execAll call .nil p) i with
  | ok v j =>
    rw [Run.after_ok h] at hafter
    rw [Run.discard_ok h]
    simp [Run.flush, Sink.flush, (hafter hout).flushes_eq]
  | error f j =>
    rw [Run.after_error h] at hafter
    rw [Run.discard_error h]
    simp [Run.flush, Sink.flush, (hafter hout).flushes_eq]

theorem runIn_append (hout : i.out.Unfailing) (frame : FrameId) (p q : Program) :
    runIn frame (p ++ q) i = (do runIn frame p; runIn frame q) i := by
  have hrest : Run.Within Restored (Stmt.execAll call .nil p) :=
    history_restored.execAll history_restored.call .nil p
  have hkept := history_unfailing.runIn frame p i
  rw [runIn_unfailing hout, Stmt.execAll_append, Run.inFrame_bind frame hrest]
  have hp := runIn_unfailing hout frame p
  cases h : Run.inFrame frame (Stmt.execAll call .nil p) i with
  | ok v j =>
    rw [Run.discard_ok h] at hp
    rw [Run.after_ok hp] at hkept
    rw [Run.bind_ok hp, runIn_unfailing (hkept hout), Run.discard, bind_assoc, Run.bind_ok h]
    change (Run.inFrame frame (Stmt.execAll call v q)).discard j = _
    rw [Run.discard_inFrame, Run.discard_execAll call v .nil, ← Run.discard_inFrame]
  | error f j =>
    rw [Run.discard_error h] at hp
    rw [Run.bind_error hp, Run.discard_error (Run.bind_error h)]

theorem sharedFrame_eq (i : Interpreter) :
    ∃ frame j, sharedFrame i = .ok frame j ∧ j.shared = some frame ∧ j.out = i.out := by
  cases h : i.shared with
  | some frame => exact ⟨frame, i, sharedFrame_some h, h, rfl⟩
  | none => exact ⟨_, _, sharedFrame_none h, rfl, rfl⟩

/-- In the frame that prompt inputs share, a program can be split. -/
theorem runShared_append (hout : i.out.Unfailing) (p q : Program) :
    runShared (p ++ q) i = (do runShared p; runShared q) i := by
  obtain ⟨frame, j, hframe, hshared, hj⟩ := sharedFrame_eq i
  have hstays := (invariant_shared (some frame)).runIn (a := frame) trivial p hshared
  have hp : runShared p i = runIn frame p j := Run.bind_ok hframe
  have hpq : runShared (p ++ q) i = runIn frame (p ++ q) j := Run.bind_ok hframe
  rw [hpq, runIn_append (hj ▸ hout)]
  cases h : runIn frame p j with
  | ok u k =>
    rw [Run.after_ok h] at hstays
    rw [Run.bind_ok h, Run.bind_ok (hp.trans h), runShared, Run.bind_ok (sharedFrame_some hstays)]
  | error f k => rw [Run.bind_error h, Run.bind_error (hp.trans h)]

end Interpreter

end PipeLang
