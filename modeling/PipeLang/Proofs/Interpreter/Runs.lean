import PipeLang.Proofs.Interpreter.Machine

/-!
# Runs end, and end where they began

The machine has no budget, and nothing in a step gets smaller when a body is entered; that
its runs end all the same is what the evaluator says of it (`Operation.halts`).

Along a run the depth counts the bodies that are being evaluated, which are the ends of calls
on the stack, and the outermost frame to come back to is the one the run began in
(`Machine.Balanced`). So whatever ends a run, and however deep inside, it leaves the frame
and the depth it found (`Operation.restores`).
-/

namespace PipeLang

namespace Machine

/-! ## Runs that end -/

theorem step_settled (r : EStateM.Result Fault Interpreter Value) :
    (settled r []).step = none := by
  cases r <;> rfl

/-- A machine whose run ends has no endless run. -/
theorem Reaches.not_endless {m n : Machine} (h : m.Reaches n) (hn : n.step = none) :
    ¬ ∃ trace : Nat → Machine, trace 0 = m ∧
      ∀ k, (trace k).step = some (trace (k + 1)) := by
  induction h using Relation.ReflTransGen.head_induction_on with
  | refl =>
    rintro ⟨trace, rfl, htrace⟩
    have hfirst := htrace 0
    rw [hn] at hfirst
    cases hfirst
  | head hstep _ ih =>
    rintro ⟨trace, rfl, htrace⟩
    have hfirst := htrace 0
    rw [hstep] at hfirst
    exact ih ⟨fun k => trace (k + 1), (Option.some.inj hfirst).symm, fun k => htrace (k + 1)⟩

end Machine

/-- Every operation on every interpreter ends, with the value or the fault that the evaluator
gives : the machine comes to it and stops, and it has no run that goes on for ever. -/
theorem Operation.halts (op : Operation) (i : Interpreter) :
    (op.machine i).Reaches (.settled (op.perform i) []) ∧
      (Machine.settled (op.perform i) []).step = none ∧
      ¬ ∃ trace : Nat → Machine, trace 0 = op.machine i ∧
        ∀ k, (trace k).step = some (trace (k + 1)) := by
  have hreaches := op.reaches i
  have hfinal := Machine.step_settled (op.perform i)
  exact ⟨hreaches, hfinal, hreaches.not_endless hfinal⟩

/-! ## Balance -/

/-- How many bodies of closures are being evaluated. -/
def Waiting.bodies : List Waiting → Nat
  | [] => 0
  | .body :: ws => bodies ws + 1
  | _ :: ws => bodies ws

/-- What restores the frame or the depth. -/
def Waiting.isMark : Waiting → Bool
  | .frame _ | .body => true
  | _ => false

/-- The frame that is current when all is done, if `current` is now. -/
def Waiting.home (current : FrameId) : List Waiting → FrameId
  | [] => current
  | .frame outer :: ws => home outer ws
  | _ :: ws => home current ws

namespace Machine

/-- From a state with this frame and this depth : the frame will be current again, and the
depth has grown by the bodies that are being evaluated, within the limit. -/
structure Balanced (frame : FrameId) (depth : Nat) (m : Machine) : Prop where
  home_eq : Waiting.home m.state.current m.waiting = frame
  depth_eq : m.state.depth = depth + Waiting.bodies m.waiting
  depth_le : m.state.depth ≤ callLimit

section

variable {frame : FrameId} {depth : Nat} {ws : List Waiting} {i j : Interpreter} {t u : Task}

/-- A task is exchanged for another one. -/
theorem Balanced.exchange (h : Balanced frame depth ⟨t, ws, i⟩) (hj : Restored i j) :
    Balanced frame depth ⟨u, ws, j⟩ := by
  obtain ⟨hhome, hdepth, hle⟩ := h
  refine ⟨?_, ?_, ?_⟩
  · rw [← hhome]
    exact congrArg (Waiting.home · ws) hj.current_eq
  · rw [← hdepth]
    exact hj.depth_eq
  · exact hj.depth_eq ▸ hle

theorem Balanced.settled {x : Run Value} (h : Balanced frame depth ⟨t, ws, i⟩)
    (hx : Run.Within Restored x) : Balanced frame depth (settled (x i) ws) := by
  have hafter := hx i
  cases hrun : x i with
  | ok v j =>
    rw [Run.after_ok hrun] at hafter
    exact h.exchange hafter
  | error f j =>
    rw [Run.after_error hrun] at hafter
    exact h.exchange hafter

theorem Balanced.done {x : Run Unit} (h : Balanced frame depth ⟨t, ws, i⟩)
    (hx : Run.Within Restored x) : Balanced frame depth (done (x i) ws) := by
  rw [← settled_nil]
  exact h.settled (history_restored.bind hx fun _ => history_restored.pure Value.nil)

/-- What has waited goes, when it is neither a frame nor the end of a call. -/
theorem Balanced.pop {w : Waiting} (h : Balanced frame depth ⟨t, w :: ws, i⟩)
    (hw : w.isMark = false) : Balanced frame depth ⟨u, ws, i⟩ := by
  obtain ⟨hhome, hdepth, hle⟩ := h
  cases w with
  | frame outer => cases hw
  | body => cases hw
  | _ => exact ⟨hhome, hdepth, hle⟩

/-- A call ends. -/
theorem Balanced.leave (h : Balanced frame depth ⟨t, .body :: ws, i⟩) :
    Balanced frame depth ⟨u, ws, { i with depth := i.depth - 1 }⟩ := by
  have hcount : i.depth = depth + (Waiting.bodies ws + 1) := h.depth_eq
  have hrest : i.depth - 1 = depth + Waiting.bodies ws := by omega
  have hlimit : i.depth ≤ callLimit := h.depth_le
  exact ⟨h.home_eq, hrest, Nat.le_trans (Nat.sub_le ..) hlimit⟩

theorem Balanced.resume {v : Value} {w : Waiting}
    (h : Balanced frame depth ⟨.value v, w :: ws, i⟩) :
    Balanced frame depth (resume v ws i w) := by
  cases w with
  | operator operator =>
    have hrest : Balanced frame depth ⟨.value v, ws, i⟩ := h.pop rfl
    exact hrest.settled (history_restored.ofExcept _)
  | left l operator =>
    have hrest : Balanced frame depth ⟨.value v, ws, i⟩ := h.pop rfl
    exact hrest.settled (history_restored.ofExcept _)
  | print =>
    have hrest : Balanced frame depth ⟨.value v, ws, i⟩ := h.pop rfl
    exact hrest.done (history_restored.print v)
  | declare name mutable =>
    have hrest : Balanced frame depth ⟨.value v, ws, i⟩ := h.pop rfl
    exact hrest.done (history_restored.declareHere name ⟨mutable, v⟩)
  | assign name =>
    have hrest : Balanced frame depth ⟨.value v, ws, i⟩ := h.pop rfl
    exact hrest.done (history_restored.assignHere name v)
  | flush =>
    have hrest : Balanced frame depth ⟨.value v, ws, i⟩ := h.pop rfl
    exact hrest.done history_restored.flush
  | branch body others =>
    rw [Machine.resume]
    split <;> exact h.pop rfl
  | body => exact h.leave
  | _ => exact ⟨h.home_eq, h.depth_eq, h.depth_le⟩

theorem Balanced.unwind {f : Fault} {w : Waiting}
    (h : Balanced frame depth ⟨.fault f, w :: ws, i⟩) :
    Balanced frame depth (unwind f ws i w) := by
  cases w with
  | flush =>
    have hrest : Balanced frame depth ⟨.fault f, ws, i⟩ := h.pop rfl
    obtain ⟨g, hg⟩ := unwind_flush f ws i
    rw [hg]
    exact hrest.exchange (history_restored.flush i)
  | body => exact h.leave
  | _ => exact ⟨h.home_eq, h.depth_eq, h.depth_le⟩

theorem Balanced.invoke {f : Value} {token : Token} {vs : List Value}
    (h : Balanced frame depth ⟨t, ws, i⟩) :
    Balanced frame depth (invoke f token vs ws i) := by
  cases f with
  | builtin b => exact h.done (history_restored.printAll vs)
  | closure c =>
    have hbound := history_restored.trans (history_restored.grow i (some c.frame))
      (history_restored.bindAll i.store.size c.parameters vs (opened c.frame i))
    have hcases := invoke_cases c token vs ws i
    generalize (Run.bindAll i.store.size c.parameters vs).after (opened c.frame i) = j
      at hbound hcases
    rcases hcases with ⟨f, hf⟩ | ⟨f, hf⟩ | ⟨hroom, hcalled⟩
    · rw [hf]
      exact h.exchange (history_restored.refl i)
    · rw [hf]
      exact h.exchange hbound
    · rw [hcalled]
      have hbody : Balanced frame depth ⟨t, ws, j⟩ := h.exchange hbound
      have hcount : j.depth + 1 = depth + (Waiting.bodies ws + 1) :=
        congrArg (· + 1) hbody.depth_eq
      have hlimit : j.depth < callLimit := hbound.depth_eq ▸ hroom
      exact ⟨hbody.home_eq, hcount, hlimit⟩
  | _ => exact h.exchange (history_restored.refl i)

theorem Balanced.begin {e : Expr} (h : Balanced frame depth ⟨.evaluate e, ws, i⟩) :
    Balanced frame depth (begin ws i e) := by
  fun_cases Machine.begin ws i e with
  | case5 token => exact h.settled (history_restored.read token)
  | _ => exact ⟨h.home_eq, h.depth_eq, h.depth_le⟩

theorem Balanced.start {s : Stmt} (h : Balanced frame depth ⟨.execute s, ws, i⟩) :
    Balanced frame depth (start ws i s) := by
  cases s with
  | function name parameters body => exact h.done (history_restored.declareHere name _)
  | _ => exact ⟨h.home_eq, h.depth_eq, h.depth_le⟩

/-- What a step keeps. -/
theorem Balanced.step {m n : Machine} (h : Balanced frame depth m) (hs : m.step = some n) :
    Balanced frame depth n := by
  cases transition_of_step hs with
  | evaluate => exact h.begin
  | execute => exact h.start
  | call => exact h.invoke
  | @shared p shared ws i j hshared =>
    have hkept := history_restored.sharedFrame i
    rw [Run.after_ok hshared] at hkept
    have hinside : Balanced frame depth ⟨.shared p, ws, j⟩ := h.exchange hkept
    exact ⟨hinside.home_eq, hinside.depth_eq, hinside.depth_le⟩
  | resume => exact h.resume
  | unwind => exact h.unwind
  | _ => exact ⟨h.home_eq, h.depth_eq, h.depth_le⟩

/-- What a run keeps. -/
theorem Balanced.reaches {m n : Machine} (h : Balanced frame depth m) (hn : m.Reaches n) :
    Balanced frame depth n :=
  hn.keeps Balanced.step h

end

end Machine

/-- From within the limit, every operation leaves the current frame and the depth as they
were, whether it ends with a value or with a fault. On the way there the depth is what it was
and one more for each body of a closure that is being evaluated, and never above the limit. -/
theorem Operation.restores (op : Operation) (i : Interpreter) (hi : i.depth ≤ callLimit) :
    (op.machine i).Reaches (.settled (op.perform i) []) ∧
      (op.perform.after i).current = i.current ∧ (op.perform.after i).depth = i.depth ∧
      ∀ m, (op.machine i).Reaches m →
        m.state.depth = i.depth + Waiting.bodies m.waiting ∧ m.state.depth ≤ callLimit := by
  have hstart : Machine.Balanced i.current i.depth (op.machine i) := ⟨rfl, rfl, hi⟩
  -- Nothing waits at the end, so the balance there is what is claimed.
  have hend := hstart.reaches (op.reaches i)
  have hrestored : Restored i (op.perform.after i) := by
    cases hrun : op.perform i with
    | ok v j =>
      rw [Machine.settled_ok hrun] at hend
      rw [Run.after_ok hrun]
      exact ⟨hend.home_eq, hend.depth_eq⟩
    | error f j =>
      rw [Machine.settled_error hrun] at hend
      rw [Run.after_error hrun]
      exact ⟨hend.home_eq, hend.depth_eq⟩
  refine ⟨op.reaches i, hrestored.current_eq, hrestored.depth_eq, fun m hm => ?_⟩
  have hm := hstart.reaches hm
  exact ⟨hm.depth_eq, hm.depth_le⟩

/-- The program `func f() { f(); }; f();`, which fails in the deepest call. -/
def endlessProgram : Program :=
  let name : Token := ⟨.identifier, "f", 1⟩
  let call : Stmt := .expression (.call (.name name) ⟨.symbol .leftParen, "(", 1⟩ [] false)
  [.function name [] [call], call]

theorem Operation.restores_endless :
    (Interpreter.new .unlimited).depth ≤ callLimit ∧
      ((Operation.runFresh endlessProgram).perform.after (.new .unlimited)).current = 0 ∧
      ((Operation.runFresh endlessProgram).perform.after (.new .unlimited)).depth = 0 := by
  have hi : (Interpreter.new .unlimited).depth ≤ callLimit := by decide
  have hrun := Operation.restores (.runFresh endlessProgram) (.new .unlimited) hi
  exact ⟨hi, hrun.2.1, hrun.2.2.1⟩

end PipeLang
