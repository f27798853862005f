import PipeLang.Proofs.Interpreter.Runs

/-!
# A fault ends the run

Nothing that waits on the stack of a machine catches a fault. On its way down it puts frames
back and ends calls, and at the end of a program it meets the flush, which may fail and puts
its own fault in the place of the first (`Machine.Reaches.unwound`).

A machine has one run only. So when a fault has come up anywhere in it, the run ends with that
fault, the store and the output as they were then (`Operation.ends_unwound`). No flush waits
among statements, which therefore end with that fault in any case (`Stmt.execAll_unwound`).
-/

namespace PipeLang

/-- The end of a program. -/
def Waiting.IsFlush : Waiting → Prop
  | .flush => True
  | _ => False

/-- The task is a program of its own. -/
def Task.IsProgram : Task → Prop
  | .fresh _ | .shared _ => True
  | _ => False

namespace Machine

variable {f g : Fault} {t : Task} {w : Waiting} {ws : List Waiting} {i j k : Interpreter}

/-! ## The way down the stack -/

/-- A fault `f` in the interpreter `i` has passed what waited and is `g` in `j` now : it is the
same one, unless a program has ended on the way and the flush failed. -/
structure Unwound (ws : List Waiting) (f : Fault) (i : Interpreter) (g : Fault)
    (j : Interpreter) : Prop where
  store_eq : j.store = i.store
  out_eq : j.out = i.out
  fault : g = f ∨ (∃ w ∈ ws, w.IsFlush) ∧ ∃ e, i.out.flush = .error e ∧ g = .output e

/-- Past one thing that waited, then past the others. -/
theorem Unwound.cons {h : Fault} (first : Unwound [w] f i g j) (others : Unwound ws g j h k) :
    Unwound (w :: ws) f i h k := by
  refine ⟨others.store_eq.trans first.store_eq, others.out_eq.trans first.out_eq, ?_⟩
  rcases others.fault with rfl | ⟨⟨u, hu, hflush⟩, e, hfailed, rfl⟩
  · rcases first.fault with hg | ⟨⟨u, hu, hflush⟩, hfailed⟩
    · exact .inl hg
    · obtain rfl := List.mem_singleton.1 hu
      exact .inr ⟨⟨u, List.mem_cons_self, hflush⟩, hfailed⟩
  · exact .inr ⟨⟨u, List.mem_cons_of_mem w hu, hflush⟩, e, first.out_eq ▸ hfailed, rfl⟩

/-- What a fault leaves of the thing it passes. -/
theorem unwind_unwound (f : Fault) (ws : List Waiting) (i : Interpreter) (w : Waiting) :
    ∃ g j, unwind f ws i w = ⟨.fault g, ws, j⟩ ∧ Unwound [w] f i g j := by
  cases w with
  | flush =>
    unfold unwind Run.flush
    cases hflush : i.out.flush with
    | ok u => exact ⟨f, i, rfl, rfl, rfl, .inl rfl⟩
    | error e =>
      have hpassed : ∃ w ∈ [Waiting.flush], w.IsFlush := ⟨.flush, List.mem_cons_self, trivial⟩
      exact ⟨.output e, i, rfl, rfl, rfl, .inr ⟨hpassed, e, hflush, rfl⟩⟩
  | _ => exact ⟨f, _, rfl, rfl, rfl, .inl rfl⟩

/-- A fault passes all that waits. -/
theorem Reaches.unwound (ws : List Waiting) (f : Fault) (i : Interpreter) :
    ∃ g j, Reaches ⟨.fault f, ws, i⟩ ⟨.fault g, [], j⟩ ∧ Unwound ws f i g j := by
  induction ws generalizing f i with
  | nil => exact ⟨f, i, .refl, rfl, rfl, .inl rfl⟩
  | cons w ws ih =>
    obtain ⟨g, j, hstep, first⟩ := unwind_unwound f ws i w
    obtain ⟨h, k, hreaches, others⟩ := ih g j
    exact ⟨h, k, .step (congrArg some hstep) hreaches, first.cons others⟩

/-! ## The only run -/

/-- A machine has one end. -/
theorem Reaches.end_unique {m n n' : Machine} (h : m.Reaches n) (h' : m.Reaches n')
    (hn : n.step = none) (hn' : n'.step = none) : n = n' := by
  have hunique : Relator.RightUnique fun m n : Machine => m.step = some n :=
    fun _ _ _ hfirst hsecond => Option.some.inj (hfirst.symm.trans hsecond)
  rcases Relation.ReflTransGen.total_of_right_unique hunique h h' with hback | hback
  · rcases hback.cases_head with heq | ⟨next, hstep, -⟩
    · exact heq
    · cases hn.symm.trans hstep
  · rcases hback.cases_head with heq | ⟨next, hstep, -⟩
    · exact heq.symm
    · cases hn'.symm.trans hstep

/-- A run in which a fault comes up ends with a fault. -/
theorem Reaches.settled_unwound {m : Machine} {r : EStateM.Result Fault Interpreter Value}
    (hr : m.Reaches (settled r [])) (hf : m.Reaches ⟨.fault f, ws, i⟩) :
    ∃ g j, r = .error g j ∧ Unwound ws f i g j := by
  obtain ⟨g, j, hdown, hunwound⟩ := Reaches.unwound ws f i
  have hend := Reaches.end_unique hr (hf.trans hdown) (step_settled r) rfl
  cases r with
  | ok v k => cases hend
  | error =>
    cases hend
    exact ⟨g, j, rfl, hunwound⟩

/-! ## No program, no flush -/

/-- No program is running, and none is about to. -/
structure Flushless (m : Machine) : Prop where
  task : ¬ m.task.IsProgram
  waiting : ∀ w ∈ m.waiting, ¬ w.IsFlush

namespace Flushless

/-- A task is exchanged for another one. -/
theorem exchange {u : Task} (h : Flushless ⟨t, ws, i⟩) (hu : ¬ u.IsProgram) :
    Flushless ⟨u, ws, j⟩ := ⟨hu, h.waiting⟩

/-- What has waited goes. -/
theorem pop {u : Task} (h : Flushless ⟨t, w :: ws, i⟩) (hu : ¬ u.IsProgram) :
    Flushless ⟨u, ws, j⟩ := ⟨hu, fun v hv => h.waiting v (List.mem_cons_of_mem w hv)⟩

/-- Something else waits. -/
theorem push {u : Task} (h : Flushless ⟨t, ws, i⟩) (hu : ¬ u.IsProgram) (hw : ¬ w.IsFlush) :
    Flushless ⟨u, w :: ws, j⟩ := ⟨hu, List.forall_mem_cons.2 ⟨hw, h.waiting⟩⟩

theorem settled (h : Flushless ⟨t, ws, i⟩) (r : EStateM.Result Fault Interpreter Value) :
    Flushless (settled r ws) := by
  cases r <;> exact h.exchange id

theorem done (h : Flushless ⟨t, ws, i⟩) (r : EStateM.Result Fault Interpreter Unit) :
    Flushless (done r ws) := by
  cases r <;> exact h.exchange id

theorem resume {v : Value} (h : Flushless ⟨.value v, w :: ws, i⟩) :
    Flushless (resume v ws i w) := by
  have hrest : Flushless ⟨.value v, ws, i⟩ := h.pop id
  cases w with
  | operator operator => exact hrest.settled _
  | left l operator => exact hrest.settled _
  | print => exact hrest.done _
  | declare name mutable => exact hrest.done _
  | assign name => exact hrest.done _
  | flush => exact hrest.done _
  | right operator right => exact hrest.push id id
  | piped callee token others => exact hrest.push id id
  | branch body others =>
    rw [Machine.resume]
    split <;> exact hrest.exchange id
  | _ => exact hrest.exchange id

theorem unwind (h : Flushless ⟨.fault f, w :: ws, i⟩) : Flushless (unwind f ws i w) := by
  obtain ⟨g, j, hstep, -⟩ := unwind_unwound f ws i w
  rw [hstep]
  exact h.pop id

theorem invoke {callee : Value} {token : Token} {vs : List Value} (h : Flushless ⟨t, ws, i⟩) :
    Flushless (invoke callee token vs ws i) := by
  cases callee with
  | builtin b => exact h.done _
  | closure c =>
    rcases invoke_cases c token vs ws i with ⟨g, hg⟩ | ⟨g, hg⟩ | ⟨-, hcalled⟩
    · rw [hg]
      exact h.exchange id
    · rw [hg]
      exact h.exchange id
    · rw [hcalled]
      have hbody : Flushless ⟨t, .body :: ws, i⟩ := h.push h.task id
      exact hbody.push id id
  | _ => exact h.exchange id

theorem begin {e : Expr} (h : Flushless ⟨.evaluate e, ws, i⟩) : Flushless (begin ws i e) := by
  fun_cases Machine.begin ws i e with
  | case5 token => exact h.settled _
  | case1 | case2 | case6 | case7 => exact h.exchange id
  | case3 | case4 | case8 | case9 => exact h.push id id

theorem start {s : Stmt} (h : Flushless ⟨.execute s, ws, i⟩) : Flushless (start ws i s) := by
  cases s with
  | function name parameters body => exact h.done _
  | expression value => exact h.exchange id
  | _ => exact h.push id id

/-- What a step keeps. -/
theorem step {m n : Machine} (h : m.Flushless) (hs : m.step = some n) : n.Flushless := by
  cases transition_of_step hs with
  | evaluate => exact h.begin
  | execute => exact h.start
  | noBranch | otherwise | last | given => exact h.exchange id
  | condition | statement | block | argument => exact h.push id id
  | call => exact h.invoke
  | fresh | shared => exact (h.task trivial).elim
  | resume => exact h.resume
  | unwind => exact h.unwind

/-- What a run keeps. -/
theorem reaches {m n : Machine} (h : m.Flushless) (hn : m.Reaches n) : n.Flushless :=
  hn.keeps Flushless.step h

end Flushless

end Machine

/-! ## Statements and operations -/

section

variable {f : Fault} {ws : List Waiting} {i j : Interpreter}

/-- A fault that comes up anywhere in statements ends them, with the store and the output as
they are when it comes up. -/
theorem Stmt.execAll_unwound {ss : List Stmt}
    (h : Machine.Reaches ⟨.sequence .nil ss, [], i⟩ ⟨.fault f, ws, j⟩) :
    ∃ k, Stmt.execAll Interpreter.call .nil ss i = .error f k ∧ k.store = j.store ∧
      k.out = j.out := by
  have hrun := (Machine.follows_call i.depth).sequence ss .nil i rfl []
  obtain ⟨g, k, hresult, hunwound⟩ := hrun.settled_unwound h
  have hstart : Machine.Flushless ⟨.sequence .nil ss, [], i⟩ := ⟨id, List.forall_mem_nil _⟩
  rcases hunwound.fault with rfl | ⟨⟨w, hw, hflush⟩, -⟩
  · exact ⟨k, hresult, hunwound.store_eq, hunwound.out_eq⟩
  · exact ((hstart.reaches h).waiting w hw hflush).elim

/-- A fault that comes up anywhere in an operation ends it, with the store and the output as
they are when it comes up. Only a failed flush at the end of a program takes its place. -/
theorem Operation.ends_unwound {op : Operation}
    (h : (op.machine i).Reaches ⟨.fault f, ws, j⟩) :
    ∃ g k, op.perform i = .error g k ∧ k.store = j.store ∧ k.out = j.out ∧
      (g = f ∨ ∃ e, j.out.flush = .error e ∧ g = .output e) := by
  obtain ⟨g, k, hresult, hunwound⟩ := (op.reaches i).settled_unwound h
  exact ⟨g, k, hresult, hunwound.store_eq, hunwound.out_eq, hunwound.fault.imp_right And.right⟩

end

end PipeLang
