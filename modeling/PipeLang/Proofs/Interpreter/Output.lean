import PipeLang.Proofs.Interpreter.AtRest

/-!
# An output that does not fail

Only writing and flushing make the output fail. With a sink that takes everything and can be
flushed they do not, so no machine comes to a failure of the output
(`Machine.Flows.reaches`), and no operation ends with one (`Operation.not_isOutput`).
-/

namespace PipeLang

/-- The output failed. -/
def Fault.IsOutput : Fault → Prop
  | .output _ => True
  | _ => False

/-- If it is an error, it is no failure of the output. -/
def FlowingResult {α : Type} : Except Fault α → Prop
  | .ok _ => True
  | .error f => ¬ f.IsOutput

/-! ## Operators -/

namespace Value

variable {operator : Token} {v l r : Value}

/-- No operator fails because of the output. -/
theorem flowing_unary : FlowingResult (v.unary operator) := by
  unfold unary
  split
  · split
    · trivial
    · exact id
  · trivial
  · exact id

theorem flowing_arithmetic (g : Float → Float → Value) :
    FlowingResult (arithmetic operator g l r) := by
  unfold arithmetic
  split
  · trivial
  · exact id

theorem flowing_sum : FlowingResult (sum operator l r) := by
  unfold sum
  split
  · trivial
  · split
    · exact id
    · trivial
  · exact id

theorem flowing_quotient : FlowingResult (quotient operator l r) := by
  unfold quotient
  split
  · split
    · exact id
    · trivial
  · exact id

theorem flowing_binary : FlowingResult (l.binary operator r) := by
  unfold binary
  split
  case h_1 | h_2 | h_3 | h_4 => trivial
  case h_5 => exact flowing_sum
  case h_6 => exact flowing_quotient
  case h_13 => exact id
  all_goals exact flowing_arithmetic _

end Value

/-! ## Single steps -/

namespace Run

/-- From an interpreter whose output does not fail, the step leads to such an interpreter, and
the output has not failed. -/
def Flows {α : Type} (x : Run α) : Prop := ∀ i, i.out.Unfailing →
  match x i with
  | .ok _ j => j.out.Unfailing
  | .error f j => j.out.Unfailing ∧ ¬ f.IsOutput

namespace Flows

variable {α β : Type}

theorem pure (a : α) : Flows (Pure.pure a : Run α) := fun _ hi => hi

/-- The output is as good after the first step as before it. -/
theorem bind {x : Run α} {k : α → Run β} (hx : Flows x) (hk : ∀ a, Flows (k a)) :
    Flows (x >>= k) := by
  intro i hi
  have first := hx i hi
  simp only [Bind.bind, EStateM.bind]
  generalize x i = r at first
  cases r with
  | ok a j => exact hk a j first
  | error f j => exact first

theorem ofExcept {r : Except Fault α} (h : FlowingResult r) : Flows (Run.ofExcept r) := by
  intro i hi
  cases r with
  | ok a => exact hi
  | error f => exact ⟨hi, h⟩

theorem read (name : Token) : Flows (Run.read name) := by
  intro i hi
  unfold Run.read Store.read
  cases i.store.find? i.current name.lexeme with
  | none => exact ⟨hi, id⟩
  | some p => exact hi

theorem declareIn (frame : FrameId) (name : Token) (b : Binding) :
    Flows (Run.declareIn frame name b) := by
  intro i hi
  unfold Run.declareIn Store.declare
  cases (i.store.binding? frame name.lexeme).isSome with
  | false => exact hi
  | true => exact ⟨hi, id⟩

theorem declare (name : Token) (b : Binding) : Flows (Run.declare name b) :=
  fun i hi => declareIn i.current name b i hi

theorem assign (name : Token) (v : Value) : Flows (Run.assign name v) := by
  intro i hi
  unfold Run.assign Store.assign
  cases i.store.find? i.current name.lexeme with
  | none => exact ⟨hi, id⟩
  | some p =>
    obtain ⟨owner, mutable, old⟩ := p
    cases mutable with
    | true => exact hi
    | false => exact ⟨hi, id⟩

/-- A sink that takes everything takes one line more. -/
theorem print (v : Value) : Flows (Run.print v) := by
  intro i hi
  unfold Run.print Sink.fits
  rw [hi.room_eq]
  exact hi.write _

theorem printAll (vs : List Value) : Flows (Run.printAll vs) := by
  induction vs with
  | nil => exact pure ()
  | cons v vs ih => exact bind (print v) fun _ => ih

/-- And it can be flushed. -/
theorem flush : Flows Run.flush := by
  intro i hi
  unfold Run.flush Sink.flush
  rw [hi.flushes_eq]
  exact hi

/-- A parameter that cannot be bound is no failure of the output. -/
theorem bindAll (frame : FrameId) (ps : List Token) (vs : List Value) :
    Flows (Run.bindAll frame ps vs) := by
  fun_induction Run.bindAll frame ps vs with
  | case1 p ps v vs ih => exact bind (declareIn frame p _) fun _ => ih
  | case2 => exact pure ()

end Flows

end Run

/-! ## Machines -/

/-- If the task is a fault, it is no failure of the output. -/
def Task.Flows : Task → Prop
  | .fault f => ¬ f.IsOutput
  | _ => True

namespace Machine

/-- The output of the machine does not fail, and it has not failed. -/
structure Flows (m : Machine) : Prop where
  out : m.state.out.Unfailing
  task : m.task.Flows

namespace Flows

variable {t : Task} {ws : List Waiting} {i : Interpreter}

/-- What a step comes to, as a machine. -/
theorem settled {x : Run Value} (hx : Run.Flows x) (hi : i.out.Unfailing) :
    Flows (settled (x i) ws) := by
  have hrun := hx i hi
  generalize x i = r at hrun
  cases r with
  | ok v j => exact ⟨hrun, trivial⟩
  | error f j => exact ⟨hrun.1, hrun.2⟩

theorem done {x : Run Unit} (hx : Run.Flows x) (hi : i.out.Unfailing) : Flows (done (x i) ws) := by
  rw [← settled_nil]
  exact settled (hx.bind fun _ => .pure Value.nil) hi

/-- One step for each thing that may wait. Only a line to print and a flush touch the output. -/
theorem resume {v : Value} {w : Waiting} (h : Flows ⟨.value v, w :: ws, i⟩) :
    Flows (resume v ws i w) := by
  cases w with
  | operator operator => exact settled (.ofExcept Value.flowing_unary) h.out
  | left l operator => exact settled (.ofExcept Value.flowing_binary) h.out
  | print => exact done (.print v) h.out
  | declare name mutable => exact done (.declare name ⟨mutable, v⟩) h.out
  | assign name => exact done (.assign name v) h.out
  | flush => exact done .flush h.out
  | branch body others =>
    rw [Machine.resume]
    split <;> exact ⟨h.out, trivial⟩
  | _ => exact ⟨h.out, trivial⟩

/-- A fault stays what it is when the flush on its way does not fail. -/
theorem unwind {f : Fault} {w : Waiting} (h : Flows ⟨.fault f, w :: ws, i⟩) :
    Flows (unwind f ws i w) := by
  have hf : ¬ f.IsOutput := h.task
  cases w with
  | flush =>
    have hflush := Run.Flows.flush i h.out
    unfold Machine.unwind
    cases hrun : Run.flush i with
    | ok u j =>
      rw [hrun] at hflush
      exact ⟨hflush, hf⟩
    | error g j =>
      rw [hrun] at hflush
      exact ⟨hflush.1, hflush.2⟩
  | _ => exact ⟨h.out, hf⟩

/-- A call may fail in three ways, none of which is the output's. -/
theorem invoke {f : Value} {token : Token} {vs : List Value} (h : Flows ⟨t, ws, i⟩) :
    Flows (invoke f token vs ws i) := by
  cases f with
  | builtin b => exact done (.printAll vs) h.out
  | closure c =>
    by_cases hlength : vs.length = c.parameters.length
    · by_cases hdeep : callLimit ≤ i.depth
      · rw [invoke_deep hlength hdeep]
        exact ⟨h.out, id⟩
      have hroom : i.depth < callLimit := Nat.not_le.1 hdeep
      have hbound := Run.Flows.bindAll i.store.size c.parameters vs (opened c.frame i) h.out
      cases hbind : Run.bindAll i.store.size c.parameters vs (opened c.frame i) with
      | ok u j =>
        rw [hbind] at hbound
        rw [invoke_ok hlength hroom hbind]
        exact ⟨hbound, trivial⟩
      | error g j =>
        rw [hbind] at hbound
        rw [invoke_error hlength hroom hbind]
        exact ⟨hbound.1, hbound.2⟩
    · rw [invoke_arity hlength]
      exact ⟨h.out, id⟩
  | _ => exact ⟨h.out, id⟩

/-- The first step on an expression. -/
theorem begin {e : Expr} (h : Flows ⟨.evaluate e, ws, i⟩) : Flows (begin ws i e) := by
  fun_cases Machine.begin ws i e with
  | case5 token => exact settled (.read token) h.out
  | _ => exact ⟨h.out, trivial⟩

/-- The first step on a statement. -/
theorem start {s : Stmt} (h : Flows ⟨.execute s, ws, i⟩) : Flows (start ws i s) := by
  cases s with
  | function name parameters body => exact done (.declare name _) h.out
  | _ => exact ⟨h.out, trivial⟩

/-- What a step keeps. -/
theorem step {m n : Machine} (h : m.Flows) (hs : m.step = some n) : n.Flows := by
  cases transition_of_step hs with
  | evaluate => exact h.begin
  | execute => exact h.start
  | call => exact h.invoke
  | shared hshared =>
    have hout := h.out
    unfold Interpreter.sharedFrame at hshared
    split at hshared <;> cases hshared <;> exact ⟨hout, trivial⟩
  | resume => exact h.resume
  | unwind => exact h.unwind
  | _ => exact ⟨h.out, trivial⟩

/-- What a run keeps. -/
theorem reaches {m n : Machine} (h : m.Flows) (hn : m.Reaches n) : n.Flows :=
  hn.keeps Flows.step h

end Flows

end Machine

/-- With an output that does not fail, no operation ends with a failure of the output. -/
theorem Operation.not_isOutput (op : Operation) {i j : Interpreter} (hi : i.out.Unfailing)
    {f : Fault} (h : op.perform i = .error f j) : ¬ f.IsOutput := by
  have hstart : (op.machine i).Flows := ⟨hi, by cases op <;> trivial⟩
  have hend := hstart.reaches (op.reaches i)
  rw [Machine.settled_error h] at hend
  exact hend.task

end PipeLang
