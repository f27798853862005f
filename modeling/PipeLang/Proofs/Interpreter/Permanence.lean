import PipeLang.Proofs.Interpreter.Runs
import PipeLang.Proofs.Store.Bindings

/-!
# Declarations last

The life of an interpreter is a chain of moments (`Machine.Next`) : the steps of one
operation after the other, each begun on what the last one left, whether that came to a value
or to a fault. Along such a chain a `History` that looks at neither the current frame nor the
depth holds between any two moments (`Machine.Later.history`).

Stores only grow by declarations, and only mutable names get other values
(`history_keeps`), so between any two moments the later store keeps what the earlier one
holds (`Operation.declarations_last`).
-/

namespace PipeLang

/-! ## Moments -/

namespace Operation

/-- The interpreter that operations leave, performed one after the other. A fault ends the
operation that it arises in and none of the others. -/
def performAll : List Operation → Interpreter → Interpreter
  | [], i => i
  | op :: ops, i => performAll ops (op.perform.after i)

end Operation

namespace Machine

/-- The next moment : a step or, when nothing waits for an outcome, the beginning of any
operation. -/
inductive Next : Machine → Machine → Prop where
  | step {m n : Machine} : m.step = some n → Next m n
  | operation {m : Machine} (op : Operation) : m.step = none → Next m (op.machine m.state)

/-- Any number of moments later. -/
abbrev Later : Machine → Machine → Prop := Relation.ReflTransGen Next

theorem Reaches.later {m n : Machine} (h : m.Reaches n) : m.Later n :=
  Relation.ReflTransGen.mono (fun _ _ hs => Next.step hs) m n h

/-- The state of a settled machine. -/
theorem state_settled (x : Run Value) (i : Interpreter) (ws : List Waiting) :
    (settled (x i) ws).state = x.after i := by
  cases h : x i with
  | ok v j => rw [Run.after_ok h]; rfl
  | error f j => rw [Run.after_error h]; rfl

theorem state_done (x : Run Unit) (i : Interpreter) (ws : List Waiting) :
    (done (x i) ws).state = x.after i := by
  cases h : x i with
  | ok u j => rw [Run.after_ok h]; rfl
  | error f j => rw [Run.after_error h]; rfl

/-- When nothing is under way, any operations may be performed to their ends. -/
theorem later_performAll (ops : List Operation) {m : Machine} (h : m.step = none) :
    ∃ n, m.Later n ∧ n.step = none ∧ n.state = Operation.performAll ops m.state := by
  induction ops generalizing m with
  | nil => exact ⟨m, .refl, h, rfl⟩
  | cons op ops ih =>
    have hrun := (op.reaches m.state).later
    obtain ⟨n, hlater, hn, hstate⟩ := ih (step_settled (op.perform m.state))
    rw [state_settled] at hstate
    exact ⟨n, (Relation.ReflTransGen.head (.operation op h) hrun).trans hlater, hn, hstate⟩

end Machine

theorem History.perform {R : Interpreter → Interpreter → Prop} (hR : History R)
    (op : Operation) : Run.Within R op.perform :=
  hR.hereditary.perform op

theorem History.performAll {R : Interpreter → Interpreter → Prop} (hR : History R)
    (ops : List Operation) (i : Interpreter) : R i (Operation.performAll ops i) := by
  induction ops generalizing i with
  | nil => exact hR.refl i
  | cons op ops ih => exact hR.trans (hR.perform op i) (ih _)

/-! ## What lasts from one moment to the next -/

/-- The relation does not look at the current frame and the depth. -/
structure Placeless (R : Interpreter → Interpreter → Prop) : Prop where
  current : ∀ i frame, R i { i with current := frame }
  depth : ∀ i depth, R i { i with depth := depth }

namespace Machine

variable {R : Interpreter → Interpreter → Prop} {ws : List Waiting} {i : Interpreter}

theorem history_settled {x : Run Value} (hx : Run.Within R x) :
    R i (settled (x i) ws).state := by
  rw [state_settled]
  exact hx i

theorem history_done {x : Run Unit} (hx : Run.Within R x) : R i (done (x i) ws).state := by
  rw [state_done]
  exact hx i

theorem history_enter (hP : Placeless R) (frame : FrameId) (body : Block) :
    R i (enter frame body ws i).state :=
  hP.current i frame

theorem history_resume (hR : History R) (hP : Placeless R) (v : Value) (w : Waiting) :
    R i (resume v ws i w).state := by
  cases w with
  | operator operator => exact history_settled (hR.ofExcept _)
  | left l operator => exact history_settled (hR.ofExcept _)
  | print => exact history_done (hR.print v)
  | declare name mutable => exact history_done (hR.declareHere name ⟨mutable, v⟩)
  | assign name => exact history_done (hR.assignHere name v)
  | flush => exact history_done hR.flush
  | frame outer => exact hP.current i outer
  | body => exact hP.depth i (i.depth - 1)
  | branch body others =>
    rw [resume]
    split <;> exact hR.refl i
  | _ => exact hR.refl i

theorem history_unwind (hR : History R) (hP : Placeless R) (f : Fault) (w : Waiting) :
    R i (unwind f ws i w).state := by
  cases w with
  | frame outer => exact hP.current i outer
  | body => exact hP.depth i (i.depth - 1)
  | flush =>
    obtain ⟨g, hg⟩ := unwind_flush f ws i
    rw [hg]
    exact hR.flush i
  | _ => exact hR.refl i

theorem history_invoke (hR : History R) (hP : Placeless R) (f : Value) (token : Token)
    (vs : List Value) : R i (invoke f token vs ws i).state := by
  cases f with
  | builtin b => exact history_done (hR.printAll vs)
  | closure c =>
    have hbound : R i ((Run.bindAll i.store.size c.parameters vs).after (opened c.frame i)) :=
      hR.trans (hR.grow i (some c.frame)) (hR.bindAll i.store.size c.parameters vs _)
    rcases invoke_cases c token vs ws i with ⟨f, hf⟩ | ⟨f, hf⟩ | ⟨-, hbody⟩
    · rw [hf]
      exact hR.refl i
    · rw [hf]
      exact hbound
    · rw [hbody]
      exact hR.trans hbound (hR.trans (hP.depth _ _) (history_enter hP _ _))
  | _ => exact hR.refl i

theorem history_begin (hR : History R) (e : Expr) : R i (begin ws i e).state := by
  fun_cases Machine.begin ws i e with
  | case5 token => exact history_settled (hR.read token)
  | _ => exact hR.refl i

theorem history_start (hR : History R) (s : Stmt) : R i (start ws i s).state := by
  cases s with
  | function name parameters body => exact history_done (hR.declareHere name _)
  | _ => exact hR.refl i

/-- A block or a program begins in a new frame. -/
theorem history_opened (hR : History R) (hP : Placeless R) (enclosing frame : FrameId)
    (body : Block) : R i (enter frame body ws (opened enclosing i)).state :=
  hR.trans (hR.grow i (some enclosing)) (history_enter hP frame body)

/-- What holds from each step to the next. -/
theorem history_step (hR : History R) (hP : Placeless R) {m n : Machine}
    (hs : m.step = some n) : R m.state n.state := by
  cases transition_of_step hs with
  | evaluate => exact history_begin hR _
  | execute => exact history_start hR _
  | block => exact history_opened hR hP _ _ _
  | call => exact history_invoke hR hP _ _ _
  | fresh => exact history_opened hR hP _ _ _
  | @shared p frame ws i j hshared =>
    have hkept := hR.sharedFrame i
    rw [Run.after_ok hshared] at hkept
    exact hR.trans hkept (history_enter hP frame p)
  | resume => exact history_resume hR hP _ _
  | unwind => exact history_unwind hR hP _ _
  | _ => exact hR.refl _

/-- What holds from each moment to every later one. -/
theorem Later.history (hR : History R) (hP : Placeless R) {m n : Machine} (h : m.Later n) :
    R m.state n.state := by
  induction h with
  | refl => exact hR.refl _
  | tail _ hnext ih =>
    cases hnext with
    | step hs => exact hR.trans ih (history_step hR hP hs)
    | operation op _ => exact ih

end Machine

/-! ## Declarations -/

/-- The later interpreter keeps what the frames of the earlier one hold. -/
theorem history_keeps : History fun i j => i.store.Keeps j.store where
  refl i := .refl i.store
  trans h h' := h.trans h'
  grow i enclosing := .grow i.store enclosing
  declare _ _ _ _ _ h := .declare h
  assign _ _ _ _ h := .assign h
  write i _ := .refl i.store
  share i _ _ := .refl i.store
  scope _ h := h
  nest h := h

theorem placeless_keeps : Placeless fun i j => i.store.Keeps j.store where
  current i _ := .refl i.store
  depth i _ := .refl i.store

/-- Whatever operations are performed on an interpreter, and however they end, a frame keeps
its link, a name once declared in a frame stays there with its flag, and an immutable one
keeps its value : from before the operations to behind them, and from any moment in the
course of any of them to any later one. -/
theorem Operation.declarations_last :
    (∀ (ops : List Operation) (i : Interpreter), i.store.Keeps (performAll ops i).store) ∧
      ∀ m n : Machine, m.Later n → m.state.store.Keeps n.state.store := by
  have moments : ∀ m n : Machine, m.Later n → m.state.store.Keeps n.state.store :=
    fun m n h => h.history history_keeps placeless_keeps
  refine ⟨fun ops i => ?_, moments⟩
  obtain ⟨n, hlater, -, hstate⟩ := Machine.later_performAll ops (m := ⟨.value .nil, [], i⟩) rfl
  rw [← hstate]
  exact moments _ n hlater

/-- From the beginning of a program that fails in its deepest call to the end. -/
theorem Operation.declarations_last_endless :
    let op : Operation := .runFresh endlessProgram
    let i : Interpreter := .new .unlimited
    (op.machine i).Later (.settled (op.perform i) []) ∧
      i.store.Keeps (Machine.settled (op.perform i) []).state.store := by
  intro op i
  have hlater := (op.reaches i).later
  exact ⟨hlater, declarations_last.2 _ _ hlater⟩

end PipeLang
