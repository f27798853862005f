import PipeLang.Proofs.Interpreter.Permanence
import PipeLang.Proofs.Store.WellFormed

/-!
# The frames that an interpreter refers to

An interpreter refers to frames by its current frame, by the frame that prompt inputs share,
and by the functions in its frames. In the course of an operation there are more references :
the values that are there already, and the frames to come back to. All these frames exist
(`Machine.WellFormed`). It is so at the beginning, every step of the machine keeps it
(`Machine.WellFormed.step`), and an operation that brings no values of its own does so too
when it begins.
-/

namespace PipeLang

open Interpreter (globals initialStore)

/-! ## Values of operators -/

namespace Value

variable {operator : Token} {v l r w : Value}

/-- No operator answers with a function of a program. -/
theorem frame?_unary (h : v.unary operator = .ok w) : w.frame? = none := by
  unfold unary at h
  split at h
  · split at h <;> cases h
    rfl
  · cases h
    rfl
  · cases h

/-- Nor does an operator between two operands. -/
theorem frame?_arithmetic {g : Float → Float → Value} (hg : ∀ x y, (g x y).frame? = none)
    (h : arithmetic operator g l r = .ok w) : w.frame? = none := by
  unfold arithmetic at h
  split at h <;> cases h
  exact hg _ _

theorem frame?_sum (h : sum operator l r = .ok w) : w.frame? = none := by
  unfold sum at h
  split at h
  · cases h
    rfl
  · split at h <;> cases h
    rfl
  · cases h

theorem frame?_quotient (h : quotient operator l r = .ok w) : w.frame? = none := by
  unfold quotient at h
  split at h
  · split at h <;> cases h
    rfl
  · cases h

theorem frame?_binary (h : l.binary operator r = .ok w) : w.frame? = none := by
  unfold binary at h
  split at h
  case h_5 => exact frame?_sum h
  case h_6 => exact frame?_quotient h
  all_goals first
    | exact frame?_arithmetic (fun _ _ => rfl) h
    | (cases h <;> rfl)

/-- What is no function of a program fits any number of frames. -/
theorem fits_of_frame? {n : Nat} (h : v.frame? = none) : v.Fits n :=
  fun _ ha => nomatch h.symm.trans ha

theorem fits_ofLiteral (n : Nat) (l : Literal) : (ofLiteral l).Fits n :=
  fits_of_frame? (by cases l <;> rfl)

end Value

/-! ## Interpreters -/

/-- A name is read without effects. -/
theorem Run.read_eq_ofExcept (name : Token) (i : Interpreter) :
    Run.read name i = Run.ofExcept (i.store.read i.current name) i := by
  unfold Run.read Run.ofExcept
  cases i.store.read i.current name <;> rfl

/-- The store is well formed, and the current frame and the shared one are there. -/
structure Interpreter.WellFormed (i : Interpreter) : Prop where
  store : i.store.WellFormed
  current_lt : i.current < i.store.size
  shared_lt : ∀ a, i.shared = some a → a < i.store.size

/-- The interpreter `j` is well formed, and there are at least the frames of `i`. -/
structure Interpreter.Grown (i j : Interpreter) : Prop where
  wellFormed : j.WellFormed
  size_le : i.store.size ≤ j.store.size

namespace Interpreter

variable {i j k : Interpreter} {a : FrameId}

/-- Frames are never given back. -/
theorem Grown.trans (h : i.Grown j) (h' : j.Grown k) : i.Grown k :=
  ⟨h'.wellFormed, Nat.le_trans h.size_le h'.size_le⟩

/-- One step, and then another one from where it has led. -/
theorem Grown.bind {α β : Type} {x : Run α} {k : α → Run β} (hx : i.Grown (x.after i))
    (hk : ∀ a j, i.Grown j → j.Grown ((k a).after j)) : i.Grown ((x >>= k).after i) := by
  cases hrun : x i with
  | ok a j =>
    rw [Run.after_ok hrun] at hx
    rw [Run.after_bind_ok hrun]
    exact hx.trans (hk a j hx)
  | error f j =>
    rw [Run.after_error hrun] at hx
    rw [Run.after_error (Run.bind_error hrun)]
    exact hx

namespace WellFormed

/-- The globals are the only frame, and the current one. -/
theorem new (out : Sink) : (Interpreter.new out).WellFormed where
  store := .initial
  current_lt := Store.WellFormed.initial.globals_lt_size
  shared_lt _ h := nomatch h

theorem grown (h : i.WellFormed) : i.Grown i := ⟨h, Nat.le_refl _⟩

/-- Any frame that is there may be the current one. -/
theorem inFrame (h : i.WellFormed) (ha : a < i.store.size) :
    ({ i with current := a } : Interpreter).WellFormed :=
  ⟨h.store, ha, h.shared_lt⟩

theorem atDepth (h : i.WellFormed) (depth : Nat) :
    ({ i with depth := depth } : Interpreter).WellFormed :=
  ⟨h.store, h.current_lt, h.shared_lt⟩

/-- The output refers to no frame. -/
theorem withOut (h : i.WellFormed) (out : Sink) : i.Grown { i with out := out } :=
  ⟨⟨h.store, h.current_lt, h.shared_lt⟩, Nat.le_refl _⟩

/-- A store that is well formed and has at least as many frames. -/
theorem withStore (h : i.WellFormed) {store : Store} (hstore : store.WellFormed)
    (hsize : i.store.size ≤ store.size) : i.Grown { i with store := store } :=
  ⟨⟨hstore, Nat.lt_of_lt_of_le h.current_lt hsize,
    fun a ha => Nat.lt_of_lt_of_le (h.shared_lt a ha) hsize⟩, hsize⟩

/-- A new frame inside one that is there. -/
theorem opened (h : i.WellFormed) (ha : a < i.store.size) : i.Grown (Machine.opened a i) := by
  refine h.withStore (h.store.grow ha) ?_
  rw [Store.size_grow]
  exact Nat.le_succ _

/-! ### Single steps -/

/-- A declaration that fails changes nothing, and another one adds a value that fits. -/
theorem declareIn (h : i.WellFormed) (frame : FrameId) (name : Token) {b : Binding}
    (hb : b.value.Fits i.store.size) : i.Grown ((Run.declareIn frame name b).after i) := by
  unfold Run.after Run.declareIn
  cases hs : i.store.declare frame name b with
  | error f => exact h.grown
  | ok store =>
    obtain ⟨hstore, hsize⟩ := h.store.declare hb hs
    exact h.withStore hstore (Nat.le_of_eq hsize.symm)

theorem declare (h : i.WellFormed) (name : Token) {b : Binding}
    (hb : b.value.Fits i.store.size) : i.Grown ((Run.declare name b).after i) :=
  h.declareIn i.current name hb

/-- So does an assignment. -/
theorem assign (h : i.WellFormed) (name : Token) {v : Value} (hv : v.Fits i.store.size) :
    i.Grown ((Run.assign name v).after i) := by
  unfold Run.after Run.assign
  cases hs : i.store.assign i.current name v with
  | error f => exact h.grown
  | ok store =>
    obtain ⟨hstore, hsize⟩ := h.store.assign hv hs
    exact h.withStore hstore (Nat.le_of_eq hsize.symm)

theorem print (h : i.WellFormed) (v : Value) : i.Grown ((Run.print v).after i) := by
  have hout := h.withOut (i.out.write (v.display ++ "\n").toUTF8)
  unfold Run.after Run.print
  generalize (v.display ++ "\n").toUTF8 = bytes at hout ⊢
  cases hfits : i.out.fits bytes <;> simpa [hfits] using hout

theorem flush (h : i.WellFormed) : i.Grown (Run.flush.after i) := by
  unfold Run.after Run.flush
  cases i.out.flush <;> exact h.grown

theorem printAll (h : i.WellFormed) (vs : List Value) :
    i.Grown ((Run.printAll vs).after i) := by
  induction vs generalizing i with
  | nil => exact h.grown
  | cons v vs ih => exact (h.print v).bind fun _ j hj => ih hj.wellFormed

/-- Arguments fit, and still do when names have been bound. -/
theorem bindAll (h : i.WellFormed) (frame : FrameId) (ps : List Token) {vs : List Value}
    (hvs : ∀ v ∈ vs, v.Fits i.store.size) :
    i.Grown ((Run.bindAll frame ps vs).after i) := by
  fun_induction Run.bindAll frame ps vs generalizing i with
  | case1 p ps v vs ih =>
    obtain ⟨hv, hvs⟩ := List.forall_mem_cons.1 hvs
    exact (h.declareIn frame p hv).bind fun _ j hj =>
      ih hj.wellFormed fun w hw => (hvs w hw).mono hj.size_le
  | case2 => exact h.grown

/-- The frame that prompt inputs share is there, or it is the new one. -/
theorem sharedFrame (h : i.WellFormed) :
    ∃ frame j, Interpreter.sharedFrame i = .ok frame j ∧ i.Grown j ∧ frame < j.store.size := by
  rw [Interpreter.sharedFrame]
  cases hshared : i.shared with
  | some frame => exact ⟨frame, i, rfl, h.grown, h.shared_lt frame hshared⟩
  | none =>
    obtain ⟨hnew, hsize⟩ := h.opened h.store.globals_lt_size
    have hlt : i.store.size < (i.store.grow (some globals)).size := by
      rw [Store.size_grow]
      exact Nat.lt_succ_self _
    refine ⟨_, _, rfl, ⟨⟨hnew.store, hnew.current_lt, ?_⟩, hsize⟩, hlt⟩
    rintro _ ⟨⟩
    exact hlt

end WellFormed

end Interpreter

/-! ## Machines -/

/-- The functions among the values of the task have frames among the first `n`. -/
def Task.Fits (n : Nat) : Task → Prop
  | .sequence last _ => last.Fits n
  | .arguments f _ given _ => f.Fits n ∧ ∀ v ∈ given, v.Fits n
  | .call f _ vs => f.Fits n ∧ ∀ v ∈ vs, v.Fits n
  | .value v => v.Fits n
  | _ => True

/-- So have those among the values that are there already, and the frame to come back to is
one of the first `n`. -/
def Waiting.Fits (n : Nat) : Waiting → Prop
  | .left l _ => l.Fits n
  | .callee _ given _ => ∀ v ∈ given, v.Fits n
  | .argument f _ given _ => f.Fits n ∧ ∀ v ∈ given, v.Fits n
  | .frame outer => outer < n
  | _ => True

/-- What waits may wait for longer while frames are added. -/
theorem Waiting.Fits.mono {n k : Nat} {w : Waiting} (h : w.Fits n) (hle : n ≤ k) : w.Fits k := by
  cases w with
  | left l operator => exact Value.Fits.mono h hle
  | callee token given others => exact fun v hv => (h v hv).mono hle
  | argument f token given others => exact ⟨h.1.mono hle, fun v hv => (h.2 v hv).mono hle⟩
  | frame outer => exact Nat.lt_of_lt_of_le h hle
  | _ => trivial

namespace Machine

/-- All the frames that the machine refers to are there. -/
structure WellFormed (m : Machine) : Prop where
  state : m.state.WellFormed
  task : m.task.Fits m.state.store.size
  waiting : ∀ w ∈ m.waiting, w.Fits m.state.store.size

section

variable {ws : List Waiting} {i j : Interpreter} {t : Task}

/-- What waits stays, when there are more frames. -/
theorem wellFormed_of_grown (hws : ∀ w ∈ ws, w.Fits i.store.size) (hj : i.Grown j)
    (ht : t.Fits j.store.size) : WellFormed ⟨t, ws, j⟩ :=
  ⟨hj.wellFormed, ht, fun w hw => (hws w hw).mono hj.size_le⟩

/-- An operator without effects, whatever it comes to. -/
theorem wellFormed_settled {r : Except Fault Value} (hi : i.WellFormed)
    (hws : ∀ w ∈ ws, w.Fits i.store.size) (hr : ∀ v, r = .ok v → v.Fits i.store.size) :
    WellFormed (settled (Run.ofExcept r i) ws) := by
  cases r with
  | ok v => exact ⟨hi, hr v rfl, hws⟩
  | error f => exact ⟨hi, trivial, hws⟩

/-- A step without a value, whatever it comes to. -/
theorem wellFormed_done {x : Run Unit} (hws : ∀ w ∈ ws, w.Fits i.store.size)
    (hx : i.Grown (x.after i)) : WellFormed (done (x i) ws) := by
  cases hrun : x i with
  | ok u j =>
    rw [Run.after_ok hrun] at hx
    exact wellFormed_of_grown hws hx (Value.fits_of_frame? rfl)
  | error f j =>
    rw [Run.after_error hrun] at hx
    exact wellFormed_of_grown hws hx trivial

/-- The statements of a block, in a frame that is there. -/
theorem wellFormed_enter {frame : FrameId} (hi : i.WellFormed)
    (hws : ∀ w ∈ ws, w.Fits i.store.size) (hframe : frame < i.store.size) (body : Block) :
    WellFormed (enter frame body ws i) :=
  ⟨hi.inFrame hframe, Value.fits_of_frame? rfl, List.forall_mem_cons.2 ⟨hi.current_lt, hws⟩⟩

theorem size_opened (enclosing : FrameId) (i : Interpreter) :
    (opened enclosing i).store.size = i.store.size + 1 :=
  Store.size_grow ..

/-- The same in a new frame. -/
theorem wellFormed_opened {enclosing : FrameId} (hi : i.WellFormed)
    (hws : ∀ w ∈ ws, w.Fits i.store.size) (henclosing : enclosing < i.store.size)
    (body : Block) : WellFormed (enter i.store.size body ws (opened enclosing i)) := by
  have hgrown := hi.opened henclosing
  have hnew : i.store.size < (opened enclosing i).store.size :=
    size_opened enclosing i ▸ Nat.lt_succ_self _
  exact wellFormed_enter hgrown.wellFormed (fun w hw => (hws w hw).mono hgrown.size_le) hnew body

namespace WellFormed

/-! ### One step -/

/-- What waits takes the value. What it keeps of values and frames fits by assumption, and what it
makes of them by the lemma for its step. -/
theorem resume {v : Value} {w : Waiting} (h : WellFormed ⟨.value v, w :: ws, i⟩) :
    WellFormed (resume v ws i w) := by
  obtain ⟨hi, hv, hwaiting⟩ := h
  obtain ⟨hw, hws⟩ := List.forall_mem_cons.1 hwaiting
  cases w with
  | operator operator =>
    exact wellFormed_settled hi hws fun u hu => Value.fits_of_frame? (Value.frame?_unary hu)
  | right operator right => exact ⟨hi, trivial, List.forall_mem_cons.2 ⟨hv, hws⟩⟩
  | left l operator =>
    exact wellFormed_settled hi hws fun u hu => Value.fits_of_frame? (Value.frame?_binary hu)
  | print => exact wellFormed_done hws (hi.print v)
  | declare name mutable => exact wellFormed_done hws (hi.declare name hv)
  | assign name => exact wellFormed_done hws (hi.assign name hv)
  | sequel rest => exact ⟨hi, hv, hws⟩
  | branch body others =>
    rw [Machine.resume]
    split <;> exact ⟨hi, trivial, hws⟩
  | piped callee token others =>
    exact ⟨hi, trivial, List.forall_mem_cons.2 ⟨List.forall_mem_singleton.2 hv, hws⟩⟩
  | callee token given others => exact ⟨hi, ⟨hv, hw⟩, hws⟩
  | argument f token given others =>
    have hgiven : ∀ u ∈ given ++ [v], u.Fits i.store.size :=
      List.forall_mem_append.2 ⟨hw.2, List.forall_mem_singleton.2 hv⟩
    exact ⟨hi, ⟨hw.1, hgiven⟩, hws⟩
  | frame outer => exact ⟨hi.inFrame hw, hv, hws⟩
  | body => exact ⟨hi.atDepth _, hv, hws⟩
  | flush => exact wellFormed_done hws hi.flush

/-- A fault leaves bodies and frames one by one, and what it comes back to is there. -/
theorem unwind {f : Fault} {w : Waiting} (h : WellFormed ⟨.fault f, w :: ws, i⟩) :
    WellFormed (unwind f ws i w) := by
  obtain ⟨hi, -, hwaiting⟩ := h
  obtain ⟨hw, hws⟩ := List.forall_mem_cons.1 hwaiting
  cases w with
  | frame outer => exact ⟨hi.inFrame hw, trivial, hws⟩
  | body => exact ⟨hi.atDepth _, trivial, hws⟩
  | flush =>
    obtain ⟨g, hg⟩ := unwind_flush f ws i
    rw [hg]
    exact wellFormed_of_grown hws hi.flush trivial
  | _ => exact ⟨hi, trivial, hws⟩

/-- A call of a closure opens a frame inside that of the closure, which is there, since the
closure fits. -/
theorem invoke {f : Value} {token : Token} {vs : List Value}
    (h : WellFormed ⟨.call f token vs, ws, i⟩) : WellFormed (invoke f token vs ws i) := by
  obtain ⟨hi, ⟨hf, hvs⟩, hws⟩ := h
  cases f with
  | builtin b => exact wellFormed_done hws (hi.printAll vs)
  | closure c =>
    -- the frame of the call is the new one, inside the frame of the function
    have hopened := hi.opened (hf c.frame rfl)
    have hbound := hopened.wellFormed.bindAll i.store.size c.parameters
      fun v hv => (hvs v hv).mono hopened.size_le
    have hgrown := hopened.trans hbound
    have hcases := invoke_cases c token vs ws i
    generalize (Run.bindAll i.store.size c.parameters vs).after (opened c.frame i) = j
      at hbound hgrown hcases
    rcases hcases with ⟨g, hg⟩ | ⟨g, hg⟩ | ⟨-, hcalled⟩
    · rw [hg]
      exact ⟨hi, trivial, hws⟩
    · rw [hg]
      exact wellFormed_of_grown hws hgrown trivial
    · rw [hcalled]
      have hnew : i.store.size < j.store.size :=
        Nat.lt_of_lt_of_le (size_opened c.frame i ▸ Nat.lt_succ_self _) hbound.size_le
      have hwaiting : ∀ w ∈ .body :: ws, w.Fits j.store.size :=
        List.forall_mem_cons.2 ⟨trivial, fun w hw => (hws w hw).mono hgrown.size_le⟩
      exact wellFormed_enter (hbound.wellFormed.atDepth (j.depth + 1)) hwaiting hnew c.body
  | _ => exact ⟨hi, trivial, hws⟩

/-- The first step on an expression. -/
theorem begin {e : Expr} (h : WellFormed ⟨.evaluate e, ws, i⟩) : WellFormed (begin ws i e) := by
  obtain ⟨hi, -, hws⟩ := h
  fun_cases Machine.begin ws i e with
  | case1 value => exact ⟨hi, Value.fits_ofLiteral _ value, hws⟩
  | case2 | case6 | case7 => exact ⟨hi, trivial, hws⟩
  | case3 | case4 | case8 => exact ⟨hi, trivial, List.forall_mem_cons.2 ⟨trivial, hws⟩⟩
  | case5 token =>
    rw [Run.read_eq_ofExcept]
    exact wellFormed_settled hi hws fun v hv => hi.store.read hv
  | case9 => exact ⟨hi, trivial, List.forall_mem_cons.2 ⟨List.forall_mem_nil _, hws⟩⟩

/-- The first step on a statement. A function that is declared keeps the current frame. -/
theorem start {s : Stmt} (h : WellFormed ⟨.execute s, ws, i⟩) : WellFormed (start ws i s) := by
  obtain ⟨hi, -, hws⟩ := h
  cases s with
  | expression value => exact ⟨hi, trivial, hws⟩
  | function name parameters body =>
    refine wellFormed_done hws (hi.declare name ?_)
    rintro _ ⟨⟩
    exact hi.current_lt
  | _ => exact ⟨hi, trivial, List.forall_mem_cons.2 ⟨trivial, hws⟩⟩

/-- What a step keeps. -/
theorem step {m n : Machine} (h : m.WellFormed) (hs : m.step = some n) : n.WellFormed := by
  cases transition_of_step hs with
  | evaluate => exact h.begin
  | execute => exact h.start
  | noBranch => exact ⟨h.state, Value.fits_of_frame? rfl, h.waiting⟩
  | condition | statement =>
    exact ⟨h.state, trivial, List.forall_mem_cons.2 ⟨trivial, h.waiting⟩⟩
  | otherwise => exact ⟨h.state, trivial, h.waiting⟩
  | last | given => exact ⟨h.state, h.task, h.waiting⟩
  | block => exact wellFormed_opened h.state h.waiting h.state.current_lt _
  | argument => exact ⟨h.state, trivial, List.forall_mem_cons.2 ⟨h.task, h.waiting⟩⟩
  | call => exact h.invoke
  | @fresh p ws i =>
    have hwaiting : ∀ w ∈ .flush :: ws, w.Fits i.store.size :=
      List.forall_mem_cons.2 ⟨trivial, h.waiting⟩
    exact wellFormed_opened h.state hwaiting h.state.store.globals_lt_size p
  | @shared p frame ws i j hshared =>
    obtain ⟨_, _, hrun, hj, hframe⟩ := h.state.sharedFrame
    cases hshared.symm.trans hrun
    have hwaiting : ∀ w ∈ .flush :: ws, w.Fits j.store.size :=
      List.forall_mem_cons.2 ⟨trivial, fun w hw => (h.waiting w hw).mono hj.size_le⟩
    exact wellFormed_enter hj.wellFormed hwaiting hframe p
  | resume => exact h.resume
  | unwind => exact h.unwind

end WellFormed

end

end Machine

/-! ## Operations -/

namespace Operation

/-- The operation brings no values of its own. -/
def IsCode : Operation → Prop
  | call _ _ _ => False
  | _ => True

/-- An operation that brings code and no values starts well formed. -/
theorem wellFormed_machine {op : Operation} (hop : op.IsCode) {i : Interpreter}
    (hi : i.WellFormed) : (op.machine i).WellFormed := by
  cases op with
  | call f token vs => exact hop.elim
  | _ => exact ⟨hi, trivial, List.forall_mem_nil _⟩

end Operation

namespace Machine

/-- The moments in the life of an interpreter that writes to `out` : the beginning, every step,
and the beginning of the next operation when nothing waits for an outcome. -/
inductive Moment (out : Sink) : Machine → Prop where
  | new : Moment out ⟨.value .nil, [], .new out⟩
  | step {m n : Machine} : Moment out m → m.step = some n → Moment out n
  | operation {m : Machine} {op : Operation} : Moment out m → m.step = none → op.IsCode →
    Moment out (op.machine m.state)

namespace Moment

variable {out : Sink} {m n : Machine}

/-- By induction on the moments, with what a step keeps. -/
theorem wellFormed (h : Moment out m) : m.WellFormed := by
  induction h with
  | new => exact ⟨.new out, Value.fits_of_frame? rfl, List.forall_mem_nil _⟩
  | step _ hs ih => exact ih.step hs
  | operation _ _ hop ih => exact Operation.wellFormed_machine hop ih.state

/-- Every moment is later than the first. -/
theorem later (h : Moment out m) : Later ⟨.value .nil, [], .new out⟩ m := by
  induction h with
  | new => exact .refl
  | step _ hs ih => exact ih.tail (.step hs)
  | operation _ hnone _ ih => exact ih.tail (.operation _ hnone)

/-- What a run comes to is a moment as well. -/
theorem reaches (h : Moment out m) (hn : m.Reaches n) : Moment out n := hn.keeps Moment.step h

/-- When nothing is under way, any operations may be performed to their ends. -/
theorem performAll (h : Moment out m) (hm : m.step = none) {ops : List Operation}
    (hops : ∀ op ∈ ops, op.IsCode) :
    ∃ n, Moment out n ∧ n.step = none ∧ n.state = Operation.performAll ops m.state := by
  induction ops generalizing m with
  | nil => exact ⟨m, h, hm, rfl⟩
  | cons op ops ih =>
    obtain ⟨hop, hops⟩ := List.forall_mem_cons.1 hops
    have hend := (h.operation hm hop).reaches (op.reaches m.state)
    obtain ⟨n, hn, hnone, hstate⟩ := ih hend (step_settled (op.perform m.state)) hops
    rw [state_settled] at hstate
    exact ⟨n, hn, hnone, hstate⟩

/-- The builtins stay in the globals. -/
theorem isSome_log (h : Moment out m) :
    (m.state.store.binding? globals Builtin.log.name).isSome := by
  have hkeeps := h.later.history history_keeps placeless_keeps
  have hinitial : initialStore.binding? globals Builtin.log.name
      = some ⟨false, .builtin .log⟩ := by
    rw [show initialStore = (Store.empty.grow none).bind globals Builtin.log.name _ from rfl,
      Store.binding?_bind, if_pos ⟨rfl, rfl, Nat.zero_lt_one⟩]
  obtain ⟨c, hc, -⟩ := hkeeps.binding globals Builtin.log.name _ hinitial
  rw [hc]
  rfl

end Moment

end Machine

/-- Perform operations on a new interpreter, one after the other, whether they fail or not.
At every moment between them and in the course of them, all frames that are referred to are
there, and the store is well formed. So no frame is inside itself, and the chain from every
frame ends at the globals; a search for a name along it ends, without a test that it does, with
what `Store.find?` says; and the builtin `log`, or another declaration of its name, is found
from every frame. -/
theorem Operation.moments_wellFormed (out : Sink) :
    (∀ ops : List Operation, (∀ op ∈ ops, op.IsCode) →
      ∃ m, Machine.Moment out m ∧ m.step = none ∧ m.state = performAll ops (.new out)) ∧
    ∀ m, Machine.Moment out m →
      let s := m.state.store
      m.WellFormed ∧ (∀ a, ¬ Relation.TransGen s.Encloses a a) ∧
        ∀ a < s.size,
          Relation.ReflTransGen s.Encloses a globals ∧
          (∀ x r, s.Searches x a r ↔ s.find? a x = r) ∧
          ∃ owner b, s.find? a "log" = some (owner, b) := by
  refine ⟨fun ops hops => Machine.Moment.new.performAll rfl hops, fun m hm => ?_⟩
  have hwf := hm.wellFormed
  have hstore := hwf.state.store
  refine ⟨hwf, hstore.not_encloses_self, fun a ha => ⟨hstore.encloses_globals a ha,
    fun x r => hstore.searches_iff ha, ?_⟩⟩
  have hlog := hstore.isSome_of_searches hm.isSome_log (hstore.searches ha)
  obtain ⟨⟨owner, b⟩, hfind⟩ := Option.isSome_iff_exists.1 hlog
  exact ⟨owner, b, hfind⟩

/-- Two programs that fail in their deepest calls, the first of them at a prompt. -/
theorem Operation.moments_wellFormed_endless :
    let ops : List Operation := [.runShared endlessProgram, .runFresh endlessProgram]
    (∀ op ∈ ops, op.IsCode) ∧ (performAll ops (.new .unlimited)).WellFormed := by
  intro ops
  have hops : ∀ op ∈ ops, op.IsCode :=
    List.forall_mem_cons.2 ⟨trivial, List.forall_mem_singleton.2 trivial⟩
  obtain ⟨hperform, hmoments⟩ := moments_wellFormed .unlimited
  obtain ⟨m, hm, -, hstate⟩ := hperform ops hops
  refine ⟨hops, ?_⟩
  rw [← hstate]
  exact (hmoments m hm).1.state

end PipeLang
