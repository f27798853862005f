import Mathlib.Logic.Relation
import PipeLang.Proofs.Interpreter.History

/-!
# The evaluator as a machine

`Machine.step` evaluates in small steps and without a budget : a machine has a task, a stack
of what waits for the outcome of the task, and an interpreter. A call of a closure compares
the depth with the limit, opens a frame and leaves two things on the stack, to put the frame
back and to end the call. A fault goes down the stack and passes through both.

What steps there are is listed once (`Machine.Transition`); what each of them keeps, a run keeps
(`Machine.Reaches.keeps`).

The machine comes to what the evaluator says (`Operation.reaches`), uniformly in what waits
on the stack.
-/

namespace PipeLang

/-! ## Machines -/

/-- What waits for an outcome. Values that are there already stand before the token or the
expression that follows them. -/
inductive Waiting where
  /-- An operator before the value. -/
  | operator (operator : Token)
  /-- The right operand, once the left one is there. -/
  | right (operator : Token) (right : Expr)
  /-- An operator behind its left operand. -/
  | left (left : Value) (operator : Token)
  | print
  | declare (name : Token) (mutable : Bool)
  | assign (name : Token)
  /-- The statements behind the one that runs. -/
  | sequel (rest : List Stmt)
  /-- A branch whose condition runs, and the branches behind it. -/
  | branch (body : Block) (others : List Branch)
  /-- The callee and the arguments behind a piped first argument. -/
  | piped (callee : Expr) (token : Token) (others : List Expr)
  /-- The arguments behind the callee, and those that are there. -/
  | callee (token : Token) (given : List Value) (others : List Expr)
  /-- The arguments behind the one that runs, and those that are there. -/
  | argument (f : Value) (token : Token) (given : List Value) (others : List Expr)
  /-- The frame to come back to. -/
  | frame (outer : FrameId)
  /-- The end of a call. -/
  | body
  /-- The end of a program. -/
  | flush

/-- What a machine works on. -/
inductive Task where
  | evaluate (e : Expr)
  | branches (bs : List Branch)
  | execute (s : Stmt)
  | sequence (last : Value) (ss : List Stmt)
  /-- Statements in a new frame inside the current one. -/
  | block (body : Block)
  | arguments (f : Value) (token : Token) (given : List Value) (others : List Expr)
  | call (f : Value) (token : Token) (arguments : List Value)
  /-- A program in a new frame inside the globals. -/
  | fresh (p : Program)
  /-- A program in the frame that prompt inputs share. -/
  | shared (p : Program)
  /-- An outcome. -/
  | value (v : Value)
  | fault (f : Fault)

/-- A task, what waits for its outcome, the latest first, and the state so far. -/
structure Machine where
  task : Task
  waiting : List Waiting
  state : Interpreter

namespace Machine

/-- The machine that has an outcome. -/
def settled (r : EStateM.Result Fault Interpreter Value) (ws : List Waiting) : Machine :=
  match r with
  | .ok v i => ⟨.value v, ws, i⟩
  | .error f i => ⟨.fault f, ws, i⟩

/-- The machine that has carried out an operation without a value. -/
def done (r : EStateM.Result Fault Interpreter Unit) (ws : List Waiting) : Machine :=
  match r with
  | .ok () i => ⟨.value .nil, ws, i⟩
  | .error f i => ⟨.fault f, ws, i⟩

/-- A value comes to what has waited for it. -/
def resume (v : Value) (ws : List Waiting) (i : Interpreter) : Waiting → Machine
  | .operator operator => settled (Run.ofExcept (v.unary operator) i) ws
  | .right operator right => ⟨.evaluate right, .left v operator :: ws, i⟩
  | .left l operator => settled (Run.ofExcept (l.binary operator v) i) ws
  | .print => done (Run.print v i) ws
  | .declare name mutable => done (Run.declare name ⟨mutable, v⟩ i) ws
  | .assign name => done (Run.assign name v i) ws
  | .sequel rest => ⟨.sequence v rest, ws, i⟩
  | .branch body others =>
    if v.isTruthy then ⟨.block body, ws, i⟩ else ⟨.branches others, ws, i⟩
  | .piped callee token others => ⟨.evaluate callee, .callee token [v] others :: ws, i⟩
  | .callee token given others => ⟨.arguments v token given others, ws, i⟩
  | .argument f token given others => ⟨.arguments f token (given ++ [v]) others, ws, i⟩
  | .frame outer => ⟨.value v, ws, { i with current := outer }⟩
  | .body => ⟨.value v, ws, { i with depth := i.depth - 1 }⟩
  | .flush => done (Run.flush i) ws

/-- A fault passes what has waited for a value. -/
def unwind (f : Fault) (ws : List Waiting) (i : Interpreter) : Waiting → Machine
  | .frame outer => ⟨.fault f, ws, { i with current := outer }⟩
  | .body => ⟨.fault f, ws, { i with depth := i.depth - 1 }⟩
  | .flush =>
    match Run.flush i with
    | .ok () j => ⟨.fault f, ws, j⟩
    | .error g j => ⟨.fault g, ws, j⟩
  | _ => ⟨.fault f, ws, i⟩

/-- The statements of a block in a frame, and back to the current one. -/
def enter (frame : FrameId) (body : Block) (ws : List Waiting) (i : Interpreter) : Machine :=
  ⟨.sequence .nil body, .frame i.current :: ws, { i with current := frame }⟩

/-- The interpreter with one more frame. -/
def opened (enclosing : FrameId) (i : Interpreter) : Interpreter :=
  { i with store := i.store.grow (some enclosing) }

/-- A call begins. -/
def invoke (f : Value) (token : Token) (arguments : List Value) (ws : List Waiting)
    (i : Interpreter) : Machine :=
  match f with
  | .builtin .log => done (Run.printAll arguments i) ws
  | .closure c =>
    if arguments.length ≠ c.parameters.length then
      ⟨.fault (.arity token c.name c.parameters.length arguments.length), ws, i⟩
    else if callLimit ≤ i.depth then
      ⟨.fault (.depth token c.name), ws, i⟩
    else
      match Run.bindAll i.store.size c.parameters arguments (opened c.frame i) with
      | .ok () j => enter i.store.size c.body (.body :: ws) { j with depth := j.depth + 1 }
      | .error g j => ⟨.fault g, ws, j⟩
  | v => ⟨.fault (.callee token v), ws, i⟩

/-- An expression is taken apart. -/
def begin (ws : List Waiting) (i : Interpreter) : Expr → Machine
  | .literal value => ⟨.value (.ofLiteral value), ws, i⟩
  | .grouping inner => ⟨.evaluate inner, ws, i⟩
  | .unary operator right => ⟨.evaluate right, .operator operator :: ws, i⟩
  | .binary left operator right => ⟨.evaluate left, .right operator right :: ws, i⟩
  | .name token => settled (Run.read token i) ws
  | .block body => ⟨.block body, ws, i⟩
  | .ifChain branches => ⟨.branches branches, ws, i⟩
  | .call callee token (first :: others) true =>
    ⟨.evaluate first, .piped callee token others :: ws, i⟩
  | .call callee token arguments _ =>
    ⟨.evaluate callee, .callee token [] arguments :: ws, i⟩

/-- A statement is taken apart. -/
def start (ws : List Waiting) (i : Interpreter) : Stmt → Machine
  | .expression value => ⟨.evaluate value, ws, i⟩
  | .print value => ⟨.evaluate value, .print :: ws, i⟩
  | .declare name initializer mutable =>
    ⟨.evaluate initializer, .declare name mutable :: ws, i⟩
  | .function name parameters body =>
    done (Run.declare name ⟨false, .closure ⟨name.lexeme, parameters, body, i.current⟩⟩ i) ws
  | .assign name value => ⟨.evaluate value, .assign name :: ws, i⟩

/-- The next machine; none, when nothing waits for the outcome. -/
def step : Machine → Option Machine
  | ⟨.value _, [], _⟩ => none
  | ⟨.fault _, [], _⟩ => none
  | ⟨.value v, w :: ws, i⟩ => some (resume v ws i w)
  | ⟨.fault f, w :: ws, i⟩ => some (unwind f ws i w)
  | ⟨.evaluate e, ws, i⟩ => some (begin ws i e)
  | ⟨.execute s, ws, i⟩ => some (start ws i s)
  | ⟨.branches [], ws, i⟩ => some ⟨.value .nil, ws, i⟩
  | ⟨.branches (.when condition body :: bs), ws, i⟩ =>
    some ⟨.evaluate condition, .branch body bs :: ws, i⟩
  | ⟨.branches (.otherwise body :: _), ws, i⟩ => some ⟨.block body, ws, i⟩
  | ⟨.sequence last [], ws, i⟩ => some ⟨.value last, ws, i⟩
  | ⟨.sequence _ (s :: ss), ws, i⟩ => some ⟨.execute s, .sequel ss :: ws, i⟩
  | ⟨.block body, ws, i⟩ =>
    some (enter i.store.size body ws (opened i.current i))
  | ⟨.arguments f token given [], ws, i⟩ => some ⟨.call f token given, ws, i⟩
  | ⟨.arguments f token given (e :: es), ws, i⟩ =>
    some ⟨.evaluate e, .argument f token given es :: ws, i⟩
  | ⟨.call f token arguments, ws, i⟩ => some (invoke f token arguments ws i)
  | ⟨.fresh p, ws, i⟩ =>
    some (enter i.store.size p (.flush :: ws) (opened Interpreter.globals i))
  | ⟨.shared p, ws, i⟩ =>
    match Interpreter.sharedFrame i with
    | .ok frame j => some (enter frame p (.flush :: ws) j)
    | .error f j => some ⟨.fault f, ws, j⟩

/-- Any number of steps. -/
abbrev Reaches : Machine → Machine → Prop :=
  Relation.ReflTransGen fun m n => m.step = some n

/-! ## What a step can be -/

/-- The steps of a machine, one by one. Proofs about a step go through these cases. -/
inductive Transition : Machine → Machine → Prop where
  | evaluate {e : Expr} {ws : List Waiting} {i : Interpreter} :
    Transition ⟨.evaluate e, ws, i⟩ (begin ws i e)
  | execute {s : Stmt} {ws : List Waiting} {i : Interpreter} :
    Transition ⟨.execute s, ws, i⟩ (start ws i s)
  | noBranch {ws : List Waiting} {i : Interpreter} :
    Transition ⟨.branches [], ws, i⟩ ⟨.value .nil, ws, i⟩
  | condition {condition : Expr} {body : Block} {bs : List Branch} {ws : List Waiting}
      {i : Interpreter} :
    Transition ⟨.branches (.when condition body :: bs), ws, i⟩
      ⟨.evaluate condition, .branch body bs :: ws, i⟩
  | otherwise {body : Block} {bs : List Branch} {ws : List Waiting} {i : Interpreter} :
    Transition ⟨.branches (.otherwise body :: bs), ws, i⟩ ⟨.block body, ws, i⟩
  | last {last : Value} {ws : List Waiting} {i : Interpreter} :
    Transition ⟨.sequence last [], ws, i⟩ ⟨.value last, ws, i⟩
  | statement {last : Value} {s : Stmt} {ss : List Stmt} {ws : List Waiting}
      {i : Interpreter} :
    Transition ⟨.sequence last (s :: ss), ws, i⟩ ⟨.execute s, .sequel ss :: ws, i⟩
  | block {body : Block} {ws : List Waiting} {i : Interpreter} :
    Transition ⟨.block body, ws, i⟩ (enter i.store.size body ws (opened i.current i))
  | given {f : Value} {token : Token} {given : List Value} {ws : List Waiting}
      {i : Interpreter} :
    Transition ⟨.arguments f token given [], ws, i⟩ ⟨.call f token given, ws, i⟩
  | argument {f : Value} {token : Token} {given : List Value} {e : Expr} {es : List Expr}
      {ws : List Waiting} {i : Interpreter} :
    Transition ⟨.arguments f token given (e :: es), ws, i⟩
      ⟨.evaluate e, .argument f token given es :: ws, i⟩
  | call {f : Value} {token : Token} {arguments : List Value} {ws : List Waiting}
      {i : Interpreter} :
    Transition ⟨.call f token arguments, ws, i⟩ (invoke f token arguments ws i)
  | fresh {p : Program} {ws : List Waiting} {i : Interpreter} :
    Transition ⟨.fresh p, ws, i⟩
      (enter i.store.size p (.flush :: ws) (opened Interpreter.globals i))
  | shared {p : Program} {frame : FrameId} {ws : List Waiting} {i j : Interpreter} :
    Interpreter.sharedFrame i = .ok frame j →
      Transition ⟨.shared p, ws, i⟩ (enter frame p (.flush :: ws) j)
  | resume {v : Value} {w : Waiting} {ws : List Waiting} {i : Interpreter} :
    Transition ⟨.value v, w :: ws, i⟩ (resume v ws i w)
  | unwind {f : Fault} {w : Waiting} {ws : List Waiting} {i : Interpreter} :
    Transition ⟨.fault f, w :: ws, i⟩ (unwind f ws i w)

/-- A program at a prompt always has a frame to run in. -/
theorem sharedFrame_ok (i : Interpreter) : ∃ frame j, Interpreter.sharedFrame i = .ok frame j := by
  unfold Interpreter.sharedFrame
  cases i.shared <;> exact ⟨_, _, rfl⟩

/-- A step has one case for each task, so what steps keep is proved by cases of `Transition`. -/
theorem transition_of_step {m n : Machine} (h : m.step = some n) : Transition m n := by
  obtain ⟨task, ws, i⟩ := m
  cases task with
  | branches bs =>
    rcases bs with - | ⟨⟨condition, body⟩ | body, bs⟩ <;> cases h
    · exact .noBranch
    · exact .condition
    · exact .otherwise
  | sequence last ss =>
    cases ss <;> cases h
    · exact .last
    · exact .statement
  | arguments f token given es =>
    cases es <;> cases h
    · exact .given
    · exact .argument
  | shared p =>
    obtain ⟨frame, j, hframe⟩ := sharedFrame_ok i
    rw [step, hframe] at h
    cases h
    exact .shared hframe
  | value v =>
    cases ws <;> cases h
    exact .resume
  | fault f =>
    cases ws <;> cases h
    exact .unwind
  | _ =>
    cases h
    constructor

/-- What every step keeps, a run keeps. -/
theorem Reaches.keeps {P : Machine → Prop} (hP : ∀ {m n}, P m → m.step = some n → P n)
    {m n : Machine} (h : P m) (hn : m.Reaches n) : P n := by
  induction hn with
  | refl => exact h
  | tail _ hs ih => exact hP ih hs

end Machine

/-! ## Operations -/

/-- What can be asked of an interpreter. -/
inductive Operation where
  | evaluate (e : Expr)
  | execute (s : Stmt)
  | call (f : Value) (token : Token) (arguments : List Value)
  | runFresh (p : Program)
  | runShared (p : Program)

namespace Operation

/-- The operation as the interpreter performs it. A program has the value `nil`. -/
def perform : Operation → Run Value
  | evaluate e => Interpreter.evaluate e
  | execute s => Interpreter.execute s
  | call f token arguments => Interpreter.call f token arguments
  | runFresh p => do
    Interpreter.runFresh p
    pure .nil
  | runShared p => do
    Interpreter.runShared p
    pure .nil

/-- The operation as a task. -/
def task : Operation → Task
  | evaluate e => .evaluate e
  | execute s => .execute s
  | call f token arguments => .call f token arguments
  | runFresh p => .fresh p
  | runShared p => .shared p

/-- The machine that begins with the operation. -/
def machine (op : Operation) (i : Interpreter) : Machine := ⟨op.task, [], i⟩

end Operation

/-- What is hereditary holds of every operation. -/
theorem Run.Hereditary.perform {P : ∀ {α : Type}, Run α → Prop} (hP : Run.Hereditary P)
    (op : Operation) : P op.perform := by
  cases op with
  | evaluate e => exact hP.evaluate e
  | execute s => exact hP.execute s
  | call f token vs => exact hP.call f token vs
  | runFresh p => exact hP.bind (hP.runFresh p) fun _ => hP.pure Value.nil
  | runShared p => exact hP.bind (hP.runShared p) fun _ => hP.pure Value.nil

/-! ## Chains of steps -/

namespace Machine

variable {ws : List Waiting} {i : Interpreter} {x : Run Value}

/-- A step that ends with a value hands it to what waits. -/
theorem settled_ok {v : Value} {j : Interpreter} (h : x i = .ok v j) :
    settled (x i) ws = ⟨.value v, ws, j⟩ := by
  rw [h, settled]

/-- A step that ends with a fault hands that on. -/
theorem settled_error {f : Fault} {j : Interpreter} (h : x i = .error f j) :
    settled (x i) ws = ⟨.fault f, ws, j⟩ := by
  rw [h, settled]

/-- An operation without a value counts as `nil`. -/
theorem settled_nil (y : Run Unit) (ws : List Waiting) (i : Interpreter) :
    settled ((do y; pure .nil : Run Value) i) ws = done (y i) ws := by
  cases h : y i with
  | ok u j => rw [Run.bind_ok h, done]; rfl
  | error f j => rw [Run.bind_error h, done]; rfl

/-- One more step in front. -/
theorem Reaches.step {m n k : Machine} (h : m.step = some n) (hn : Reaches n k) :
    Reaches m k :=
  .head h hn

/-- The task comes to the outcome of the run, whatever waits for it. -/
def Comes (t : Task) (x : Run Value) (i : Interpreter) : Prop :=
  ∀ ws, Reaches ⟨t, ws, i⟩ (settled (x i) ws)

/-- A run, and another one with its value. What waits in between lets faults pass. -/
theorem Comes.bind {t : Task} {w : Waiting} {k : Value → Run Value} (hx : Comes t x i)
    (hkeeps : Run.Within Restored x) (hw : ∀ f j, unwind f ws j w = ⟨.fault f, ws, j⟩)
    (hk : ∀ v j, j.depth = i.depth → Reaches (resume v ws j w) (settled (k v j) ws)) :
    Reaches ⟨t, w :: ws, i⟩ (settled ((x >>= k) i) ws) := by
  have first := hx (w :: ws)
  cases h : x i with
  | ok v j =>
    have hdepth : j.depth = i.depth := Run.after_ok h ▸ (hkeeps i).depth_eq
    rw [settled_ok h] at first
    rw [Run.bind_ok h]
    exact first.trans (Reaches.step rfl (hk v j hdepth))
  | error f j =>
    rw [settled_error h] at first
    rw [settled_error (Run.bind_error h)]
    have pass : Machine.step ⟨.fault f, w :: ws, j⟩ = some ⟨.fault f, ws, j⟩ := by
      rw [Machine.step, hw]
    exact first.trans (.single pass)

/-- Statements in a frame, and back. -/
theorem Comes.enter {body : Block} {frame : FrameId}
    (hx : Comes (.sequence .nil body) x { i with current := frame }) :
    Reaches (enter frame body ws i) (settled (Run.inFrame frame x i) ws) := by
  have inside := hx (.frame i.current :: ws)
  cases h : x { i with current := frame } with
  | ok v j =>
    have hframe : Run.inFrame frame x i = .ok v { j with current := i.current } := by
      simp only [Run.inFrame, h]
    rw [settled_ok h] at inside
    rw [settled_ok hframe]
    exact inside.trans (.single rfl)
  | error f j =>
    have hframe : Run.inFrame frame x i = .error f { j with current := i.current } := by
      simp only [Run.inFrame, h]
    rw [settled_error h] at inside
    rw [settled_error hframe]
    exact inside.trans (.single rfl)

/-- The end of a call. -/
theorem Comes.nested {m : Machine}
    (hx : Reaches m (settled (x { i with depth := i.depth + 1 }) (.body :: ws))) :
    Reaches m (settled (Run.nested x i) ws) := by
  cases h : x { i with depth := i.depth + 1 } with
  | ok v j =>
    have hnested : Run.nested x i = .ok v { j with depth := j.depth - 1 } := by
      simp only [Run.nested, h]
    rw [settled_ok h] at hx
    rw [settled_ok hnested]
    exact hx.trans (.single rfl)
  | error f j =>
    have hnested : Run.nested x i = .error f { j with depth := j.depth - 1 } := by
      simp only [Run.nested, h]
    rw [settled_error h] at hx
    rw [settled_error hnested]
    exact hx.trans (.single rfl)

/-! ## The machine follows the evaluator -/

/-- Calls at a depth are as the machine makes them. -/
structure Follows (apply : Apply) (depth : Nat) : Prop where
  keeps : ∀ f token vs, Run.Within Restored (apply f token vs)
  comes : ∀ f token vs i, i.depth = depth → Comes (.call f token vs) (apply f token vs) i

/-- The first argument is evaluated before the others are looked at. -/
theorem evalAll_cons_bind (apply : Apply) (e : Expr) (es : List Expr)
    (k : List Value → Run Value) :
    (Expr.evalAll apply (e :: es) >>= k) =
      (e.eval apply >>= fun v => Expr.evalAll apply es >>= fun vs => k (v :: vs)) := by
  rw [Expr.evalAll]
  simp only [bind_assoc, pure_bind]

namespace Follows

variable {apply : Apply} {depth : Nat}

/-- An expression, and a run with its value, at the depth the expression began at. -/
theorem eval_bind (h : Follows apply depth) {e : Expr} {i : Interpreter} {w : Waiting}
    {ws : List Waiting} {k : Value → Run Value} (he : Comes (.evaluate e) (e.eval apply) i)
    (hi : i.depth = depth) (hw : ∀ f j, unwind f ws j w = ⟨.fault f, ws, j⟩)
    (hk : ∀ v j, j.depth = depth → Reaches (resume v ws j w) (settled (k v j) ws)) :
    Reaches ⟨.evaluate e, w :: ws, i⟩ (settled ((e.eval apply >>= k) i) ws) :=
  he.bind (history_restored.eval h.keeps e) hw fun v j hj => hk v j (hj.trans hi)

mutual

/-- The machine comes to what the evaluator says of an expression, if calls do. By induction on
the expression, and with the same lemma for what waits after each of its parts. -/
theorem evaluate (h : Follows apply depth) :
    ∀ (e : Expr) (i : Interpreter), i.depth = depth → Comes (.evaluate e) (e.eval apply) i
  | .literal value, i, hi => fun ws => by
    rw [Expr.eval]
    exact .single rfl
  | .grouping inner, i, hi => fun ws => by
    rw [Expr.eval]
    exact Reaches.step rfl (h.evaluate inner i hi ws)
  | .unary operator right, i, hi => fun ws => by
    rw [Expr.eval]
    have operand := h.evaluate right i hi
    exact Reaches.step rfl (h.eval_bind operand hi (fun _ _ => rfl) fun v j _ => .refl)
  | .binary left operator right, i, hi => fun ws => by
    rw [Expr.eval]
    have first := h.evaluate left i hi
    refine Reaches.step rfl (h.eval_bind first hi (fun _ _ => rfl) fun l j hj => ?_)
    have second := h.evaluate right j hj
    exact h.eval_bind second hj (fun _ _ => rfl) fun r k _ => .refl
  | .name token, i, hi => fun ws => by
    rw [Expr.eval]
    exact .single rfl
  | .block body, i, hi => fun ws => by
    rw [Expr.eval]
    exact Reaches.step rfl (h.block body i hi ws)
  | .ifChain branches, i, hi => fun ws => by
    rw [Expr.eval]
    exact Reaches.step rfl (h.branches branches i hi ws)
  | .call callee token (first :: others) true, i, hi => fun ws => by
    rw [Expr.eval]
    have value := h.evaluate first i hi
    refine Reaches.step rfl (h.eval_bind value hi (fun _ _ => rfl) fun v j hj => ?_)
    have function := h.evaluate callee j hj
    refine h.eval_bind function hj (fun _ _ => rfl) fun f k hk => ?_
    exact h.arguments others f token [v] k hk ws
  | .call callee token [] true, i, hi => fun ws => by
    rw [Expr.eval]
    · have function := h.evaluate callee i hi
      refine Reaches.step rfl (h.eval_bind function hi (fun _ _ => rfl) fun f j hj => ?_)
      exact h.arguments [] f token [] j hj ws
    · nofun
  | .call callee token arguments false, i, hi => fun ws => by
    rw [Expr.eval]
    · have function := h.evaluate callee i hi
      -- The step looks at the arguments, though they decide nothing without a pipe.
      have first : Machine.step ⟨.evaluate (.call callee token arguments false), ws, i⟩ =
          some ⟨.evaluate callee, .callee token [] arguments :: ws, i⟩ := by
        cases arguments <;> rfl
      refine Reaches.step first (h.eval_bind function hi (fun _ _ => rfl) fun f j hj => ?_)
      exact h.arguments arguments f token [] j hj ws
    · nofun

/-- Arguments one after the other, behind those that are there already. -/
theorem arguments (h : Follows apply depth) :
    ∀ (es : List Expr) (f : Value) (token : Token) (given : List Value) (i : Interpreter),
      i.depth = depth →
        Comes (.arguments f token given es)
          (Expr.evalAll apply es >>= fun vs => apply f token (given ++ vs)) i
  | [], f, token, given, i, hi => fun ws => by
    rw [Expr.evalAll, pure_bind, List.append_nil]
    exact Reaches.step rfl (h.comes f token given i hi ws)
  | e :: es, f, token, given, i, hi => fun ws => by
    rw [evalAll_cons_bind]
    have argument := h.evaluate e i hi
    refine Reaches.step rfl (h.eval_bind argument hi (fun _ _ => rfl) fun v j hj => ?_)
    have others := h.arguments es f token (given ++ [v]) j hj ws
    simp only [List.append_assoc, List.singleton_append] at others
    exact others

/-- Conditions up to the first that holds. -/
theorem branches (h : Follows apply depth) :
    ∀ (bs : List Branch) (i : Interpreter), i.depth = depth →
      Comes (.branches bs) (Branch.eval apply bs) i
  | [], i, hi => fun ws => by
    rw [Branch.eval]
    exact .single rfl
  | .when condition body :: bs, i, hi => fun ws => by
    rw [Branch.eval]
    have value := h.evaluate condition i hi
    refine Reaches.step rfl (h.eval_bind value hi (fun _ _ => rfl) fun v j hj => ?_)
    rw [resume]
    split
    · exact h.block body j hj ws
    · exact h.branches bs j hj ws
  | .otherwise body :: bs, i, hi => fun ws => by
    rw [Branch.eval]
    exact Reaches.step rfl (h.block body i hi ws)

/-- A block in a frame of its own. -/
theorem block (h : Follows apply depth) :
    ∀ (body : Block) (i : Interpreter), i.depth = depth →
      Comes (.block body) (Run.inChild (Stmt.execAll apply .nil body)) i
  | body, i, hi => fun ws =>
    Reaches.step rfl (Comes.enter (h.sequence body .nil _ hi))

/-- A statement. -/
theorem execute (h : Follows apply depth) :
    ∀ (s : Stmt) (i : Interpreter), i.depth = depth → Comes (.execute s) (s.exec apply) i
  | .expression value, i, hi => fun ws => by
    rw [Stmt.exec]
    exact Reaches.step rfl (h.evaluate value i hi ws)
  | .print value, i, hi => fun ws => by
    rw [Stmt.exec]
    have printed := h.evaluate value i hi
    refine Reaches.step rfl (h.eval_bind printed hi (fun _ _ => rfl) fun v j _ => ?_)
    rw [settled_nil]
    exact .refl
  | .declare name initializer mutable, i, hi => fun ws => by
    rw [Stmt.exec]
    have value := h.evaluate initializer i hi
    refine Reaches.step rfl (h.eval_bind value hi (fun _ _ => rfl) fun v j _ => ?_)
    rw [settled_nil]
    exact .refl
  | .function name parameters body, i, hi => fun ws => by
    rw [Stmt.exec, Run.bind_ok (show Run.current i = .ok i.current i from rfl), settled_nil]
    exact .single rfl
  | .assign name value, i, hi => fun ws => by
    rw [Stmt.exec]
    have assigned := h.evaluate value i hi
    refine Reaches.step rfl (h.eval_bind assigned hi (fun _ _ => rfl) fun v j _ => ?_)
    rw [settled_nil]
    exact .refl

/-- Statements, of which the last gives the value. -/
theorem sequence (h : Follows apply depth) :
    ∀ (ss : List Stmt) (last : Value) (i : Interpreter), i.depth = depth →
      Comes (.sequence last ss) (Stmt.execAll apply last ss) i
  | [], last, i, hi => fun ws => by
    rw [Stmt.execAll]
    exact .single rfl
  | s :: ss, last, i, hi => fun ws => by
    rw [Stmt.execAll]
    have first := h.execute s i hi
    have keeps := history_restored.exec h.keeps s
    refine Reaches.step rfl (first.bind keeps (fun _ _ => rfl) fun v j hj => ?_)
    exact h.sequence ss v j (hj.trans hi) ws

end

end Follows

/-! ## Calls and programs -/

section

variable {c : Closure} {token : Token} {vs : List Value} {ws : List Waiting}
  {i j : Interpreter}

/-- The arguments are counted before anything else. -/
theorem invoke_arity (h : vs.length ≠ c.parameters.length) :
    invoke (.closure c) token vs ws i =
      ⟨.fault (.arity token c.name c.parameters.length vs.length), ws, i⟩ := by
  rw [invoke, if_pos h]

/-- Then the depth is looked at. -/
theorem invoke_deep (h : vs.length = c.parameters.length) (hi : callLimit ≤ i.depth) :
    invoke (.closure c) token vs ws i = ⟨.fault (.depth token c.name), ws, i⟩ := by
  rw [invoke, if_neg (· h), if_pos hi]

/-- Then the parameters are bound, and the body begins one call deeper. -/
theorem invoke_ok (h : vs.length = c.parameters.length) (hi : i.depth < callLimit)
    (hbind : Run.bindAll i.store.size c.parameters vs (opened c.frame i) = .ok () j) :
    invoke (.closure c) token vs ws i =
      enter i.store.size c.body (.body :: ws) { j with depth := j.depth + 1 } := by
  rw [invoke, if_neg (· h), if_neg (Nat.not_le.2 hi), hbind]

/-- A parameter that cannot be bound leaves the new frame behind. -/
theorem invoke_error {f : Fault} (h : vs.length = c.parameters.length)
    (hi : i.depth < callLimit)
    (hbind : Run.bindAll i.store.size c.parameters vs (opened c.frame i) = .error f j) :
    invoke (.closure c) token vs ws i = ⟨.fault f, ws, j⟩ := by
  rw [invoke, if_neg (· h), if_neg (Nat.not_le.2 hi), hbind]

/-- What a call of a closure can begin with : a fault at once, a fault of a parameter in the
new frame, or the body in that frame, one call deeper. -/
theorem invoke_cases (c : Closure) (token : Token) (vs : List Value) (ws : List Waiting)
    (i : Interpreter) :
    let j := (Run.bindAll i.store.size c.parameters vs).after (opened c.frame i)
    (∃ f, invoke (.closure c) token vs ws i = ⟨.fault f, ws, i⟩) ∨
      (∃ f, invoke (.closure c) token vs ws i = ⟨.fault f, ws, j⟩) ∨
      i.depth < callLimit ∧ invoke (.closure c) token vs ws i =
        enter i.store.size c.body (.body :: ws) { j with depth := j.depth + 1 } := by
  intro j
  by_cases hlength : vs.length = c.parameters.length
  · by_cases hdeep : callLimit ≤ i.depth
    · exact .inl ⟨_, invoke_deep hlength hdeep⟩
    have hroom : i.depth < callLimit := Nat.not_le.1 hdeep
    cases hbind : Run.bindAll i.store.size c.parameters vs (opened c.frame i) with
    | ok u k =>
      obtain rfl : j = k := Run.after_ok hbind
      exact .inr (.inr ⟨hroom, invoke_ok hlength hroom hbind⟩)
    | error f k =>
      obtain rfl : j = k := Run.after_error hbind
      exact .inr (.inl ⟨f, invoke_error hlength hroom hbind⟩)
  · exact .inl ⟨_, invoke_arity hlength⟩

/-- A fault flushes the output on its way, and a failed flush takes its place. -/
theorem unwind_flush (f : Fault) (ws : List Waiting) (i : Interpreter) :
    ∃ g, unwind f ws i .flush = ⟨.fault g, ws, Run.flush.after i⟩ := by
  unfold unwind Run.after
  cases Run.flush i with
  | ok u j => exact ⟨f, rfl⟩
  | error g j => exact ⟨g, rfl⟩

/-- The builtin prints in one step, and needs no budget. -/
theorem comes_log (budget : Nat) :
    Comes (.call (.builtin .log) token vs)
      (PipeLang.apply budget (.builtin .log) token vs) i := by
  intro ws
  unfold PipeLang.apply
  rw [settled_nil]
  exact .single rfl

/-- A call with the wrong number of arguments ends in one step. -/
theorem comes_arity (budget : Nat) (h : vs.length ≠ c.parameters.length) :
    Comes (.call (.closure c) token vs) (PipeLang.apply budget (.closure c) token vs) i := by
  intro ws
  have first : Machine.step ⟨.call (.closure c) token vs, ws, i⟩ = some _ :=
    congrArg some (invoke_arity h)
  cases budget <;> rw [PipeLang.apply, if_pos h] <;> exact .single first

/-- Without any budget left the depth is at the limit, and both say so. -/
theorem comes_deep (h : vs.length = c.parameters.length) (hi : callLimit ≤ i.depth) :
    Comes (.call (.closure c) token vs) (PipeLang.apply 0 (.closure c) token vs) i := by
  intro ws
  have first : Machine.step ⟨.call (.closure c) token vs, ws, i⟩ = some _ :=
    congrArg some (invoke_deep h hi)
  rw [PipeLang.apply, if_neg (· h)]
  exact .single first

/-- A call that is made : one call more is under way while the body runs. -/
theorem comes_body {budget : Nat} (h : vs.length = c.parameters.length)
    (hi : i.depth < callLimit) (hbody : Follows (PipeLang.apply budget) (i.depth + 1)) :
    Comes (.call (.closure c) token vs)
      (PipeLang.apply (budget + 1) (.closure c) token vs) i := by
  intro ws
  have hnew : Run.newFrame c.frame i = .ok i.store.size (opened c.frame i) := rfl
  rw [PipeLang.apply, if_neg (· h), Run.bind_ok hnew]
  cases hbind : Run.bindAll i.store.size c.parameters vs (opened c.frame i) with
  | ok u j =>
    have hrestored := history_restored.bindAll i.store.size c.parameters vs (opened c.frame i)
    have hdepth : j.depth = i.depth := (Run.after_ok hbind ▸ hrestored).depth_eq
    have first : Machine.step ⟨.call (.closure c) token vs, ws, i⟩ = some _ :=
      congrArg some (invoke_ok h hi hbind)
    rw [Run.bind_ok hbind]
    refine Reaches.step first (Comes.nested (Comes.enter ?_))
    exact hbody.sequence c.body .nil _ (congrArg (· + 1) hdepth)
  | error f j =>
    have first : Machine.step ⟨.call (.closure c) token vs, ws, i⟩ = some _ :=
      congrArg some (invoke_error h hi hbind)
    rw [settled_error (Run.bind_error hbind)]
    exact .single first

end

/-- The budget of the evaluator is what the depth leaves of the limit. -/
theorem follows_apply (budget : Nat) :
    ∀ depth, callLimit - depth = budget → Follows (PipeLang.apply budget) depth := by
  induction budget with
  | zero =>
    intro depth hdepth
    refine ⟨history_restored.apply 0, fun f token vs i hi => ?_⟩
    cases f with
    | builtin b => exact comes_log 0
    | closure c =>
      by_cases h : vs.length = c.parameters.length
      · exact comes_deep h (by omega)
      · exact comes_arity 0 h
    | _ => exact fun ws => .single rfl
  | succ budget ih =>
    intro depth hdepth
    refine ⟨history_restored.apply (budget + 1), fun f token vs i hi => ?_⟩
    cases f with
    | builtin b => exact comes_log (budget + 1)
    | closure c =>
      by_cases h : vs.length = c.parameters.length
      · have hbody := ih (i.depth + 1) (by omega)
        exact comes_body h (by omega) hbody
      · exact comes_arity (budget + 1) h
    | _ => exact fun ws => .single rfl

/-- A call made from outside, at any depth. -/
theorem follows_call (depth : Nat) : Follows Interpreter.call depth :=
  ⟨history_restored.call, fun f token vs i _ =>
    (follows_apply (callLimit - i.depth) i.depth rfl).comes f token vs i rfl⟩

/-- A program in a frame, with the output flushed in any case. -/
theorem comes_program {m : Machine} {ws : List Waiting} {i : Interpreter} {p : Program}
    {frame : FrameId} (h : m.step = some (enter frame p (.flush :: ws) i)) :
    Reaches m (done (Interpreter.runIn frame p i) ws) := by
  have statements := (follows_call i.depth).sequence p .nil { i with current := frame } rfl
  have body : Reaches (enter frame p (.flush :: ws) i) _ := Comes.enter statements
  refine Reaches.step h (body.trans (.single ?_))
  unfold Interpreter.runIn
  cases hrun : Run.inFrame frame (Stmt.execAll Interpreter.call .nil p) i with
  | ok v j => rfl
  | error f j =>
    rw [settled, Machine.step, unwind]
    cases hflush : Run.flush j <;> simp only [hflush] <;> rfl

end Machine

/-- The machine comes to the outcome of the operation. -/
theorem Operation.reaches (op : Operation) (i : Interpreter) :
    (op.machine i).Reaches (.settled (op.perform i) []) := by
  have follows := Machine.follows_call i.depth
  cases op with
  | evaluate e => exact follows.evaluate e i rfl []
  | execute s => exact follows.execute s i rfl []
  | call f token vs => exact follows.comes f token vs i rfl []
  | runFresh p =>
    rw [perform, Machine.settled_nil]
    exact Machine.comes_program rfl
  | runShared p =>
    rw [perform, Machine.settled_nil]
    cases h : Interpreter.sharedFrame i with
    | ok frame j =>
      rw [Interpreter.runShared, Run.bind_ok h]
      refine Machine.comes_program ?_
      rw [machine, task, Machine.step, h]
    | error f j =>
      rw [Interpreter.runShared, Run.bind_error h]
      refine .single ?_
      rw [machine, task, Machine.step, h]
      rfl

end PipeLang
