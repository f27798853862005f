import PipeLang.Interpreter.Evaluation

/-!
# What holds of every step of an evaluation

A property of steps is hereditary when the single things that a program can do to an
interpreter have it, and when it passes from steps to what they are put together to : one
after the other, in another frame, one call deeper, or with a flush at the end. Then
evaluating an expression, executing a statement, calling a value and running a program have
it too (`Run.Hereditary.eval`, `Run.Hereditary.exec`, `Run.Hereditary.apply`,
`Run.Hereditary.runIn`).

The evaluator is walked through here, and a property of all its runs is one structure.
-/

namespace PipeLang

namespace Run

/-- Take the step and flush the output in any case. -/
def thenFlush (x : Run Value) : Run Unit := fun i =>
  match x i with
  | .ok _ j => flush j
  | .error f j =>
    match flush j with
    | .ok () k => .error f k
    | .error g k => .error g k

/-- A property of steps that evaluations inherit from the single things that they do. -/
structure Hereditary (P : ∀ {α : Type}, Run α → Prop) : Prop where
  pure : ∀ {α : Type} (a : α), P (Pure.pure a : Run α)
  throw : ∀ {α : Type} (f : Fault), P (MonadExcept.throw f : Run α)
  bind : ∀ {α β : Type} {x : Run α} {k : α → Run β}, P x → (∀ a, P (k a)) → P (x >>= k)
  read : ∀ name, P (read name)
  declareIn : ∀ frame name b, P (declareIn frame name b)
  assign : ∀ name v, P (assign name v)
  newFrame : ∀ enclosing, P (newFrame enclosing)
  current : P current
  print : ∀ v, P (print v)
  inFrame : ∀ {α : Type} (frame : FrameId) {x : Run α}, P x → P (inFrame frame x)
  nested : ∀ {α : Type} {x : Run α}, P x → P (nested x)
  /-- What is done may depend on the number of calls under way. -/
  atDepth : ∀ {α : Type} {k : Nat → Run α}, (∀ depth, P (k depth)) → P fun i => k i.depth i
  sharedFrame : P Interpreter.sharedFrame
  thenFlush : ∀ {x : Run Value}, P x → P (thenFlush x)

namespace Hereditary

variable {P : ∀ {α : Type}, Run α → Prop} {α : Type}

/-! ## Single steps -/

/-- A result without effects is a value or a fault. -/
theorem ofExcept (hP : Hereditary P) (r : Except Fault α) : P (Run.ofExcept r) := by
  cases r with
  | ok a => exact hP.pure a
  | error f => exact hP.throw f

theorem declare (hP : Hereditary P) (name : Token) (b : Binding) : P (Run.declare name b) :=
  hP.bind hP.current fun frame => hP.declareIn frame name b

theorem printAll (hP : Hereditary P) (vs : List Value) : P (Run.printAll vs) := by
  induction vs with
  | nil => exact hP.pure ()
  | cons v vs ih => exact hP.bind (hP.print v) fun _ => ih

/-- Parameters one after the other, as long as there are both names and values. -/
theorem bindAll (hP : Hereditary P) (frame : FrameId) (ps : List Token) (vs : List Value) :
    P (Run.bindAll frame ps vs) := by
  fun_induction Run.bindAll frame ps vs with
  | case1 p ps v vs ih => exact hP.bind (hP.declareIn frame p _) fun _ => ih
  | case2 => exact hP.pure ()

/-- A new frame, and a step in it. -/
theorem inChild (hP : Hereditary P) {x : Run α} (hx : P x) : P (Run.inChild x) :=
  hP.bind hP.current fun outer => hP.bind (hP.newFrame outer) fun frame => hP.inFrame frame hx

/-! ## The evaluator -/

section

variable {apply : Apply}

mutual

/-- If calls have the property, expressions do. By induction on the tree, in one block with
arguments, branches and statements. -/
theorem eval (hP : Hereditary P) (hcall : ∀ f token vs, P (apply f token vs)) :
    ∀ e : Expr, P (e.eval apply)
  | .literal value => by
    rw [Expr.eval]
    exact hP.pure _
  | .grouping inner => by
    rw [Expr.eval]
    exact hP.eval hcall inner
  | .unary operator right => by
    rw [Expr.eval]
    exact hP.bind (hP.eval hcall right) fun _ => hP.ofExcept _
  | .binary left operator right => by
    rw [Expr.eval]
    exact hP.bind (hP.eval hcall left) fun _ => hP.bind (hP.eval hcall right) fun _ =>
      hP.ofExcept _
  | .name token => by
    rw [Expr.eval]
    exact hP.read token
  | .block body => by
    rw [Expr.eval]
    exact hP.inChild (hP.execAll hcall Value.nil body)
  | .ifChain branches => by
    rw [Expr.eval]
    exact hP.branches hcall branches
  | .call callee token (first :: others) true => by
    rw [Expr.eval]
    exact hP.bind (hP.eval hcall first) fun v => hP.bind (hP.eval hcall callee) fun f =>
      hP.bind (hP.evalAll hcall others) fun vs => hcall f token (v :: vs)
  | .call callee token [] true => by
    rw [Expr.eval]
    · exact hP.bind (hP.eval hcall callee) fun f => hP.bind (hP.evalAll hcall []) fun vs =>
        hcall f token vs
    · nofun
  | .call callee token arguments false => by
    rw [Expr.eval]
    · exact hP.bind (hP.eval hcall callee) fun f => hP.bind (hP.evalAll hcall arguments) fun vs =>
        hcall f token vs
    · nofun

theorem evalAll (hP : Hereditary P) (hcall : ∀ f token vs, P (apply f token vs)) :
    ∀ es : List Expr, P (Expr.evalAll apply es)
  | [] => by
    rw [Expr.evalAll]
    exact hP.pure []
  | e :: es => by
    rw [Expr.evalAll]
    exact hP.bind (hP.eval hcall e) fun _ => hP.bind (hP.evalAll hcall es) fun _ => hP.pure _

theorem branches (hP : Hereditary P) (hcall : ∀ f token vs, P (apply f token vs)) :
    ∀ bs : List Branch, P (Branch.eval apply bs)
  | [] => by
    rw [Branch.eval]
    exact hP.pure Value.nil
  | .when condition body :: bs => by
    rw [Branch.eval]
    refine hP.bind (hP.eval hcall condition) fun v => ?_
    split
    · exact hP.inChild (hP.execAll hcall Value.nil body)
    · exact hP.branches hcall bs
  | .otherwise body :: bs => by
    rw [Branch.eval]
    exact hP.inChild (hP.execAll hcall Value.nil body)

/-- And statements. -/
theorem exec (hP : Hereditary P) (hcall : ∀ f token vs, P (apply f token vs)) :
    ∀ s : Stmt, P (s.exec apply)
  | .expression value => by
    rw [Stmt.exec]
    exact hP.eval hcall value
  | .print value => by
    rw [Stmt.exec]
    exact hP.bind (hP.eval hcall value) fun v => hP.bind (hP.print v) fun _ => hP.pure Value.nil
  | .declare name initializer mutable => by
    rw [Stmt.exec]
    exact hP.bind (hP.eval hcall initializer) fun v =>
      hP.bind (hP.declare name ⟨mutable, v⟩) fun _ => hP.pure Value.nil
  | .function name parameters body => by
    rw [Stmt.exec]
    exact hP.bind hP.current fun frame => hP.bind (hP.declare name _) fun _ => hP.pure Value.nil
  | .assign name value => by
    rw [Stmt.exec]
    exact hP.bind (hP.eval hcall value) fun v => hP.bind (hP.assign name v) fun _ =>
      hP.pure Value.nil

theorem execAll (hP : Hereditary P) (hcall : ∀ f token vs, P (apply f token vs)) :
    ∀ (last : Value) (ss : List Stmt), P (Stmt.execAll apply last ss)
  | last, [] => by
    rw [Stmt.execAll]
    exact hP.pure last
  | last, s :: ss => by
    rw [Stmt.execAll]
    exact hP.bind (hP.exec hcall s) fun v => hP.execAll hcall v ss

end

end

/-- Calls with any budget have it. By induction on the budget, since calls in a body have one
less. -/
theorem apply (hP : Hereditary P) (budget : Nat) (f : Value) (token : Token) (vs : List Value) :
    P (PipeLang.apply budget f token vs) := by
  induction budget generalizing f token vs with
  | zero =>
    unfold PipeLang.apply
    split
    · exact hP.bind (hP.printAll vs) fun _ => hP.pure Value.nil
    · split <;> exact hP.throw _
    · exact hP.throw _
  | succ budget ih =>
    unfold PipeLang.apply
    split
    · exact hP.bind (hP.printAll vs) fun _ => hP.pure Value.nil
    · split
      · exact hP.throw _
      · rename_i c _
        exact hP.bind (hP.newFrame c.frame) fun frame =>
          hP.bind (hP.bindAll frame c.parameters vs) fun _ =>
            hP.nested (hP.inFrame frame (hP.execAll ih Value.nil c.body))
    · exact hP.throw _

/-! ## Operations on an interpreter -/

/-- And calls with the budget that the depth leaves. -/
theorem call (hP : Hereditary P) (f : Value) (token : Token) (vs : List Value) :
    P (Interpreter.call f token vs) :=
  hP.atDepth fun depth => hP.apply (callLimit - depth) f token vs

theorem evaluate (hP : Hereditary P) (e : Expr) : P (Interpreter.evaluate e) :=
  hP.eval hP.call e

theorem execute (hP : Hereditary P) (s : Stmt) : P (Interpreter.execute s) :=
  hP.exec hP.call s

/-- A program, which is flushed in any case. -/
theorem runIn (hP : Hereditary P) (frame : FrameId) (p : Program) :
    P (Interpreter.runIn frame p) :=
  hP.thenFlush (hP.inFrame frame (hP.execAll hP.call Value.nil p))

theorem runFresh (hP : Hereditary P) (p : Program) : P (Interpreter.runFresh p) :=
  hP.bind (hP.newFrame Interpreter.globals) fun frame => hP.runIn frame p

theorem runShared (hP : Hereditary P) (p : Program) : P (Interpreter.runShared p) :=
  hP.bind hP.sharedFrame fun frame => hP.runIn frame p

end Hereditary

end Run

end PipeLang
