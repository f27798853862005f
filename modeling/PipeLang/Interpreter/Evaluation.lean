import PipeLang.Interpreter.State

/-!
# Evaluation

`Expr.eval` and `Stmt.exec` recurse on the tree and leave calls to a parameter, the way to
apply a function. `apply` ties the knot : the body of a closure is run with one call less
left, and a closure called with no call left is too deep. So every program ends.

Operands, arguments and branches run from left to right, and both operands always run. The
first argument of a piped call was written before the callee and runs before it.
-/

namespace PipeLang

/-- A way to call a value, from a token, with arguments. -/
abbrev Apply := Value → Token → List Value → Run Value

mutual

/-- The value of an expression. -/
def Expr.eval (apply : Apply) : Expr → Run Value
  | .literal value => pure (.ofLiteral value)
  | .grouping inner => inner.eval apply
  | .unary operator right => do
    let v ← right.eval apply
    Run.ofExcept (v.unary operator)
  | .binary left operator right => do
    let l ← left.eval apply
    let r ← right.eval apply
    Run.ofExcept (l.binary operator r)
  | .name token => Run.read token
  | .block body => Run.inChild (Stmt.execAll apply .nil body)
  | .ifChain branches => Branch.eval apply branches
  | .call callee token arguments piped =>
    match piped, arguments with
    | true, first :: others => do
      let v ← first.eval apply
      let f ← callee.eval apply
      let vs ← Expr.evalAll apply others
      apply f token (v :: vs)
    | _, arguments => do
      let f ← callee.eval apply
      let vs ← Expr.evalAll apply arguments
      apply f token vs

/-- The values of expressions, one after the other. -/
def Expr.evalAll (apply : Apply) : List Expr → Run (List Value)
  | [] => pure []
  | e :: es => do
    let v ← e.eval apply
    let vs ← Expr.evalAll apply es
    pure (v :: vs)

/-- The value of the first branch that applies, or `nil`. -/
def Branch.eval (apply : Apply) : List Branch → Run Value
  | [] => pure .nil
  | .when condition body :: branches => do
    let v ← condition.eval apply
    if v.isTruthy then Run.inChild (Stmt.execAll apply .nil body)
    else Branch.eval apply branches
  | .otherwise body :: _ => Run.inChild (Stmt.execAll apply .nil body)

/-- The value of a statement : that of an expression statement, `nil` for any other. -/
def Stmt.exec (apply : Apply) : Stmt → Run Value
  | .expression value => value.eval apply
  | .print value => do
    let v ← value.eval apply
    Run.print v
    pure .nil
  | .declare name initializer mutable => do
    let v ← initializer.eval apply
    Run.declare name ⟨mutable, v⟩
    pure .nil
  | .function name parameters body => do
    let frame ← Run.current
    Run.declare name ⟨false, .closure ⟨name.lexeme, parameters, body, frame⟩⟩
    pure .nil
  | .assign name value => do
    let v ← value.eval apply
    Run.assign name v
    pure .nil

/-- The value of the last statement of a list, or `last` when there is none. -/
def Stmt.execAll (apply : Apply) (last : Value) : List Stmt → Run Value
  | [] => pure last
  | s :: ss => do
    let v ← s.exec apply
    Stmt.execAll apply v ss

end

/-- Declare parameters in a frame, each with its argument. -/
def Run.bindAll (frame : FrameId) : List Token → List Value → Run Unit
  | p :: ps, v :: vs => do
    Run.declareIn frame p ⟨false, v⟩
    Run.bindAll frame ps vs
  | _, _ => pure ()

/-- Call a value with at most `budget` calls of closures inside one another. -/
def apply (budget : Nat) : Apply := fun callee token arguments =>
  match callee with
  | .builtin .log => do
    Run.printAll arguments
    pure .nil
  | .closure c =>
    if arguments.length ≠ c.parameters.length then
      throw (.arity token c.name c.parameters.length arguments.length)
    else
      match budget with
      | 0 => throw (.depth token c.name)
      | budget + 1 => do
        let frame ← Run.newFrame c.frame
        Run.bindAll frame c.parameters arguments
        Run.nested (Run.inFrame frame (Stmt.execAll (apply budget) .nil c.body))
  | v => throw (.callee token v)

/-! ## Programs -/

namespace Interpreter

/-- Calls inside the calls that are under way. -/
def call : Apply := fun callee token arguments i =>
  apply (callLimit - i.depth) callee token arguments i

/-- The value of an expression in the current frame. -/
def evaluate (e : Expr) : Run Value := e.eval call

/-- Execute a statement in the current frame. -/
def execute (s : Stmt) : Run Value := s.exec call

/-- Execute a program in a frame, up to the first fault, and flush the output in any case.
A failed flush is the result, whatever the program's was. -/
def runIn (frame : FrameId) (p : Program) : Run Unit := fun i =>
  match Run.inFrame frame (Stmt.execAll call .nil p) i with
  | .ok _ j => Run.flush j
  | .error f j =>
    match Run.flush j with
    | .ok () k => .error f k
    | .error g k => .error g k

/-- Execute a program in a new frame inside the globals. -/
def runFresh (p : Program) : Run Unit := do
  let frame ← Run.newFrame globals
  runIn frame p

/-- The frame that prompt inputs share, created when it is first needed. -/
def sharedFrame : Run FrameId := fun i =>
  match i.shared with
  | some frame => .ok frame i
  | none =>
    let frame := i.store.size
    .ok frame { i with store := i.store.grow (some globals), shared := some frame }

/-- Execute a program in the shared frame, so that its names stay declared. -/
def runShared (p : Program) : Run Unit := do
  let frame ← sharedFrame
  runIn frame p

end Interpreter

end PipeLang
