import PipeLang.Interpreter.Operators
import PipeLang.Store

/-!
# The state of an interpreter

An interpreter holds the frames, the current frame, the frame that prompt inputs share once
there is one, the number of calls under way, and the output. A step (`Run`) changes the
state and may end with a fault; the state is kept then too.

`inFrame` and `nested` change the current frame and the depth for the time of a step, and
change them back whether or not the step fails.
-/

namespace PipeLang

/-- The state of an interpreter. -/
structure Interpreter where
  store : Store
  current : FrameId
  shared : Option FrameId
  depth : Nat
  out : Sink

/-- A step that may fail. -/
abbrev Run := EStateM Fault Interpreter

namespace Interpreter

/-- The frame that holds the builtins. -/
def globals : FrameId := 0

/-- The builtins. -/
def builtins : List Builtin := [.log]

/-- A store that holds the builtins alone. -/
def initialStore : Store :=
  builtins.foldl (fun s b => s.bind globals b.name ⟨false, .builtin b⟩) (Store.empty.grow none)

/-- An interpreter that has run nothing yet. -/
def new (out : Sink) : Interpreter := ⟨initialStore, globals, none, 0, out⟩

end Interpreter

namespace Run

/-- The result of an operation without effects. -/
@[inline] def ofExcept {α : Type} (r : Except Fault α) : Run α := fun i =>
  match r with
  | .ok a => .ok a i
  | .error f => .error f i

/-! ## Names -/

/-- The value of a name in the current frame. -/
def read (name : Token) : Run Value := fun i =>
  match i.store.read i.current name with
  | .ok v => .ok v i
  | .error f => .error f i

/-- Declare a name in a frame. -/
def declareIn (frame : FrameId) (name : Token) (b : Binding) : Run Unit := fun i =>
  match i.store.declare frame name b with
  | .ok store => .ok () { i with store := store }
  | .error f => .error f i

/-- Declare a name in the current frame. -/
def declare (name : Token) (b : Binding) : Run Unit := fun i =>
  declareIn i.current name b i

/-- Give a name another value. -/
def assign (name : Token) (v : Value) : Run Unit := fun i =>
  match i.store.assign i.current name v with
  | .ok store => .ok () { i with store := store }
  | .error f => .error f i

/-! ## Frames -/

/-- Create a frame inside `enclosing`. -/
def newFrame (enclosing : FrameId) : Run FrameId := fun i =>
  .ok i.store.size { i with store := i.store.grow (some enclosing) }

/-- The number of the current frame. -/
def current : Run FrameId := fun i => .ok i.current i

/-- Take the step with `frame` as the current frame. -/
@[inline] def inFrame {α : Type} (frame : FrameId) (step : Run α) : Run α := fun i =>
  let outer := i.current
  match step { i with current := frame } with
  | .ok a j => .ok a { j with current := outer }
  | .error f j => .error f { j with current := outer }

/-- Take the step in a new frame inside the current one. -/
@[inline] def inChild {α : Type} (step : Run α) : Run α := do
  let frame ← newFrame (← current)
  inFrame frame step

/-- Take the step as one more call under way. -/
@[inline] def nested {α : Type} (step : Run α) : Run α := fun i =>
  match step { i with depth := i.depth + 1 } with
  | .ok a j => .ok a { j with depth := j.depth - 1 }
  | .error f j => .error f { j with depth := j.depth - 1 }

/-! ## Output -/

/-- Write a value on a line of its own. -/
def print (v : Value) : Run Unit := fun i =>
  let bytes := (v.display ++ "\n").toUTF8
  let fits := i.out.fits bytes
  let j := { i with out := i.out.write bytes }
  if fits then .ok () j else .error (.output .full) j

/-- Write values, each on a line of its own. -/
def printAll : List Value → Run Unit
  | [] => pure ()
  | v :: vs => do
    print v
    printAll vs

/-- Flush the output. -/
def flush : Run Unit := fun i =>
  match i.out.flush with
  | .ok () => .ok () i
  | .error e => .error (.output e) i

end Run

end PipeLang
