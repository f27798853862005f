import PipeLang.Fault

/-!
# Frames of names

A store is a growing list of frames. A frame holds the names that one block, call or program
has declared, and points to the frame around it, which was created before. A name is looked
for in a frame, then in the frames around it, and the first that declares it owns it
(`Store.find?`).

* `Store.declare` adds a name to one frame, which must not hold it yet;
* `Store.read` gives the value of the nearest declaration;
* `Store.assign` replaces that value, if the declaration is mutable.

No operation removes a name, changes whether it is mutable, or moves a frame.
-/

namespace PipeLang

/-- What a frame knows about a name. -/
structure Binding where
  mutable : Bool
  value : Value

/-- The names declared in one place, the latest first, and the frame around it. -/
structure Frame where
  enclosing : Option FrameId
  bindings : List (String × Binding)

namespace Frame

/-- What the frame itself knows about a name. -/
def binding? (f : Frame) (name : String) : Option Binding := f.bindings.lookup name

/-- The frame with one more name. -/
def bind (f : Frame) (name : String) (b : Binding) : Frame :=
  { f with bindings := (name, b) :: f.bindings }

/-- The frame with another value for a name. -/
def write (f : Frame) (name : String) (v : Value) : Frame :=
  { f with bindings := f.bindings.map fun (n, b) =>
      if n = name then (n, { b with value := v }) else (n, b) }

end Frame

/-- All frames, each at the place of its number. -/
structure Store where
  frames : Array Frame

namespace Store

/-- No frames. -/
def empty : Store := ⟨#[]⟩

/-- How many frames there are, which is the number of the next one. -/
def size (s : Store) : Nat := s.frames.size

/-- The store with one more frame. -/
def grow (s : Store) (enclosing : Option FrameId) : Store :=
  ⟨s.frames.push ⟨enclosing, []⟩⟩

/-- What a frame itself knows about a name. -/
def binding? (s : Store) (frame : FrameId) (name : String) : Option Binding :=
  s.frames[frame]?.bind (·.binding? name)

/-- The nearest declaration of a name and the frame that owns it. A frame around another one
has a smaller number, so the search ends. -/
def find? (s : Store) (frame : FrameId) (name : String) : Option (FrameId × Binding) :=
  match s.frames[frame]? with
  | none => none
  | some f =>
    match f.binding? name, f.enclosing with
    | some b, _ => some (frame, b)
    | none, some outer => if outer < frame then s.find? outer name else none
    | none, none => none
termination_by frame

/-- One more name in a frame. -/
def bind (s : Store) (frame : FrameId) (name : String) (b : Binding) : Store :=
  ⟨s.frames.modify frame (·.bind name b)⟩

/-- Another value for a name of a frame. -/
def write (s : Store) (frame : FrameId) (name : String) (v : Value) : Store :=
  ⟨s.frames.modify frame (·.write name v)⟩

/-- Declare a name in a frame, where it must be new. -/
@[inline] def declare (s : Store) (frame : FrameId) (name : Token) (b : Binding) :
    Except Fault Store :=
  if (s.binding? frame name.lexeme).isSome then .error (.redeclared name)
  else .ok (s.bind frame name.lexeme b)

/-- The value of a name as seen from a frame. -/
def read (s : Store) (frame : FrameId) (name : Token) : Except Fault Value :=
  match s.find? frame name.lexeme with
  | none => .error (.undefined name)
  | some (_, b) => .ok b.value

/-- Give a name another value, as seen from a frame. -/
@[inline] def assign (s : Store) (frame : FrameId) (name : Token) (v : Value) :
    Except Fault Store :=
  match s.find? frame name.lexeme with
  | none => .error (.undefined name)
  | some (owner, b) =>
    if b.mutable then .ok (s.write owner name.lexeme v) else .error (.immutable name)

end Store

end PipeLang
