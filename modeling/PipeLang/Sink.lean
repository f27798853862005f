/-!
# Sinks

A sink takes bytes. It may have room for so many only, and it may refuse to be flushed.
`Sink.write` takes what fits; the write has failed when something did not (`Sink.fits`).
-/

namespace PipeLang

/-- Why a sink failed. -/
inductive SinkError where
  | full
  | flushRefused
deriving DecidableEq

/-- The text of a sink's failure. -/
def SinkError.text : SinkError → String
  | full => "sink full"
  | flushRefused => "flush refused"

/-- The bytes taken so far, how many more are taken (`none` : any number), and whether
flushing works. -/
structure Sink where
  written : ByteArray
  room : Option Nat
  flushes : Bool

namespace Sink

/-- An empty sink that takes everything. -/
def unlimited : Sink := ⟨.empty, none, true⟩

/-- An empty sink that takes `room` bytes, or everything. -/
def ofRoom (room : Option Nat) (flushes : Bool) : Sink := ⟨.empty, room, flushes⟩

/-- All the bytes are taken. -/
def fits (s : Sink) (bytes : ByteArray) : Bool :=
  match s.room with
  | none => true
  | some room => bytes.size ≤ room

/-- Take the bytes, as many as there is room for. -/
def write (s : Sink) (bytes : ByteArray) : Sink :=
  match s.room with
  | none => { s with written := s.written ++ bytes }
  | some room =>
    { s with written := s.written ++ bytes.extract 0 room, room := some (room - bytes.size) }

/-- What a flush answers. -/
def flush (s : Sink) : Except SinkError Unit :=
  if s.flushes then .ok () else .error .flushRefused

/-- The bytes taken so far, and the sink without them. -/
def drain (s : Sink) : ByteArray × Sink := (s.written, { s with written := .empty })

end Sink

end PipeLang
