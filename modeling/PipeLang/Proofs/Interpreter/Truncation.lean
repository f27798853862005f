import PipeLang.Proofs.Interpreter.History
import PipeLang.Proofs.Interpreter.Machine

/-!
# A bounded output truncates

The same operation is performed on the same interpreter twice, with an output that takes
everything and with one that has room for so many bytes. Nothing that an interpreter does
depends on its output until a write fails, and nothing catches a failed write. So both do the
same while what is written has room, and the second ends with the sink's error at the first
byte that has none, however the first goes on (`Operation.bounded_output`).
-/

namespace PipeLang

/-- A sink that takes everything and holds `written`. -/
def Sink.free (written : ByteArray) : Sink := ⟨written, none, true⟩

/-- A sink that takes `room` more bytes and holds `written`. -/
def Sink.bounded (written : ByteArray) (room : Nat) : Sink := ⟨written, some room, true⟩

/-- The bytes are as many as there is room for, or more. -/
theorem extract_zero_of_size_le {bytes : ByteArray} {room : Nat} (h : bytes.size ≤ room) :
    bytes.extract 0 room = bytes := by
  rw [← ByteArray.extract_zero_size (b := bytes), ByteArray.extract_extract]
  congr 1
  omega

/-- The interpreter with another output. -/
def Interpreter.withOut (i : Interpreter) (out : Sink) : Interpreter := { i with out := out }

namespace Run

variable {α β : Type}

/-! ## The state of a result -/

/-- The same value or fault with a changed state. -/
def mapState (g : Interpreter → Interpreter) :
    EStateM.Result Fault Interpreter α → EStateM.Result Fault Interpreter α
  | .ok a i => .ok a (g i)
  | .error f i => .error f (g i)

/-- The same value or fault with another output. -/
def withOut (r : EStateM.Result Fault Interpreter α) (out : Sink) :
    EStateM.Result Fault Interpreter α :=
  mapState (·.withOut out) r

theorem mapState_withOut {g : Interpreter → Interpreter}
    (hg : ∀ i out, g (i.withOut out) = (g i).withOut out)
    (r : EStateM.Result Fault Interpreter α) (out : Sink) :
    mapState g (withOut r out) = withOut (mapState g r) out := by
  cases r with
  | ok a i => exact congrArg (EStateM.Result.ok a) (hg i out)
  | error f i => exact congrArg (EStateM.Result.error f) (hg i out)

theorem inFrame_eq (frame : FrameId) (x : Run α) (i : Interpreter) :
    inFrame frame x i = mapState (fun j => { j with current := i.current })
      (x { i with current := frame }) := by
  unfold inFrame
  cases x { i with current := frame } <;> rfl

theorem nested_eq (x : Run α) (i : Interpreter) :
    nested x i = mapState (fun j => { j with depth := j.depth - 1 })
      (x { i with depth := i.depth + 1 }) := by
  unfold nested
  cases x { i with depth := i.depth + 1 } <;> rfl

/-! ## Truncated results -/

/-- Two results of one step, the first with a sink that takes everything and held `w`, the
second with one that had `room` and held `w'` : they are the same when what was written
fits, and the second is the failure of a full sink when it does not. -/
inductive Truncates (w w' : ByteArray) (room : Nat) :
    EStateM.Result Fault Interpreter α → EStateM.Result Fault Interpreter α → Prop where
  | fits (bytes : ByteArray) (r : EStateM.Result Fault Interpreter α) : bytes.size ≤ room →
    Truncates w w' room (withOut r (.free (w ++ bytes)))
      (withOut r (.bounded (w' ++ bytes) (room - bytes.size)))
  | full (bytes : ByteArray) (r : EStateM.Result Fault Interpreter α) (j : Interpreter) :
    room < bytes.size →
    Truncates w w' room (withOut r (.free (w ++ bytes)))
      (.error (.output .full) (j.withOut (.bounded (w' ++ bytes.extract 0 room) 0)))

namespace Truncates

variable {w w' : ByteArray} {room : Nat} {r s : EStateM.Result Fault Interpreter α}

/-- With a sink that takes everything, something more has been written. -/
theorem left (h : Truncates w w' room r s) :
    ∃ bytes r', r = withOut r' (.free (w ++ bytes)) := by
  cases h with
  | fits bytes r' _ => exact ⟨bytes, r', rfl⟩
  | full bytes r' _ _ => exact ⟨bytes, r', rfl⟩

/-- A change of the state that does not look at the output. -/
theorem mapState {g : Interpreter → Interpreter}
    (hg : ∀ i out, g (i.withOut out) = (g i).withOut out) (h : Truncates w w' room r s) :
    Truncates w w' room (Run.mapState g r) (Run.mapState g s) := by
  cases h with
  | fits bytes r' hfits =>
    rw [mapState_withOut hg, mapState_withOut hg]
    exact .fits bytes _ hfits
  | full bytes r' j hfull =>
    rw [mapState_withOut hg, Run.mapState, hg]
    exact .full bytes _ (g j) hfull

/-- What was written before goes in front. -/
theorem behind {first : ByteArray} (hfirst : first.size ≤ room)
    (h : Truncates (w ++ first) (w' ++ first) (room - first.size) r s) :
    Truncates w w' room r s := by
  cases h with
  | fits bytes r' hfits =>
    have hsize : (first ++ bytes).size = first.size + bytes.size := ByteArray.size_append
    rw [ByteArray.append_assoc, ByteArray.append_assoc, Nat.sub_sub, ← hsize]
    exact .fits _ r' (by omega)
  | full bytes r' j hfull =>
    have hsize : (first ++ bytes).size = first.size + bytes.size := ByteArray.size_append
    have htaken : (first ++ bytes).extract 0 room =
        first ++ bytes.extract 0 (room - first.size) := by
      rw [ByteArray.extract_append, extract_zero_of_size_le hfirst, Nat.zero_sub]
    rw [ByteArray.append_assoc, ByteArray.append_assoc, ← htaken]
    exact .full _ r' j (by omega)

/-- Once the sink was full, what is written with the other one makes no difference. -/
theorem beyond {first : ByteArray} {j : Interpreter} (hfirst : room < first.size)
    {r' : EStateM.Result Fault Interpreter α} {bytes : ByteArray}
    (h : r = withOut r' (.free (w ++ first ++ bytes))) :
    Truncates w w' room r
      (.error (.output .full) (j.withOut (.bounded (w' ++ first.extract 0 room) 0))) := by
  have hsize : (first ++ bytes).size = first.size + bytes.size := ByteArray.size_append
  have htaken : (first ++ bytes).extract 0 room = first.extract 0 room := by
    rw [ByteArray.extract_append, Nat.sub_eq_zero_of_le (Nat.le_of_lt hfirst), Nat.zero_sub,
      ByteArray.extract_same, ByteArray.append_empty]
  rw [h, ByteArray.append_assoc, ← htaken]
  exact .full _ r' j (by omega)

end Truncates

/-! ## Truncated steps -/

/-- A bounded output truncates what the step writes. -/
def Truncated (x : Run α) : Prop := ∀ (i : Interpreter) (w w' : ByteArray) (room : Nat),
  Truncates w w' room (x (i.withOut (.free w))) (x (i.withOut (.bounded w' room)))

/-- The output plays no part in the step. -/
def Silent (x : Run α) : Prop := ∀ (i : Interpreter) (out : Sink),
  x (i.withOut out) = withOut (x i) out

theorem Silent.truncated {x : Run α} (hx : Silent x) : Truncated x := by
  intro i w w' room
  rw [hx, hx]
  have h : Truncates w w' room _ _ := .fits ByteArray.empty (x i) (Nat.zero_le room)
  simpa using h

theorem silent_read (name : Token) : Silent (read name) := by
  intro i out
  unfold read Interpreter.withOut
  cases i.store.read i.current name <;> rfl

theorem silent_declareIn (frame : FrameId) (name : Token) (b : Binding) :
    Silent (declareIn frame name b) := by
  intro i out
  unfold declareIn Interpreter.withOut
  cases i.store.declare frame name b <;> rfl

theorem silent_assign (name : Token) (v : Value) : Silent (assign name v) := by
  intro i out
  unfold assign Interpreter.withOut
  cases i.store.assign i.current name v <;> rfl

theorem silent_sharedFrame : Silent Interpreter.sharedFrame := by
  rintro ⟨store, current, shared, depth, old⟩ out
  cases shared <;> rfl

/-- The one step that looks at the output. -/
theorem truncated_print (v : Value) : Truncated (print v) := by
  intro i w w' room
  unfold print
  generalize (v.display ++ "\n").toUTF8 = bytes
  by_cases hfits : bytes.size ≤ room
  · have h : Truncates w w' room _ _ := .fits bytes (.ok () i) hfits
    simpa [Interpreter.withOut, Sink.free, Sink.bounded, Sink.fits, Sink.write, hfits,
      extract_zero_of_size_le hfits, withOut, mapState] using h
  · have hfull : room < bytes.size := Nat.lt_of_not_le hfits
    have h : Truncates w w' room _ _ := .full bytes (.ok () i) i hfull
    simpa [Interpreter.withOut, Sink.free, Sink.bounded, Sink.fits, Sink.write, hfits,
      Nat.sub_eq_zero_of_le (Nat.le_of_lt hfull), withOut, mapState] using h

theorem Truncated.bind {x : Run α} {k : α → Run β} (hx : Truncated x)
    (hk : ∀ a, Truncated (k a)) : Truncated (x >>= k) := by
  intro i w w' room
  have first := hx i w w' room
  simp only [Bind.bind, EStateM.bind]
  generalize x (i.withOut (.free w)) = r, x (i.withOut (.bounded w' room)) = s at first
  cases first with
  | fits bytes r' hfits =>
    cases r' with
    | ok a j => exact .behind hfits (hk a j _ _ _)
    | error f j => exact .fits bytes (.error f j) hfits
  | full bytes r' j' hfull =>
    cases r' with
    | ok a j =>
      -- with no room left : only that the other run goes on writing
      obtain ⟨more, r'', hr⟩ := (hk a j (w ++ bytes) w' 0).left
      exact .beyond hfull hr
    | error f j => exact .full bytes (.error f j) j' hfull

theorem Truncated.thenFlush {x : Run Value} (hx : Truncated x) : Truncated (thenFlush x) := by
  intro i w w' room
  have first := hx i w w' room
  unfold Run.thenFlush
  generalize x (i.withOut (.free w)) = r, x (i.withOut (.bounded w' room)) = s at first
  cases first with
  | fits bytes r' hfits =>
    cases r' with
    | ok v j => exact .fits bytes (.ok () j) hfits
    | error f j => exact .fits bytes (.error f j) hfits
  | full bytes r' j' hfull =>
    cases r' with
    | ok v j => exact .full bytes (.ok () j) j' hfull
    | error f j => exact .full bytes (.error f j) j' hfull

theorem hereditary_truncated : Hereditary Truncated where
  pure _ := Silent.truncated fun _ _ => rfl
  throw _ := Silent.truncated fun _ _ => rfl
  bind := Truncated.bind
  read name := (silent_read name).truncated
  declareIn frame name b := (silent_declareIn frame name b).truncated
  assign name v := (silent_assign name v).truncated
  newFrame _ := Silent.truncated fun _ _ => rfl
  current := Silent.truncated fun _ _ => rfl
  print := truncated_print
  inFrame frame x hx i w w' room := by
    rw [inFrame_eq, inFrame_eq]
    exact (hx { i with current := frame } w w' room).mapState fun _ _ => rfl
  nested hx i w w' room := by
    rw [nested_eq, nested_eq]
    exact (hx { i with depth := i.depth + 1 } w w' room).mapState fun _ _ => rfl
  atDepth hk i := hk i.depth i
  sharedFrame := silent_sharedFrame.truncated
  thenFlush := Truncated.thenFlush

end Run

/-! ## Operations -/

/-- What an operation writes to an output that takes everything, it writes to one that has
`room`, up to the byte that has none. When everything has room, the result and the state are
the same, but for the output; when it has not, the result is the failure of a full sink,
whatever the result would have been. -/
theorem Operation.bounded_output (op : Operation) (i : Interpreter) (w w' : ByteArray)
    (room : Nat) :
    ∃ bytes r, op.perform (i.withOut (.free w)) = Run.withOut r (.free (w ++ bytes)) ∧
      (op.perform.after (i.withOut (.bounded w' room))).out.written =
        w' ++ bytes.extract 0 (min room bytes.size) ∧
      (bytes.size ≤ room → op.perform (i.withOut (.bounded w' room)) =
        Run.withOut r (.bounded (w' ++ bytes) (room - bytes.size))) ∧
      (room < bytes.size → ∃ j,
        op.perform (i.withOut (.bounded w' room)) = .error (.output .full) j) := by
  have htruncated := Run.hereditary_truncated.perform op i w w' room
  unfold Run.after
  generalize op.perform (i.withOut (.free w)) = r,
    op.perform (i.withOut (.bounded w' room)) = s at htruncated
  cases htruncated with
  | fits bytes r' hfits =>
    refine ⟨bytes, r', rfl, ?_, fun _ => rfl, fun hfull => absurd hfits (Nat.not_le_of_lt hfull)⟩
    rw [Nat.min_eq_right hfits, ByteArray.extract_zero_size]
    cases r' <;> rfl
  | full bytes r' j hfull =>
    refine ⟨bytes, r', rfl, ?_, fun hfits => absurd hfits (Nat.not_le_of_lt hfull),
      fun _ => ⟨_, rfl⟩⟩
    rw [Nat.min_eq_left (Nat.le_of_lt hfull)]
    rfl

end PipeLang
