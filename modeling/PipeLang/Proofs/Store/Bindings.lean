import PipeLang.Store

/-!
# What the operations on frames change

Each operation is described by what frames hold afterwards : `Store.frames_grow`,
`Store.frames_bind` and `Store.frames_write`. A declaration succeeds exactly where the name
is new (`Store.declare_eq_ok_iff`), an assignment exactly where the nearest declaration is
mutable (`Store.assign_eq_ok_iff`).

`Store.Keeps` relates a store to a later one : frames, links, names and flags stay, and so
do the values of immutable names. Every operation respects it.
-/

namespace PipeLang

/-! ## One frame -/

namespace Frame

variable (f : Frame) (name x : String) (b : Binding) (v : Value)

/-- The last name that was bound is found first. -/
theorem binding?_bind :
    (f.bind name b).binding? x = if x = name then some b else f.binding? x := by
  by_cases h : x = name
  · simp [binding?, bind, h]
  · simp [binding?, bind, List.lookup_cons, h, beq_eq_false_iff_ne.2 h]

/-- Writing changes the value of one name, and keeps its flag. -/
theorem binding?_write :
    (f.write name v).binding? x =
      (f.binding? x).map fun b => if x = name then { b with value := v } else b := by
  unfold binding? write
  induction f.bindings with
  | nil => rfl
  | cons p bindings ih =>
    obtain ⟨n, b⟩ := p
    rw [List.map_cons, List.lookup_cons]
    by_cases hn : n = name <;> by_cases hx : x = n
    · simp [← hn, hx]
    · simpa [List.lookup_cons, hn, hx, beq_eq_false_iff_ne.2 (hn ▸ hx)] using ih
    · simp [hx, hn]
    · simpa [List.lookup_cons, hn, hx, beq_eq_false_iff_ne.2 hx] using ih

end Frame

/-! ## All frames -/

namespace Store

variable (s : Store) (a frame : FrameId) (name x : String) (b : Binding) (v : Value)

@[simp] theorem size_grow (enclosing : Option FrameId) :
    (s.grow enclosing).size = s.size + 1 := by
  simp [size, grow]

@[simp] theorem size_bind : (s.bind frame name b).size = s.size := by
  simp [size, bind]

@[simp] theorem size_write : (s.write frame name v).size = s.size := by
  simp [size, write]

theorem frames_eq_none_iff : s.frames[a]? = none ↔ s.size ≤ a := by
  simp [size]

theorem lt_size_of_frames {f : Frame} (h : s.frames[a]? = some f) : a < s.size := by
  obtain ⟨ha, -⟩ := Array.getElem?_eq_some_iff.1 h
  exact ha

/-- A new frame is the last one, and empty. -/
theorem frames_grow (enclosing : Option FrameId) :
    (s.grow enclosing).frames[a]? =
      if a = s.size then some ⟨enclosing, []⟩ else s.frames[a]? := by
  rw [grow, Array.getElem?_push]
  rfl

/-- Binding a name changes one frame. -/
theorem frames_bind :
    (s.bind frame name b).frames[a]? =
      if a = frame then s.frames[a]?.map (·.bind name b) else s.frames[a]? := by
  simp [bind, Array.getElem?_modify, eq_comm]

/-- So does writing a value. -/
theorem frames_write :
    (s.write frame name v).frames[a]? =
      if a = frame then s.frames[a]?.map (·.write name v) else s.frames[a]? := by
  simp [write, Array.getElem?_modify, eq_comm]

theorem binding?_eq_some_iff :
    s.binding? a x = some b ↔ ∃ f, s.frames[a]? = some f ∧ f.binding? x = some b := by
  rw [binding?, Option.bind_eq_some_iff]

theorem binding?_grow (enclosing : Option FrameId) :
    (s.grow enclosing).binding? a x = s.binding? a x := by
  unfold binding?
  rw [frames_grow]
  split
  · next h =>
    rw [(s.frames_eq_none_iff a).2 (Nat.le_of_eq h.symm)]
    rfl
  · rfl

/-- In a frame that is not there nothing is bound. -/
theorem binding?_bind :
    (s.bind frame name b).binding? a x =
      if a = frame ∧ x = name ∧ a < s.size then some b else s.binding? a x := by
  unfold binding?
  rw [frames_bind]
  by_cases ha : a = frame
  · cases hf : s.frames[a]? with
    | none =>
      have hsize := (s.frames_eq_none_iff a).1 hf
      simp [ha, Nat.not_lt.2 (ha ▸ hsize)]
    | some f =>
      have hsize := s.lt_size_of_frames a hf
      simp [ha, Frame.binding?_bind, ha ▸ hsize]
  · simp [ha]

theorem binding?_write :
    (s.write frame name v).binding? a x =
      (s.binding? a x).map fun b => if a = frame ∧ x = name then { b with value := v } else b := by
  unfold binding?
  rw [frames_write]
  by_cases ha : a = frame
  · cases s.frames[a]? with
    | none => simp [ha]
    | some f => simp [ha, Frame.binding?_write]
  · cases s.frames[a]? <;> simp [ha]

/-! ## Single operations -/

/-- The nearest declaration stands in the frame that owns it. -/
theorem binding?_of_find? {s : Store} {a owner : FrameId} {x : String} {b : Binding}
    (h : s.find? a x = some (owner, b)) : s.binding? owner x = some b := by
  fun_induction find? s a x with
  | case1 => cases h
  | case2 a f hf c hc =>
    obtain ⟨rfl, rfl⟩ := Prod.mk.inj (Option.some.inj h)
    exact (s.binding?_eq_some_iff a x c).2 ⟨f, hf, hc⟩
  | case3 _ _ _ _ _ _ _ ih => exact ih h
  | case4 => cases h
  | case5 => cases h

variable {s} {t : Store} {name : Token}

/-- A name is declared unless the frame has it already. -/
theorem declare_eq_ok_iff :
    s.declare frame name b = .ok t ↔
      s.binding? frame name.lexeme = none ∧ t = s.bind frame name.lexeme b := by
  unfold declare
  cases s.binding? frame name.lexeme <;> simp [eq_comm]

/-- An assignment succeeds when the nearest declaration of the name is mutable, and that is where
it writes. -/
theorem assign_eq_ok_iff :
    s.assign frame name v = .ok t ↔
      ∃ owner b, s.find? frame name.lexeme = some (owner, b) ∧ b.mutable = true ∧
        t = s.write owner name.lexeme v := by
  unfold assign
  cases s.find? frame name.lexeme with
  | none => simp
  | some p =>
    obtain ⟨owner, b⟩ := p
    dsimp only
    constructor
    · intro h
      split at h
      · next hb => exact ⟨owner, b, rfl, hb, (Except.ok.inj h).symm⟩
      · cases h
    · rintro ⟨_, _, ⟨⟩, hb, rfl⟩
      rw [if_pos hb]

/-! ## Later stores -/

/-- In the later store `t` every frame of `s` is there with its link, every name that it
held with its flag, and every immutable one with its value. -/
structure Keeps (s t : Store) : Prop where
  enclosing : ∀ (a : FrameId) (f : Frame), s.frames[a]? = some f →
    ∃ g : Frame, t.frames[a]? = some g ∧ g.enclosing = f.enclosing
  binding : ∀ (a : FrameId) (x : String) (b : Binding), s.binding? a x = some b →
    ∃ c, t.binding? a x = some c ∧ c.mutable = b.mutable ∧
      (b.mutable = false → c.value = b.value)

namespace Keeps

theorem refl (s : Store) : s.Keeps s where
  enclosing _ f h := ⟨f, h, rfl⟩
  binding _ _ b h := ⟨b, h, rfl, fun _ => rfl⟩

/-- Permanence over two stretches of time. -/
theorem trans {s t u : Store} (h : s.Keeps t) (h' : t.Keeps u) : s.Keeps u where
  enclosing a f hf := by
    obtain ⟨g, hg, hfg⟩ := h.enclosing a f hf
    obtain ⟨k, hk, hgk⟩ := h'.enclosing a g hg
    exact ⟨k, hk, hgk.trans hfg⟩
  binding a x b hb := by
    obtain ⟨c, hc, hflag, hvalue⟩ := h.binding a x b hb
    obtain ⟨d, hd, hflag', hvalue'⟩ := h'.binding a x c hc
    exact ⟨d, hd, hflag'.trans hflag,
      fun hb => (hvalue' (hflag.trans hb)).trans (hvalue hb)⟩

theorem grow (s : Store) (enclosing : Option FrameId) : s.Keeps (s.grow enclosing) where
  enclosing a f hf := by
    refine ⟨f, ?_, rfl⟩
    rw [frames_grow, if_neg (Nat.ne_of_lt (s.lt_size_of_frames a hf))]
    exact hf
  binding a x b hb := ⟨b, by rw [binding?_grow, hb], rfl, fun _ => rfl⟩

/-- A name that is new hides no other. -/
theorem bind {frame : FrameId} {x : String} (b : Binding)
    (hnew : s.binding? frame x = none) : s.Keeps (s.bind frame x b) where
  enclosing a f hf := by
    rw [frames_bind]
    split
    · exact ⟨f.bind x b, by rw [hf, Option.map_some], rfl⟩
    · exact ⟨f, hf, rfl⟩
  binding a y c hc := by
    have hold : ¬(a = frame ∧ y = x ∧ a < s.size) := by
      rintro ⟨rfl, rfl, -⟩
      rw [hnew] at hc
      cases hc
    exact ⟨c, by rw [binding?_bind, if_neg hold, hc], rfl, fun _ => rfl⟩

/-- What is written is mutable. -/
theorem write {owner : FrameId} {x : String} {b : Binding} (v : Value)
    (hb : s.binding? owner x = some b) (hmutable : b.mutable = true) :
    s.Keeps (s.write owner x v) where
  enclosing a f hf := by
    rw [frames_write]
    split
    · exact ⟨f.write x v, by rw [hf, Option.map_some], rfl⟩
    · exact ⟨f, hf, rfl⟩
  binding a y c hc := by
    rw [binding?_write, hc]
    refine ⟨_, rfl, ?_⟩
    split
    · next h =>
      obtain ⟨rfl, rfl⟩ := h
      obtain rfl : b = c := Option.some.inj (hb.symm.trans hc)
      exact ⟨rfl, fun himmutable => absurd (hmutable.symm.trans himmutable) (by decide)⟩
    · exact ⟨rfl, fun _ => rfl⟩

/-- A new name hides no old one in its own frame. -/
theorem declare {frame : FrameId} {b : Binding} (h : s.declare frame name b = .ok t) :
    s.Keeps t := by
  obtain ⟨hnew, rfl⟩ := (declare_eq_ok_iff frame b).1 h
  exact .bind b hnew

/-- Only mutable names are written to. -/
theorem assign {frame : FrameId} {v : Value} (h : s.assign frame name v = .ok t) :
    s.Keeps t := by
  obtain ⟨owner, b, hfind, hmutable, rfl⟩ := (assign_eq_ok_iff frame v).1 h
  exact .write v (binding?_of_find? hfind) hmutable

end Keeps

end Store

end PipeLang
