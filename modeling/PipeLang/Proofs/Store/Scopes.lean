import PipeLang.Proofs.Store.WellFormed

/-!
# Which names a frame holds

The flags of a frame are its names, each with whether it is mutable. `Store.Extends` relates a
store to a later one in which one frame holds given names more, every other frame of the
earlier store holds the names it held, and what `Store.Keeps` says is kept. Frames that are
created meanwhile may hold anything.

A name that is found immutable stays what it is, as long as no frame that was there gets
names (`Store.Extends.find?`) : its owner keeps it, and no frame on the way to the owner
declares it.
-/

namespace PipeLang

/-! ## Flags -/

/-- The names of the frame with whether they are mutable, the latest first. -/
def Frame.flags (f : Frame) : List (String × Bool) := f.bindings.map fun (x, b) => (x, b.mutable)

namespace Frame

variable (f : Frame) (x : String) (b : Binding) (v : Value)

@[simp] theorem flags_bind : (f.bind x b).flags = (x, b.mutable) :: f.flags := rfl

@[simp] theorem flags_write : (f.write x v).flags = f.flags := by
  rw [flags, write, flags, List.map_map]
  refine List.map_congr_left fun entry _ => ?_
  dsimp only [Function.comp]
  split <;> rfl

/-- The names of a frame are those that it has flags of. -/
theorem names_eq_flags : f.names = f.flags.map Prod.fst := by
  rw [names, flags, List.map_map]
  rfl

/-- A name is bound in a frame if it has a flag there. -/
theorem isSome_binding?_iff : (f.binding? x).isSome ↔ x ∈ f.flags.map Prod.fst := by
  rw [← names_eq_flags, ← not_iff_not, Bool.not_eq_true, Option.isSome_eq_false_iff,
    Option.isNone_iff_eq_none, binding?_eq_none_iff]

end Frame

namespace Store

/-- The flags of a frame, and none for a frame that is not there. -/
def flags (s : Store) (a : FrameId) : List (String × Bool) :=
  (s.frames[a]?.map Frame.flags).getD []

variable {s t u : Store} {a c : FrameId} {x : String}

/-- The same for a frame of a store, also for one that is not there. -/
theorem isSome_binding?_iff : (s.binding? a x).isSome ↔ x ∈ (s.flags a).map Prod.fst := by
  unfold binding? flags
  cases s.frames[a]? with
  | none => simp
  | some f => exact f.isSome_binding?_iff x

/-- A new frame binds nothing, and the other frames bind what they bound. -/
theorem flags_grow (enclosing : Option FrameId) : (s.grow enclosing).flags a = s.flags a := by
  unfold flags
  rw [frames_grow]
  split
  · next h =>
    rw [(s.frames_eq_none_iff a).2 (Nat.le_of_eq h.symm)]
    rfl
  · rfl

theorem flags_bind (b : Binding) (ha : a < s.size) :
    (s.bind c x b).flags a = (if a = c then [(x, b.mutable)] else []) ++ s.flags a := by
  unfold flags
  rw [frames_bind]
  cases hf : s.frames[a]? with
  | none => exact absurd ha (Nat.not_lt.2 ((s.frames_eq_none_iff a).1 hf))
  | some f => split <;> rfl

/-- Another value leaves the names and their flags as they are. -/
theorem flags_write (v : Value) : (s.write c x v).flags a = s.flags a := by
  unfold flags
  rw [frames_write]
  split
  · cases s.frames[a]? with
    | none => rfl
    | some f => exact f.flags_write x v
  · rfl

/-- An assignment declares nothing, wherever its name is found. -/
theorem flags_assign {name : Token} {v : Value} (h : s.assign c name v = .ok t) :
    t.flags a = s.flags a := by
  obtain ⟨owner, b, -, -, rfl⟩ := (assign_eq_ok_iff c v).1 h
  exact flags_write v

/-! ## Stores with names more -/

/-- Frames are never removed. -/
theorem Keeps.size_le (h : s.Keeps t) : s.size ≤ t.size := by
  by_contra hlt
  have hsize : t.size < s.size := Nat.not_le.1 hlt
  obtain ⟨g, hg, -⟩ := h.enclosing t.size _ (Array.getElem?_eq_getElem hsize)
  exact absurd (t.lt_size_of_frames t.size hg) (Nat.lt_irrefl _)

/-- The later store `t` keeps what the frames of `s` hold, and they hold no other names, but
for those `added` to the frame `a`. -/
structure Extends (s t : Store) (a : FrameId) (added : List (String × Bool)) : Prop
    extends s.Keeps t where
  flags_eq : ∀ c < s.size, t.flags c = (if c = a then added else []) ++ s.flags c

namespace Extends

variable {added : List (String × Bool)}

/-- A store extends itself by no name. -/
theorem refl (s : Store) (a : FrameId) : s.Extends s a [] where
  toKeeps := .refl s
  flags_eq c _ := by rw [ite_self, List.nil_append]

/-- Nothing is added, to whatever frame. -/
theorem flags_same (h : s.Extends t a []) (hc : c < s.size) : t.flags c = s.flags c := by
  rw [h.flags_eq c hc, ite_self, List.nil_append]

/-- What added no name may come before. -/
theorem trans (h : s.Extends t a []) (h' : t.Extends u a added) : s.Extends u a added where
  toKeeps := h.toKeeps.trans h'.toKeeps
  flags_eq c hc := by
    rw [h'.flags_eq c (Nat.lt_of_lt_of_le hc h.toKeeps.size_le), h.flags_same hc]

/-- A new frame is no frame of the earlier store, so nothing is said about its names. -/
theorem grow (h : s.Extends t a added) (enclosing : Option FrameId) :
    s.Extends (t.grow enclosing) a added where
  toKeeps := h.toKeeps.trans (.grow t enclosing)
  flags_eq c hc := by rw [flags_grow, h.flags_eq c hc]

/-- An assignment adds no name. -/
theorem assign {name : Token} {v : Value} (h : s.Extends t a added)
    (ht : t.assign c name v = .ok u) : s.Extends u a added where
  toKeeps := h.toKeeps.trans (.assign ht)
  flags_eq d hd := by rw [flags_assign ht, h.flags_eq d hd]

/-- A frame that is new may get names. -/
theorem declare_new {name : Token} {b : Binding} (h : s.Extends t a added) (hc : s.size ≤ c)
    (ht : t.declare c name b = .ok u) : s.Extends u a added where
  toKeeps := h.toKeeps.trans (.declare ht)
  flags_eq d hd := by
    obtain ⟨-, rfl⟩ := (declare_eq_ok_iff c b).1 ht
    have hne : d ≠ c := Nat.ne_of_lt (Nat.lt_of_lt_of_le hd hc)
    rw [flags_bind b (Nat.lt_of_lt_of_le hd h.toKeeps.size_le), if_neg hne, List.nil_append,
      h.flags_eq d hd]

/-- One name more in the frame itself. -/
theorem declare {name : Token} {b : Binding} (h : s.Extends t a added)
    (ht : t.declare a name b = .ok u) :
    s.Extends u a ((name.lexeme, b.mutable) :: added) where
  toKeeps := h.toKeeps.trans (.declare ht)
  flags_eq c hc := by
    obtain ⟨-, rfl⟩ := (declare_eq_ok_iff a b).1 ht
    rw [flags_bind b (Nat.lt_of_lt_of_le hc h.toKeeps.size_le), h.flags_eq c hc]
    split <;> rfl

/-- Where no name is added, the earlier frames bind the same names. -/
theorem isSome_binding? (h : s.Extends t a []) (hc : c < s.size) (x : String) :
    (t.binding? c x).isSome = (s.binding? c x).isSome := by
  rw [Bool.eq_iff_iff, isSome_binding?_iff, isSome_binding?_iff, h.flags_same hc]

/-- An immutable binding is what it was. -/
theorem binding?_immutable (h : s.Extends t a []) {b : Binding}
    (hc : s.binding? c x = some b) (hb : b.mutable = false) : t.binding? c x = some b := by
  obtain ⟨⟨flag, v⟩, hd, rfl, hvalue⟩ := h.binding c x b hc
  obtain rfl : v = b.value := hvalue hb
  exact hd

/-- The owner of an immutable name keeps it with its value, and nothing hides it. -/
theorem find? (h : s.Extends t a []) {owner : FrameId} {b : Binding}
    (hfind : s.find? c x = some (owner, b)) (hb : b.mutable = false) :
    t.find? c x = some (owner, b) := by
  fun_induction s.find? c x with
  | case1 => cases hfind
  | case2 c f hf d hd =>
    obtain ⟨rfl, rfl⟩ := Prod.mk.inj (Option.some.inj hfind)
    have hbinding := (s.binding?_eq_some_iff c x d).2 ⟨f, hf, hd⟩
    obtain ⟨g, hg, hgd⟩ :=
      (t.binding?_eq_some_iff c x d).1 (h.binding?_immutable hbinding hb)
    rw [Store.find?, hg]
    simp only [hgd]
  | case3 c f hf outer houter hnone hlt ih =>
    obtain ⟨g, hg, hlink⟩ := h.enclosing c f hf
    have hgnone : g.binding? x = none := by
      have hsame := h.isSome_binding? (s.lt_size_of_frames c hf) x
      simpa [Store.binding?, hf, hg, hnone] using hsame
    rw [Store.find?, hg]
    simp only [hgnone, hlink, houter, if_pos hlt]
    exact ih hfind
  | case4 => cases hfind
  | case5 => cases hfind

end Extends

end Store

end PipeLang
