import PipeLang.Proofs.Interpreter.Simulation
import PipeLang.Proofs.Sink

/-!
# Runs whose frames correspond

A `Correspondence` says which frames and which tokens of two runs stand for one another; the
frames have to be created in the same order. Two runs that begin in states with
corresponding frames, the same depth and sinks with the same room simulate each other
(`Correspondence.simulation`). They write the same and create frames in pairs, and whatever
corresponds to nothing on the other side is left as it was.

Two correspondences serve : frames of the same number (`Correspondence.equal`), and frames
that both runs had in common at first together with the frames that they create, one after
the other (`Correspondence.common`).
-/

namespace PipeLang

/-! ## Correspondences -/

/-- Which frames and which tokens of two runs stand for one another. -/
structure Correspondence where
  frame : FrameId → FrameId → Prop
  token : Token → Token → Prop
  ordered : Ordered frame
  lines : LinesOnly token

namespace Correspondence

variable (C : Correspondence)

/-- States of two runs that began in `i₀` and `j₀`. -/
structure Memory (i₀ j₀ i j : Interpreter) : Prop where
  depth_eq : j.depth = i.depth
  /-- The frames to be created correspond, the next ones and all behind. -/
  next : ∀ k, C.frame (i.store.size + k) (j.store.size + k)
  store : i.store.Similar C.frame C.token j.store
  left : i₀.store.SameOutside (fun a => ∃ b, C.frame a b) i.store
  right : j₀.store.SameOutside (fun b => ∃ a, C.frame a b) j.store
  out : Sink.InStep i₀.out j₀.out i.out j.out

namespace Memory

variable {C} {i₀ j₀ i j : Interpreter} {a b : FrameId} {t u : Token} {p q : Binding}
  {v w : Value}

/-- The new frames correspond, as they are the next ones on both sides. -/
theorem grow (h : C.Memory i₀ j₀ i j) (hab : C.frame a b) :
    C.frame i.store.size j.store.size ∧
      C.Memory i₀ j₀ { i with store := i.store.grow (some a) }
        { j with store := j.store.grow (some b) } := by
  have hnew : C.frame i.store.size j.store.size := h.next 0
  refine ⟨hnew, h.depth_eq, fun k => ?_, h.store.grow C.ordered hnew hab,
    h.left.grow ⟨_, hnew⟩ _, h.right.grow ⟨_, hnew⟩ _, h.out⟩
  rw [Store.size_grow, Store.size_grow, Nat.add_assoc, Nat.add_assoc]
  exact h.next (1 + k)

/-- One more name in corresponding frames. -/
theorem bind (h : C.Memory i₀ j₀ i j) (hab : C.frame a b) (x : String)
    (hpq : p.Similar C.frame C.token q) :
    C.Memory i₀ j₀ { i with store := i.store.bind a x p }
      { j with store := j.store.bind b x q } where
  depth_eq := h.depth_eq
  next k := by
    rw [Store.size_bind, Store.size_bind]
    exact h.next k
  store := h.store.bind C.ordered hab x hpq
  left := h.left.bind ⟨b, hab⟩
  right := h.right.bind ⟨a, hab⟩
  out := h.out

/-- Another value there. -/
theorem write (h : C.Memory i₀ j₀ i j) (hab : C.frame a b) (x : String)
    (hvw : v.Similar C.frame C.token w) :
    C.Memory i₀ j₀ { i with store := i.store.write a x v }
      { j with store := j.store.write b x w } where
  depth_eq := h.depth_eq
  next k := by
    rw [Store.size_write, Store.size_write]
    exact h.next k
  store := h.store.write C.ordered hab x hvw
  left := h.left.write ⟨b, hab⟩
  right := h.right.write ⟨a, hab⟩
  out := h.out

/-- Both declarations succeed, or the name is taken on both sides. -/
theorem declare (h : C.Memory i₀ j₀ i j) (hab : C.frame a b) (htu : C.token t u)
    (hpq : p.Similar C.frame C.token q) :
    Agree (Fault.Similar C.frame C.token)
      (fun s s' => C.Memory i₀ j₀ { i with store := s } { j with store := s' })
      (i.store.declare a t p) (j.store.declare b u q) := by
  refine (h.store.declare C.lines hab htu p q).imp ?_
  rintro _ _ ⟨rfl, rfl⟩
  exact h.bind hab t.lexeme hpq

/-- Both assignments find their name and may change it, or both fail alike. -/
theorem assign (h : C.Memory i₀ j₀ i j) (hab : C.frame a b) (htu : C.token t u)
    (hvw : v.Similar C.frame C.token w) :
    Agree (Fault.Similar C.frame C.token)
      (fun s s' => C.Memory i₀ j₀ { i with store := s } { j with store := s' })
      (i.store.assign a t v) (j.store.assign b u w) := by
  refine (h.store.assign C.ordered C.lines hab htu v w).imp ?_
  rintro _ _ ⟨c, d, hcd, rfl, rfl⟩
  exact h.write hcd t.lexeme hvw

end Memory

/-- Runs that begin in `i₀` and `j₀`. -/
def simulation (i₀ j₀ : Interpreter) : Simulation where
  frame := C.frame
  scope := C.frame
  token := C.token
  memory := C.Memory i₀ j₀
  lines := C.lines
  frame_of_scope h := h
  frame_unique := C.ordered.eq_iff
  depth_eq h := h.depth_eq
  move _ _ h := ⟨h.depth_eq, h.next, h.store, h.left, h.right, h.out⟩
  nest _ h := ⟨rfl, h.next, h.store, h.left, h.right, h.out⟩
  grow h hab := h.grow hab
  read h hab htu := h.store.read C.ordered C.lines hab htu
  declare h hab htu hpq := h.declare hab htu hpq
  assign h hab htu hvw := h.assign hab htu hvw
  write bytes h :=
    ⟨h.out.fits_eq bytes, h.depth_eq, h.next, h.store, h.left, h.right, h.out.write bytes⟩

/-- Sinks in step are flushed alike if they were so at first. -/
theorem flushAlike {i₀ j₀ : Interpreter} (hflushes : j₀.out.flushes = i₀.out.flushes) :
    (C.simulation i₀ j₀).FlushAlike :=
  fun _ _ h => h.out.flush_eq hflushes

/-- Frames of the same number. -/
def equal (T : Token → Token → Prop) (hT : LinesOnly T) : Correspondence where
  frame := Eq
  token := T
  ordered := by
    rintro _ _ _ _ rfl rfl
    exact Iff.rfl
  lines := hT

end Correspondence

/-! ## Frames in common -/

/-- The frames in `R`, each with itself, and the frames that are created in the stores `s` and
`t`, one after the other. -/
inductive Store.Common (R : FrameId → Prop) (s t : Store) : FrameId → FrameId → Prop where
  | kept {a : FrameId} : R a → Common R s t a a
  | created (k : Nat) : Common R s t (s.size + k) (t.size + k)

namespace Store.Common

variable {R : FrameId → Prop} {s t : Store}

/-- The frames that are kept are the older ones on both sides, and the created ones are numbered
in the same order. -/
theorem ordered (hs : ∀ a, R a → a < s.size) (ht : ∀ a, R a → a < t.size) :
    Ordered (Common R s t) := by
  intro a a' b b' h h'
  cases h with
  | kept ha =>
    cases h' with
    | kept ha' => exact Iff.rfl
    | created k => exact iff_of_true (Nat.lt_add_right k (hs a ha)) (Nat.lt_add_right k (ht a ha))
  | created k =>
    cases h' with
    | kept ha' =>
      exact iff_of_false (Nat.not_lt.2 (Nat.le_add_right_of_le (Nat.le_of_lt (hs a' ha'))))
        (Nat.not_lt.2 (Nat.le_add_right_of_le (Nat.le_of_lt (ht a' ha'))))
    | created k' => exact (Nat.add_lt_add_iff_left).trans (Nat.add_lt_add_iff_left).symm

/-- A frame that was there corresponds to itself or to nothing. -/
theorem left_iff {a : FrameId} (ha : a < s.size) : (∃ b, Common R s t a b) ↔ R a := by
  refine ⟨?_, fun h => ⟨a, .kept h⟩⟩
  rintro ⟨b, h⟩
  cases h with
  | kept h => exact h
  | created k => exact absurd ha (Nat.not_lt.2 (Nat.le_add_right s.size k))

/-- The same from the other side. -/
theorem right_iff {b : FrameId} (hb : b < t.size) : (∃ a, Common R s t a b) ↔ R b := by
  refine ⟨?_, fun h => ⟨b, .kept h⟩⟩
  rintro ⟨a, h⟩
  cases h with
  | kept h => exact h
  | created k => exact absurd hb (Nat.not_lt.2 (Nat.le_add_right t.size k))

end Store.Common

namespace Correspondence

variable {R : FrameId → Prop} {i j : Interpreter}

/-- The frames in `R` and the frames that are created. -/
def common (R : FrameId → Prop) (s t : Store) (hs : ∀ a, R a → a < s.size)
    (ht : ∀ a, R a → a < t.size) : Correspondence where
  frame := s.Common R t
  token := Eq
  ordered := Store.Common.ordered hs ht
  lines := linesOnly_eq

/-- Runs may begin where the frames in common are similar. -/
theorem memory_common (hs : ∀ a, R a → a < i.store.size) (ht : ∀ a, R a → a < j.store.size)
    (hdepth : j.depth = i.depth) (hroom : j.out.room = i.out.room)
    (hframes : ∀ a, R a → Option.Rel (Frame.Similar (i.store.Common R j.store) Eq)
      i.store.frames[a]? j.store.frames[a]?) :
    (common R i.store j.store hs ht).Memory i j i j where
  depth_eq := hdepth
  next := .created
  store := by
    intro a b hab
    cases hab with
    | kept ha => exact hframes a ha
    | created k =>
      rw [(i.store.frames_eq_none_iff _).2 (Nat.le_add_right ..),
        (j.store.frames_eq_none_iff _).2 (Nat.le_add_right ..)]
      exact .none
  left := .refl i.store
  right := .refl j.store
  out := .refl hroom

end Correspondence

end PipeLang
