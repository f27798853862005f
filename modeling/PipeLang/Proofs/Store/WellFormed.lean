import Mathlib.Logic.Relation
import PipeLang.Proofs.Store.Globals

/-!
# Well-formed stores

Functions point to the frames that they were declared in, and these hold the functions, so
what is reachable in a store may run in circles. The frames around a frame may not : in a
well-formed store every frame but that of the globals is inside an earlier one, so the chain
from any frame comes down to the globals (`Store.WellFormed.encloses_globals`). And wherever
frames are inside earlier ones only, the search for a name along the chain ends, though no
test stops it (`Store.Forest.searches_iff`).
-/

namespace PipeLang

open Interpreter (globals initialStore)

/-- If the value is a function of a program, its frame is one of the first `n`. -/
def Value.Fits (n : Nat) (v : Value) : Prop := ∀ a, v.frame? = some a → a < n

/-- A function stays among more frames. -/
theorem Value.Fits.mono {n k : Nat} {v : Value} (h : v.Fits n) (hle : n ≤ k) : v.Fits k :=
  fun a ha => Nat.lt_of_lt_of_le (h a ha) hle

/-! ## Frames -/

/-- The names that the frame holds. -/
def Frame.names (f : Frame) : List String := f.bindings.map Prod.fst

/-- No name is bound twice, and the functions have frames among the first `n`. -/
structure Frame.WellFormed (n : Nat) (f : Frame) : Prop where
  distinct : f.names.Nodup
  captured : ∀ entry ∈ f.bindings, entry.2.value.Fits n

namespace Frame

variable {f : Frame} {n : Nat} {x : String} {b : Binding}

theorem binding?_eq_none_iff : f.binding? x = none ↔ x ∉ f.names := by
  simp only [binding?, names, List.lookup_eq_none_iff, List.mem_map, not_exists, not_and]
  constructor
  · intro h entry hentry hx
    simpa [hx] using h entry hentry
  · intro h entry hentry
    exact bne_iff_ne.2 (Ne.symm (h entry hentry))

/-- What a name stands for is in the list of bindings. -/
theorem exists_mem_of_binding? (h : f.binding? x = some b) : (x, b) ∈ f.bindings := by
  obtain ⟨l, r, hl, -⟩ := List.lookup_eq_some_iff.1 h
  simp [hl]

@[simp]
theorem names_bind (f : Frame) (x : String) (b : Binding) : (f.bind x b).names = x :: f.names :=
  rfl

@[simp]
theorem names_write (f : Frame) (x : String) (v : Value) : (f.write x v).names = f.names := by
  rw [names, write, names, List.map_map]
  refine List.map_congr_left fun entry _ => ?_
  dsimp only [Function.comp]
  split <;> rfl

namespace WellFormed

theorem mono {k : Nat} (h : f.WellFormed n) (hle : n ≤ k) : f.WellFormed k where
  distinct := h.distinct
  captured entry hentry := (h.captured entry hentry).mono hle

/-- What a name of a well-formed frame stands for fits. -/
theorem fits (h : f.WellFormed n) (hb : f.binding? x = some b) : b.value.Fits n :=
  h.captured _ (exists_mem_of_binding? hb)

/-- A name may be added that is not there yet. -/
theorem bind (h : f.WellFormed n) (hx : f.binding? x = none) (hb : b.value.Fits n) :
    (f.bind x b).WellFormed n where
  distinct := List.nodup_cons.2 ⟨binding?_eq_none_iff.1 hx, h.distinct⟩
  captured := List.forall_mem_cons.2 ⟨hb, h.captured⟩

/-- Names do not change when a value is written. -/
theorem write {v : Value} (h : f.WellFormed n) (hv : v.Fits n) (x : String) :
    (f.write x v).WellFormed n where
  distinct := by
    rw [names_write]
    exact h.distinct
  captured := by
    intro entry hentry
    obtain ⟨old, hold, rfl⟩ := List.mem_map.1 hentry
    dsimp only
    split
    · exact hv
    · exact h.captured old hold

end WellFormed

end Frame

/-! ## Stores -/

namespace Store

/-- The frame `a` is there, directly inside the frame `b`. -/
def Encloses (s : Store) (a b : FrameId) : Prop :=
  ∃ f, s.frames[a]? = some f ∧ f.enclosing = some b

/-- The frame of the globals is there and inside no other; every other frame is inside an
earlier one. And every frame is well formed. -/
structure WellFormed (s : Store) : Prop where
  root : ∃ f, s.frames[globals]? = some f ∧ f.enclosing = none
  inside : ∀ (a : FrameId) (f : Frame), s.frames[a]? = some f → a ≠ globals →
    ∃ b < a, f.enclosing = some b
  frames : ∀ (a : FrameId) (f : Frame), s.frames[a]? = some f → f.WellFormed s.size

namespace WellFormed

variable {s t : Store} {a b : FrameId} {x : String} {v : Value}

/-- The globals with the builtins. -/
theorem initial : initialStore.WellFormed := by
  have hframes : initialStore.frames = #[⟨none, [("log", ⟨false, .builtin .log⟩)]⟩] := rfl
  have honly : ∀ (a : FrameId) (f : Frame), initialStore.frames[a]? = some f →
      a = globals ∧ (⟨none, [("log", ⟨false, .builtin .log⟩)]⟩ : Frame) = f := by
    intro a f hf
    rw [hframes, Array.getElem?_singleton] at hf
    split at hf
    · next ha => exact ⟨ha, Option.some.inj hf⟩
    · cases hf
  refine ⟨⟨_, rfl, rfl⟩, fun a f hf ha => absurd (honly a f hf).1 ha, fun a f hf => ?_⟩
  obtain ⟨-, rfl⟩ := honly a f hf
  exact ⟨List.pairwise_singleton .., List.forall_mem_singleton.2 nofun⟩

/-- There are the globals at least. -/
theorem globals_lt_size (h : s.WellFormed) : globals < s.size := by
  obtain ⟨f, hf, -⟩ := h.root
  exact s.lt_size_of_frames globals hf

/-! ### Operations -/

/-- A new frame is inside an older one, so links go on to lead backwards. -/
theorem grow (h : s.WellFormed) (ha : a < s.size) : (s.grow (some a)).WellFormed where
  root := by
    obtain ⟨f, hf, hroot⟩ := h.root
    refine ⟨f, ?_, hroot⟩
    rw [frames_grow, if_neg (Nat.ne_of_lt h.globals_lt_size)]
    exact hf
  inside c f hf hc := by
    rw [frames_grow] at hf
    split at hf
    · next hnew =>
      cases hf
      exact ⟨a, hnew ▸ ha, rfl⟩
    · exact h.inside c f hf hc
  frames c f hf := by
    rw [frames_grow] at hf
    split at hf
    · cases hf
      exact ⟨List.nodup_nil, nofun⟩
    · rw [size_grow]
      exact (h.frames c f hf).mono (Nat.le_succ _)

/-- Every frame is changed within its bounds, and stays inside the same one. -/
theorem of_frames (h : s.WellFormed) (hsize : t.size = s.size)
    (hframes : ∀ (a : FrameId) (g : Frame), t.frames[a]? = some g →
      ∃ f : Frame, s.frames[a]? = some f ∧ g.enclosing = f.enclosing ∧
        (f.WellFormed s.size → g.WellFormed s.size)) :
    t.WellFormed where
  root := by
    obtain ⟨f, hf, hroot⟩ := h.root
    have hlt : globals < t.size := hsize ▸ h.globals_lt_size
    obtain ⟨f', hf', henclosing, -⟩ := hframes globals _ (Array.getElem?_eq_getElem hlt)
    obtain rfl := Option.some.inj (hf.symm.trans hf')
    exact ⟨_, Array.getElem?_eq_getElem hlt, henclosing.trans hroot⟩
  inside a g hg ha := by
    obtain ⟨f, hf, henclosing, -⟩ := hframes a g hg
    rw [henclosing]
    exact h.inside a f hf ha
  frames a g hg := by
    obtain ⟨f, hf, -, hkeeps⟩ := hframes a g hg
    rw [hsize]
    exact hkeeps (h.frames a f hf)

/-- A name that its frame does not have yet. -/
theorem bind {b : Binding} (h : s.WellFormed) (hx : s.binding? a x = none)
    (hb : b.value.Fits s.size) : (s.bind a x b).WellFormed := by
  refine h.of_frames (size_bind ..) fun c g hg => ?_
  rw [frames_bind] at hg
  split at hg
  · next hc =>
    obtain ⟨f, hf, rfl⟩ := Option.map_eq_some_iff.1 hg
    have hnew : f.binding? x = none := by
      simpa [Store.binding?, ← hc, hf] using hx
    exact ⟨f, hf, rfl, fun hwf => hwf.bind hnew hb⟩
  · exact ⟨g, hg, rfl, id⟩

theorem write (h : s.WellFormed) (hv : v.Fits s.size) (a : FrameId) (x : String) :
    (s.write a x v).WellFormed := by
  refine h.of_frames (size_write ..) fun c g hg => ?_
  rw [frames_write] at hg
  split at hg
  · obtain ⟨f, hf, rfl⟩ := Option.map_eq_some_iff.1 hg
    exact ⟨f, hf, rfl, fun hwf => hwf.write hv x⟩
  · exact ⟨g, hg, rfl, id⟩

/-- Declaring a name that fits, if it succeeds. -/
theorem declare {b : Binding} {name : Token} (h : s.WellFormed) (hb : b.value.Fits s.size)
    (ht : s.declare a name b = .ok t) : t.WellFormed ∧ t.size = s.size := by
  obtain ⟨hnew, rfl⟩ := (declare_eq_ok_iff a b).1 ht
  exact ⟨h.bind hnew hb, size_bind ..⟩

theorem assign {name : Token} (h : s.WellFormed) (hv : v.Fits s.size)
    (ht : s.assign a name v = .ok t) : t.WellFormed ∧ t.size = s.size := by
  obtain ⟨owner, b, -, -, rfl⟩ := (assign_eq_ok_iff a v).1 ht
  exact ⟨h.write hv owner _, size_write ..⟩

/-- What is read fits. -/
theorem read {name : Token} (h : s.WellFormed) (hv : s.read a name = .ok v) : v.Fits s.size := by
  unfold Store.read at hv
  split at hv
  · cases hv
  · next owner b hfind =>
    cases hv
    obtain ⟨f, hf, hb⟩ := (s.binding?_eq_some_iff ..).1 (binding?_of_find? hfind)
    exact (h.frames owner f hf).fits hb

/-! ### Chains of frames -/

/-- A frame around another one is older. -/
theorem lt_of_encloses (h : s.WellFormed) (hab : s.Encloses a b) : b < a := by
  obtain ⟨f, hf, hb⟩ := hab
  have ha : a ≠ globals := by
    rintro rfl
    obtain ⟨g, hg, hroot⟩ := h.root
    obtain rfl := Option.some.inj (hg.symm.trans hf)
    cases hroot.symm.trans hb
  obtain ⟨c, hc, hfc⟩ := h.inside a f hf ha
  obtain rfl := Option.some.inj (hfc.symm.trans hb)
  exact hc

/-- No frame is inside itself, directly or not. -/
theorem not_encloses_self (h : s.WellFormed) (a : FrameId) :
    ¬ Relation.TransGen s.Encloses a a := by
  have hlt : ∀ b, Relation.TransGen s.Encloses a b → b < a := by
    intro b hab
    induction hab with
    | single hab => exact h.lt_of_encloses hab
    | tail _ hbc ih => exact Nat.lt_trans (h.lt_of_encloses hbc) ih
  exact fun ha => Nat.lt_irrefl a (hlt a ha)

/-- The chain from every frame ends at the globals. -/
theorem encloses_globals (h : s.WellFormed) (a : FrameId) (ha : a < s.size) :
    Relation.ReflTransGen s.Encloses a globals := by
  induction a using Nat.strongRecOn with
  | ind a ih =>
    by_cases hroot : a = globals
    · rw [hroot]
    · obtain ⟨b, hb, hfb⟩ := h.inside a _ (Array.getElem?_eq_getElem ha) hroot
      exact .head ⟨_, Array.getElem?_eq_getElem ha, hfb⟩ (ih b hb (Nat.lt_trans hb ha))

end WellFormed

/-! ## Searching -/

/-- The search for the name `x` from a frame, without any test that it ends. It comes to the
frame that owns the name, or to the end of the chain. -/
inductive Searches (s : Store) (x : String) : FrameId → Option (FrameId × Binding) → Prop
  | here {a : FrameId} {f : Frame} {b : Binding} :
    s.frames[a]? = some f → f.binding? x = some b → Searches s x a (some (a, b))
  | outer {a outer : FrameId} {f : Frame} {r : Option (FrameId × Binding)} :
    s.frames[a]? = some f → f.binding? x = none → f.enclosing = some outer →
    Searches s x outer r → Searches s x a r
  | undefined {a : FrameId} {f : Frame} :
    s.frames[a]? = some f → f.binding? x = none → f.enclosing = none → Searches s x a none

/-- Every frame is inside an earlier one, or inside none. -/
structure Forest (s : Store) : Prop where
  lt_of_encloses : ∀ {a b : FrameId}, s.Encloses a b → b < a

namespace Forest

variable {s : Store} {a : FrameId} {x : String} {r r' : Option (FrameId × Binding)}

/-- The test in `Store.find?` never stops a search. -/
theorem searches (h : s.Forest) (ha : a < s.size) : s.Searches x a (s.find? a x) := by
  fun_induction find? s a x with
  | case1 a hnone => exact absurd ha (Nat.not_lt.2 ((s.frames_eq_none_iff a).1 hnone))
  | case2 a f hf b hb => exact .here hf hb
  | case3 a f hf outer houter hb hlt ih => exact .outer hf hb houter (ih (Nat.lt_trans hlt ha))
  | case4 a f hf outer houter hb hnot => exact absurd (h.lt_of_encloses ⟨f, hf, houter⟩) hnot
  | case5 a f hf houter hb => exact .undefined hf hb houter

/-- A search that follows the links, without the test that they lead backwards, ends with the
same. -/
theorem find?_of_searches (h : s.Forest) (hr : s.Searches x a r) : s.find? a x = r := by
  induction hr with
  | here hf hb =>
    rw [find?]
    simp only [hf, hb]
  | outer hf hb houter _ ih =>
    have hlt := h.lt_of_encloses ⟨_, hf, houter⟩
    rw [find?]
    simp only [hf, hb, houter, if_pos hlt, ih]
  | undefined hf hb houter =>
    rw [find?]
    simp only [hf, hb, houter]

/-- From every frame, the search comes to what `Store.find?` says and to nothing else. -/
theorem searches_iff (h : s.Forest) (ha : a < s.size) :
    s.Searches x a r ↔ s.find? a x = r := by
  refine ⟨h.find?_of_searches, ?_⟩
  rintro rfl
  exact h.searches ha

/-- A search has one end. -/
theorem searches_unique (h : s.Forest) (hr : s.Searches x a r) (hr' : s.Searches x a r') :
    r = r' :=
  (h.find?_of_searches hr).symm.trans (h.find?_of_searches hr')

end Forest

namespace WellFormed

variable {s : Store} {a : FrameId} {x : String} {r : Option (FrameId × Binding)}

theorem forest (h : s.WellFormed) : s.Forest := ⟨h.lt_of_encloses⟩

theorem searches (h : s.WellFormed) (ha : a < s.size) : s.Searches x a (s.find? a x) :=
  h.forest.searches ha

theorem searches_iff (h : s.WellFormed) (ha : a < s.size) :
    s.Searches x a r ↔ s.find? a x = r :=
  h.forest.searches_iff ha

/-- The search for a name of the globals does not come to the end of the chain. -/
theorem isSome_of_searches (h : s.WellFormed) (hx : (s.binding? globals x).isSome)
    (hr : s.Searches x a r) : r.isSome := by
  induction hr with
  | here => rfl
  | outer _ _ _ _ ih => exact ih
  | @undefined a f hf hb houter =>
    have ha : a = globals := by
      by_contra ha
      obtain ⟨b, -, hinside⟩ := h.inside a f hf ha
      cases houter.symm.trans hinside
    simp [binding?, ← ha, hf, hb] at hx

end WellFormed

end Store

end PipeLang
