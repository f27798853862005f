import PipeLang.Proofs.Store.Similar

/-!
# Frames within reach

From a frame one gets to the frame around it and to the frames that the functions in it were
declared in (`Store.Reachable`). When two stores agree on all frames that are reachable in
one of them, these frames are reachable in the other as well (`Store.AgreeOn.reachable`).
-/

namespace PipeLang

/-- The frames that chains of links lead to : to the frame around a frame, and to the frame
of a function that a name of the frame stands for. -/
inductive Store.Reachable (s : Store) (roots : FrameId → Prop) : FrameId → Prop where
  | root {a : FrameId} : roots a → Reachable s roots a
  | enclosing {a b : FrameId} {f : Frame} : Reachable s roots a → s.frames[a]? = some f →
    f.enclosing = some b → Reachable s roots b
  | captured {a c : FrameId} {x : String} {b : Binding} : Reachable s roots a →
    s.binding? a x = some b → b.value.frame? = some c → Reachable s roots c

/-- More roots reach more frames. -/
theorem Store.Reachable.mono {s : Store} {roots roots' : FrameId → Prop} {a : FrameId}
    (h : s.Reachable roots a) (hroots : ∀ b, roots b → roots' b) : s.Reachable roots' a := by
  induction h with
  | root hroot => exact .root (hroots _ hroot)
  | enclosing _ hf houter ih => exact .enclosing ih hf houter
  | captured _ hb hc ih => exact .captured ih hb hc

/-- Both stores hold every frame in `R`, inside the same frame and with the same names. -/
def Store.AgreeOn (R : FrameId → Prop) (s t : Store) : Prop :=
  ∀ a, R a → ∃ f g, s.frames[a]? = some f ∧ t.frames[a]? = some g ∧
    g.enclosing = f.enclosing ∧ ∀ x, g.binding? x = f.binding? x

namespace Store.AgreeOn

variable {R : FrameId → Prop} {s t : Store} {roots : FrameId → Prop} {a : FrameId}

theorem symm (h : s.AgreeOn R t) : t.AgreeOn R s := by
  intro a ha
  obtain ⟨f, g, hf, hg, henclosing, hbinding⟩ := h a ha
  exact ⟨g, f, hg, hf, henclosing.symm, fun x => (hbinding x).symm⟩

theorem trans {u : Store} (h : s.AgreeOn R t) (h' : t.AgreeOn R u) : s.AgreeOn R u := by
  intro a ha
  obtain ⟨f, g, hf, hg, henclosing, hbinding⟩ := h a ha
  obtain ⟨g', k, hg', hk, henclosing', hbinding'⟩ := h' a ha
  obtain rfl := Option.some.inj (hg.symm.trans hg')
  exact ⟨f, k, hf, hk, henclosing'.trans henclosing,
    fun x => (hbinding' x).trans (hbinding x)⟩

theorem imp {Q : FrameId → Prop} (h : s.AgreeOn R t) (hQ : ∀ a, Q a → R a) : s.AgreeOn Q t :=
  fun a ha => h a (hQ a ha)

/-- Frames on which stores agree are there in the first one. -/
theorem lt_left (h : s.AgreeOn R t) (a : FrameId) (ha : R a) : a < s.size := by
  obtain ⟨f, g, hf, -⟩ := h a ha
  exact s.lt_size_of_frames a hf

/-- And in the second one. -/
theorem lt_right (h : s.AgreeOn R t) (a : FrameId) (ha : R a) : a < t.size :=
  h.symm.lt_left a ha

/-- What is bound in such a frame is the same in both. -/
theorem binding?_eq (h : s.AgreeOn R t) (ha : R a) (x : String) :
    t.binding? a x = s.binding? a x := by
  obtain ⟨f, g, hf, hg, -, hbinding⟩ := h a ha
  rw [Store.binding?, Store.binding?, hf, hg]
  exact hbinding x

/-- A chain of links stays in the frames that agree. -/
theorem reachable (h : s.AgreeOn (s.Reachable roots) t) (ha : s.Reachable roots a) :
    t.Reachable roots a := by
  induction ha with
  | root hroot => exact .root hroot
  | enclosing ha hf houter ih =>
    obtain ⟨f, g, hf', hg, henclosing, -⟩ := h _ ha
    obtain rfl := Option.some.inj (hf'.symm.trans hf)
    exact .enclosing ih hg (henclosing.trans houter)
  | captured ha hb hvalue ih =>
    exact .captured ih ((h.binding?_eq ha _).trans hb) hvalue

end Store.AgreeOn

end PipeLang
