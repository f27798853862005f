import PipeLang.Interpreter.State
import PipeLang.Proofs.Store.Reachable

/-!
# The globals

The frame of the globals holds the builtins. They are immutable, and programs declare their
names in other frames, so the globals stay as they are (`Store.Sealed.declare`,
`Store.Sealed.assign`). Nothing else can be reached from them
(`Store.Sealed.reachable_eq`).
-/

namespace PipeLang

open Interpreter (globals initialStore)

/-- The globals are those of a new interpreter. -/
def Store.Sealed (s : Store) : Prop := initialStore.AgreeOn (· = globals) s

/-- The builtins cannot be assigned, and they refer to no frame. -/
theorem initialStore_immutable {a : FrameId} {x : String} {b : Binding}
    (h : initialStore.binding? a x = some b) : b.mutable = false ∧ b.value.frame? = none := by
  have hframe : initialStore.frames = #[⟨none, [("log", ⟨false, .builtin .log⟩)]⟩] := rfl
  obtain ⟨f, hf, hb⟩ := (initialStore.binding?_eq_some_iff a x b).1 h
  rw [hframe, Array.getElem?_singleton] at hf
  split at hf
  · obtain rfl := Option.some.inj hf
    simp only [Frame.binding?, List.lookup_cons, List.lookup_nil] at hb
    split at hb
    · obtain rfl := Option.some.inj hb
      exact ⟨rfl, rfl⟩
    · cases hb
  · cases hf

/-- The builtins are similar to themselves, whatever tokens are. -/
theorem initialStore_similar {T : Token → Token → Prop} (a : FrameId) :
    Option.Rel (Frame.Similar Eq T) initialStore.frames[a]? initialStore.frames[a]? := by
  cases hf : initialStore.frames[a]? with
  | none => exact .none
  | some f =>
    refine .some ⟨?_, fun x => ?_⟩
    · cases f.enclosing with
      | none => exact .none
      | some outer => exact .some rfl
    · cases hb : f.binding? x with
      | none => exact .none
      | some b =>
        have hbound := (initialStore.binding?_eq_some_iff a x b).2 ⟨f, hf, hb⟩
        exact .some ⟨rfl, b.value.similar_of_frame? (initialStore_immutable hbound).2⟩

namespace Store.Sealed

variable {s t : Store} {a : FrameId} {x : Token} {b : Binding} {v : Value}

/-- A new interpreter has its own globals. -/
theorem initial : initialStore.Sealed := by
  rintro _ rfl
  exact ⟨_, _, rfl, rfl, rfl, fun _ => rfl⟩

/-- The frame of the globals is there. -/
theorem globals_lt_size (h : s.Sealed) : globals < s.size := AgreeOn.lt_right h globals rfl

/-- A new frame is not that of the globals. -/
theorem grow (h : s.Sealed) (enclosing : Option FrameId) : (s.grow enclosing).Sealed := by
  rintro _ rfl
  obtain ⟨f, g, hf, hg, hsame⟩ := h globals rfl
  refine ⟨f, g, hf, ?_, hsame⟩
  rw [frames_grow, if_neg (Nat.ne_of_lt h.globals_lt_size), hg]

/-- A name that is declared in another frame is not declared in the globals. -/
theorem bind (h : s.Sealed) (ha : a ≠ globals) (x : String) (b : Binding) :
    (s.bind a x b).Sealed := by
  rintro _ rfl
  obtain ⟨f, g, hf, hg, hsame⟩ := h globals rfl
  refine ⟨f, g, hf, ?_, hsame⟩
  rw [frames_bind, if_neg ha.symm, hg]

theorem write (h : s.Sealed) (ha : a ≠ globals) (x : String) (v : Value) :
    (s.write a x v).Sealed := by
  rintro _ rfl
  obtain ⟨f, g, hf, hg, hsame⟩ := h globals rfl
  refine ⟨f, g, hf, ?_, hsame⟩
  rw [frames_write, if_neg ha.symm, hg]

/-- So declarations outside leave the globals alone. -/
theorem declare (h : s.Sealed) (ha : a ≠ globals) (ht : s.declare a x b = .ok t) :
    t.Sealed := by
  obtain ⟨-, rfl⟩ := (declare_eq_ok_iff a b).1 ht
  exact h.bind ha x.lexeme b

/-- So do assignments, wherever they are made : a name of the globals is a builtin, and those are
immutable. -/
theorem assign (h : s.Sealed) (ht : s.assign a x v = .ok t) : t.Sealed := by
  obtain ⟨owner, b, hfind, hmutable, rfl⟩ := (assign_eq_ok_iff a v).1 ht
  refine h.write ?_ x.lexeme v
  rintro rfl
  have hb := (AgreeOn.binding?_eq h rfl x.lexeme).symm.trans (binding?_of_find? hfind)
  exact absurd (hmutable.symm.trans (initialStore_immutable hb).1) (by decide)

/-- The globals are inside no frame, and no function in them was declared anywhere. -/
theorem reachable_eq (h : s.Sealed) (ha : s.Reachable (· = globals) a) : a = globals := by
  induction ha with
  | root hroot => exact hroot
  | enclosing _ hf houter ih =>
    subst ih
    obtain ⟨f, g, hf', hg, henclosing, -⟩ := h globals rfl
    obtain rfl := Option.some.inj (hg.symm.trans hf)
    obtain rfl : (⟨none, _⟩ : Frame) = f := Option.some.inj hf'
    cases henclosing.symm.trans houter
  | captured _ hb hc ih =>
    have hb' := (AgreeOn.binding?_eq h ih _).symm.trans hb
    cases (initialStore_immutable hb').2.symm.trans hc

/-- Two interpreters agree on what can be reached from the globals. -/
theorem agreeOn (h : s.Sealed) (h' : t.Sealed) :
    s.AgreeOn (s.Reachable (· = globals)) t :=
  (AgreeOn.symm h |>.trans h').imp fun _ ha => h.reachable_eq ha

end Store.Sealed

end PipeLang
