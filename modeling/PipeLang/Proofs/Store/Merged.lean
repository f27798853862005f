import PipeLang.Proofs.Store.Globals

/-!
# The globals and the frame inside them in one

A store can hold the names of a program in a frame of their own inside the globals, or in the
frame of the globals itself, among the builtins (`Store.Merges`). The first has one frame
more, so every other frame has the next number there (`Shifted`).

As long as no program declares the name of a builtin, a name is found in both stores or in
neither, with similar values (`Store.Merges.find?`). The owners of a builtin are different
frames, but builtins are immutable. So names are read, declared and assigned alike, and the
stores stay like this (`Store.Merges.read`, `Store.Merges.declare`, `Store.Merges.assign`).
-/

namespace PipeLang

open Interpreter (globals initialStore)

/-- The frame is the next one. -/
def Shifted (a b : FrameId) : Prop := b = a + 1

/-- Adding one to the numbers of frames keeps their order. -/
theorem ordered_shifted : Ordered Shifted := by
  rintro a a' _ _ rfl rfl
  exact Nat.succ_lt_succ_iff.symm

/-- The name is none of a builtin. -/
def Unbuilt (x : String) : Prop := initialStore.binding? globals x = none

/-- `log` is the only builtin. -/
theorem unbuilt_of_ne {x : String} (h : x ≠ "log") : Unbuilt x := by
  have hstore : initialStore =
      (Store.empty.grow none).bind globals "log" ⟨false, .builtin .log⟩ := rfl
  rw [Unbuilt, hstore, Store.binding?_bind, if_neg fun hc => h hc.2.1]
  rfl

namespace Store

variable {s t : Store} {a : FrameId} {x : String} {p q : Binding} {v w : Value}

/-- The names that `t` holds in the frame inside the globals are among the builtins in `s`. All
other frames are similar. -/
structure Merges (s t : Store) : Prop where
  size_eq : t.size = s.size + 1
  inner : ∀ a, a ≠ globals →
    Option.Rel (Frame.Similar Shifted Eq) s.frames[a]? t.frames[a + 1]?
  /-- Only `t` has a frame around the names of the program. -/
  outer : ∃ f g, s.frames[globals]? = some f ∧ f.enclosing = none ∧
    t.frames[globals + 1]? = some g ∧ g.enclosing = some globals
  builtin : ∀ x b, initialStore.binding? globals x = some b →
    s.binding? globals x = some b ∧ t.binding? (globals + 1) x = none
  declared : ∀ x, Unbuilt x →
    Option.Rel (Binding.Similar Shifted Eq) (s.binding? globals x) (t.binding? (globals + 1) x)
  sealed : t.Sealed

/-- From the globals one sees the builtins alone. -/
theorem Sealed.find?_globals (h : t.Sealed) (x : String) :
    t.find? globals x = (initialStore.binding? globals x).map (globals, ·) := by
  obtain ⟨f, g, hf, hg, henclosing, -⟩ := h globals rfl
  obtain rfl : (⟨none, _⟩ : Frame) = f := Option.some.inj hf
  rw [← AgreeOn.binding?_eq h rfl x, Store.find?, Store.binding?, hg]
  dsimp only [Option.bind_some]
  rw [henclosing]
  cases g.binding? x <;> rfl

namespace Merges

/-- A new store that holds nothing but the builtins, and one with an empty frame inside. -/
theorem initial : initialStore.Merges (initialStore.grow (some globals)) where
  size_eq := size_grow initialStore (some globals)
  inner a ha := by
    have hsize : initialStore.size ≤ a := Nat.one_le_iff_ne_zero.2 ha
    have hnext : ¬a + 1 = initialStore.size := Nat.ne_of_gt (Nat.lt_succ_of_le hsize)
    rw [(frames_eq_none_iff _ a).2 hsize, frames_grow, if_neg hnext,
      (frames_eq_none_iff _ (a + 1)).2 (Nat.le_succ_of_le hsize)]
    exact .none
  outer := ⟨_, _, rfl, rfl, rfl, rfl⟩
  builtin x b hb := ⟨hb, by rw [binding?_grow]; rfl⟩
  declared x hx := by
    rw [hx, binding?_grow]
    exact .none
  sealed := Sealed.initial.grow (some globals)

/-! ### Looking up -/

/-- A frame binds the same names as the next one. For the globals this is only true of what is no
builtin. -/
theorem binding? (h : s.Merges t) (hx : a = globals → Unbuilt x) :
    Option.Rel (Binding.Similar Shifted Eq) (s.binding? a x) (t.binding? (a + 1) x) := by
  by_cases ha : a = globals
  · subst ha
    exact h.declared x (hx rfl)
  · have hframes := h.inner a ha
    unfold Store.binding?
    generalize s.frames[a]? = f at hframes
    generalize t.frames[a + 1]? = g at hframes
    cases hframes with
    | none => exact .none
    | some hfg => exact hfg.binding x

/-- What is found on both sides is similar, and what may be assigned is owned by related
frames, where no builtin has its name. -/
structure Found (x : String) (o o' : FrameId × Binding) : Prop where
  binding : o.2.Similar Shifted Eq o'.2
  owner : o.2.mutable = true → Shifted o.1 o'.1 ∧ (o.1 = globals → Unbuilt x)

/-- A builtin is found one frame further out in `t`, and what the program has declared in frames
that stand for each other. -/
theorem find?_globals (h : s.Merges t) (x : String) :
    Option.Rel (Found x) (s.find? globals x) (t.find? (globals + 1) x) := by
  obtain ⟨f, g, hf, hfnone, hg, hgouter⟩ := h.outer
  have hs : s.find? globals x = (s.binding? globals x).map (globals, ·) := by
    rw [Store.find?, Store.binding?, hf]
    dsimp only [Option.bind_some]
    rw [hfnone]
    cases f.binding? x <;> rfl
  have ht : t.find? (globals + 1) x =
      ((t.binding? (globals + 1) x).map (globals + 1, ·)).or (t.find? globals x) := by
    rw [Store.find?, Store.binding?, hg]
    dsimp only [Option.bind_some]
    rw [hgouter]
    cases g.binding? x with
    | none => exact if_pos (Nat.lt_succ_self globals)
    | some b => rfl
  rw [hs, ht, h.sealed.find?_globals]
  cases hb : initialStore.binding? globals x with
  | none =>
    have hdeclared := h.declared x hb
    generalize s.binding? globals x = p at hdeclared
    generalize t.binding? (globals + 1) x = q at hdeclared
    cases hdeclared with
    | none => exact .none
    | some hpq => exact .some ⟨hpq, fun _ => ⟨rfl, fun _ => hb⟩⟩
  | some b =>
    obtain ⟨himmutable, hconstant⟩ := initialStore_immutable hb
    obtain ⟨hs, ht⟩ := h.builtin x b hb
    rw [hs, ht]
    refine .some ⟨⟨rfl, b.value.similar_of_frame? hconstant⟩, fun hmutable => ?_⟩
    exact absurd (hmutable.symm.trans himmutable) (by decide)

/-- By induction along the chain of frames, which ends with the globals on one side and with the
frame inside them on the other. -/
theorem find? (h : s.Merges t) (a : FrameId) (x : String) :
    Option.Rel (Found x) (s.find? a x) (t.find? (a + 1) x) := by
  induction a using Nat.strongRecOn with
  | ind a ih =>
    by_cases ha : a = globals
    · subst ha
      exact h.find?_globals x
    · have hframes := h.inner a ha
      unfold Store.find?
      generalize s.frames[a]? = f at hframes
      generalize t.frames[a + 1]? = g at hframes
      cases hframes with
      | none => exact .none
      | @some f g hfg =>
        have hbinding := hfg.binding x
        have henclosing := hfg.enclosing
        dsimp only
        generalize f.binding? x = p at hbinding
        generalize g.binding? x = q at hbinding
        generalize f.enclosing = c at henclosing
        generalize g.enclosing = d at henclosing
        cases hbinding with
        | some hpq => exact .some ⟨hpq, fun _ => ⟨rfl, fun hglobals => absurd hglobals ha⟩⟩
        | none =>
          cases henclosing with
          | none => exact .none
          | @some c d hcd =>
            obtain rfl : d = c + 1 := hcd
            dsimp only
            by_cases hc : c < a
            · rw [if_pos hc, if_pos (Nat.succ_lt_succ hc)]
              exact ih c hc
            · rw [if_neg hc, if_neg (mt Nat.lt_of_succ_lt_succ hc)]
              exact .none

/-! ### Changing one frame -/

/-- Both stores get one more frame, and the numbers still differ by one. -/
theorem grow (h : s.Merges t) (a : FrameId) :
    (s.grow (some a)).Merges (t.grow (some (a + 1))) where
  size_eq := by rw [size_grow, size_grow, h.size_eq]
  inner c hc := by
    rw [frames_grow, frames_grow, h.size_eq]
    by_cases hnew : c = s.size
    · rw [if_pos hnew, if_pos (congrArg (· + 1) hnew)]
      exact .some ⟨.some rfl, fun _ => .none⟩
    · rw [if_neg hnew, if_neg (mt Nat.succ.inj hnew)]
      exact h.inner c hc
  outer := by
    obtain ⟨f, g, hf, hfnone, hg, hgouter⟩ := h.outer
    refine ⟨f, g, ?_, hfnone, ?_, hgouter⟩
    · rw [frames_grow, if_neg (Nat.ne_of_lt (s.lt_size_of_frames _ hf)), hf]
    · rw [frames_grow, if_neg (Nat.ne_of_lt (t.lt_size_of_frames _ hg)), hg]
  builtin x b hb := by
    rw [binding?_grow, binding?_grow]
    exact h.builtin x b hb
  declared x hx := by
    rw [binding?_grow, binding?_grow]
    exact h.declared x hx
  sealed := h.sealed.grow _

/-- Frames that are changed in such a way that related ones stay similar. -/
theorem inner_modify (h : s.Merges t) {k l : Frame → Frame}
    (hkl : ∀ {f g : Frame}, f.Similar Shifted Eq g → (k f).Similar Shifted Eq (l g))
    (a : FrameId) {c : FrameId} (hc : c ≠ globals) :
    Option.Rel (Frame.Similar Shifted Eq)
      (if c = a then s.frames[c]?.map k else s.frames[c]?)
      (if c + 1 = a + 1 then t.frames[c + 1]?.map l else t.frames[c + 1]?) := by
  have hframes := h.inner c hc
  by_cases hca : c = a
  · rw [if_pos hca, if_pos (congrArg (· + 1) hca)]
    generalize s.frames[c]? = f at hframes
    generalize t.frames[c + 1]? = g at hframes
    cases hframes with
    | none => exact .none
    | some hfg => exact .some (hkl hfg)
  · rw [if_neg hca, if_neg (mt Nat.succ.inj hca)]
    exact hframes

/-- Frames that are changed in such a way that they stay where they are. -/
theorem outer_modify (h : s.Merges t) (k l : Frame → Frame)
    (hk : ∀ f, (k f).enclosing = f.enclosing) (hl : ∀ g, (l g).enclosing = g.enclosing)
    (a : FrameId) :
    ∃ f g, (if globals = a then s.frames[globals]?.map k else s.frames[globals]?) = some f ∧
      f.enclosing = none ∧
      (if globals + 1 = a + 1 then t.frames[globals + 1]?.map l
        else t.frames[globals + 1]?) = some g ∧
      g.enclosing = some globals := by
  obtain ⟨f, g, hf, hfnone, hg, hgouter⟩ := h.outer
  rw [hf, hg]
  by_cases ha : globals = a
  · rw [if_pos ha, if_pos (congrArg (· + 1) ha)]
    exact ⟨k f, l g, rfl, (hk f).trans hfnone, rfl, (hl g).trans hgouter⟩
  · rw [if_neg ha, if_neg (mt Nat.succ.inj ha)]
    exact ⟨f, g, rfl, hfnone, rfl, hgouter⟩

/-- A declaration in frames that stand for each other, of a name that is no builtin. -/
theorem bind (h : s.Merges t) (hx : a = globals → Unbuilt x) (hpq : p.Similar Shifted Eq q) :
    (s.bind a x p).Merges (t.bind (a + 1) x q) where
  size_eq := by rw [size_bind, size_bind, h.size_eq]
  inner c hc := by
    rw [frames_bind, frames_bind]
    exact h.inner_modify (fun hfg => hfg.bind x hpq) a hc
  outer := by
    rw [frames_bind, frames_bind]
    exact h.outer_modify (·.bind x p) (·.bind x q) (fun _ => rfl) (fun _ => rfl) a
  builtin y b hb := by
    obtain ⟨hs, ht⟩ := h.builtin y b hb
    have hother : ¬(globals = a ∧ y = x) := by
      rintro ⟨rfl, rfl⟩
      exact absurd (hb.symm.trans (hx rfl)) nofun
    rw [binding?_bind, binding?_bind, if_neg fun hc => hother ⟨hc.1, hc.2.1⟩,
      if_neg fun hc => hother ⟨Nat.succ.inj hc.1, hc.2.1⟩]
    exact ⟨hs, ht⟩
  declared y hy := by
    rw [binding?_bind, binding?_bind, h.size_eq]
    by_cases hc : globals = a ∧ y = x ∧ globals < s.size
    · rw [if_pos hc, if_pos ⟨congrArg (· + 1) hc.1, hc.2.1, Nat.succ_lt_succ hc.2.2⟩]
      exact .some hpq
    · rw [if_neg hc, if_neg fun hc' =>
        hc ⟨Nat.succ.inj hc'.1, hc'.2.1, Nat.lt_of_succ_lt_succ hc'.2.2⟩]
      exact h.declared y hy
  sealed := h.sealed.bind (Nat.succ_ne_zero a) x q

/-- The same for another value. -/
theorem write (h : s.Merges t) (hx : a = globals → Unbuilt x) (hvw : v.Similar Shifted Eq w) :
    (s.write a x v).Merges (t.write (a + 1) x w) where
  size_eq := by rw [size_write, size_write, h.size_eq]
  inner c hc := by
    rw [frames_write, frames_write]
    exact h.inner_modify (fun hfg => hfg.write x hvw) a hc
  outer := by
    rw [frames_write, frames_write]
    exact h.outer_modify (·.write x v) (·.write x w) (fun _ => rfl) (fun _ => rfl) a
  builtin y b hb := by
    obtain ⟨hs, ht⟩ := h.builtin y b hb
    have hother : ¬(globals = a ∧ y = x) := by
      rintro ⟨rfl, rfl⟩
      exact absurd (hb.symm.trans (hx rfl)) nofun
    rw [binding?_write, binding?_write, hs, ht]
    exact ⟨congrArg some (if_neg hother), rfl⟩
  declared y hy := by
    have hdeclared := h.declared y hy
    rw [binding?_write, binding?_write]
    generalize s.binding? globals y = p at hdeclared
    generalize t.binding? (globals + 1) y = q at hdeclared
    cases hdeclared with
    | none => exact .none
    | some hpq =>
      rw [Option.map_some, Option.map_some]
      by_cases hc : globals = a ∧ y = x
      · rw [if_pos hc, if_pos ⟨congrArg (· + 1) hc.1, hc.2⟩]
        exact .some ⟨hpq.mutable_eq, hvw⟩
      · rw [if_neg hc, if_neg fun hc' => hc ⟨Nat.succ.inj hc'.1, hc'.2⟩]
        exact .some hpq
  sealed := h.sealed.write (Nat.succ_ne_zero a) x w

/-! ### Single operations -/

variable {name : Token}

/-- Both stores know the name, with similar values, or both fail at the same token. -/
theorem read (h : s.Merges t) (a : FrameId) (name : Token) :
    Agree (Fault.Similar Shifted Eq) (Value.Similar Shifted Eq)
      (s.read a name) (t.read (a + 1) name) := by
  have hfind := h.find? a name.lexeme
  unfold Store.read
  generalize s.find? a name.lexeme = o at hfind
  generalize t.find? (a + 1) name.lexeme = o' at hfind
  cases hfind with
  | none => exact .error (.undefined rfl)
  | some hfound => exact .ok hfound.binding.value

/-- No builtin may have a name that is declared in the globals. -/
theorem declare (h : s.Merges t) (hname : a = globals → Unbuilt name.lexeme)
    (hpq : p.Similar Shifted Eq q) :
    Agree (Fault.Similar Shifted Eq) Merges (s.declare a name p) (t.declare (a + 1) name q) := by
  have hbinding := h.binding? hname
  unfold Store.declare
  generalize s.binding? a name.lexeme = o at hbinding
  generalize t.binding? (a + 1) name.lexeme = o' at hbinding
  cases hbinding with
  | none => exact .ok (h.bind hname hpq)
  | some => exact .error (.redeclared rfl)

/-- An assignment changes frames that stand for each other, as builtins are immutable. -/
theorem assign (h : s.Merges t) (a : FrameId) (name : Token) (hvw : v.Similar Shifted Eq w) :
    Agree (Fault.Similar Shifted Eq) Merges (s.assign a name v) (t.assign (a + 1) name w) := by
  have hfind := h.find? a name.lexeme
  unfold Store.assign
  generalize s.find? a name.lexeme = o at hfind
  generalize t.find? (a + 1) name.lexeme = o' at hfind
  cases hfind with
  | none => exact .error (.undefined rfl)
  | @some o o' hfound =>
    dsimp only
    rw [hfound.binding.mutable_eq]
    by_cases hmutable : o.2.mutable = true
    · obtain ⟨howner, hfree⟩ := hfound.owner hmutable
      rw [if_pos hmutable, if_pos hmutable, howner]
      exact .ok (h.write hfree hvw)
    · rw [if_neg hmutable, if_neg hmutable]
      exact .error (.immutable rfl)

end Merges

end Store

end PipeLang
