import PipeLang.Proofs.Interpreter.Similar
import PipeLang.Proofs.Store.Bindings

/-!
# Stores that differ in frames and tokens only

`Store.Similar F T` relates two stores that hold similar values under the same names in
frames related by `F`. When `F` respects the order in which frames are created, a name is
found on both sides or on neither, in related frames (`Store.Similar.find?`). So it is read,
declared and assigned alike, and the stores stay similar (`Store.Similar.read`,
`Store.Similar.declare`, `Store.Similar.assign`).

Each operation changes one frame : the stores are the same outside any set of frames that
holds it (`Store.SameOutside`).
-/

namespace PipeLang

section

variable (F : FrameId → FrameId → Prop) (T : Token → Token → Prop)

/-- Names with equal flags and similar values. -/
structure Binding.Similar (b c : Binding) : Prop where
  mutable_eq : c.mutable = b.mutable
  value : b.value.Similar F T c.value

/-- Frames inside related ones, with the same names. -/
structure Frame.Similar (f g : Frame) : Prop where
  enclosing : Option.Rel F f.enclosing g.enclosing
  binding : ∀ x, Option.Rel (Binding.Similar F T) (f.binding? x) (g.binding? x)

/-- Related frames are similar, or both are missing. -/
def Store.Similar (s t : Store) : Prop :=
  ∀ ⦃a b : FrameId⦄, F a b → Option.Rel (Frame.Similar F T) s.frames[a]? t.frames[b]?

end

/-- Related frames were created in the same order on both sides. -/
def Ordered (F : FrameId → FrameId → Prop) : Prop :=
  ∀ ⦃a a' b b' : FrameId⦄, F a b → F a' b' → (a < a' ↔ b < b')

/-- A relation that keeps the order matches one frame with one. -/
theorem Ordered.eq_iff {F : FrameId → FrameId → Prop} (hF : Ordered F) {a a' b b' : FrameId}
    (h : F a b) (h' : F a' b') : a = a' ↔ b = b' := by
  have hlt := hF h h'
  have hgt := hF h' h
  constructor
  · rintro rfl
    exact Nat.le_antisymm (Nat.not_lt.1 (mt hgt.2 (Nat.lt_irrefl a)))
      (Nat.not_lt.1 (mt hlt.2 (Nat.lt_irrefl a)))
  · rintro rfl
    exact Nat.le_antisymm (Nat.not_lt.1 (mt hgt.1 (Nat.lt_irrefl b)))
      (Nat.not_lt.1 (mt hlt.1 (Nat.lt_irrefl b)))

variable {F : FrameId → FrameId → Prop} {T : Token → Token → Prop} {s t : Store}
  {a b : FrameId} {x : String} {p q : Binding} {v w : Value}

/-- Similar with equal frames and equal tokens is equal. -/
theorem Binding.Similar.eq (h : p.Similar Eq Eq q) : p = q := by
  obtain ⟨mutable, v⟩ := p
  obtain ⟨mutable', v'⟩ := q
  have hmutable : mutable' = mutable := h.mutable_eq
  have hvalue : v = v' := h.value.eq
  rw [hmutable, hvalue]

/-! ## One frame -/

namespace Frame.Similar

variable {f g : Frame}

theorem bind (h : f.Similar F T g) (x : String) (hpq : p.Similar F T q) :
    (f.bind x p).Similar F T (g.bind x q) where
  enclosing := h.enclosing
  binding y := by
    rw [binding?_bind, binding?_bind]
    split
    · exact .some hpq
    · exact h.binding y

theorem write (h : f.Similar F T g) (x : String) (hvw : v.Similar F T w) :
    (f.write x v).Similar F T (g.write x w) where
  enclosing := h.enclosing
  binding y := by
    rw [binding?_write, binding?_write]
    have hy := h.binding y
    generalize f.binding? y = p at hy
    generalize g.binding? y = q at hy
    cases hy with
    | none => exact .none
    | some hpq =>
      rw [Option.map_some, Option.map_some]
      split
      · exact .some ⟨hpq.mutable_eq, hvw⟩
      · exact .some hpq

end Frame.Similar

/-! ## All frames -/

namespace Store.Similar

/-- Related frames bind the same names, with similar values. -/
theorem binding? (h : s.Similar F T t) (hab : F a b) (x : String) :
    Option.Rel (Binding.Similar F T) (s.binding? a x) (t.binding? b x) := by
  have hframes := h hab
  unfold Store.binding?
  generalize s.frames[a]? = f at hframes
  generalize t.frames[b]? = g at hframes
  cases hframes with
  | none => exact .none
  | some hfg => exact hfg.binding x

/-- Frames in order lead outwards side by side. -/
theorem find? (h : s.Similar F T t) (hF : Ordered F) (hab : F a b) (x : String) :
    Option.Rel (fun o o' => F o.1 o'.1 ∧ o.2.Similar F T o'.2) (s.find? a x) (t.find? b x) := by
  induction a using Nat.strongRecOn generalizing b with
  | ind a ih =>
    have hframes := h hab
    unfold Store.find?
    generalize s.frames[a]? = f at hframes
    generalize t.frames[b]? = g at hframes
    cases hframes with
    | none => exact .none
    | @some f g hfg =>
      have hbinding := hfg.binding x
      have henclosing := hfg.enclosing
      dsimp only
      generalize f.binding? x = p at hbinding
      generalize g.binding? x = q at hbinding
      generalize f.enclosing = c at henclosing
      generalize g.enclosing = d at henclosing
      cases hbinding with
      | some hpq => exact .some ⟨hab, hpq⟩
      | none =>
        cases henclosing with
        | none => exact .none
        | @some c d hcd =>
          have hlt := hF hcd hab
          dsimp only
          by_cases hc : c < a
          · rw [if_pos hc, if_pos (hlt.1 hc)]
            exact ih c hc hcd
          · rw [if_neg hc, if_neg (mt hlt.2 hc)]
            exact .none

/-- The new frames have to be related, and the frames they are inside are. -/
theorem grow (h : s.Similar F T t) (hF : Ordered F) (hnew : F s.size t.size) (hab : F a b) :
    (s.grow (some a)).Similar F T (t.grow (some b)) := by
  intro c d hcd
  have heq := hF.eq_iff hcd hnew
  rw [frames_grow, frames_grow]
  by_cases hc : c = s.size
  · rw [if_pos hc, if_pos (heq.1 hc)]
    exact .some ⟨.some hab, fun _ => .none⟩
  · rw [if_neg hc, if_neg (mt heq.2 hc)]
    exact h hcd

/-- One more name in related frames. -/
theorem bind (h : s.Similar F T t) (hF : Ordered F) (hab : F a b) (x : String)
    (hpq : p.Similar F T q) : (s.bind a x p).Similar F T (t.bind b x q) := by
  intro c d hcd
  have heq := hF.eq_iff hcd hab
  have hframes := h hcd
  rw [frames_bind, frames_bind]
  by_cases hc : c = a
  · rw [if_pos hc, if_pos (heq.1 hc)]
    generalize s.frames[c]? = f at hframes
    generalize t.frames[d]? = g at hframes
    cases hframes with
    | none => exact .none
    | some hfg => exact .some (hfg.bind x hpq)
  · rw [if_neg hc, if_neg (mt heq.2 hc)]
    exact hframes

/-- Similar values for a name of related frames. -/
theorem write (h : s.Similar F T t) (hF : Ordered F) (hab : F a b) (x : String)
    (hvw : v.Similar F T w) : (s.write a x v).Similar F T (t.write b x w) := by
  intro c d hcd
  have heq := hF.eq_iff hcd hab
  have hframes := h hcd
  rw [frames_write, frames_write]
  by_cases hc : c = a
  · rw [if_pos hc, if_pos (heq.1 hc)]
    generalize s.frames[c]? = f at hframes
    generalize t.frames[d]? = g at hframes
    cases hframes with
    | none => exact .none
    | some hfg => exact .some (hfg.write x hvw)
  · rw [if_neg hc, if_neg (mt heq.2 hc)]
    exact hframes

end Store.Similar

/-! ## Frames out of reach -/

/-- Every frame that is not in `D` is the same in both stores. -/
def Store.SameOutside (D : FrameId → Prop) (s t : Store) : Prop :=
  ∀ a, ¬ D a → t.frames[a]? = s.frames[a]?

namespace Store.SameOutside

variable {D : FrameId → Prop}

theorem refl (s : Store) : s.SameOutside D s := fun _ _ => rfl

/-- A new frame that is left out changes nothing outside. -/
theorem grow (h : s.SameOutside D t) (hnew : D t.size) (enclosing : Option FrameId) :
    s.SameOutside D (t.grow enclosing) := by
  intro a ha
  have hne : a ≠ t.size := fun heq => ha (heq ▸ hnew)
  rw [frames_grow, if_neg hne]
  exact h a ha

/-- Nor does one more name in such a frame. -/
theorem bind (h : s.SameOutside D t) (hb : D b) : s.SameOutside D (t.bind b x p) := by
  intro a ha
  have hne : a ≠ b := fun heq => ha (heq ▸ hb)
  rw [frames_bind, if_neg hne]
  exact h a ha

/-- Nor another value there. -/
theorem write (h : s.SameOutside D t) (hb : D b) : s.SameOutside D (t.write b x v) := by
  intro a ha
  have hne : a ≠ b := fun heq => ha (heq ▸ hb)
  rw [frames_write, if_neg hne]
  exact h a ha

end Store.SameOutside

/-! ## Single operations -/

namespace Store.Similar

variable {x y : Token}

/-- Similar values, or errors at related tokens for a name that neither store knows. -/
theorem read (h : s.Similar F T t) (hF : Ordered F) (hT : LinesOnly T) (hab : F a b)
    (hxy : T x y) :
    Agree (Fault.Similar F T) (Value.Similar F T) (s.read a x) (t.read b y) := by
  have hfind := h.find? hF hab x.lexeme
  unfold Store.read
  rw [hT.lexeme_eq hxy]
  generalize s.find? a x.lexeme = o at hfind
  generalize t.find? b x.lexeme = o' at hfind
  cases hfind with
  | none => exact .error (.undefined hxy)
  | some hboth => exact .ok hboth.2.value

/-- The declarations fail alike, or both stores have the name more. -/
theorem declare (h : s.Similar F T t) (hT : LinesOnly T) (hab : F a b) (hxy : T x y)
    (p q : Binding) :
    Agree (Fault.Similar F T)
      (fun s' t' => s' = s.bind a x.lexeme p ∧ t' = t.bind b x.lexeme q)
      (s.declare a x p) (t.declare b y q) := by
  have hbinding := h.binding? hab x.lexeme
  unfold Store.declare
  rw [hT.lexeme_eq hxy]
  generalize s.binding? a x.lexeme = o at hbinding
  generalize t.binding? b x.lexeme = o' at hbinding
  cases hbinding with
  | none => exact .ok ⟨rfl, rfl⟩
  | some => exact .error (.redeclared hxy)

/-- The assignments fail alike, or both stores have the value in related frames. -/
theorem assign (h : s.Similar F T t) (hF : Ordered F) (hT : LinesOnly T) (hab : F a b)
    (hxy : T x y) (v w : Value) :
    Agree (Fault.Similar F T)
      (fun s' t' => ∃ c d, F c d ∧ s' = s.write c x.lexeme v ∧ t' = t.write d x.lexeme w)
      (s.assign a x v) (t.assign b y w) := by
  have hfind := h.find? hF hab x.lexeme
  unfold Store.assign
  rw [hT.lexeme_eq hxy]
  generalize s.find? a x.lexeme = o at hfind
  generalize t.find? b x.lexeme = o' at hfind
  cases hfind with
  | none => exact .error (.undefined hxy)
  | @some o o' hboth =>
    obtain ⟨howner, hpq⟩ := hboth
    dsimp only
    rw [hpq.mutable_eq]
    split
    · exact .ok ⟨o.1, o'.1, howner, rfl, rfl⟩
    · exact .error (.immutable hxy)

end Store.Similar

end PipeLang
