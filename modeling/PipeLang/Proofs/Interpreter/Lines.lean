import PipeLang.Proofs.Interpreter.Sequence

/-!
# Programs that differ in lines only

Interpreters are similar when their frames hold similar values under the same names. Similar
programs leave similar interpreters similar; they write the same, and they fail alike or not
at all (`Interpreter.Similar.runFresh`, `Interpreter.Similar.runShared`).
-/

namespace PipeLang

/-- Interpreters that differ in the tokens of functions, and in what they have written. -/
structure Interpreter.Similar (T : Token → Token → Prop) (i j : Interpreter) : Prop where
  store : i.store.Similar Eq T j.store
  shared_eq : j.shared = i.shared
  depth_eq : j.depth = i.depth
  room_eq : j.out.room = i.out.room
  flushes_eq : j.out.flushes = i.out.flushes

variable {T : Token → Token → Prop}

/-- As many frames on both sides. -/
theorem Store.Similar.size_eq {s t : Store} (h : s.Similar Eq T t) : t.size = s.size := by
  have none_iff : ∀ a : FrameId, t.frames[a]? = none ↔ s.frames[a]? = none := by
    intro a
    have hframe := h (rfl : a = a)
    generalize s.frames[a]? = f at hframe
    generalize t.frames[a]? = g at hframe
    cases hframe <;> simp
  have hle : t.size ≤ s.size :=
    (t.frames_eq_none_iff _).1 ((none_iff _).2 ((s.frames_eq_none_iff _).2 (Nat.le_refl _)))
  have hge : s.size ≤ t.size :=
    (s.frames_eq_none_iff _).1 ((none_iff _).1 ((t.frames_eq_none_iff _).2 (Nat.le_refl _)))
  exact Nat.le_antisymm hle hge

namespace Interpreter.Similar

variable {i j : Interpreter} {p q : Program}

/-- What similar programs make of similar interpreters. -/
def Results (T : Token → Token → Prop) (i j : Interpreter) (x y : Run Unit) : Prop :=
  EndAlike (Fault.Similar Eq T)
    (fun i' j' => i'.Similar T j' ∧ ∃ bytes, i'.out.written = i.out.written ++ bytes ∧
      j'.out.written = j.out.written ++ bytes)
    (fun _ _ => True) (x i) (y j)

variable (hT : LinesOnly T)

theorem memory (h : i.Similar T j) : (Correspondence.equal T hT).Memory i j i j where
  depth_eq := h.depth_eq
  next k := by
    rw [h.store.size_eq]
    rfl
  store := h.store
  left := .refl i.store
  right := .refl j.store
  out := .refl h.room_eq

include hT

/-- Similar programs in one frame. -/
theorem runIn (h : i.Similar T j) (frame : FrameId) (hpq : Stmt.AllSimilar T p q)
    {i' j' : Interpreter} (hmemory : (Correspondence.equal T hT).Memory i j i' j')
    (hshared : j'.shared = i'.shared) :
    EndAlike (Fault.Similar Eq T)
      (fun i' j' => i'.Similar T j' ∧ ∃ bytes, i'.out.written = i.out.written ++ bytes ∧
        j'.out.written = j.out.written ++ bytes)
      (fun _ _ => True) (Interpreter.runIn frame p i') (Interpreter.runIn frame q j') := by
  have hends := Simulation.runIn (S := (Correspondence.equal T hT).simulation i j)
    (Correspondence.flushAlike _ h.flushes_eq) (c := frame) rfl hpq i' j' ⟨hmemory, rfl, rfl⟩
  have hleft := (invariant_shared i'.shared).runIn (a := frame) trivial p (i := i') rfl
  have hright := (invariant_shared i'.shared).runIn (a := frame) trivial q (i := j') hshared
  have similar : ∀ k l : Interpreter, (Correspondence.equal T hT).Memory i j k l →
      k.shared = i'.shared → l.shared = i'.shared → k.Similar T l :=
    fun k l hkl hk hl =>
      { store := hkl.store
        shared_eq := hl.trans hk.symm
        depth_eq := hkl.depth_eq
        room_eq := hkl.out.room_eq
        flushes_eq :=
          hkl.out.right_flushes.trans (h.flushes_eq.trans hkl.out.left_flushes.symm) }
  unfold Run.after at hleft hright
  generalize Interpreter.runIn frame p i' = r at hends hleft ⊢
  generalize Interpreter.runIn frame q j' = r' at hends hright ⊢
  cases hends with
  | ok _ hafter =>
    exact .ok trivial ⟨similar _ _ hafter.memory hleft hright, hafter.memory.out.written⟩
  | error hfg hafter =>
    exact .error hfg ⟨similar _ _ hafter.memory hleft hright, hafter.memory.out.written⟩

theorem runFresh (h : i.Similar T j) (hpq : Stmt.AllSimilar T p q) :
    Results T i j (Interpreter.runFresh p) (Interpreter.runFresh q) := by
  obtain ⟨hsize, hgrown⟩ := (h.memory hT).grow (a := globals) (b := globals) rfl
  have hi : Interpreter.runFresh p i = Interpreter.runIn i.store.size p
    { i with store := i.store.grow (some globals) } := rfl
  have hj : Interpreter.runFresh q j = Interpreter.runIn j.store.size q
    { j with store := j.store.grow (some globals) } := rfl
  rw [Results, hi, hj, ← (hsize : i.store.size = j.store.size)]
  exact h.runIn hT _ hpq hgrown h.shared_eq

theorem runShared (h : i.Similar T j) (hpq : Stmt.AllSimilar T p q) :
    Results T i j (Interpreter.runShared p) (Interpreter.runShared q) := by
  cases hshared : i.shared with
  | some frame =>
    have hi : Interpreter.runShared p i = Interpreter.runIn frame p i :=
      Run.bind_ok (sharedFrame_some hshared)
    have hj : Interpreter.runShared q j = Interpreter.runIn frame q j :=
      Run.bind_ok (sharedFrame_some (h.shared_eq.trans hshared))
    rw [Results, hi, hj]
    exact h.runIn hT frame hpq (h.memory hT) h.shared_eq
  | none =>
    obtain ⟨hsize, hgrown⟩ := (h.memory hT).grow (a := globals) (b := globals) rfl
    have hi : Interpreter.runShared p i = Interpreter.runIn i.store.size p
        { i with store := i.store.grow (some globals), shared := some i.store.size } :=
      Run.bind_ok (sharedFrame_none hshared)
    have hj : Interpreter.runShared q j = Interpreter.runIn j.store.size q
        { j with store := j.store.grow (some globals), shared := some j.store.size } :=
      Run.bind_ok (sharedFrame_none (h.shared_eq.trans hshared))
    rw [Results, hi, hj, ← (hsize : i.store.size = j.store.size)]
    exact h.runIn hT _ hpq
      ⟨hgrown.depth_eq, hgrown.next, hgrown.store, hgrown.left, hgrown.right, hgrown.out⟩ rfl

end Interpreter.Similar

end PipeLang
