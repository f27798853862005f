import PipeLang.Proofs.Interpreter.Locality
import PipeLang.Proofs.Interpreter.Permanence

/-!
# Interpreters between programs

An `Invariant` is a property that programs keep, provided that they declare names in certain
frames only. It is the case of a simulation in which both runs are the same.

Between programs an interpreter is in the globals, no call is under way, and the globals are
those of a new interpreter (`Interpreter.AtRest`). Programs leave interpreters so, whether
they fail or not (`AtRest.performAll`), and an interpreter at rest cannot be told from a new
one by a program that runs in a frame of its own (`AtRest.runFresh_alike`).
-/

namespace PipeLang

/-! ## Invariants -/

/-- A property of interpreters that is kept when frames in `D` get names, and by everything
else that programs do. -/
structure Invariant (D : FrameId → Prop) (P : Interpreter → Prop) : Prop where
  current : ∀ {i} a, P i → P { i with current := a }
  depth : ∀ {i} d, P i → P { i with depth := d }
  grow : ∀ {i} a, P i → D i.store.size ∧ P { i with store := i.store.grow (some a) }
  declare : ∀ {i a x b s}, P i → D a → i.store.declare a x b = .ok s →
    P { i with store := s }
  assign : ∀ {i a x v s}, P i → i.store.assign a x v = .ok s → P { i with store := s }
  write : ∀ {i} bytes, P i → P { i with out := i.out.write bytes }

namespace Invariant

variable {D : FrameId → Prop} {P : Interpreter → Prop}

/-- The run beside itself. -/
def simulation (h : Invariant D P) : Simulation where
  frame := Eq
  scope a b := a = b ∧ D a
  token := Eq
  memory i j := P i ∧ ∃ c, j = { i with current := c }
  lines := linesOnly_eq
  frame_of_scope hab := hab.1
  frame_unique := by
    rintro _ _ _ _ rfl rfl
    exact Iff.rfl
  depth_eq := by
    rintro i _ ⟨-, c, rfl⟩
    rfl
  move := by
    rintro i _ a b ⟨hi, c, rfl⟩
    exact ⟨h.current a hi, b, rfl⟩
  nest := by
    rintro i _ d ⟨hi, c, rfl⟩
    exact ⟨h.depth d hi, c, rfl⟩
  grow := by
    rintro i _ a _ ⟨hi, c, rfl⟩ rfl
    obtain ⟨hD, hgrown⟩ := h.grow a hi
    exact ⟨⟨rfl, hD⟩, hgrown, c, rfl⟩
  read := by
    rintro i _ a _ t _ ⟨hi, c, rfl⟩ rfl rfl
    exact .refl Fault.similar_eq Value.similar_eq _
  declare := by
    rintro i _ a _ t _ p q ⟨hi, c, rfl⟩ ⟨rfl, ha⟩ rfl hpq
    obtain rfl := hpq.eq
    cases hs : i.store.declare a t p with
    | ok s => exact .ok ⟨h.declare hi ha hs, c, rfl⟩
    | error f => exact .error (Fault.similar_eq f)
  assign := by
    rintro i _ a _ t _ v w ⟨hi, c, rfl⟩ rfl rfl hvw
    obtain rfl := hvw.eq
    cases hs : i.store.assign a t v with
    | ok s => exact .ok ⟨h.assign hi hs, c, rfl⟩
    | error f => exact .error (Fault.similar_eq f)
  write := by
    rintro i _ bytes ⟨hi, c, rfl⟩
    exact ⟨rfl, h.write bytes hi, c, rfl⟩

theorem after {α : Type} (h : Invariant D P) {x : Run α} {Q : α → α → Prop} {i : Interpreter}
    (hx : h.simulation.Tandem i.current i.current Q x x) (hi : P i) : P (x.after i) := by
  have hends := hx i i ⟨⟨hi, i.current, rfl⟩, rfl, rfl⟩
  unfold Run.after
  generalize x i = r at hends ⊢
  cases hends with
  | ok _ hafter => exact hafter.memory.1
  | error _ hafter => exact hafter.memory.1

theorem runIn (h : Invariant D P) {a : FrameId} (ha : D a) (p : Program) {i : Interpreter}
    (hi : P i) : P ((Interpreter.runIn a p).after i) := by
  refine h.after (Simulation.runIn ?_ ⟨rfl, ha⟩ (Stmt.allSimilar_refl (fun _ => rfl) p)) hi
  rintro i _ ⟨-, c, rfl⟩
  rfl

end Invariant

/-! ## Interpreters at rest -/

/-- A run of a program. -/
def Operation.IsProgram : Operation → Prop
  | runFresh _ | runShared _ => True
  | _ => False

/-- The globals are those of a new interpreter, and the frame that prompt inputs share is
another one. -/
structure Interpreter.Intact (i : Interpreter) : Prop where
  sealed : i.store.Sealed
  shared_ne : ∀ a, i.shared = some a → a ≠ Interpreter.globals

/-- Intact, in the globals, and with no call under way. -/
structure Interpreter.AtRest (i : Interpreter) : Prop extends i.Intact where
  current_eq : i.current = Interpreter.globals
  depth_eq : i.depth = 0

open Interpreter (globals)

/-- Nothing is declared in the globals. -/
theorem invariant_intact : Invariant (· ≠ globals) Interpreter.Intact where
  current _ h := ⟨h.sealed, h.shared_ne⟩
  depth _ h := ⟨h.sealed, h.shared_ne⟩
  grow a h := ⟨Nat.ne_of_gt h.sealed.globals_lt_size, h.sealed.grow (some a), h.shared_ne⟩
  declare h ha hs := ⟨h.sealed.declare ha hs, h.shared_ne⟩
  assign h hs := ⟨h.sealed.assign hs, h.shared_ne⟩
  write _ h := ⟨h.sealed, h.shared_ne⟩

/-- The frame that prompt inputs share is there. -/
theorem Interpreter.sharedFrame_some {i : Interpreter} {frame : FrameId}
    (h : i.shared = some frame) : sharedFrame i = .ok frame i := by
  rw [sharedFrame, h]

/-- It is created now. -/
theorem Interpreter.sharedFrame_none {i : Interpreter} (h : i.shared = none) :
    sharedFrame i = .ok i.store.size
      { i with store := i.store.grow (some globals), shared := some i.store.size } := by
  rw [sharedFrame, h]

namespace Interpreter.AtRest

variable {i j : Interpreter}

theorem new (out : Sink) : (Interpreter.new out).AtRest where
  sealed := .initial
  shared_ne _ h := nomatch h
  current_eq := rfl
  depth_eq := rfl

theorem of_restored (h : i.AtRest) (hj : j.Intact) (hij : Restored i j) : j.AtRest where
  toIntact := hj
  current_eq := hij.current_eq.trans h.current_eq
  depth_eq := hij.depth_eq.trans h.depth_eq

theorem runFresh (h : i.AtRest) (p : Program) : ((Interpreter.runFresh p).after i).AtRest := by
  obtain ⟨hnew, hgrown⟩ := invariant_intact.grow globals h.toIntact
  exact h.of_restored (invariant_intact.runIn hnew p hgrown) (history_restored.runFresh p i)

theorem runShared (h : i.AtRest) (p : Program) :
    ((Interpreter.runShared p).after i).AtRest := by
  refine h.of_restored ?_ (history_restored.runShared p i)
  cases hshared : i.shared with
  | some a =>
    rw [Interpreter.runShared, Run.after_bind_ok (sharedFrame_some hshared)]
    exact invariant_intact.runIn (h.shared_ne a hshared) p h.toIntact
  | none =>
    obtain ⟨hnew, hgrown⟩ := invariant_intact.grow globals h.toIntact
    rw [Interpreter.runShared, Run.after_bind_ok (sharedFrame_none hshared)]
    refine invariant_intact.runIn hnew p ⟨hgrown.sealed, ?_⟩
    rintro _ ⟨⟩
    exact hnew

/-- Programs, however they end, leave an interpreter at rest. -/
theorem perform (h : i.AtRest) {op : Operation} (hop : op.IsProgram) :
    (op.perform.after i).AtRest := by
  cases op with
  | runFresh p =>
    rw [Operation.perform, Run.after_bind_pure]
    exact h.runFresh p
  | runShared p =>
    rw [Operation.perform, Run.after_bind_pure]
    exact h.runShared p
  | _ => exact hop.elim

theorem performAll (ops : List Operation) (hops : ∀ op ∈ ops, op.IsProgram) (h : i.AtRest) :
    (Operation.performAll ops i).AtRest := by
  induction ops generalizing i with
  | nil => exact h
  | cons op ops ih =>
    exact ih (fun o ho => hops o (List.mem_cons_of_mem op ho))
      (h.perform (hops op (List.mem_cons_self ..)))

/-- A program in a frame of its own does not see what else has been run : it fails alike, or
not at all, and writes the same. -/
theorem runFresh_alike (hi : i.AtRest) (hj : j.AtRest) (hroom : j.out.room = i.out.room)
    (hflushes : j.out.flushes = i.out.flushes) (p : Program) :
    EndAlike (fun f g => g.diagnostic = f.diagnostic)
      (fun i' j' => ∃ bytes, i'.out.written = i.out.written ++ bytes ∧
        j'.out.written = j.out.written ++ bytes)
      (fun _ _ => True) (Interpreter.runFresh p i) (Interpreter.runFresh p j) := by
  have hagree := hi.sealed.agreeOn hj.sealed
  have hmemory := memory_commonOf (hj.depth_eq.trans hi.depth_eq.symm) hroom hagree
  have hends := Simulation.runFresh (S := (commonOf hagree).simulation i j)
    ((commonOf hagree).flushAlike hflushes) (.kept (.root rfl))
    (Stmt.allSimilar_refl (fun _ => rfl) p) i j ⟨hmemory, rfl, rfl⟩
  generalize Interpreter.runFresh p i = r at hends ⊢
  generalize Interpreter.runFresh p j = r' at hends ⊢
  cases hends with
  | ok _ hafter => exact .ok trivial hafter.memory.out.written
  | error hfg hafter => exact .error hfg.diagnostic_eq hafter.memory.out.written

end Interpreter.AtRest

/-- Programs do not make a sink fail. -/
theorem history_unfailing : History fun i j => i.out.Unfailing → j.out.Unfailing where
  refl _ h := h
  trans h h' hi := h' (h hi)
  grow _ _ h := h
  declare _ _ _ _ _ _ h := h
  assign _ _ _ _ _ h := h
  write _ bytes h := h.write bytes
  share _ _ _ h := h
  scope _ h := h
  nest h := h

end PipeLang
