import PipeLang.Proofs.Interpreter.Correspondence
import PipeLang.Proofs.Store.Globals

/-!
# Evaluation is local

What an expression comes to, and what it does, depends on the frames that are reachable from
the current one alone; what a call comes to and does, on those that are reachable from the
callee and the arguments (`Interpreter.locality`). All other frames are neither read nor
changed.
-/

namespace PipeLang

/-! ## Frames in common -/

/-- Links lead from frames in common to frames in common. -/
theorem Store.AgreeOn.similar {s t : Store} {roots : FrameId → Prop} {a : FrameId}
    (h : s.AgreeOn (s.Reachable roots) t) (ha : s.Reachable roots a) :
    Option.Rel (Frame.Similar (s.Common (s.Reachable roots) t) Eq)
      s.frames[a]? t.frames[a]? := by
  obtain ⟨f, g, hf, hg, henclosing, hbinding⟩ := h a ha
  rw [hf, hg]
  refine .some ⟨?_, fun x => ?_⟩
  · rw [henclosing]
    cases houter : f.enclosing with
    | none => exact .none
    | some b => exact .some (.kept (.enclosing ha hf houter))
  · rw [hbinding x]
    cases hx : f.binding? x with
    | none => exact .none
    | some b =>
      have hb : s.binding? a x = some b := (s.binding?_eq_some_iff a x b).2 ⟨f, hf, hx⟩
      exact .some ⟨rfl, b.value.similar_refl (fun _ => rfl) fun c hc => .kept (.captured ha hb hc)⟩

/-! ## Runs from states that agree -/

namespace Interpreter

/-- The states that two runs from `i` and `j` leave. The frames that both could reach hold
the same, and so do the frames that they created; frames out of reach are as they were; the
same bytes were written. -/
structure LeaveAlike (roots : FrameId → Prop) (i j i' j' : Interpreter) : Prop where
  contents : i'.store.Similar (i.store.Common (i.store.Reachable roots) j.store) Eq j'.store
  left : ∀ a < i.store.size, ¬ i.store.Reachable roots a →
    i'.store.frames[a]? = i.store.frames[a]?
  right : ∀ a < j.store.size, ¬ j.store.Reachable roots a →
    j'.store.frames[a]? = j.store.frames[a]?
  written : ∃ bytes, i'.out.written = i.out.written ++ bytes ∧
    j'.out.written = j.out.written ++ bytes

/-- Two runs that cannot be told apart from the roots, but for the numbers of the frames that
they created. -/
def RunAlike (roots : FrameId → Prop) (i j : Interpreter) (x y : Run Value) : Prop :=
  EndAlike
    (fun f g => f.Similar (i.store.Common (i.store.Reachable roots) j.store) Eq g ∧
      g.diagnostic = f.diagnostic)
    (LeaveAlike roots i j)
    (Value.Similar (i.store.Common (i.store.Reachable roots) j.store) Eq) (x i) (y j)

section

variable {roots : FrameId → Prop} {i j : Interpreter}

/-- The correspondence of what both sides can reach. -/
def commonOf (h : i.store.AgreeOn (i.store.Reachable roots) j.store) : Correspondence :=
  .common (i.store.Reachable roots) i.store j.store h.lt_left h.lt_right

theorem memory_commonOf (hdepth : j.depth = i.depth) (hroom : j.out.room = i.out.room)
    (h : i.store.AgreeOn (i.store.Reachable roots) j.store) : (commonOf h).Memory i j i j :=
  Correspondence.memory_common h.lt_left h.lt_right hdepth hroom fun _ ha => h.similar ha

theorem leaveAlike {i' j' : Interpreter}
    (h : i.store.AgreeOn (i.store.Reachable roots) j.store)
    (hmemory : (commonOf h).Memory i j i' j') : LeaveAlike roots i j i' j' where
  contents := hmemory.store
  left a ha hout := hmemory.left a fun hcommon => hout ((Store.Common.left_iff ha).1 hcommon)
  right a ha hout := hmemory.right a fun hcommon =>
    hout (h.reachable ((Store.Common.right_iff ha).1 hcommon))
  written := hmemory.out.written

theorem runAlike {x y : Run Value} {a b : FrameId} (hdepth : j.depth = i.depth)
    (hroom : j.out.room = i.out.room)
    (h : i.store.AgreeOn (i.store.Reachable roots) j.store) (hi : i.current = a)
    (hj : j.current = b)
    (hxy : ((commonOf h).simulation i j).Tandem a b
      (Value.Similar (commonOf h).frame (commonOf h).token) x y) :
    RunAlike roots i j x y := by
  have hends := hxy i j ⟨memory_commonOf hdepth hroom h, hi, hj⟩
  unfold RunAlike
  generalize x i = r at hends
  generalize y j = r' at hends
  cases hends with
  | ok hvw hafter => exact .ok hvw (leaveAlike h hafter.memory)
  | error hfg hafter => exact .error ⟨hfg, hfg.diagnostic_eq⟩ (leaveAlike h hafter.memory)

end

/-- Two interpreters with the same depth, whose sinks take the same. When they have the same
current frame and agree on what can be reached from it, every expression comes to the same in
both, and does the same. When they agree on what can be reached from a callee and arguments,
the call does, whatever their current frames are. Nothing out of reach is changed. -/
theorem locality (i j : Interpreter) (hdepth : j.depth = i.depth)
    (hroom : j.out.room = i.out.room) :
    (j.current = i.current →
      i.store.AgreeOn (i.store.Reachable (· = i.current)) j.store →
      ∀ e : Expr, RunAlike (· = i.current) i j (evaluate e) (evaluate e)) ∧
    ∀ (f : Value) (token : Token) (vs : List Value),
      i.store.AgreeOn
        (i.store.Reachable fun a => ∃ v ∈ f :: vs, v.frame? = some a) j.store →
      RunAlike (fun a => ∃ v ∈ f :: vs, v.frame? = some a) i j
        (call f token vs) (call f token vs) := by
  constructor
  · intro hcurrent hagree e
    refine runAlike hdepth hroom hagree rfl hcurrent ?_
    exact Simulation.evaluate (S := (commonOf hagree).simulation i j)
      (Expr.similar_refl (fun _ => rfl) e) (.kept (.root rfl))
  · intro f token vs hagree
    have hgiven : ∀ v ∈ f :: vs, v.Similar (commonOf hagree).frame (commonOf hagree).token v :=
      fun v hv => v.similar_refl (fun _ => rfl) fun a ha => .kept (.root ⟨v, hv, ha⟩)
    refine runAlike hdepth hroom hagree rfl rfl ?_
    exact Simulation.call (S := (commonOf hagree).simulation i j)
      (hgiven f (List.mem_cons_self ..)) rfl
      (List.forall₂_same.2 fun v hv => hgiven v (List.mem_cons_of_mem f hv)) _ _

/-- A frame that is out of reach of the globals makes no difference to what is in them, nor
to a function that was declared there. -/
theorem locality_globals :
    let i : Interpreter := .new .unlimited
    let j : Interpreter :=
      { i with store := (i.store.grow (some globals)).bind 1 "x" ⟨true, .nil⟩ }
    let e : Expr := .name ⟨.identifier, "log", 1⟩
    let f : Value := .closure ⟨"f", [], [.expression e], globals⟩
    let token : Token := ⟨.symbol .leftParen, "(", 1⟩
    i.store.AgreeOn (i.store.Reachable (· = i.current)) j.store ∧
      RunAlike (· = i.current) i j (evaluate e) (evaluate e) ∧
      RunAlike (fun a => ∃ v ∈ [f], v.frame? = some a) i j (call f token []) (call f token []) := by
  intro i j e f token
  have hj : j.store.Sealed := Store.Sealed.initial.grow (some globals) |>.bind (by decide) "x" _
  have hagree := Store.Sealed.initial.agreeOn hj
  have hroots : ∀ a, (∃ v ∈ [f], v.frame? = some a) → a = globals := by
    rintro a ⟨v, hv, ha⟩
    obtain rfl := List.mem_singleton.1 hv
    exact (Option.some.inj ha).symm
  exact ⟨hagree, (locality i j rfl rfl).1 rfl hagree e,
    (locality i j rfl rfl).2 f token [] (hagree.imp fun _ ha => ha.mono hroots)⟩

end Interpreter

end PipeLang
