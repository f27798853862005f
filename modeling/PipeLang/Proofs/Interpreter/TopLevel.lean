import PipeLang.Proofs.Interpreter.Sequence
import PipeLang.Proofs.Interpreter.Simulation
import PipeLang.Proofs.Interpreter.Truncation
import PipeLang.Proofs.Session.Runs
import PipeLang.Proofs.Store.Merged

/-!
# Statements in the globals

The statements of a program can be executed in the current frame, one after the other
(`Interpreter.executeEach`). In a new interpreter this is the frame of the globals. As long
as the program itself does not declare the name of a builtin, this comes to what the program
comes to in a frame of its own (`execution_in_globals`).

The two runs go side by side, every frame of the first with the next one of the second
(`merging`). Blocks and calls execute statements in frames that both sides have created, and
these may declare any name; only the statements of the program itself are executed among the
builtins.
-/

namespace PipeLang

open Interpreter (globals initialStore)

/-- Execute statements in the current frame, one after the other, up to the first fault. -/
def Interpreter.executeEach : List Stmt → Run Unit
  | [] => pure ()
  | s :: ss => do
    let _ ← execute s
    executeEach ss

/-- The statement declares a name in the frame that it is executed in. -/
def Stmt.Declares (x : String) : Stmt → Prop
  | .declare name _ _ | .function name _ _ => name.lexeme = x
  | .expression _ | .print _ | .assign _ _ => False

/-! ## Side by side -/

/-- A program among the builtins and a program in a frame of its own inside. -/
def merging : Simulation where
  frame := Shifted
  scope a b := Shifted a b ∧ a ≠ globals
  token := Eq
  memory i j := i.store.Merges j.store ∧ j.depth = i.depth ∧ j.out = i.out
  lines := linesOnly_eq
  frame_of_scope h := h.1
  frame_unique := ordered_shifted.eq_iff
  depth_eq h := h.2.1
  move _ _ h := h
  nest _ h := ⟨h.1, rfl, h.2.2⟩
  grow h hab := by
    obtain rfl := hab
    obtain ⟨f, g, hf, -⟩ := h.1.outer
    have hpositive := Store.lt_size_of_frames _ _ hf
    exact ⟨⟨h.1.size_eq, Nat.ne_of_gt hpositive⟩, h.1.grow _, h.2⟩
  read h hab ht := by
    obtain rfl := hab
    obtain rfl := ht
    exact h.1.read _ _
  declare h hab ht hpq := by
    obtain ⟨rfl, hinner⟩ := hab
    obtain rfl := ht
    exact (h.1.declare (fun hglobals => absurd hglobals hinner) hpq).imp fun _ _ hs => ⟨hs, h.2⟩
  assign h hab ht hvw := by
    obtain rfl := hab
    obtain rfl := ht
    exact (h.1.assign _ _ hvw).imp fun _ _ hs => ⟨hs, h.2⟩
  write bytes h := by
    obtain ⟨hstore, hdepth, hout⟩ := h
    rw [hout]
    exact ⟨rfl, hstore, hdepth, rfl⟩

namespace merging

variable {v w : Value}

/-- In the globals a name is declared as in the frame inside, unless it is one of a builtin. -/
theorem declareTop {name : Token} (hname : Unbuilt name.lexeme) {p q : Binding}
    (hpq : p.Similar Shifted Eq q) :
    merging.Tandem globals (globals + 1) (fun _ _ => True) (Run.declare name p)
      (Run.declare name q) := by
  intro i j hij
  have h := hij.memory.1.declare (a := globals) (fun _ => hname) hpq
  unfold Run.declare Run.declareIn
  rw [hij.left, hij.right]
  generalize i.store.declare globals name p = r at h
  generalize j.store.declare (globals + 1) name q = r' at h
  cases h with
  | ok h => exact .ok trivial ⟨⟨h, hij.memory.2⟩, rfl, rfl⟩
  | error h => exact .error h hij

theorem evalTop (e : Expr) :
    merging.Tandem globals (globals + 1) merging.values (e.eval Interpreter.call)
      (e.eval Interpreter.call) :=
  merging.eval merging.call rfl e e (Expr.similar_refl (fun _ => rfl) e)

/-- One statement of the program. -/
theorem execTop (s : Stmt) (hs : ∀ x, s.Declares x → Unbuilt x) :
    merging.Tandem globals (globals + 1) merging.values (s.exec Interpreter.call)
      (s.exec Interpreter.call) := by
  cases s with
  | expression e =>
    rw [Stmt.exec]
    exact evalTop e
  | print e =>
    rw [Stmt.exec]
    exact Simulation.bind (evalTop e) fun _ _ hv =>
      Simulation.bind (Simulation.print hv) fun _ _ _ => Simulation.pure .nil
  | declare name e mutable =>
    rw [Stmt.exec]
    exact Simulation.bind (evalTop e) fun _ _ hv =>
      Simulation.bind (declareTop (hs _ rfl) ⟨rfl, hv⟩) fun _ _ _ => Simulation.pure .nil
  | function name parameters body =>
    rw [Stmt.exec]
    refine Simulation.bind Simulation.current ?_
    rintro _ _ ⟨rfl, rfl⟩
    have hclosure : Closure.Similar Shifted Eq ⟨name.lexeme, parameters, body, globals⟩
        ⟨name.lexeme, parameters, body, globals + 1⟩ :=
      ⟨rfl, List.forall₂_same.2 fun _ _ => rfl, Stmt.allSimilar_refl (fun _ => rfl) body, rfl⟩
    exact Simulation.bind (declareTop (hs _ rfl) ⟨rfl, .closure hclosure⟩) fun _ _ _ =>
      Simulation.pure .nil
  | assign name e =>
    rw [Stmt.exec]
    exact Simulation.bind (evalTop e) fun _ _ hv =>
      Simulation.bind (Simulation.assignHere rfl rfl hv) fun _ _ _ => Simulation.pure .nil

/-- All statements of the program. -/
theorem executeEach (p : Program) (hp : ∀ s ∈ p, ∀ x, s.Declares x → Unbuilt x) (v : Value) :
    merging.Tandem globals (globals + 1) (fun _ _ => True) (Interpreter.executeEach p)
      (Stmt.execAll Interpreter.call v p).discard := by
  induction p generalizing v with
  | nil =>
    rw [Stmt.execAll]
    exact Simulation.pure trivial
  | cons s p ih =>
    rw [Stmt.execAll, Run.discard, bind_assoc]
    exact Simulation.bind (execTop s (hp s (List.mem_cons_self ..))) fun _ w _ =>
      ih (fun s hs => hp s (List.mem_cons_of_mem _ hs)) w

end merging

/-! ## From the start -/

/-- The program in a frame of its own leaves that frame in the end, and nothing is seen of it. -/
theorem execution_alike {out : Sink} (hout : out.Unfailing) (p : Program)
    (hp : ∀ s ∈ p, ∀ x, s.Declares x → Unbuilt x) :
    EndAlike (fun f g => g.diagnostic = f.diagnostic) (fun i j => j.out = i.out)
      (fun _ _ => True) (Interpreter.executeEach p (.new out))
      (Interpreter.runFresh p (.new out)) := by
  let start : Interpreter := ⟨initialStore.grow (some globals), globals + 1, none, 0, out⟩
  have hstart : merging.At globals (globals + 1) (.new out) start :=
    ⟨⟨.initial, rfl, rfl⟩, rfl, rfl⟩
  have hends := merging.executeEach p hp .nil _ _ hstart
  have hrun : Interpreter.runFresh p (.new out) =
      Interpreter.runIn (globals + 1) p { start with current := globals } := rfl
  rw [hrun, Interpreter.runIn_unfailing hout, Run.discard_inFrame, Run.inFrame_eq]
  generalize Interpreter.executeEach p (.new out) = r at hends
  generalize (Stmt.execAll Interpreter.call .nil p).discard start = r' at hends
  cases hends with
  | ok _ h => exact .ok trivial h.memory.2.2
  | error hfg h => exact .error hfg.diagnostic_eq h.memory.2.2

/-- The statements of a program that declares no builtin's name, executed one after the other
in a new interpreter, fail with the same error as the program in a frame of its own, or
neither fails, and they write the same. -/
theorem execution_in_globals {out : Sink} (hout : out.Unfailing) (p : Program)
    (hp : ∀ s ∈ p, ¬s.Declares "log") :
    (Interpreter.executeEach p).failure? (.new out) =
        (Interpreter.runFresh p).failure? (.new out) ∧
      ((Interpreter.executeEach p).after (.new out)).out =
        ((Interpreter.runFresh p).after (.new out)).out := by
  have hnames : ∀ s ∈ p, ∀ x, s.Declares x → Unbuilt x := fun s hs x hx =>
    unbuilt_of_ne fun hlog => hp s hs (hlog ▸ hx)
  have hends := execution_alike hout p hnames
  exact ⟨hends.failure?_eq.symm, hends.after.symm⟩

/-- A program that declares the name of a builtin can do so in a frame of its own only. -/
example :
    let p : Program := [.declare ⟨.identifier, "log", 1⟩ (.literal .nil) false]
    (Interpreter.executeEach p).failure? (.new .unlimited) ≠ none ∧
      (Interpreter.runFresh p).failure? (.new .unlimited) = none := by decide

/-- A function that assigns to a name of the frame around it, a call of it, and an assignment
to a builtin. -/
def counterProgram : Program :=
  let n : Token := ⟨.identifier, "n", 1⟩
  let f : Token := ⟨.identifier, "f", 2⟩
  [.declare n (.literal .nil) true,
    .function f [] [.assign n (.literal (.string "called"))],
    .expression (.call (.name f) ⟨.symbol .leftParen, "(", 3⟩ [] false),
    .print (.name n),
    .assign ⟨.identifier, "log", 5⟩ (.literal .nil)]

theorem execution_in_globals_counter :
    (∀ s ∈ counterProgram, ¬s.Declares "log") ∧
      (Interpreter.executeEach counterProgram).failure? (.new .unlimited) =
        (Interpreter.runFresh counterProgram).failure? (.new .unlimited) ∧
      ((Interpreter.executeEach counterProgram).after (.new .unlimited)).out =
        ((Interpreter.runFresh counterProgram).after (.new .unlimited)).out := by
  have hp : ∀ s ∈ counterProgram, ¬s.Declares "log" := by
    simp [counterProgram, Stmt.Declares]
  exact ⟨hp, execution_in_globals ⟨rfl, rfl⟩ counterProgram hp⟩

end PipeLang
