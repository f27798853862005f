import PipeLang.Proofs.Interpreter.History
import PipeLang.Proofs.Store.Similar

/-!
# Two runs side by side

A `Simulation` relates the frames, the tokens and the states of two runs, and says that the
single things that a program can do to an interpreter, done on both sides to related frames
with related tokens and values, come to the same and leave related states. Then so does the
evaluation of similar expressions, the execution of similar statements and the call of
similar values (`Simulation.eval`, `Simulation.exec`, `Simulation.apply`).

Names are looked up and assigned in related frames. They are declared in scopes, which are
the related frames that blocks, calls and programs are executed in. A relation between states
says nothing of the current frames : these are named where they matter (`Simulation.Tandem`).
-/

namespace PipeLang

/-- Both results are values, related by `Q`, or both are faults, related by `E`, and the states
are related by `M`. -/
inductive EndAlike {α β : Type} (E : Fault → Fault → Prop)
    (M : Interpreter → Interpreter → Prop) (Q : α → β → Prop) :
    EStateM.Result Fault Interpreter α → EStateM.Result Fault Interpreter β → Prop where
  | ok {v : α} {w : β} {i j : Interpreter} : Q v w → M i j → EndAlike E M Q (.ok v i) (.ok w j)
  | error {f g : Fault} {i j : Interpreter} : E f g → M i j →
    EndAlike E M Q (.error f i) (.error g j)

/-- How two runs go side by side. -/
structure Simulation where
  /-- Frames that are seen from both sides. -/
  frame : FrameId → FrameId → Prop
  /-- Frames that both sides execute statements in. -/
  scope : FrameId → FrameId → Prop
  token : Token → Token → Prop
  memory : Interpreter → Interpreter → Prop
  lines : LinesOnly token
  frame_of_scope : ∀ {a b}, scope a b → frame a b
  frame_unique : ∀ {a a' b b'}, frame a b → frame a' b' → (a = a' ↔ b = b')
  depth_eq : ∀ {i j}, memory i j → j.depth = i.depth
  move : ∀ {i j} a b, memory i j →
    memory { i with current := a } { j with current := b }
  nest : ∀ {i j} depth, memory i j →
    memory { i with depth := depth } { j with depth := depth }
  grow : ∀ {i j a b}, memory i j → frame a b →
    scope i.store.size j.store.size ∧
      memory { i with store := i.store.grow (some a) } { j with store := j.store.grow (some b) }
  read : ∀ {i j a b t u}, memory i j → frame a b → token t u →
    Agree (Fault.Similar frame token) (Value.Similar frame token)
      (i.store.read a t) (j.store.read b u)
  declare : ∀ {i j a b t u p q}, memory i j → scope a b → token t u →
    p.Similar frame token q →
    Agree (Fault.Similar frame token)
      (fun s s' => memory { i with store := s } { j with store := s' })
      (i.store.declare a t p) (j.store.declare b u q)
  assign : ∀ {i j a b t u v w}, memory i j → frame a b → token t u →
    v.Similar frame token w →
    Agree (Fault.Similar frame token)
      (fun s s' => memory { i with store := s } { j with store := s' })
      (i.store.assign a t v) (j.store.assign b u w)
  write : ∀ {i j} bytes, memory i j →
    j.out.fits bytes = i.out.fits bytes ∧
      memory { i with out := i.out.write bytes } { j with out := j.out.write bytes }

namespace Simulation

variable (S : Simulation) {α β γ δ : Type}

/-- Values that the runs come to side by side. -/
abbrev values : Value → Value → Prop := Value.Similar S.frame S.token

/-- Faults that the runs come to side by side. -/
abbrev faults : Fault → Fault → Prop := Fault.Similar S.frame S.token

/-- Related states, in which `a` and `b` are current. -/
structure At (a b : FrameId) (i j : Interpreter) : Prop where
  memory : S.memory i j
  left : i.current = a
  right : j.current = b

/-- From related states, in which `a` and `b` are current, the steps come to the same. -/
def Tandem (a b : FrameId) (Q : α → β → Prop) (x : Run α) (y : Run β) : Prop :=
  ∀ i j, S.At a b i j → EndAlike S.faults (S.At a b) Q (x i) (y j)

/-- The sinks of related states answer a flush alike. -/
def FlushAlike : Prop := ∀ ⦃i j : Interpreter⦄, S.memory i j → j.out.flush = i.out.flush

/-- Similar calls, in whatever frames, come to the same. -/
def Calls (apply apply' : Apply) : Prop :=
  ∀ {f g : Value} {t u : Token} {vs ws : List Value}, S.values f g → S.token t u →
    List.Forall₂ S.values vs ws → ∀ a b, S.Tandem a b S.values (apply f t vs) (apply' g u ws)

variable {S} {a b : FrameId} {Q : α → β → Prop} {R : γ → δ → Prop}

/-! ### Single steps -/

/-- Related values are the end of related steps. -/
theorem pure {v : α} {w : β} (h : Q v w) : S.Tandem a b Q (Pure.pure v) (Pure.pure w) :=
  fun _ _ hij => .ok h hij

/-- And so are related faults. -/
theorem throw {f g : Fault} (h : S.faults f g) :
    S.Tandem a b Q (MonadExcept.throw f) (MonadExcept.throw g) :=
  fun _ _ hij => .error h hij

/-- Results without effects, when they agree. -/
theorem ofExcept {r : Except Fault α} {r' : Except Fault β} (h : Agree S.faults Q r r') :
    S.Tandem a b Q (Run.ofExcept r) (Run.ofExcept r') := by
  intro i j hij
  cases h with
  | ok h => exact .ok h hij
  | error h => exact .error h hij

/-- First steps side by side, and then second steps from whatever related values they end with. -/
theorem bind {x : Run α} {y : Run β} {k : α → Run γ} {l : β → Run δ}
    (hx : S.Tandem a b Q x y) (hk : ∀ v w, Q v w → S.Tandem a b R (k v) (l w)) :
    S.Tandem a b R (x >>= k) (y >>= l) := by
  intro i j hij
  have first := hx i j hij
  generalize hr : x i = r at first
  generalize hr' : y j = r' at first
  cases first with
  | ok hvw hij =>
    rw [Run.bind_ok hr, Run.bind_ok hr']
    exact hk _ _ hvw _ _ hij
  | error hfg hij =>
    rw [Run.bind_error hr, Run.bind_error hr']
    exact .error hfg hij

/-- A name is looked up in related frames. -/
theorem readHere {t u : Token} (hab : S.frame a b) (ht : S.token t u) :
    S.Tandem a b S.values (Run.read t) (Run.read u) := by
  intro i j hij
  have h := S.read hij.memory hab ht
  unfold Run.read
  rw [hij.left, hij.right]
  generalize i.store.read a t = r at h
  generalize j.store.read b u = r' at h
  cases h with
  | ok h => exact .ok h hij
  | error h => exact .error h hij

/-- A name is declared in scopes, which may be fewer than the related frames. -/
theorem declareIn {c d : FrameId} {t u : Token} {p q : Binding} (hcd : S.scope c d)
    (ht : S.token t u) (hpq : p.Similar S.frame S.token q) :
    S.Tandem a b (fun _ _ => True) (Run.declareIn c t p) (Run.declareIn d u q) := by
  intro i j hij
  have h := S.declare hij.memory hcd ht hpq
  unfold Run.declareIn
  generalize i.store.declare c t p = r at h
  generalize j.store.declare d u q = r' at h
  cases h with
  | ok h => exact .ok trivial ⟨h, hij.left, hij.right⟩
  | error h => exact .error h hij

/-- So the current frames must be scopes. -/
theorem declareHere {t u : Token} {p q : Binding} (hab : S.scope a b) (ht : S.token t u)
    (hpq : p.Similar S.frame S.token q) :
    S.Tandem a b (fun _ _ => True) (Run.declare t p) (Run.declare u q) := by
  intro i j hij
  unfold Run.declare
  rw [hij.left, hij.right]
  exact declareIn hab ht hpq i j hij

/-- An assignment goes to the frames in which the names were declared. -/
theorem assignHere {t u : Token} {v w : Value} (hab : S.frame a b) (ht : S.token t u)
    (hvw : S.values v w) :
    S.Tandem a b (fun _ _ => True) (Run.assign t v) (Run.assign u w) := by
  rintro i j ⟨hij, rfl, rfl⟩
  have h := S.assign hij hab ht hvw
  unfold Run.assign
  generalize i.store.assign i.current t v = r at h
  generalize j.store.assign j.current u w = r' at h
  cases h with
  | ok h => exact .ok trivial ⟨h, rfl, rfl⟩
  | error h => exact .error h ⟨hij, rfl, rfl⟩

/-- New frames inside related ones are scopes. -/
theorem newFrame {c d : FrameId} (hcd : S.frame c d) :
    S.Tandem a b S.scope (Run.newFrame c) (Run.newFrame d) := by
  intro i j hij
  obtain ⟨hscope, hgrown⟩ := S.grow hij.memory hcd
  exact .ok hscope ⟨hgrown, hij.left, hij.right⟩

theorem current : S.Tandem a b (fun c d => c = a ∧ d = b) Run.current Run.current :=
  fun _ _ hij => .ok ⟨hij.left, hij.right⟩ hij

/-- Related values are printed alike, so the sinks take the same bytes. -/
theorem print {v w : Value} (hvw : S.values v w) :
    S.Tandem a b (fun _ _ => True) (Run.print v) (Run.print w) := by
  intro i j hij
  unfold Run.print
  rw [hvw.display_eq]
  obtain ⟨hfits, hwritten⟩ := S.write (v.display ++ "\n").toUTF8 hij.memory
  dsimp only
  rw [hfits]
  split
  · exact .ok trivial ⟨hwritten, hij.left, hij.right⟩
  · exact .error (.output .full) ⟨hwritten, hij.left, hij.right⟩

theorem printAll {vs ws : List Value} (h : List.Forall₂ S.values vs ws) :
    S.Tandem a b (fun _ _ => True) (Run.printAll vs) (Run.printAll ws) := by
  induction h with
  | nil => exact pure trivial
  | cons hvw _ ih => exact bind (print hvw) fun _ _ _ => ih

/-- Only programs flush, so this is asked of the sinks apart from the rest. -/
theorem flush (hflush : S.FlushAlike) :
    S.Tandem a b (fun _ _ => True) Run.flush Run.flush := by
  intro i j hij
  unfold Run.flush
  rw [hflush hij.memory]
  split
  · exact .ok trivial hij
  · exact .error (.output _) hij

/-- As many parameters as there are on both sides, up to the first fault. -/
theorem bindAll {c d : FrameId} (hcd : S.scope c d) {ps qs : List Token} {vs ws : List Value}
    (hps : List.Forall₂ S.token ps qs) (hvs : List.Forall₂ S.values vs ws) :
    S.Tandem a b (fun _ _ => True) (Run.bindAll c ps vs) (Run.bindAll d qs ws) := by
  induction hps generalizing vs ws with
  | nil => exact pure trivial
  | cons hp _ ih =>
    cases hvs with
    | nil => exact pure trivial
    | cons hv hvs =>
      rw [Run.bindAll, Run.bindAll]
      exact bind (declareIn hcd hp ⟨rfl, hv⟩) fun _ _ _ => ih hvs

/-! ### Scopes -/

/-- Related steps in other frames, and back to the old ones. -/
theorem inFrame {c d : FrameId} {x : Run α} {y : Run β} (hx : S.Tandem c d Q x y) :
    S.Tandem a b Q (Run.inFrame c x) (Run.inFrame d y) := by
  intro i j hij
  have inside := hx _ _ ⟨S.move c d hij.memory, rfl, rfl⟩
  unfold Run.inFrame
  dsimp only
  generalize x { i with current := c } = r at inside
  generalize y { j with current := d } = r' at inside
  cases inside with
  | ok hvw h => exact .ok hvw ⟨S.move _ _ h.memory, hij.left, hij.right⟩
  | error hfg h => exact .error hfg ⟨S.move _ _ h.memory, hij.left, hij.right⟩

/-- Both depths are equal, so they are raised and lowered to equal depths. -/
theorem nested {x : Run α} {y : Run β} (hx : S.Tandem a b Q x y) :
    S.Tandem a b Q (Run.nested x) (Run.nested y) := by
  intro i j hij
  have inside := hx _ _ ⟨S.nest (i.depth + 1) hij.memory, hij.left, hij.right⟩
  unfold Run.nested
  rw [S.depth_eq hij.memory]
  generalize x { i with depth := i.depth + 1 } = r at inside
  generalize y { j with depth := i.depth + 1 } = r' at inside
  cases inside with
  | ok hvw h =>
    dsimp only
    rw [S.depth_eq h.memory]
    exact .ok hvw ⟨S.nest _ h.memory, h.left, h.right⟩
  | error hfg h =>
    dsimp only
    rw [S.depth_eq h.memory]
    exact .error hfg ⟨S.nest _ h.memory, h.left, h.right⟩

/-- Blocks run in new frames inside the current ones. -/
theorem inChild (hab : S.frame a b) {x : Run α} {y : Run β}
    (hx : ∀ c d, S.scope c d → S.Tandem c d Q x y) :
    S.Tandem a b Q (Run.inChild x) (Run.inChild y) := by
  refine bind current ?_
  rintro _ _ ⟨rfl, rfl⟩
  exact bind (newFrame hab) fun c d hcd => inFrame (hx c d hcd)

/-! ### The evaluator -/

variable {apply₁ apply₂ : Apply}

mutual

/-- Similar expressions, in related frames. By induction on how they are similar, in one block
with arguments, branches and statements. -/
theorem eval (hcall : S.Calls apply₁ apply₂) {a b : FrameId} (hab : S.frame a b) : ∀ e e' : Expr,
    e.Similar S.token e' → S.Tandem a b S.values (e.eval apply₁) (e'.eval apply₂)
  | .literal value, _, .literal _ => by
    rw [Expr.eval, Expr.eval]
    exact pure (Value.similar_ofLiteral value)
  | .grouping inner, _, .grouping h => by
    rw [Expr.eval, Expr.eval]
    exact eval hcall hab inner _ h
  | .unary o r, _, .unary ho hr => by
    rw [Expr.eval, Expr.eval]
    exact bind (eval hcall hab r _ hr) fun _ _ hv => ofExcept (hv.unary S.lines ho)
  | .binary l o r, _, .binary hl ho hr => by
    rw [Expr.eval, Expr.eval]
    exact bind (eval hcall hab l _ hl) fun _ _ hv => bind (eval hcall hab r _ hr)
      fun _ _ hw => ofExcept (hv.binary S.lines ho S.frame_unique hw)
  | .name t, _, .name ht => by
    rw [Expr.eval, Expr.eval]
    exact readHere hab ht
  | .block body, _, .block h => by
    rw [Expr.eval, Expr.eval]
    exact inChild hab fun _ _ hcd => execAll hcall hcd Value.Similar.nil body _ h
  | .ifChain branches, _, .ifChain h => by
    rw [Expr.eval, Expr.eval]
    exact branches_eval hcall hab branches _ h
  | .call f t (e :: es) true, _, .call _ hf ht (.cons he hes) => by
    rw [Expr.eval, Expr.eval]
    exact bind (eval hcall hab e _ he) fun _ _ hv => bind (eval hcall hab f _ hf)
      fun _ _ hw => bind (evalAll hcall hab es _ hes) fun _ _ hvs =>
        hcall hw ht (.cons hv hvs) a b
  | .call f t [] true, _, .call _ hf ht .nil => by
    rw [Expr.eval, Expr.eval, Expr.evalAll, Expr.evalAll]
    · exact bind (eval hcall hab f _ hf) fun _ _ hw => bind (pure .nil)
        fun _ _ hvs => hcall hw ht hvs a b
    all_goals nofun
  | .call f t es false, _, .call _ hf ht hes => by
    rw [Expr.eval, Expr.eval]
    · exact bind (eval hcall hab f _ hf) fun _ _ hw =>
        bind (evalAll hcall hab es _ hes) fun _ _ hvs => hcall hw ht hvs a b
    all_goals nofun

theorem evalAll (hcall : S.Calls apply₁ apply₂) {a b : FrameId} (hab : S.frame a b) :
    ∀ es es' : List Expr, Expr.AllSimilar S.token es es' →
    S.Tandem a b (List.Forall₂ S.values) (Expr.evalAll apply₁ es) (Expr.evalAll apply₂ es')
  | [], _, .nil => by
    rw [Expr.evalAll, Expr.evalAll]
    exact pure .nil
  | e :: es, _, .cons he hes => by
    rw [Expr.evalAll, Expr.evalAll]
    exact bind (eval hcall hab e _ he) fun _ _ hv => bind (evalAll hcall hab es _ hes)
      fun _ _ hvs => pure (.cons hv hvs)

theorem branches_eval (hcall : S.Calls apply₁ apply₂) {a b : FrameId} (hab : S.frame a b) :
    ∀ bs bs' : List Branch, Branch.AllSimilar S.token bs bs' →
    S.Tandem a b S.values (Branch.eval apply₁ bs) (Branch.eval apply₂ bs')
  | [], _, .nil => by
    rw [Branch.eval, Branch.eval]
    exact pure .nil
  | .when condition body :: bs, _, .when hcondition hbody hbs => by
    rw [Branch.eval, Branch.eval]
    refine bind (eval hcall hab condition _ hcondition) fun v w hvw => ?_
    rw [hvw.isTruthy_eq]
    split
    · exact inChild hab fun _ _ hcd => execAll hcall hcd Value.Similar.nil body _ hbody
    · exact branches_eval hcall hab bs _ hbs
  | .otherwise body :: bs, _, .otherwise hbody _ => by
    rw [Branch.eval, Branch.eval]
    exact inChild hab fun _ _ hcd => execAll hcall hcd Value.Similar.nil body _ hbody

/-- Similar statements, in scopes, because they may declare names. -/
theorem exec (hcall : S.Calls apply₁ apply₂) {a b : FrameId} (hab : S.scope a b) : ∀ s s' : Stmt,
    s.Similar S.token s' → S.Tandem a b S.values (s.exec apply₁) (s'.exec apply₂)
  | .expression e, _, .expression he => by
    rw [Stmt.exec, Stmt.exec]
    exact eval hcall (S.frame_of_scope hab) e _ he
  | .print e, _, .print he => by
    rw [Stmt.exec, Stmt.exec]
    exact bind (eval hcall (S.frame_of_scope hab) e _ he) fun _ _ hv =>
      bind (print hv) fun _ _ _ => pure .nil
  | .declare x e mutable, _, .declare _ hx he => by
    rw [Stmt.exec, Stmt.exec]
    exact bind (eval hcall (S.frame_of_scope hab) e _ he) fun _ _ hv =>
      bind (declareHere hab hx ⟨rfl, hv⟩) fun _ _ _ => pure .nil
  | .function x ps body, _, .function hx hps hbody => by
    rw [Stmt.exec, Stmt.exec]
    refine bind current ?_
    rintro _ _ ⟨rfl, rfl⟩
    have hname := S.lines.lexeme_eq hx
    exact bind
      (declareHere hab hx ⟨rfl, .closure ⟨hname, hps, hbody, S.frame_of_scope hab⟩⟩)
      fun _ _ _ => pure .nil
  | .assign x e, _, .assign hx he => by
    rw [Stmt.exec, Stmt.exec]
    exact bind (eval hcall (S.frame_of_scope hab) e _ he) fun _ _ hv =>
      bind (assignHere (S.frame_of_scope hab) hx hv) fun _ _ _ => pure .nil

theorem execAll (hcall : S.Calls apply₁ apply₂) {a b : FrameId} (hab : S.scope a b) {v w : Value}
    (hvw : S.values v w) : ∀ ss ss' : List Stmt, Stmt.AllSimilar S.token ss ss' →
    S.Tandem a b S.values (Stmt.execAll apply₁ v ss) (Stmt.execAll apply₂ w ss')
  | [], _, .nil => by
    rw [Stmt.execAll, Stmt.execAll]
    exact pure hvw
  | s :: ss, _, .cons hs hss => by
    rw [Stmt.execAll, Stmt.execAll]
    exact bind (exec hcall hab s _ hs) fun _ _ hv => execAll hcall hab hv ss _ hss

end

/-- Similar bodies in new frames, inside the frames of similar closures. -/
theorem apply_closure {c d : Closure} (hcd : c.Similar S.frame S.token d)
    (hcall : S.Calls apply₁ apply₂) {vs ws : List Value} (hvs : List.Forall₂ S.values vs ws) :
    S.Tandem a b S.values
      (do
        let frame ← Run.newFrame c.frame
        Run.bindAll frame c.parameters vs
        Run.nested (Run.inFrame frame (Stmt.execAll apply₁ .nil c.body)))
      (do
        let frame ← Run.newFrame d.frame
        Run.bindAll frame d.parameters ws
        Run.nested (Run.inFrame frame (Stmt.execAll apply₂ .nil d.body))) :=
  bind (newFrame hcd.frame) fun _ _ hframe =>
    bind (bindAll hframe hcd.parameters hvs) fun _ _ _ =>
      nested (inFrame (execAll hcall hframe Value.Similar.nil c.body _ hcd.body))

/-- Similar calls. By induction on the budget, which is one less in the body. -/
theorem apply (budget : Nat) : S.Calls (PipeLang.apply budget) (PipeLang.apply budget) := by
  induction budget with
  | zero =>
    intro f g t u vs ws hfg ht hvs a b
    unfold PipeLang.apply
    cases hfg with
    | builtin => exact bind (printAll hvs) fun _ _ _ => pure .nil
    | closure hcd =>
      simp only [hcd.name_eq, ← hcd.parameters.length_eq, ← hvs.length_eq]
      split
      · exact throw (.arity _ _ _ ht)
      · exact throw (.depth _ ht)
    | _ => exact throw (.callee ht (by constructor))
  | succ budget ih =>
    intro f g t u vs ws hfg ht hvs a b
    unfold PipeLang.apply
    cases hfg with
    | builtin => exact bind (printAll hvs) fun _ _ _ => pure .nil
    | closure hcd =>
      simp only [hcd.name_eq, ← hcd.parameters.length_eq, ← hvs.length_eq]
      split
      · exact throw (.arity _ _ _ ht)
      · exact apply_closure hcd ih hvs
    | _ => exact throw (.callee ht (by constructor))

/-! ### Operations on an interpreter -/

/-- The budgets are equal, since the depths are. -/
theorem call : S.Calls Interpreter.call Interpreter.call := by
  intro f g t u vs ws hfg ht hvs a b i j hij
  unfold Interpreter.call
  rw [S.depth_eq hij.memory]
  exact apply _ hfg ht hvs a b i j hij

theorem evaluate {e e' : Expr} (he : e.Similar S.token e') (hab : S.frame a b) :
    S.Tandem a b S.values (Interpreter.evaluate e) (Interpreter.evaluate e') :=
  eval call hab e e' he

/-- Programs in scopes. The flush comes last and its failure goes before any other. -/
theorem runIn (hflush : S.FlushAlike) {c d : FrameId} {p q : Program} (hcd : S.scope c d)
    (hpq : Stmt.AllSimilar S.token p q) :
    S.Tandem a b (fun _ _ => True) (Interpreter.runIn c p) (Interpreter.runIn d q) := by
  intro i j hij
  have program := inFrame (execAll call hcd Value.Similar.nil p q hpq) i j hij
  unfold Interpreter.runIn
  generalize Run.inFrame c (Stmt.execAll Interpreter.call .nil p) i = r at program
  generalize Run.inFrame d (Stmt.execAll Interpreter.call .nil q) j = r' at program
  cases program with
  | ok _ hij => exact flush hflush _ _ hij
  | @error f g i j hfg hij =>
    have flushed := flush hflush i j hij
    dsimp only
    generalize Run.flush i = r at flushed
    generalize Run.flush j = r' at flushed
    cases flushed with
    | ok _ hij => exact .error hfg hij
    | error hfg hij => exact .error hfg hij

/-- Programs in new frames inside the globals. -/
theorem runFresh (hflush : S.FlushAlike) {p q : Program}
    (hglobals : S.frame Interpreter.globals Interpreter.globals)
    (hpq : Stmt.AllSimilar S.token p q) :
    S.Tandem a b (fun _ _ => True) (Interpreter.runFresh p) (Interpreter.runFresh q) :=
  bind (newFrame hglobals) fun _ _ hcd => runIn hflush hcd hpq

end Simulation

end PipeLang
