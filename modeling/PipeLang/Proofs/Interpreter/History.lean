import PipeLang.Proofs.Interpreter.Hereditary

/-!
# What every step of an evaluation keeps

A relation between interpreters is a `History` when each single thing that a program can do
to an interpreter respects it : a frame more, a name declared or assigned, a line printed, a
step in another frame or one call deeper. Then evaluating an expression, executing a
statement and calling a value respect it too, whatever they do and however they end
(`History.eval`, `History.exec`, `History.apply`).
-/

namespace PipeLang

/-! ## The state that a step leaves -/

namespace Run

variable {α β : Type}

/-- The state that a step leaves, whether it fails or not. -/
def after (x : Run α) (i : Interpreter) : Interpreter :=
  match x i with
  | .ok _ j => j
  | .error _ j => j

/-- What a step leaves when it ends with a value. -/
theorem after_ok {x : Run α} {i j : Interpreter} {a : α} (h : x i = .ok a j) :
    x.after i = j := by
  rw [after, h]

/-- And when it ends with a fault : the state is kept either way. -/
theorem after_error {x : Run α} {i j : Interpreter} {f : Fault} (h : x i = .error f j) :
    x.after i = j := by
  rw [after, h]

/-- The second step goes on from where the first has ended. -/
theorem bind_ok {x : Run α} {k : α → Run β} {i j : Interpreter} {a : α}
    (h : x i = .ok a j) : (x >>= k) i = k a j := by
  simp only [bind, EStateM.bind, h]

/-- A fault leaves no second step. -/
theorem bind_error {x : Run α} {k : α → Run β} {i j : Interpreter} {f : Fault}
    (h : x i = .error f j) : (x >>= k) i = .error f j := by
  simp only [bind, EStateM.bind, h]

theorem after_bind_ok {x : Run α} {k : α → Run β} {i j : Interpreter} {a : α}
    (h : x i = .ok a j) : (x >>= k).after i = (k a).after j := by
  rw [after, after, bind_ok h]

/-- What is answered at the end changes no state. -/
theorem after_bind_pure (x : Run α) (b : β) (i : Interpreter) :
    (x >>= fun _ => pure b).after i = x.after i := by
  cases h : x i with
  | ok a j => rw [after_bind_ok h, after_ok h]; rfl
  | error f j => rw [after_error (bind_error h), after_error h]

end Run

/-! ## Histories -/

/-- A relation between an interpreter and a later one that the single steps respect. -/
structure History (R : Interpreter → Interpreter → Prop) : Prop where
  refl : ∀ i, R i i
  trans : ∀ {i j k}, R i j → R j k → R i k
  grow : ∀ i enclosing, R i { i with store := i.store.grow enclosing }
  declare : ∀ i frame name b store, i.store.declare frame name b = .ok store →
    R i { i with store := store }
  assign : ∀ i name v store, i.store.assign i.current name v = .ok store →
    R i { i with store := store }
  write : ∀ i bytes, R i { i with out := i.out.write bytes }
  share : ∀ i frame, i.shared = none → R i { i with shared := some frame }
  /-- A step in another frame, and back. -/
  scope : ∀ {i j} frame, R { i with current := frame } j → R i { j with current := i.current }
  /-- A step one call deeper, and back. -/
  nest : ∀ {i j}, R { i with depth := i.depth + 1 } j → R i { j with depth := j.depth - 1 }

/-- The step leads to a later interpreter. -/
def Run.Within {α : Type} (R : Interpreter → Interpreter → Prop) (x : Run α) : Prop :=
  ∀ i, R i (x.after i)

namespace History

variable {R : Interpreter → Interpreter → Prop} {α β : Type}

/-! ### Single steps -/

theorem pure (hR : History R) (a : α) : Run.Within R (Pure.pure a) := hR.refl

theorem throw (hR : History R) (f : Fault) : Run.Within R (MonadExcept.throw f : Run α) :=
  hR.refl

/-- Two steps, or the first alone if it fails. -/
theorem bind (hR : History R) {x : Run α} {k : α → Run β} (hx : Run.Within R x)
    (hk : ∀ a, Run.Within R (k a)) : Run.Within R (x >>= k) := by
  intro i
  cases h : x i with
  | ok a j =>
    have first : R i j := by simpa [Run.after_ok h] using hx i
    simpa [Run.after, Run.bind_ok h] using hR.trans first (hk a j)
  | error f j =>
    have first : R i j := by simpa [Run.after_error h] using hx i
    simpa [Run.after, Run.bind_error h] using first

/-- A name that is read changes nothing. -/
theorem read (hR : History R) (name : Token) : Run.Within R (Run.read name) := by
  intro i
  cases h : i.store.read i.current name <;> simpa [Run.after, Run.read, h] using hR.refl i

/-- A declaration either happens or changes nothing. -/
theorem declareIn (hR : History R) (frame : FrameId) (name : Token) (b : Binding) :
    Run.Within R (Run.declareIn frame name b) := by
  intro i
  cases h : i.store.declare frame name b with
  | ok store => simpa [Run.after, Run.declareIn, h] using hR.declare i frame name b store h
  | error f => simpa [Run.after, Run.declareIn, h] using hR.refl i

theorem assignHere (hR : History R) (name : Token) (v : Value) :
    Run.Within R (Run.assign name v) := by
  intro i
  cases h : i.store.assign i.current name v with
  | ok store => simpa [Run.after, Run.assign, h] using hR.assign i name v store h
  | error f => simpa [Run.after, Run.assign, h] using hR.refl i

theorem newFrame (hR : History R) (enclosing : FrameId) :
    Run.Within R (Run.newFrame enclosing) :=
  fun i => hR.grow i (some enclosing)

theorem current (hR : History R) : Run.Within R Run.current := hR.refl

/-- The sink is written to whether it has room or not. -/
theorem print (hR : History R) (v : Value) : Run.Within R (Run.print v) := by
  intro i
  have h := hR.write i (v.display ++ "\n").toUTF8
  unfold Run.after Run.print
  generalize (v.display ++ "\n").toUTF8 = bytes at h ⊢
  cases hfits : i.out.fits bytes <;> simpa [hfits] using h

theorem flush (hR : History R) : Run.Within R Run.flush := by
  intro i
  cases h : i.out.flush <;> simpa [Run.after, Run.flush, h] using hR.refl i

/-! ### Scopes -/

/-- The current frame is the old one again after a fault as well. -/
theorem inFrame (hR : History R) (frame : FrameId) {x : Run α} (hx : Run.Within R x) :
    Run.Within R (Run.inFrame frame x) := by
  intro i
  have h := hR.scope frame (hx { i with current := frame })
  cases hrun : x { i with current := frame } <;>
    simpa [Run.after, Run.inFrame, hrun] using h

/-- And the depth likewise. -/
theorem nested (hR : History R) {x : Run α} (hx : Run.Within R x) :
    Run.Within R (Run.nested x) := by
  intro i
  have h := hR.nest (hx { i with depth := i.depth + 1 })
  cases hrun : x { i with depth := i.depth + 1 } <;>
    simpa [Run.after, Run.nested, hrun] using h

/-- The first time it is asked for, the frame is created. -/
theorem sharedFrame (hR : History R) : Run.Within R Interpreter.sharedFrame := by
  intro i
  cases h : i.shared with
  | some frame => simpa [Run.after, Interpreter.sharedFrame, h] using hR.refl i
  | none =>
    have hshare := hR.trans (hR.grow i (some Interpreter.globals)) (hR.share _ i.store.size h)
    simpa [Run.after, Interpreter.sharedFrame, h] using hshare

/-- A program is followed by a flush, whatever it came to. -/
theorem thenFlush (hR : History R) {x : Run Value} (hx : Run.Within R x) :
    Run.Within R (Run.thenFlush x) := by
  intro i
  have hrun := hx i
  unfold Run.after Run.thenFlush
  cases h : x i with
  | ok v j =>
    rw [Run.after_ok h] at hrun
    exact hR.trans hrun (hR.flush j)
  | error f j =>
    rw [Run.after_error h] at hrun
    have hflush := hR.flush j
    cases hj : Run.flush j with
    | ok u k => simpa [hj] using hR.trans hrun (Run.after_ok hj ▸ hflush)
    | error g k => simpa [hj] using hR.trans hrun (Run.after_error hj ▸ hflush)

/-! ### The evaluator -/

/-- To respect a history is hereditary. -/
theorem hereditary (hR : History R) : Run.Hereditary (Run.Within R) where
  pure := hR.pure
  throw := hR.throw
  bind := hR.bind
  read := hR.read
  declareIn := hR.declareIn
  assign := hR.assignHere
  newFrame := hR.newFrame
  current := hR.current
  print := hR.print
  inFrame := hR.inFrame
  nested := hR.nested
  atDepth h i := h i.depth i
  sharedFrame := hR.sharedFrame
  thenFlush := hR.thenFlush

theorem ofExcept (hR : History R) (r : Except Fault α) : Run.Within R (Run.ofExcept r) :=
  hR.hereditary.ofExcept r

theorem declareHere (hR : History R) (name : Token) (b : Binding) :
    Run.Within R (Run.declare name b) :=
  hR.hereditary.declare name b

theorem printAll (hR : History R) (vs : List Value) : Run.Within R (Run.printAll vs) :=
  hR.hereditary.printAll vs

theorem bindAll (hR : History R) (frame : FrameId) (ps : List Token) (vs : List Value) :
    Run.Within R (Run.bindAll frame ps vs) :=
  hR.hereditary.bindAll frame ps vs

section

variable {apply : Apply}

/-- Expressions, when calls lead to later interpreters. -/
theorem eval (hR : History R) (hcall : ∀ f token vs, Run.Within R (apply f token vs))
    (e : Expr) : Run.Within R (e.eval apply) :=
  hR.hereditary.eval hcall e

/-- Statements, in the same way. -/
theorem exec (hR : History R) (hcall : ∀ f token vs, Run.Within R (apply f token vs))
    (s : Stmt) : Run.Within R (s.exec apply) :=
  hR.hereditary.exec hcall s

theorem execAll (hR : History R) (hcall : ∀ f token vs, Run.Within R (apply f token vs))
    (last : Value) (ss : List Stmt) : Run.Within R (Stmt.execAll apply last ss) :=
  hR.hereditary.execAll hcall last ss

end

/-- Calls with any budget, since those inside them have a smaller one. -/
theorem apply (hR : History R) (budget : Nat) (f : Value) (token : Token) (vs : List Value) :
    Run.Within R (PipeLang.apply budget f token vs) :=
  hR.hereditary.apply budget f token vs

/-! ### Operations on an interpreter -/

theorem call (hR : History R) (f : Value) (token : Token) (vs : List Value) :
    Run.Within R (Interpreter.call f token vs) :=
  hR.hereditary.call f token vs

theorem runIn (hR : History R) (frame : FrameId) (p : Program) :
    Run.Within R (Interpreter.runIn frame p) :=
  hR.hereditary.runIn frame p

/-- Programs in a batch. -/
theorem runFresh (hR : History R) (p : Program) : Run.Within R (Interpreter.runFresh p) :=
  hR.hereditary.runFresh p

/-- Programs at a prompt. -/
theorem runShared (hR : History R) (p : Program) : Run.Within R (Interpreter.runShared p) :=
  hR.hereditary.runShared p

end History

/-! ## Frame and depth -/

/-- The same frame is current, and as many calls are under way. -/
structure Restored (i j : Interpreter) : Prop where
  current_eq : j.current = i.current
  depth_eq : j.depth = i.depth

/-- The current frame and the depth are what they were, so every step gives them back. -/
theorem history_restored : History Restored where
  refl _ := ⟨rfl, rfl⟩
  trans h h' := ⟨h'.current_eq.trans h.current_eq, h'.depth_eq.trans h.depth_eq⟩
  grow _ _ := ⟨rfl, rfl⟩
  declare _ _ _ _ _ _ := ⟨rfl, rfl⟩
  assign _ _ _ _ _ := ⟨rfl, rfl⟩
  write _ _ := ⟨rfl, rfl⟩
  share _ _ _ := ⟨rfl, rfl⟩
  scope _ h := ⟨rfl, h.depth_eq⟩
  nest h := ⟨h.current_eq, by simp [h.depth_eq]⟩

end PipeLang
