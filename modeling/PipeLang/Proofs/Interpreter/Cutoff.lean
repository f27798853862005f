import PipeLang.Proofs.Interpreter.Truncation
import PipeLang.Proofs.Interpreter.Unwinding

/-!
# The limit on calls only cuts runs off

A run with more calls under way is compared with the same run with fewer, or with fewer calls
allowed inside it. Nothing looks at the number of calls but the test whether a call is too
deep. So the two do the same until the first comes to a call that is too deep
(`Run.CutsOff`), and a run that does not come to one is the same with any larger limit.
-/

namespace PipeLang

/-- The interpreter with so many more calls under way. -/
def Interpreter.raised (k : Nat) (i : Interpreter) : Interpreter := { i with depth := i.depth + k }

/-- Two results of one step, the first with `k` more calls under way than `depth` : the first is
a call too deep, or they are the same but for the number of calls. -/
inductive Cutoff {α : Type} (k depth : Nat) :
    EStateM.Result Fault Interpreter α → EStateM.Result Fault Interpreter α → Prop where
  | deep {token : Token} {function : String} {i : Interpreter}
      {r : EStateM.Result Fault Interpreter α} :
    Cutoff k depth (.error (.depth token function) i) r
  | ok {a : α} {i : Interpreter} : i.depth = depth → Cutoff k depth (.ok a (i.raised k)) (.ok a i)
  | error {f : Fault} {i : Interpreter} : i.depth = depth →
    Cutoff k depth (.error f (i.raised k)) (.error f i)

namespace Run

variable {α β : Type} {k depth : Nat}

/-- With `k` more calls under way than `depth`, the step `x` does what `y` does with `depth`, or
it ends at a call too deep. -/
def CutsOff (k depth : Nat) (x y : Run α) : Prop :=
  ∀ i, i.depth = depth → Cutoff k depth (x (i.raised k)) (y i)

/-- Calls of all values with all arguments. -/
def CallsCutOff (k depth : Nat) (apply apply' : Apply) : Prop :=
  ∀ f token vs, CutsOff k depth (apply f token vs) (apply' f token vs)

namespace CutsOff

/-! ## Single steps -/

/-- A step that does not look at the number of calls. -/
theorem of_blind {x : Run α} (hblind : ∀ i, x (i.raised k) = mapState (·.raised k) (x i))
    (hkeeps : Within Restored x) : CutsOff k depth x x := by
  intro i hi
  have hdepth := (hkeeps i).depth_eq
  rw [hblind]
  unfold after at hdepth
  generalize x i = r at hdepth
  cases r with
  | ok a j => exact .ok (hdepth.trans hi)
  | error f j => exact .error (hdepth.trans hi)

theorem pure (a : α) : CutsOff k depth (Pure.pure a) (Pure.pure a) := fun _ hi => .ok hi

theorem throw (f : Fault) :
    CutsOff k depth (MonadExcept.throw f : Run α) (MonadExcept.throw f) := fun _ hi => .error hi

/-- When the first steps are the same, the second ones are compared, from the same value. -/
theorem bind {x x' : Run α} {l l' : α → Run β} (hx : CutsOff k depth x x')
    (hl : ∀ a, CutsOff k depth (l a) (l' a)) : CutsOff k depth (x >>= l) (x' >>= l') := by
  intro i hi
  have first := hx i hi
  simp only [Bind.bind, EStateM.bind]
  generalize x (i.raised k) = r, x' i = r' at first
  cases first with
  | deep => exact .deep
  | ok hj => exact hl _ _ hj
  | error hj => exact .error hj

theorem ofExcept (r : Except Fault α) : CutsOff k depth (Run.ofExcept r) (Run.ofExcept r) := by
  cases r with
  | ok a => exact pure a
  | error f => exact throw f

/-- Names do not depend on the depth. -/
theorem read (name : Token) : CutsOff k depth (Run.read name) (Run.read name) := by
  refine of_blind (fun i => ?_) (history_restored.read name)
  unfold Run.read Interpreter.raised
  cases i.store.read i.current name <;> rfl

theorem declareIn (frame : FrameId) (name : Token) (b : Binding) :
    CutsOff k depth (Run.declareIn frame name b) (Run.declareIn frame name b) := by
  refine of_blind (fun i => ?_) (history_restored.declareIn frame name b)
  unfold Run.declareIn Interpreter.raised
  cases i.store.declare frame name b <;> rfl

theorem assign (name : Token) (v : Value) :
    CutsOff k depth (Run.assign name v) (Run.assign name v) := by
  refine of_blind (fun i => ?_) (history_restored.assignHere name v)
  unfold Run.assign Interpreter.raised
  cases i.store.assign i.current name v <;> rfl

/-- Nor does the output. -/
theorem print (v : Value) : CutsOff k depth (Run.print v) (Run.print v) := by
  refine of_blind (fun i => ?_) (history_restored.print v)
  unfold Run.print Interpreter.raised
  dsimp only
  cases i.out.fits (v.display ++ "\n").toUTF8 <;> rfl

theorem current : CutsOff k depth Run.current Run.current :=
  of_blind (fun _ => rfl) history_restored.current

theorem newFrame (enclosing : FrameId) :
    CutsOff k depth (Run.newFrame enclosing) (Run.newFrame enclosing) :=
  of_blind (fun _ => rfl) (history_restored.newFrame enclosing)

theorem declare (name : Token) (b : Binding) :
    CutsOff k depth (Run.declare name b) (Run.declare name b) :=
  bind current fun frame => declareIn frame name b

theorem printAll (vs : List Value) : CutsOff k depth (Run.printAll vs) (Run.printAll vs) := by
  induction vs with
  | nil => exact pure ()
  | cons v vs ih => exact bind (print v) fun _ => ih

theorem bindAll (frame : FrameId) (ps : List Token) (vs : List Value) :
    CutsOff k depth (Run.bindAll frame ps vs) (Run.bindAll frame ps vs) := by
  fun_induction Run.bindAll frame ps vs with
  | case1 p ps v vs ih => exact bind (declareIn frame p _) fun _ => ih
  | case2 => exact pure ()

/-! ## Scopes -/

/-- Nor do frames : the current one is set and set back on both sides. -/
theorem inFrame (frame : FrameId) {x x' : Run α} (hx : CutsOff k depth x x') :
    CutsOff k depth (Run.inFrame frame x) (Run.inFrame frame x') := by
  intro i hi
  have inside := hx { i with current := frame } hi
  rw [inFrame_eq, inFrame_eq]
  change Cutoff k depth (mapState _ (x (({ i with current := frame } : Interpreter).raised k))) _
  generalize x (({ i with current := frame } : Interpreter).raised k) = r,
    x' { i with current := frame } = r' at inside
  cases inside with
  | deep => exact .deep
  | @ok a j hj => exact .ok (i := { j with current := i.current }) hj
  | @error f j hj => exact .error (i := { j with current := i.current }) hj

/-- A call begins. -/
theorem enter_raised (k : Nat) (i : Interpreter) :
    ({ i.raised k with depth := (i.raised k).depth + 1 } : Interpreter) =
      ({ i with depth := i.depth + 1 } : Interpreter).raised k :=
  congrArg (fun depth => ({ i with depth := depth } : Interpreter)) (Nat.add_right_comm ..)

/-- A call ends. -/
theorem leave_raised (k : Nat) {i : Interpreter} (hi : i.depth = depth + 1) :
    ({ i.raised k with depth := (i.raised k).depth - 1 } : Interpreter) =
      ({ i with depth := i.depth - 1 } : Interpreter).raised k :=
  congrArg (fun depth => ({ i with depth := depth } : Interpreter))
    (Nat.sub_add_comm (hi ▸ Nat.le_add_left 1 depth))

/-- One call deeper on both sides keeps the difference of the depths. -/
theorem nested {x x' : Run α} (hx : CutsOff k (depth + 1) x x') :
    CutsOff k depth (Run.nested x) (Run.nested x') := by
  intro i hi
  have inside := hx { i with depth := i.depth + 1 } (congrArg (· + 1) hi)
  rw [nested_eq, nested_eq, enter_raised]
  generalize x (({ i with depth := i.depth + 1 } : Interpreter).raised k) = r,
    x' { i with depth := i.depth + 1 } = r' at inside
  cases inside with
  | deep => exact .deep
  | @ok a j hj =>
    rw [mapState, leave_raised k hj]
    exact .ok (by rw [hj, Nat.add_sub_cancel])
  | @error f j hj =>
    rw [mapState, leave_raised k hj]
    exact .error (by rw [hj, Nat.add_sub_cancel])

theorem inChild {x x' : Run α} (hx : CutsOff k depth x x') :
    CutsOff k depth (Run.inChild x) (Run.inChild x') :=
  bind current fun outer => bind (newFrame outer) fun frame => inFrame frame hx

/-! ## The evaluator -/

section

variable {apply apply' : Apply}

mutual

/-- An expression does the same as with fewer calls under way, or a call in it is too deep. -/
theorem eval (hcall : CallsCutOff k depth apply apply') :
    ∀ e : Expr, CutsOff k depth (e.eval apply) (e.eval apply')
  | .literal value => by
    rw [Expr.eval, Expr.eval]
    exact pure _
  | .grouping inner => by
    rw [Expr.eval, Expr.eval]
    exact eval hcall inner
  | .unary operator right => by
    rw [Expr.eval, Expr.eval]
    exact bind (eval hcall right) fun _ => ofExcept _
  | .binary left operator right => by
    rw [Expr.eval, Expr.eval]
    exact bind (eval hcall left) fun _ => bind (eval hcall right) fun _ => ofExcept _
  | .name token => by
    rw [Expr.eval, Expr.eval]
    exact read token
  | .block body => by
    rw [Expr.eval, Expr.eval]
    exact inChild (execAll hcall Value.nil body)
  | .ifChain branches => by
    rw [Expr.eval, Expr.eval]
    exact branches_eval hcall branches
  | .call callee token (first :: others) true => by
    rw [Expr.eval, Expr.eval]
    exact bind (eval hcall first) fun v => bind (eval hcall callee) fun f =>
      bind (evalAll hcall others) fun vs => hcall f token (v :: vs)
  | .call callee token [] true => by
    rw [Expr.eval, Expr.eval]
    · exact bind (eval hcall callee) fun f => bind (evalAll hcall []) fun vs => hcall f token vs
    all_goals nofun
  | .call callee token arguments false => by
    rw [Expr.eval, Expr.eval]
    · exact bind (eval hcall callee) fun f => bind (evalAll hcall arguments) fun vs =>
        hcall f token vs
    all_goals nofun

theorem evalAll (hcall : CallsCutOff k depth apply apply') :
    ∀ es : List Expr, CutsOff k depth (Expr.evalAll apply es) (Expr.evalAll apply' es)
  | [] => by
    rw [Expr.evalAll, Expr.evalAll]
    exact pure []
  | e :: es => by
    rw [Expr.evalAll, Expr.evalAll]
    exact bind (eval hcall e) fun _ => bind (evalAll hcall es) fun _ => pure _

theorem branches_eval (hcall : CallsCutOff k depth apply apply') :
    ∀ bs : List Branch, CutsOff k depth (Branch.eval apply bs) (Branch.eval apply' bs)
  | [] => by
    rw [Branch.eval, Branch.eval]
    exact pure Value.nil
  | .when condition body :: bs => by
    rw [Branch.eval, Branch.eval]
    refine bind (eval hcall condition) fun v => ?_
    split
    · exact inChild (execAll hcall Value.nil body)
    · exact branches_eval hcall bs
  | .otherwise body :: bs => by
    rw [Branch.eval, Branch.eval]
    exact inChild (execAll hcall Value.nil body)

/-- So does a statement. -/
theorem exec (hcall : CallsCutOff k depth apply apply') :
    ∀ s : Stmt, CutsOff k depth (s.exec apply) (s.exec apply')
  | .expression value => by
    rw [Stmt.exec, Stmt.exec]
    exact eval hcall value
  | .print value => by
    rw [Stmt.exec, Stmt.exec]
    exact bind (eval hcall value) fun v => bind (print v) fun _ => pure Value.nil
  | .declare name initializer mutable => by
    rw [Stmt.exec, Stmt.exec]
    exact bind (eval hcall initializer) fun v =>
      bind (declare name ⟨mutable, v⟩) fun _ => pure Value.nil
  | .function name parameters body => by
    rw [Stmt.exec, Stmt.exec]
    exact bind current fun frame => bind (declare name _) fun _ => pure Value.nil
  | .assign name value => by
    rw [Stmt.exec, Stmt.exec]
    exact bind (eval hcall value) fun v => bind (assign name v) fun _ => pure Value.nil

theorem execAll (hcall : CallsCutOff k depth apply apply') :
    ∀ (last : Value) (ss : List Stmt),
      CutsOff k depth (Stmt.execAll apply last ss) (Stmt.execAll apply' last ss)
  | last, [] => by
    rw [Stmt.execAll, Stmt.execAll]
    exact pure last
  | last, s :: ss => by
    rw [Stmt.execAll, Stmt.execAll]
    exact bind (exec hcall s) fun v => execAll hcall v ss

end

end

/-! ## Calls -/

/-- The builtin does not look at its budget. -/
theorem apply_log (budget budget' : Nat) (token : Token) (vs : List Value) :
    CutsOff k depth (PipeLang.apply budget (.builtin .log) token vs)
      (PipeLang.apply budget' (.builtin .log) token vs) := by
  rw [PipeLang.apply, PipeLang.apply]
  exact bind (printAll vs) fun _ => pure Value.nil

/-- Nor does a call that fails before its body. -/
theorem apply_arity {c : Closure} {vs : List Value} (h : vs.length ≠ c.parameters.length)
    (budget budget' : Nat) (token : Token) :
    CutsOff k depth (PipeLang.apply budget (.closure c) token vs)
      (PipeLang.apply budget' (.closure c) token vs) := by
  have fault (n : Nat) : PipeLang.apply n (.closure c) token vs =
      MonadExcept.throw (.arity token c.name c.parameters.length vs.length) := by
    unfold PipeLang.apply
    exact if_pos h
  rw [fault, fault]
  exact throw _

/-- A call that is made on both sides. -/
theorem apply_body {apply apply' : Apply} (hbody : CallsCutOff k (depth + 1) apply apply')
    (c : Closure) (vs : List Value) :
    CutsOff k depth
      (do
        let frame ← Run.newFrame c.frame
        Run.bindAll frame c.parameters vs
        Run.nested (Run.inFrame frame (Stmt.execAll apply .nil c.body)))
      (do
        let frame ← Run.newFrame c.frame
        Run.bindAll frame c.parameters vs
        Run.nested (Run.inFrame frame (Stmt.execAll apply' .nil c.body))) :=
  bind (newFrame c.frame) fun frame => bind (bindAll frame c.parameters vs) fun _ =>
    nested (inFrame frame (execAll hbody Value.nil c.body))

/-- Fewer calls may be under way, or more. -/
theorem apply {budget budget' : Nat} (h : budget ≤ budget') :
    CallsCutOff k depth (PipeLang.apply budget) (PipeLang.apply budget') := by
  induction budget generalizing budget' depth with
  | zero =>
    intro f token vs
    cases f with
    | builtin b => exact apply_log 0 budget' token vs
    | closure c =>
      by_cases hlength : vs.length = c.parameters.length
      · intro i _
        rw [PipeLang.apply, if_neg (· hlength)]
        exact .deep
      · exact apply_arity hlength 0 budget' token
    | _ =>
      unfold PipeLang.apply
      exact throw _
  | succ budget ih =>
    obtain ⟨more, rfl⟩ := Nat.exists_eq_add_of_le' (Nat.le_trans (Nat.le_add_left 1 budget) h)
    intro f token vs
    cases f with
    | builtin b => exact apply_log (budget + 1) (more + 1) token vs
    | closure c =>
      by_cases hlength : vs.length = c.parameters.length
      · rw [PipeLang.apply, PipeLang.apply, if_neg (· hlength), if_neg (· hlength)]
        exact apply_body (ih (Nat.le_of_succ_le_succ h)) c vs
      · exact apply_arity hlength (budget + 1) (more + 1) token
    | _ =>
      unfold PipeLang.apply
      exact throw _

/-- Calls made from outside, and calls with at least what they have left. -/
theorem call_apply {budget : Nat} (h : callLimit - (depth + k) ≤ budget) :
    CallsCutOff k depth Interpreter.call (PipeLang.apply budget) := by
  intro f token vs i hi
  subst hi
  exact apply h f token vs i rfl

/-- Calls made from outside have fewer calls left, the more are under way. -/
theorem call : CallsCutOff k depth Interpreter.call Interpreter.call := by
  intro f token vs i hi
  subst hi
  exact apply (Nat.sub_le_sub_left (Nat.le_add_right ..) callLimit) f token vs i rfl

/-- Without a call too deep the two are the same but for the number of calls. -/
theorem eq_of_not_deep {x y : Run α} (h : CutsOff k depth x y) {i : Interpreter}
    (hi : i.depth = depth)
    (hdeep : ∀ token function j, x (i.raised k) ≠ .error (.depth token function) j) :
    y i = mapState (fun j => { j with depth := depth }) (x (i.raised k)) := by
  have hboth := h i hi
  generalize x (i.raised k) = r, y i = r' at hboth hdeep
  cases hboth with
  | deep => exact (hdeep _ _ _ rfl).elim
  | ok hj =>
    subst hj
    rfl
  | error hj =>
    subst hj
    rfl

end CutsOff

end Run

/-- The fault is shown as a call too deep. -/
def Fault.IsTooDeep (f : Fault) : Prop := f.diagnostic.message = "Maximum call depth exceeded"

/-- No other fault is shown so. -/
theorem Fault.isTooDeep_iff {f : Fault} :
    f.IsTooDeep ↔ ∃ token function, f = .depth token function := by
  constructor
  · intro h
    unfold IsTooDeep at h
    cases f with
    | depth token function => exact ⟨token, function, rfl⟩
    | redeclared name =>
      change "Cannot redeclare variable \"" ++ name.lexeme ++ "\"" = _ at h
      rw [String.append_assoc] at h
      exact absurd h (append_ne_of_start _ (by decide))
    | arity call function expected given =>
      change (if given < expected then "Missing argument" else "Too many arguments")
        ++ " for function \"" ++ function ++ "\"" = _ at h
      rw [String.append_assoc, String.append_assoc] at h
      split at h
      · exact absurd h (append_ne_of_start _ (by decide))
      · exact absurd h (append_ne_of_start _ (by decide))
    | output error => cases error <;> exact absurd h (by decide)
    | _ => exact absurd h (by simp [diagnostic, Diagnostic.runtimeOn, Diagnostic.message])
  · rintro ⟨token, function, rfl⟩
    rfl

namespace Interpreter

/-- The limit on calls only cuts runs off. When statements do not end with a call too deep,
they do at any smaller depth what they do at this one, and the same with any larger limit. And
a fault, a call too deep or another, ends all the statements wherever it comes up, with the
store and the output as they are then; it ends every operation, only that at the end of a
program a failed flush takes its place. -/
theorem depth_limit_cutoff (ss : List Stmt) (i : Interpreter) {d d' : Nat} (hd : d' ≤ d) :
    ((∀ f j, Stmt.execAll call .nil ss { i with depth := d } = .error f j → ¬ f.IsTooDeep) →
      Stmt.execAll call .nil ss { i with depth := d' } =
          Run.mapState (fun j => { j with depth := d' })
            (Stmt.execAll call .nil ss { i with depth := d }) ∧
        ∀ budget, callLimit - d ≤ budget →
          Stmt.execAll (apply budget) .nil ss { i with depth := d } =
            Stmt.execAll call .nil ss { i with depth := d }) ∧
      (∀ f ws j,
        Machine.Reaches ⟨.sequence .nil ss, [], { i with depth := d }⟩ ⟨.fault f, ws, j⟩ →
          ∃ k, Stmt.execAll call .nil ss { i with depth := d } = .error f k ∧
            k.store = j.store ∧ k.out = j.out) ∧
      ∀ (op : Operation) f ws j,
        (op.machine { i with depth := d }).Reaches ⟨.fault f, ws, j⟩ →
          ∃ g k, op.perform { i with depth := d } = .error g k ∧ k.store = j.store ∧
            k.out = j.out ∧ (g = f ∨ ∃ e, j.out.flush = .error e ∧ g = .output e) := by
  refine ⟨fun hend => ?_, fun _ _ _ h => Stmt.execAll_unwound h,
    fun _ _ _ _ h => Operation.ends_unwound h⟩
  have hdeep : ∀ token function j,
      Stmt.execAll call .nil ss { i with depth := d } ≠ .error (.depth token function) j :=
    fun token function j h => hend _ j h (Fault.isTooDeep_iff.2 ⟨token, function, rfl⟩)
  constructor
  · obtain ⟨k, rfl⟩ := Nat.exists_eq_add_of_le hd
    exact (Run.CutsOff.execAll .call Value.nil ss).eq_of_not_deep rfl hdeep
  · -- With no call more, the statements are compared with themselves.
    intro budget hbudget
    let j : Interpreter := { i with depth := d }
    have own : Run.CallsCutOff 0 d call call := .call
    have larger : Run.CallsCutOff 0 d call (apply budget) := .call_apply hbudget
    have hown := (Run.CutsOff.execAll own Value.nil ss).eq_of_not_deep (i := j) rfl hdeep
    have hlarger := (Run.CutsOff.execAll larger Value.nil ss).eq_of_not_deep (i := j) rfl hdeep
    exact hlarger.trans hown.symm

/-- At the limit less one there is room for a call, which does the same from the start and with
any number of calls. At the limit the same call is too deep. -/
theorem depth_limit_cutoff_last :
    let name : Token := ⟨.identifier, "f", 1⟩
    let token : Token := ⟨.symbol .leftParen, "(", 1⟩
    let ss : List Stmt := [.function name [] [], .expression (.call (.name name) token [] false)]
    let i : Interpreter := .new .unlimited
    0 ≤ 999 ∧
      Stmt.execAll call .nil ss { i with depth := 0 } =
        Run.mapState (fun j => { j with depth := 0 })
          (Stmt.execAll call .nil ss { i with depth := 999 }) ∧
      Stmt.execAll (apply 2000) .nil ss { i with depth := 999 } =
        Stmt.execAll call .nil ss { i with depth := 999 } ∧
      ∃ k, Stmt.execAll call .nil ss { i with depth := 1000 } = .error (.depth token "f") k := by
  intro name token ss i
  let c : Value := .closure ⟨"f", [], [], globals⟩
  let store : Store := i.store.bind globals "f" ⟨false, c⟩
  have hcall (n : Nat) : Machine.Reaches ⟨.sequence .nil ss, [], { i with depth := n }⟩
      ⟨.call c token [], [.sequel []], { i with depth := n, store := store }⟩ := by
    let j : Interpreter := { i with depth := n, store := store }
    have hread : Run.read name j = .ok c j := by
      rw [Run.read, Store.read, Store.find?]
      rfl
    have hname : Machine.Reaches (.settled (Run.read name j) [.callee token [] [], .sequel []])
        ⟨.call c token [], [.sequel []], j⟩ := by
      rw [hread]
      exact .step rfl (.single rfl)
    exact .step rfl (.step rfl (.step rfl (.step rfl (.step rfl (.step rfl (.step rfl hname))))))
  have hroom : ∀ f j,
      Stmt.execAll call .nil ss { i with depth := 999 } = .error f j → ¬ f.IsTooDeep := by
    intro f j h
    have hfault := (Machine.follows_call 999).sequence ss .nil { i with depth := 999 } rfl []
    rw [Machine.settled_error h] at hfault
    have hvalue : Machine.Reaches ⟨.sequence .nil ss, [], { i with depth := 999 }⟩
        ⟨.value .nil, [], { i with depth := 999, store := store.grow (some globals) }⟩ :=
      (hcall 999).trans <|
        Machine.Reaches.step rfl (.step rfl (.step rfl (.step rfl (.step rfl (.single rfl)))))
    cases hfault.end_unique hvalue rfl rfl
  have hdeep := (hcall 1000).trans (.single rfl)
  obtain ⟨hsame, hlarger⟩ := (depth_limit_cutoff ss i (Nat.zero_le 999)).1 hroom
  obtain ⟨k, hk, -⟩ := (depth_limit_cutoff ss i (Nat.le_refl 1000)).2.1 _ _ _ hdeep
  exact ⟨Nat.zero_le 999, hsame, hlarger 2000 (by decide), k, hk⟩

end Interpreter

end PipeLang
