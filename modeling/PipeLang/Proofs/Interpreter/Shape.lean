import PipeLang.Proofs.Interpreter.Hereditary
import PipeLang.Proofs.Store.Bindings
import PipeLang.Proofs.Syntax.Shape

/-!
# Well-shaped programs know their operators

An operator that is none is a fault of the tree, not of the program (`Fault.IsInternal`).
Trees that are well shaped never come to it. Nor do the closures in a store, as long as their
bodies are well shaped, and evaluation stores no others. So what is evaluated is safe
(`Run.Safe`) : it keeps the closures of the store well shaped, and it ends with a value that
is, or with a fault that is not internal.
-/

namespace PipeLang

/-! ## Internal faults -/

/-- A fault that only a tree can come to that is not well shaped. -/
def Fault.IsInternal : Fault → Prop
  | .unaryOperator _ | .binaryOperator _ => True
  | _ => False

/-- The closures in the value are well shaped. -/
def Value.WellShaped : Value → Prop
  | .closure c => Stmt.AllWellShaped c.body
  | _ => True

/-- A result such as `Q` says, or a fault that is not internal. -/
def SafeResult {α : Type} (Q : α → Prop) : Except Fault α → Prop
  | .ok a => Q a
  | .error f => ¬ f.IsInternal

/-! ## Operators -/

namespace Value

section

variable {operator : Token} {v l r : Value}

/-- Operands of the wrong kind are a fault of the program. -/
theorem safe_arithmetic {g : Float → Float → Value} (hg : ∀ x y, (g x y).WellShaped) :
    SafeResult WellShaped (arithmetic operator g l r) := by
  unfold arithmetic
  split
  · exact hg _ _
  · exact id

/-- A sum is a number or a string, or it blames its operands. -/
theorem safe_sum : SafeResult WellShaped (sum operator l r) := by
  unfold sum
  split
  · trivial
  · split
    · exact id
    · trivial
  · exact id

/-- A quotient is a number, or it blames its operands or the divisor. -/
theorem safe_quotient : SafeResult WellShaped (quotient operator l r) := by
  unfold quotient
  split
  · split
    · exact id
    · trivial
  · exact id

/-- An operator that may stand in front is known. -/
theorem safe_unary (h : operator.kind ∈ Kind.unaryOperators) :
    SafeResult WellShaped (v.unary operator) := by
  unfold unary
  split
  · split
    · trivial
    · exact id
  · trivial
  · next hminus hbang =>
    simp only [Kind.unaryOperators, List.mem_cons, List.not_mem_nil, or_false] at h
    exact absurd h (not_or.2 ⟨hbang, hminus⟩)

/-- So is one that may stand between two operands. The last case of the evaluator is the only
internal one, and no operator of a well-shaped tree comes to it. -/
theorem safe_binary (h : operator.kind ∈ Kind.binaryOperators) :
    SafeResult WellShaped (l.binary operator r) := by
  unfold binary
  split
  case h_5 => exact safe_sum
  case h_6 => exact safe_quotient
  case h_13 => simp_all [Kind.binaryOperators]
  all_goals first | trivial | exact safe_arithmetic fun _ _ => trivial

/-- Before an operand the evaluator knows these operators and no others. -/
theorem unary_internal_iff :
    (∃ f, v.unary operator = .error f ∧ f.IsInternal) ↔
      operator.kind ∉ Kind.unaryOperators := by
  constructor
  · rintro ⟨f, hf, hinternal⟩ hmem
    have hresult := safe_unary (v := v) hmem
    rw [hf] at hresult
    exact hresult hinternal
  · intro hkind
    refine ⟨.unaryOperator operator, ?_, trivial⟩
    unfold unary
    split
    · next hminus => exact absurd (hminus ▸ by decide) hkind
    · next hbang => exact absurd (hbang ▸ by decide) hkind
    · rfl

/-- Between operands the evaluator knows these operators and no others. -/
theorem binary_internal_iff :
    (∃ f, l.binary operator r = .error f ∧ f.IsInternal) ↔
      operator.kind ∉ Kind.binaryOperators := by
  constructor
  · rintro ⟨f, hf, hinternal⟩ hmem
    have hresult := safe_binary (l := l) (r := r) hmem
    rw [hf] at hresult
    exact hresult hinternal
  · intro hkind
    refine ⟨.binaryOperator operator, ?_, trivial⟩
    unfold binary
    split <;> first | rfl | (next h => exact absurd (h ▸ by decide) hkind)

end

end Value

/-! ## Stores -/

/-- The closures in the store are well shaped. -/
def Store.WellShaped (s : Store) : Prop :=
  ∀ frame name b, s.binding? frame name = some b → b.value.WellShaped

namespace Store.WellShaped

variable {s : Store} {frame : FrameId} {name : Token}

theorem grow (h : s.WellShaped) (enclosing : Option FrameId) : (s.grow enclosing).WellShaped := by
  intro a x b hb
  rw [binding?_grow] at hb
  exact h a x b hb

/-- A value that is well shaped may be bound to any name. -/
theorem bind {b : Binding} (h : s.WellShaped) (hb : b.value.WellShaped) (x : String) :
    (s.bind frame x b).WellShaped := by
  intro a y c hc
  rw [binding?_bind] at hc
  split at hc
  · cases hc
    exact hb
  · exact h a y c hc

theorem write {v : Value} (h : s.WellShaped) (hv : v.WellShaped) (x : String) :
    (s.write frame x v).WellShaped := by
  intro a y c hc
  rw [binding?_write] at hc
  obtain ⟨b, hb, rfl⟩ := Option.map_eq_some_iff.1 hc
  split
  · exact hv
  · exact h a y b hb

/-- What is read was stored before. -/
theorem read (h : s.WellShaped) : SafeResult Value.WellShaped (s.read frame name) := by
  unfold Store.read
  cases hfind : s.find? frame name.lexeme with
  | none => exact id
  | some p => exact h p.1 _ p.2 (binding?_of_find? hfind)

theorem declare {b : Binding} (h : s.WellShaped) (hb : b.value.WellShaped) :
    SafeResult Store.WellShaped (s.declare frame name b) := by
  unfold Store.declare
  split
  · exact id
  · exact h.bind hb _

theorem assign {v : Value} (h : s.WellShaped) (hv : v.WellShaped) :
    SafeResult Store.WellShaped (s.assign frame name v) := by
  unfold Store.assign
  split
  · exact id
  · split
    · exact h.write hv _
    · exact id

/-- The builtin is no closure. -/
theorem initial : Interpreter.initialStore.WellShaped := by
  have hempty : Store.empty.WellShaped := fun _ _ _ hb => nomatch hb
  exact (hempty.grow none).bind (b := ⟨false, .builtin .log⟩) trivial Builtin.log.name

end Store.WellShaped

/-! ## Safe steps -/

namespace Run

variable {α β : Type} {Q : α → Prop} {R : β → Prop}

/-- From a store whose closures are well shaped, the step leads to such a store, with a value
such as `Q` says or with a fault that is not internal. -/
def Safe (Q : α → Prop) (x : Run α) : Prop := ∀ i, i.store.WellShaped →
  match x i with
  | .ok a j => j.store.WellShaped ∧ Q a
  | .error f j => j.store.WellShaped ∧ ¬ f.IsInternal

/-- Well-shaped functions are called safely with well-shaped arguments. -/
def SafeCalls (apply : Apply) : Prop := ∀ f token vs, f.WellShaped →
  (∀ v ∈ vs, v.WellShaped) → Safe Value.WellShaped (apply f token vs)

namespace Safe

theorem pure {a : α} (h : Q a) : Safe Q (Pure.pure a : Run α) := fun _ hi => ⟨hi, h⟩

theorem throw {f : Fault} (h : ¬ f.IsInternal) : Safe Q (MonadExcept.throw f : Run α) :=
  fun _ hi => ⟨hi, h⟩

/-- The second step starts from a store that the first has kept, with its value. -/
theorem bind {x : Run α} {k : α → Run β} (hx : Safe Q x) (hk : ∀ a, Q a → Safe R (k a)) :
    Safe R (x >>= k) := by
  intro i hi
  have first := hx i hi
  simp only [Bind.bind, EStateM.bind]
  generalize x i = r at first
  cases r with
  | ok a j => exact hk a first.2 j first.1
  | error f j => exact first

/-- A step without effects leaves the store alone. -/
theorem ofExcept {r : Except Fault α} (h : SafeResult Q r) : Safe Q (Run.ofExcept r) := by
  cases r with
  | ok a => exact pure h
  | error f => exact throw h

/-- A name that is not declared is a fault of the program. -/
theorem read (name : Token) : Safe Value.WellShaped (Run.read name) := by
  intro i hi
  have hresult : SafeResult Value.WellShaped (i.store.read i.current name) := hi.read
  unfold Run.read
  generalize i.store.read i.current name = r at hresult
  cases r with
  | ok v => exact ⟨hi, hresult⟩
  | error f => exact ⟨hi, hresult⟩

theorem declareIn (frame : FrameId) (name : Token) {b : Binding} (hb : b.value.WellShaped) :
    Safe (fun _ => True) (Run.declareIn frame name b) := by
  intro i hi
  have hresult : SafeResult Store.WellShaped (i.store.declare frame name b) := hi.declare hb
  unfold Run.declareIn
  generalize i.store.declare frame name b = r at hresult
  cases r with
  | ok store => exact ⟨hresult, trivial⟩
  | error f => exact ⟨hi, hresult⟩

theorem assign (name : Token) {v : Value} (hv : v.WellShaped) :
    Safe (fun _ => True) (Run.assign name v) := by
  intro i hi
  have hresult : SafeResult Store.WellShaped (i.store.assign i.current name v) := hi.assign hv
  unfold Run.assign
  generalize i.store.assign i.current name v = r at hresult
  cases r with
  | ok store => exact ⟨hresult, trivial⟩
  | error f => exact ⟨hi, hresult⟩

theorem declare (name : Token) {b : Binding} (hb : b.value.WellShaped) :
    Safe (fun _ => True) (Run.declare name b) :=
  fun i hi => declareIn i.current name hb i hi

theorem current : Safe (fun _ => True) Run.current := fun _ hi => ⟨hi, trivial⟩

theorem newFrame (enclosing : FrameId) : Safe (fun _ => True) (Run.newFrame enclosing) :=
  fun _ hi => ⟨hi.grow _, trivial⟩

theorem print (v : Value) : Safe (fun _ => True) (Run.print v) := by
  intro i hi
  unfold Run.print
  dsimp only
  cases i.out.fits (v.display ++ "\n").toUTF8 with
  | true => exact ⟨hi, trivial⟩
  | false => exact ⟨hi, id⟩

/-- Printing says nothing about closures, whether the output is full or not. -/
theorem printAll (vs : List Value) : Safe (fun _ => True) (Run.printAll vs) := by
  induction vs with
  | nil => exact pure trivial
  | cons v vs ih => exact bind (print v) fun _ _ => ih

theorem flush : Safe (fun _ => True) Run.flush := by
  intro i hi
  unfold Run.flush
  cases i.out.flush with
  | ok u => exact ⟨hi, trivial⟩
  | error e => exact ⟨hi, id⟩

/-- Arguments are bound in order, up to the first name that is there twice. -/
theorem bindAll (frame : FrameId) (ps : List Token) {vs : List Value}
    (hvs : ∀ v ∈ vs, v.WellShaped) : Safe (fun _ => True) (Run.bindAll frame ps vs) := by
  fun_induction Run.bindAll frame ps vs with
  | case1 p ps v vs ih =>
    obtain ⟨hv, hvs⟩ := List.forall_mem_cons.1 hvs
    exact bind (declareIn frame p hv) fun _ _ => ih hvs
  | case2 => exact pure trivial

/-- The current frame is no part of the claim. -/
theorem inFrame (frame : FrameId) {x : Run α} (hx : Safe Q x) : Safe Q (Run.inFrame frame x) := by
  intro i hi
  have hrun := hx { i with current := frame } hi
  unfold Run.inFrame
  generalize x { i with current := frame } = r at hrun
  cases r with
  | ok a j => exact hrun
  | error f j => exact hrun

/-- Nor is the depth. -/
theorem nested {x : Run α} (hx : Safe Q x) : Safe Q (Run.nested x) := by
  intro i hi
  have hrun := hx { i with depth := i.depth + 1 } hi
  unfold Run.nested
  generalize x { i with depth := i.depth + 1 } = r at hrun
  cases r with
  | ok a j => exact hrun
  | error f j => exact hrun

theorem inChild {x : Run α} (hx : Safe Q x) : Safe Q (Run.inChild x) :=
  bind current fun outer _ => bind (newFrame outer) fun frame _ => inFrame frame hx

/-! ### The evaluator -/

section

variable {apply : Apply}

mutual

/-- If calls are safe, then so is the evaluation of a well-shaped expression. By induction on the
tree, in one block with arguments, branches and statements. -/
theorem eval (hcall : SafeCalls apply) :
    ∀ e : Expr, e.WellShaped → Safe Value.WellShaped (e.eval apply)
  | .literal value, _ => by
    rw [Expr.eval]
    refine pure ?_
    cases value <;> trivial
  | .grouping inner, h => by
    rw [Expr.eval]
    exact eval hcall inner h
  | .unary operator right, ⟨hoperator, hright⟩ => by
    rw [Expr.eval]
    exact bind (eval hcall right hright) fun v _ => ofExcept (Value.safe_unary hoperator)
  | .binary left operator right, ⟨hleft, hoperator, hright⟩ => by
    rw [Expr.eval]
    exact bind (eval hcall left hleft) fun l _ => bind (eval hcall right hright) fun r _ =>
      ofExcept (Value.safe_binary hoperator)
  | .name token, _ => by
    rw [Expr.eval]
    exact read token
  | .block body, h => by
    rw [Expr.eval]
    exact inChild (execAll hcall Value.nil body trivial h)
  | .ifChain bs, ⟨_, hbs⟩ => by
    rw [Expr.eval]
    exact branches hcall bs hbs
  | .call callee token (first :: others) true, ⟨hcallee, _, hfirst, hothers⟩ => by
    rw [Expr.eval]
    exact bind (eval hcall first hfirst) fun v hv => bind (eval hcall callee hcallee) fun f hf =>
      bind (evalAll hcall others hothers) fun vs hvs =>
        hcall f token (v :: vs) hf (List.forall_mem_cons.2 ⟨hv, hvs⟩)
  | .call callee token [] true, ⟨hcallee, _, _⟩ => by
    rw [Expr.eval]
    · exact bind (eval hcall callee hcallee) fun f hf =>
        bind (evalAll hcall [] trivial) fun vs hvs => hcall f token vs hf hvs
    · nofun
  | .call callee token arguments false, ⟨hcallee, _, harguments⟩ => by
    rw [Expr.eval]
    · exact bind (eval hcall callee hcallee) fun f hf =>
        bind (evalAll hcall arguments harguments) fun vs hvs => hcall f token vs hf hvs
    · nofun

theorem evalAll (hcall : SafeCalls apply) :
    ∀ es : List Expr, Expr.AllWellShaped es →
      Safe (fun vs => ∀ v ∈ vs, v.WellShaped) (Expr.evalAll apply es)
  | [], _ => by
    rw [Expr.evalAll]
    exact pure (by simp)
  | e :: es, ⟨he, hes⟩ => by
    rw [Expr.evalAll]
    exact bind (eval hcall e he) fun v hv => bind (evalAll hcall es hes) fun vs hvs =>
      pure (List.forall_mem_cons.2 ⟨hv, hvs⟩)

theorem branches (hcall : SafeCalls apply) :
    ∀ bs : List Branch, Branch.AllWellShaped bs → Safe Value.WellShaped (Branch.eval apply bs)
  | [], _ => by
    rw [Branch.eval]
    exact pure trivial
  | .when condition body :: bs, ⟨hcondition, hbody, hbs⟩ => by
    rw [Branch.eval]
    refine bind (eval hcall condition hcondition) fun v _ => ?_
    split
    · exact inChild (execAll hcall Value.nil body trivial hbody)
    · exact branches hcall bs hbs
  | .otherwise body :: _, ⟨hbody, _⟩ => by
    rw [Branch.eval]
    exact inChild (execAll hcall Value.nil body trivial hbody)

theorem exec (hcall : SafeCalls apply) :
    ∀ s : Stmt, s.WellShaped → Safe Value.WellShaped (s.exec apply)
  | .expression value, h => by
    rw [Stmt.exec]
    exact eval hcall value h
  | .print value, h => by
    rw [Stmt.exec]
    exact bind (eval hcall value h) fun v _ => bind (print v) fun _ _ => pure trivial
  | .declare name initializer mutable, h => by
    rw [Stmt.exec]
    exact bind (eval hcall initializer h) fun v hv => bind (declare name hv) fun _ _ =>
      pure trivial
  | .function name parameters body, h => by
    rw [Stmt.exec]
    exact bind current fun frame _ => bind (declare name h) fun _ _ => pure trivial
  | .assign name value, h => by
    rw [Stmt.exec]
    exact bind (eval hcall value h) fun v hv => bind (assign name hv) fun _ _ => pure trivial

theorem execAll (hcall : SafeCalls apply) :
    ∀ (last : Value) (ss : List Stmt), last.WellShaped → Stmt.AllWellShaped ss →
      Safe Value.WellShaped (Stmt.execAll apply last ss)
  | last, [], hlast, _ => by
    rw [Stmt.execAll]
    exact pure hlast
  | last, s :: ss, _, ⟨hs, hss⟩ => by
    rw [Stmt.execAll]
    exact bind (exec hcall s hs) fun v hv => execAll hcall v ss hv hss

end

end

/-- A closure runs with one call less left. The body is well shaped because the closure came from
the store or from an argument. -/
theorem apply (budget : Nat) : SafeCalls (PipeLang.apply budget) := by
  induction budget with
  | zero =>
    intro f token vs hf hvs
    unfold PipeLang.apply
    split
    · exact bind (printAll vs) fun _ _ => pure trivial
    · split <;> exact throw id
    · exact throw id
  | succ budget ih =>
    intro f token vs hf hvs
    unfold PipeLang.apply
    split
    · exact bind (printAll vs) fun _ _ => pure trivial
    · split
      · exact throw id
      · rename_i c _
        exact bind (newFrame c.frame) fun frame _ =>
          bind (bindAll frame c.parameters hvs) fun _ _ =>
            nested (inFrame frame (execAll ih Value.nil c.body trivial hf))
    · exact throw id

/-! ### Programs -/

/-- So calls from within any number of other calls are safe. -/
theorem call : SafeCalls Interpreter.call := fun f token vs hf hvs i hi =>
  apply (callLimit - i.depth) f token vs hf hvs i hi

/-- A program is flushed whether it fails or not, and a failed flush is not internal either. -/
theorem runIn (frame : FrameId) {p : Program} (hp : Stmt.AllWellShaped p) :
    Safe (fun _ => True) (Interpreter.runIn frame p) := by
  intro i hi
  have hrun := inFrame frame (execAll call Value.nil p trivial hp) i hi
  unfold Interpreter.runIn
  generalize Run.inFrame frame (Stmt.execAll Interpreter.call .nil p) i = r at hrun
  cases r with
  | ok v j => exact flush j hrun.1
  | error f j =>
    have hflush := flush j hrun.1
    dsimp only
    generalize Run.flush j = r at hflush
    cases r with
    | ok u k => exact ⟨hflush.1, hrun.2⟩
    | error g k => exact hflush

theorem runFresh {p : Program} (hp : Stmt.AllWellShaped p) :
    Safe (fun _ => True) (Interpreter.runFresh p) :=
  bind (newFrame Interpreter.globals) fun frame _ => runIn frame hp

/-- A new frame has no closures. -/
theorem sharedFrame : Safe (fun _ => True) Interpreter.sharedFrame := by
  rintro ⟨store, current, shared, depth, out⟩ hi
  cases shared with
  | some frame => exact ⟨hi, trivial⟩
  | none => exact ⟨hi.grow _, trivial⟩

theorem runShared {p : Program} (hp : Stmt.AllWellShaped p) :
    Safe (fun _ => True) (Interpreter.runShared p) :=
  bind sharedFrame fun frame _ => runIn frame hp

end Safe

end Run

end PipeLang
