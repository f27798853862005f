import PipeLang.Proofs.Interpreter.AtRest
import PipeLang.Proofs.Interpreter.WellFormed
import PipeLang.Proofs.Store.Scopes

/-!
# Declarations extend the current frame

An expression may run declarations, in blocks, branches and calls, but each in a frame that
is created for them. So the frames that were there before hold the names they held, whether
the evaluation fails or not (`Interpreter.extends_evaluate`). This is an `Invariant` : names
are declared only in frames from the first new one on.

A statement declares its own name in the current frame and none elsewhere
(`Interpreter.extends_of_execute_ok`), and none at all when it fails
(`Interpreter.extends_of_execute_error`). Since its initializer leaves the current frame
alone, whether the declaration fails is decided before it starts
(`Interpreter.execute_declare_fails_iff`).
-/

namespace PipeLang

/-- The name that a statement is to declare, with whether it is mutable. -/
def Stmt.declared : Stmt → List (String × Bool)
  | .declare name _ mutable => [(name.lexeme, mutable)]
  | .function name _ _ => [(name.lexeme, false)]
  | _ => []

/-- Names are declared in frames that are not there yet. -/
theorem invariant_extends (s : Store) (a : FrameId) (added : List (String × Bool)) :
    Invariant (s.size ≤ ·) fun i => s.Extends i.store a added where
  current _ h := h
  depth _ h := h
  grow b h := ⟨h.toKeeps.size_le, h.grow (some b)⟩
  declare h hc ht := h.declare_new hc ht
  assign h ht := h.assign ht
  write _ h := h

namespace Interpreter

variable {i j : Interpreter}

/-! ## Expressions -/

theorem extends_evaluate (e : Expr) (i : Interpreter) (a : FrameId) :
    i.store.Extends ((evaluate e).after i).store a [] :=
  (invariant_extends i.store a []).after
    (Simulation.evaluate (Expr.similar_refl (fun _ => rfl) e) rfl) (.refl i.store a)

/-- An expression, and a step that declares nothing. -/
theorem extends_evaluate_bind (e : Expr) {k : Value → Run Value} {a : FrameId}
    (hk : ∀ v (j : Interpreter), j.store.Extends ((k v).after j).store a []) (i : Interpreter) :
    i.store.Extends ((evaluate e >>= k).after i).store a [] := by
  have he := extends_evaluate e i a
  cases h : evaluate e i with
  | ok v j =>
    rw [Run.after_ok h] at he
    rw [Run.after_bind_ok h]
    exact he.trans (hk v j)
  | error f j =>
    rw [Run.after_error h] at he
    rw [Run.after_error (Run.bind_error h)]
    exact he

/-! ## Statements -/

theorem store_print (v : Value) (i : Interpreter) : ((Run.print v).after i).store = i.store := by
  unfold Run.after Run.print
  generalize (v.display ++ "\n").toUTF8 = bytes
  cases hfits : i.out.fits bytes <;> simp [hfits]

theorem extends_assign (name : Token) (v : Value) (i : Interpreter) (a : FrameId) :
    i.store.Extends ((Run.assign name v).after i).store a [] := by
  unfold Run.after Run.assign
  cases h : i.store.assign i.current name v with
  | ok store => exact (Store.Extends.refl i.store a).assign h
  | error f => exact .refl i.store a

/-- A statement that is no declaration. -/
theorem extends_execute {s : Stmt} (hs : s.declared = []) (i : Interpreter) (a : FrameId) :
    i.store.Extends ((execute s).after i).store a [] := by
  cases s with
  | expression e =>
    rw [execute, Stmt.exec]
    exact extends_evaluate e i a
  | print e =>
    rw [execute, Stmt.exec]
    refine extends_evaluate_bind e (fun v j => ?_) i
    rw [Run.after_bind_pure, store_print]
    exact .refl j.store a
  | assign x e =>
    rw [execute, Stmt.exec]
    refine extends_evaluate_bind e (fun v j => ?_) i
    rw [Run.after_bind_pure]
    exact extends_assign x v j a
  | declare => cases hs
  | function => cases hs

/-- What becomes of a declaration once its value is there. -/
theorem declare_eq (name : Token) (b : Binding) (i : Interpreter) :
    (do Run.declare name b; pure .nil : Run Value) i =
      if (i.store.binding? i.current name.lexeme).isSome then .error (.redeclared name) i
      else .ok .nil { i with store := i.store.bind i.current name.lexeme b } := by
  simp only [bind, EStateM.bind, Run.declare, Run.declareIn, Store.declare]
  by_cases h : (i.store.binding? i.current name.lexeme).isSome
  · simp only [if_pos h]
  · simp only [if_neg h]
    rfl

theorem extends_of_declare_ok {name : Token} {b : Binding} {v : Value}
    (h : (do Run.declare name b; pure .nil : Run Value) i = .ok v j) :
    i.store.Extends j.store i.current [(name.lexeme, b.mutable)] := by
  rw [declare_eq] at h
  split at h
  · cases h
  · next hnew =>
    cases h
    have hnone : i.store.binding? i.current name.lexeme = none := by simpa using hnew
    exact (Store.Extends.refl i.store i.current).declare
      ((Store.declare_eq_ok_iff i.current b).2 ⟨hnone, rfl⟩)

theorem eq_of_declare_error {name : Token} {b : Binding} {f : Fault}
    (h : (do Run.declare name b; pure .nil : Run Value) i = .error f j) : j = i := by
  rw [declare_eq] at h
  split at h <;> cases h
  rfl

theorem execute_declare (name : Token) (e : Expr) (mutable : Bool) :
    execute (.declare name e mutable) =
      evaluate e >>= fun v => (do Run.declare name ⟨mutable, v⟩; pure .nil) := by
  rw [execute, Stmt.exec]
  rfl

theorem execute_function (name : Token) (ps : List Token) (body : Block) (i : Interpreter) :
    execute (.function name ps body) i =
      (do
        Run.declare name ⟨false, .closure ⟨name.lexeme, ps, body, i.current⟩⟩
        pure .nil : Run Value) i := by
  rw [execute, Stmt.exec, Run.bind_ok (show Run.current i = .ok i.current i from rfl)]

theorem current_of_evaluate_ok {e : Expr} {v : Value} (h : evaluate e i = .ok v j) :
    j.current = i.current := by
  have hrestored := history_restored.hereditary.evaluate e i
  rw [Run.after_ok h] at hrestored
  exact hrestored.current_eq

/-- A statement that succeeds adds to the current frame what it declares. -/
theorem extends_of_execute_ok {s : Stmt} {v : Value} (h : execute s i = .ok v j) :
    i.store.Extends j.store i.current s.declared := by
  have hnone : s.declared = [] → i.store.Extends j.store i.current [] := by
    intro hs
    rw [← Run.after_ok h]
    exact extends_execute hs i i.current
  cases s with
  | declare name e mutable =>
    rw [execute_declare] at h
    cases he : evaluate e i with
    | ok w k =>
      have first := extends_evaluate e i i.current
      rw [Run.after_ok he] at first
      rw [Run.bind_ok he] at h
      have second := extends_of_declare_ok h
      rw [current_of_evaluate_ok he] at second
      exact first.trans second
    | error f k =>
      rw [Run.bind_error he] at h
      cases h
  | function name ps body =>
    rw [execute_function] at h
    exact extends_of_declare_ok h
  | _ => exact hnone rfl

/-- A statement that fails adds nothing. -/
theorem extends_of_execute_error {s : Stmt} {f : Fault} (h : execute s i = .error f j)
    (a : FrameId) : i.store.Extends j.store a [] := by
  have hnone : s.declared = [] → i.store.Extends j.store a [] := by
    intro hs
    rw [← Run.after_error h]
    exact extends_execute hs i a
  cases s with
  | declare name e mutable =>
    rw [execute_declare] at h
    have first := extends_evaluate e i a
    cases he : evaluate e i with
    | ok w k =>
      rw [Run.after_ok he] at first
      rw [Run.bind_ok he] at h
      rw [eq_of_declare_error h]
      exact first
    | error g k =>
      rw [Run.after_error he] at first
      rw [Run.bind_error he] at h
      cases h
      exact first
  | function name ps body =>
    rw [execute_function] at h
    rw [eq_of_declare_error h]
    exact .refl i.store a
  | _ => exact hnone rfl

/-! ## Declarations that fail -/

theorem declare_fails_iff (name : Token) (b : Binding) (i : Interpreter) :
    (∃ f j, (do Run.declare name b; pure .nil : Run Value) i = .error f j) ↔
      (i.store.binding? i.current name.lexeme).isSome := by
  rw [declare_eq]
  split
  · next hbound => exact iff_of_true ⟨_, _, rfl⟩ hbound
  · next hnew => exact iff_of_false (fun ⟨_, _, hfault⟩ => nomatch hfault) hnew

/-- The initializer does not decide whether the name is taken. -/
theorem execute_declare_fails_iff (hi : i.current < i.store.size) (name : Token) {e : Expr}
    (mutable : Bool) {v : Value} (he : evaluate e i = .ok v j) :
    (∃ f k, execute (.declare name e mutable) i = .error f k) ↔
      (i.store.binding? i.current name.lexeme).isSome := by
  have first := extends_evaluate e i i.current
  rw [Run.after_ok he] at first
  rw [execute_declare, Run.bind_ok he, declare_fails_iff, current_of_evaluate_ok he,
    first.isSome_binding? hi]

theorem execute_function_fails_iff (name : Token) (ps : List Token) (body : Block)
    (i : Interpreter) :
    (∃ f k, execute (.function name ps body) i = .error f k) ↔
      (i.store.binding? i.current name.lexeme).isSome := by
  rw [execute_function, declare_fails_iff]

/-- Evaluating an expression, from any interpreter, leaves every frame with the names, flags and
immutable values it had, whether it fails or not. So does executing a statement, but for one
name in the current frame, if it is a declaration and succeeds. And when the current frame is
there, as it is at every moment (`Machine.Moment.wellFormed`), a name whose initializer has a
value can be declared exactly if the current frame did not hold it before; so can a function. -/
theorem scopes_extended (i : Interpreter) :
    (∀ e a, i.store.Extends ((evaluate e).after i).store a []) ∧
      (∀ s v j, execute s i = .ok v j → i.store.Extends j.store i.current s.declared) ∧
      (∀ s f j, execute s i = .error f j → i.store.Extends j.store i.current []) ∧
      (i.current < i.store.size → ∀ name e mutable v j, evaluate e i = .ok v j →
        ((∃ f k, execute (.declare name e mutable) i = .error f k) ↔
          (i.store.binding? i.current name.lexeme).isSome)) ∧
      ∀ name ps body,
        (∃ f k, execute (.function name ps body) i = .error f k) ↔
          (i.store.binding? i.current name.lexeme).isSome := by
  refine ⟨fun e a => extends_evaluate e i a, fun s v j h => extends_of_execute_ok h,
    fun s f j h => extends_of_execute_error h i.current, ?_,
    fun name ps body => execute_function_fails_iff name ps body i⟩
  intro hi name e mutable v j he
  exact execute_declare_fails_iff hi name mutable he

/-- After a program that has failed in its deepest call, `let log = true;` cannot be executed in
the globals. -/
theorem scopes_extended_log :
    let i := Operation.performAll [.runFresh endlessProgram] (.new .unlimited)
    let e : Expr := .literal (.boolean true)
    i.current < i.store.size ∧ evaluate e i = .ok (.boolean true) i ∧
      ∃ f k, execute (.declare ⟨.identifier, "log", 1⟩ e false) i = .error f k := by
  intro i e
  have hprogram : ∀ op ∈ [Operation.runFresh endlessProgram], op.IsProgram :=
    List.forall_mem_singleton.2 trivial
  have hcode : ∀ op ∈ [Operation.runFresh endlessProgram], op.IsCode :=
    List.forall_mem_singleton.2 trivial
  have hnew : Machine.Moment .unlimited ⟨.value .nil, [], .new .unlimited⟩ := .new
  obtain ⟨m, hm, -, hstate⟩ := hnew.performAll rfl hcode
  have hi : i.current < i.store.size := by
    rw [← show m.state = i from hstate]
    exact hm.wellFormed.state.current_lt
  have hglobals : i.current = globals := (AtRest.new .unlimited).performAll _ hprogram |>.current_eq
  have hlog : (i.store.binding? i.current "log").isSome := by
    rw [hglobals, ← show m.state = i from hstate]
    exact hm.isSome_log
  have he : evaluate e i = .ok (.boolean true) i := by
    rw [evaluate, Expr.eval]
    rfl
  exact ⟨hi, he, ((scopes_extended i).2.2.2.1 hi _ e false _ i he).2 hlog⟩

end Interpreter

end PipeLang
