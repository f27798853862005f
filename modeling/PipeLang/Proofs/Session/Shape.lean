import PipeLang.Proofs.Interpreter.Shape
import PipeLang.Proofs.Session.Runs

/-!
# No session shows an internal error

A source text is read as a well-shaped program, so what a session executes is safe, and the
closures that it keeps from one text to the next stay well shaped
(`Session.wellShaped_run`). Internal faults have messages of their own, which no other fault
has and no lexical or syntax error (`NotInternal`). So they are never shown, whichever text
has defined the function that fails (`Session.no_internal_error`).
-/

namespace PipeLang

/-! ## Messages -/

/-- Neither of the messages of internal faults. -/
def NotInternal (message : String) : Prop :=
  message ≠ "Invalid unary operator" ∧ message ≠ "Invalid binary operator"

instance (message : String) : Decidable (NotInternal message) :=
  inferInstanceAs (Decidable (_ ∧ _))

/-- A message that does not begin as they do. -/
theorem notInternal_append {start : String} (rest : String)
    (hunary : ¬ start.toList <+: "Invalid unary operator".toList)
    (hbinary : ¬ start.toList <+: "Invalid binary operator".toList) :
    NotInternal (start ++ rest) :=
  ⟨append_ne_of_start rest hunary, append_ne_of_start rest hbinary⟩

theorem LexicalError.notInternal (e : LexicalError) : NotInternal e.diagnostic.message := by
  obtain ⟨cause, line⟩ := e
  cases cause with
  | unexpected c =>
    show NotInternal ("Unexpected token \"" ++ c.toString ++ "\"")
    rw [String.append_assoc]
    exact notInternal_append _ (by decide) (by decide)
  | unterminatedString => exact (by decide : NotInternal "Unterminated string")

theorem SyntaxError.notInternal (e : SyntaxError) : NotInternal e.diagnostic.message := by
  obtain ⟨cause, token⟩ := e
  unfold SyntaxError.diagnostic Diagnostic.blaming
  split
  · show NotInternal (cause.message ++ " at end of file.")
    cases cause with
    | functionBody name =>
      show NotInternal
        ("Expected block as body of function \"" ++ name ++ "\"" ++ " at end of file.")
      rw [String.append_assoc, String.append_assoc]
      exact notInternal_append _ (by decide) (by decide)
    | _ => decide
  · show NotInternal cause.message
    cases cause with
    | functionBody name =>
      show NotInternal ("Expected block as body of function \"" ++ name ++ "\"")
      rw [String.append_assoc]
      exact notInternal_append _ (by decide) (by decide)
    | _ => decide

theorem Fault.notInternal {f : Fault} (h : ¬ f.IsInternal) : NotInternal f.diagnostic.message := by
  cases f with
  | redeclared name =>
    show NotInternal ("Cannot redeclare variable \"" ++ name.lexeme ++ "\"")
    rw [String.append_assoc]
    exact notInternal_append _ (by decide) (by decide)
  | arity call function expected given =>
    show NotInternal ((if given < expected then "Missing argument" else "Too many arguments")
      ++ " for function \"" ++ function ++ "\"")
    rw [String.append_assoc, String.append_assoc]
    split
    · exact notInternal_append _ (by decide) (by decide)
    · exact notInternal_append _ (by decide) (by decide)
  | unaryOperator => exact absurd trivial h
  | binaryOperator => exact absurd trivial h
  | output error =>
    show NotInternal error.text
    cases error <;> decide
  | undefined => exact (by decide : NotInternal "Undefined variable")
  | immutable =>
    exact (by decide : NotInternal
      "Variable is immutable. It can be made mutable by declaring it with \"let mut\"")
  | operand => exact (by decide : NotInternal "Operand must be a number")
  | operands => exact (by decide : NotInternal "Operands must be numbers")
  | summands =>
    exact (by decide : NotInternal "Operands must be either two numbers or two strings")
  | division => exact (by decide : NotInternal "Cannot divide by zero")
  | callee => exact (by decide : NotInternal "Can only call functions")
  | depth => exact (by decide : NotInternal "Maximum call depth exceeded")

/-! ## Sessions -/

/-- A source text is a well-shaped program, or its error is not internal. -/
theorem Program.ofSource_shape (source : String) :
    match Program.ofSource source with
    | .ok p => Stmt.AllWellShaped p
    | .error d => NotInternal d.message := by
  unfold Program.ofSource
  cases tokens? source with
  | error e => exact e.notInternal
  | ok ts =>
    show match (parse ts).mapError SyntaxError.diagnostic with
      | .ok p => Stmt.AllWellShaped p
      | .error d => NotInternal d.message
    cases hparse : parse ts with
    | error e => exact e.notInternal
    | ok p => exact wellShaped_of_parse hparse

/-- What a safe step shows and leaves. -/
theorem Run.Safe.failure? {α : Type} {Q : α → Prop} {x : Run α} (hx : x.Safe Q) {i : Interpreter}
    (hi : i.store.WellShaped) :
    (x.after i).store.WellShaped ∧ ∀ d ∈ x.failure? i, NotInternal d.message := by
  have hrun := hx i hi
  unfold Run.after Run.failure?
  generalize x i = r at hrun
  cases r with
  | ok a j => exact ⟨hrun.1, nofun⟩
  | error f j =>
    refine ⟨hrun.1, fun d hd => ?_⟩
    obtain rfl := Option.some.inj hd
    exact Fault.notInternal hrun.2

namespace Session

theorem execute_safe (mode : Mode) {p : Program} (hp : Stmt.AllWellShaped p) :
    (execute mode p).Safe fun _ => True := by
  cases mode with
  | batch => exact .runFresh hp
  | interactive => exact .runShared hp

/-- One text : the closures in the store stay well shaped, and no internal error is shown. -/
theorem wellShaped_run {s : Session} (h : s.interpreter.store.WellShaped) (source : String) :
    (s.run source).2.interpreter.store.WellShaped ∧
      ∀ d ∈ s.error? source, NotInternal d.message := by
  have hshape := Program.ofSource_shape source
  rw [interpreter_run, interpreterAfter, error?]
  cases hsource : Program.ofSource source with
  | error d =>
    rw [hsource] at hshape
    refine ⟨h, fun e he => ?_⟩
    obtain rfl := Option.some.inj he
    exact hshape
  | ok p =>
    rw [hsource] at hshape
    exact (execute_safe s.mode hshape).failure? h

/-- Any number of texts. -/
theorem wellShaped_runAll (mode : Mode) (out diagnostics : Sink) (sources : List String) :
    ((new mode out diagnostics).runAll sources).interpreter.store.WellShaped :=
  runAll_induction (P := fun s => s.interpreter.store.WellShaped)
    (fun _ source h => (wellShaped_run h source).1) sources .initial

/-- Every program that is read is well shaped, from whatever tokens, and the operators of
well-shaped programs are those that the evaluator knows. So whatever texts a session has run,
in either mode and with any sinks, the next one is never answered with the message of an
internal fault, even if a function fails that an earlier one has defined. -/
theorem no_internal_error :
    (∀ ts p, parse ts = .ok p → Stmt.AllWellShaped p) ∧
      (∀ operator (v : Value), (∃ f, v.unary operator = .error f ∧ f.IsInternal) ↔
        operator.kind ∉ Kind.unaryOperators) ∧
      (∀ operator (l r : Value), (∃ f, l.binary operator r = .error f ∧ f.IsInternal) ↔
        operator.kind ∉ Kind.binaryOperators) ∧
      ∀ mode out diagnostics sources source d,
        ((new mode out diagnostics).runAll sources).error? source = some d →
          d.message ≠ "Invalid unary operator" ∧ d.message ≠ "Invalid binary operator" := by
  refine ⟨fun ts p => wellShaped_of_parse, fun _ _ => Value.unary_internal_iff,
    fun _ _ _ => Value.binary_internal_iff, fun mode out diagnostics sources source d hd => ?_⟩
  have hshaped := wellShaped_runAll mode out diagnostics sources
  exact (wellShaped_run hshaped source).2 d hd

/-- A function of an earlier text, whose operator fails. -/
theorem no_internal_error_closure :
    (parse pipedTokens = .ok pipedProgram ∧ Stmt.AllWellShaped pipedProgram) ∧
      let s := (new .interactive .unlimited .unlimited).runAll ["func f(x) \x7b -x; \x7d;"]
      let d : Diagnostic := .runtime "Operand must be a number" (some ⟨1, "Operand: nil (nil)"⟩)
      s.error? "f(nil);" = some d ∧
        d.message ≠ "Invalid unary operator" ∧ d.message ≠ "Invalid binary operator" := by
  have hparse : parse pipedTokens = .ok pipedProgram := by cbv
  refine ⟨⟨hparse, no_internal_error.1 _ _ hparse⟩, ?_⟩
  intro s d
  have herror : s.error? "f(nil);" = some d := by decide +kernel
  exact ⟨herror, no_internal_error.2.2.2 _ _ _ _ _ d herror⟩

end Session

end PipeLang
