import PipeLang.Interpreter.Operators
import PipeLang.Proofs.Syntax.Similar

/-!
# Values that differ in frames and tokens only

`Value.Similar F T` relates two values that programs cannot tell apart : equal constants, and
functions of one name whose bodies are similar by `T` and whose frames are related by `F`.
`Fault.Similar F T` relates two faults of one kind at related tokens with similar values.

Similar values are shown alike (`Value.Similar.display_eq`), operators take them to similar
results (`Value.Similar.unary`, `Value.Similar.binary`), and similar faults are worded alike,
on the lines of related tokens (`Fault.Similar.diagnostic_cases`).
-/

namespace PipeLang

/-- Related tokens differ in their lines only. -/
structure LinesOnly (T : Token → Token → Prop) : Prop where
  kind_eq : ∀ {t u : Token}, T t u → u.kind = t.kind
  lexeme_eq : ∀ {t u : Token}, T t u → u.lexeme = t.lexeme

/-- Equal tokens differ in nothing. -/
theorem linesOnly_eq : LinesOnly Eq where
  kind_eq h := h ▸ rfl
  lexeme_eq h := h ▸ rfl

/-- Both results are values related by `R`, or both are errors related by `E`. -/
inductive Agree {ε ε' α β : Type} (E : ε → ε' → Prop) (R : α → β → Prop) :
    Except ε α → Except ε' β → Prop where
  | ok {a : α} {b : β} : R a b → Agree E R (.ok a) (.ok b)
  | error {e : ε} {e' : ε'} : E e e' → Agree E R (.error e) (.error e')

/-- A result agrees with itself where both relations are reflexive. -/
theorem Agree.refl {ε α : Type} {E : ε → ε → Prop} {R : α → α → Prop} (hE : ∀ e, E e e)
    (hR : ∀ a, R a a) : ∀ r : Except ε α, Agree E R r r
  | .ok a => .ok (hR a)
  | .error e => .error (hE e)

/-- A weaker relation between the values will do. -/
theorem Agree.imp {ε ε' α β : Type} {E : ε → ε' → Prop} {R R' : α → β → Prop}
    {r : Except ε α} {r' : Except ε' β} (h : Agree E R r r') (hR : ∀ a b, R a b → R' a b) :
    Agree E R' r r' := by
  cases h with
  | ok h => exact .ok (hR _ _ h)
  | error h => exact .error h

section

variable (F : FrameId → FrameId → Prop) (T : Token → Token → Prop)

/-- Functions of one name with similar bodies in related frames. -/
structure Closure.Similar (c d : Closure) : Prop where
  name_eq : d.name = c.name
  parameters : List.Forall₂ T c.parameters d.parameters
  body : Stmt.AllSimilar T c.body d.body
  frame : F c.frame d.frame

/-- Equal constants or similar functions. -/
inductive Value.Similar : Value → Value → Prop where
  | number (x : Float) : Value.Similar (.number x) (.number x)
  | string (s : String) : Value.Similar (.string s) (.string s)
  | boolean (b : Bool) : Value.Similar (.boolean b) (.boolean b)
  | nil : Value.Similar .nil .nil
  | builtin (b : Builtin) : Value.Similar (.builtin b) (.builtin b)
  | closure {c d : Closure} : c.Similar F T d → Value.Similar (.closure c) (.closure d)

/-- One cause at related tokens. -/
inductive Fault.Similar : Fault → Fault → Prop where
  | undefined {t u : Token} : T t u → Fault.Similar (.undefined t) (.undefined u)
  | redeclared {t u : Token} : T t u → Fault.Similar (.redeclared t) (.redeclared u)
  | immutable {t u : Token} : T t u → Fault.Similar (.immutable t) (.immutable u)
  | operand {t u : Token} {v v' : Value} : T t u → v.Similar F T v' →
    Fault.Similar (.operand t v) (.operand u v')
  | operands {t u : Token} {l l' r r' : Value} : T t u → l.Similar F T l' →
    r.Similar F T r' → Fault.Similar (.operands t l r) (.operands u l' r')
  | summands {t u : Token} {l l' r r' : Value} : T t u → l.Similar F T l' →
    r.Similar F T r' → Fault.Similar (.summands t l r) (.summands u l' r')
  | division {t u : Token} {l l' r r' : Value} : T t u → l.Similar F T l' →
    r.Similar F T r' → Fault.Similar (.division t l r) (.division u l' r')
  | unaryOperator {t u : Token} : T t u →
    Fault.Similar (.unaryOperator t) (.unaryOperator u)
  | binaryOperator {t u : Token} : T t u →
    Fault.Similar (.binaryOperator t) (.binaryOperator u)
  | callee {t u : Token} {v v' : Value} : T t u → v.Similar F T v' →
    Fault.Similar (.callee t v) (.callee u v')
  | arity {t u : Token} (function : String) (expected given : Nat) : T t u →
    Fault.Similar (.arity t function expected given) (.arity u function expected given)
  | depth {t u : Token} (function : String) : T t u →
    Fault.Similar (.depth t function) (.depth u function)
  | output (error : SinkError) : Fault.Similar (.output error) (.output error)

end

variable {F : FrameId → FrameId → Prop} {T : Token → Token → Prop}

/-! ## Values -/

namespace Value

/-- A literal is no function, so it has no frame and no tokens. -/
theorem similar_ofLiteral (l : Literal) : (ofLiteral l).Similar F T (ofLiteral l) := by
  cases l with
  | number x => exact .number x
  | string s => exact .string s
  | boolean b => exact .boolean b
  | nil => exact .nil

/-- The frame that a function was declared in. -/
def frame? : Value → Option FrameId
  | closure c => some c.frame
  | _ => none

/-- Values that are no functions of programs. -/
theorem similar_of_frame? (v : Value) (h : v.frame? = none) : v.Similar F T v := by
  cases v with
  | number x => exact .number x
  | string s => exact .string s
  | boolean b => exact .boolean b
  | nil => exact .nil
  | builtin b => exact .builtin b
  | closure c => cases h

/-- A value is similar to itself if its frame, where it has one, is related to itself. -/
theorem similar_refl (hT : ∀ t, T t t) (v : Value) (hframe : ∀ a, v.frame? = some a → F a a) :
    v.Similar F T v := by
  cases v with
  | closure c =>
    exact .closure ⟨rfl, List.forall₂_same.2 fun p _ => hT p, Stmt.allSimilar_refl hT c.body,
      hframe c.frame rfl⟩
  | _ => exact similar_of_frame? _ rfl

/-- Every value is similar to itself, with equal frames and equal tokens. -/
theorem similar_eq (v : Value) : v.Similar Eq Eq v := v.similar_refl (fun _ => rfl) fun _ _ => rfl

namespace Similar

variable {v v' l l' r r' : Value}

/-- Values that differ in nothing. -/
theorem eq (h : v.Similar Eq Eq v') : v = v' := by
  cases h with
  | @closure c d h =>
    obtain ⟨name, parameters, body, frame⟩ := c
    obtain ⟨name', parameters', body', frame'⟩ := d
    have hname : name' = name := h.name_eq
    have hparameters : parameters = parameters' :=
      (congrFun₂ List.forall₂_eq_eq_eq _ _).mp h.parameters
    have hbody : body = body' := Stmt.eq_of_allSimilar _ _ h.body
    have hframe : frame = frame' := h.frame
    rw [hname, hparameters, hbody, hframe]
  | _ => rfl

/-- Conditions come out alike. -/
theorem isTruthy_eq (h : v.Similar F T v') : v'.isTruthy = v.isTruthy := by
  cases h <;> rfl

/-- Similar values are printed alike : of a function the name is shown, and that is equal. -/
theorem display_eq (h : v.Similar F T v') : v'.display = v.display := by
  cases h with
  | closure h => simp only [display, h.name_eq]
  | _ => rfl

/-- Errors describe them alike. -/
theorem detail_eq (h : v.Similar F T v') : v'.detail = v.detail := by
  cases h with
  | closure h => simp only [detail, display, h.name_eq]
  | _ => rfl

/-- Functions are told apart by frame and name, so related frames must be told apart on both
sides alike. -/
theorem same_eq (hF : ∀ {a a' b b' : FrameId}, F a b → F a' b' → (a = a' ↔ b = b'))
    (hl : l.Similar F T l') (hr : r.Similar F T r') : l'.same r' = l.same r := by
  cases hl with
  | closure hl =>
    cases hr with
    | closure hr =>
      have hframe := hF hl.frame hr.frame
      simp only [same, hl.name_eq, hr.name_eq]
      exact congrArg (· && _) (Bool.eq_iff_iff.2 (by simpa using hframe.symm))
    | _ => rfl
  | _ => cases hr <;> rfl

end Similar

/-! ## Operators -/

section

variable {o o' : Token} {v v' l l' r r' : Value} (hT : LinesOnly T) (ho : T o o')

include hT ho

/-- Similar operands give similar results, or errors that blame related operators. -/
theorem Similar.unary (hv : v.Similar F T v') :
    Agree (Fault.Similar F T) (Value.Similar F T) (v.unary o) (v'.unary o') := by
  unfold Value.unary
  rw [hT.kind_eq ho]
  split
  · cases hv with
    | number x => exact .ok (.number (-x))
    | string s => exact .error (.operand ho (.string s))
    | boolean b => exact .error (.operand ho (.boolean b))
    | nil => exact .error (.operand ho .nil)
    | builtin b => exact .error (.operand ho (.builtin b))
    | closure h => exact .error (.operand ho (.closure h))
  · rw [hv.isTruthy_eq]
    exact .ok (.boolean _)
  · exact .error (.unaryOperator ho)

omit hT in
/-- Two numbers are equal on both sides, so `f` is applied to the same ones. -/
theorem Similar.arithmetic {f : Float → Float → Value}
    (hf : ∀ x y, (f x y).Similar F T (f x y)) (hl : l.Similar F T l') (hr : r.Similar F T r') :
    Agree (Fault.Similar F T) (Value.Similar F T) (Value.arithmetic o f l r)
      (Value.arithmetic o' f l' r') := by
  unfold Value.arithmetic
  split
  · cases hl
    cases hr
    exact .ok (hf _ _)
  · next hother =>
    split
    · cases hl
      cases hr
      exact (hother _ _ rfl rfl).elim
    · exact .error (.operands ho hl hr)

omit hT in
/-- Sums of numbers and of strings, and the errors for everything else. -/
theorem Similar.sum (hl : l.Similar F T l') (hr : r.Similar F T r') :
    Agree (Fault.Similar F T) (Value.Similar F T) (Value.sum o l r) (Value.sum o' l' r') := by
  unfold Value.sum
  split
  · cases hl
    cases hr
    exact .ok (.number _)
  · cases hl
    cases hr
    dsimp only
    split
    · exact .error (.summands ho (.string _) (.string _))
    · exact .ok (.string _)
  · next hnumbers hstrings =>
    split
    · cases hl
      cases hr
      exact (hnumbers _ _ rfl rfl).elim
    · cases hl
      cases hr
      exact (hstrings _ _ rfl rfl).elim
    · exact .error (.summands ho hl hr)

omit hT in
/-- The divisors are equal, so both divisions fail at zero or neither does. -/
theorem Similar.quotient (hl : l.Similar F T l') (hr : r.Similar F T r') :
    Agree (Fault.Similar F T) (Value.Similar F T) (Value.quotient o l r)
      (Value.quotient o' l' r') := by
  unfold Value.quotient
  split
  · cases hl
    cases hr
    dsimp only
    split
    · exact .error (.division ho (.number _) (.number _))
    · exact .ok (.number _)
  · next hother =>
    split
    · cases hl
      cases hr
      exact (hother _ _ rfl rfl).elim
    · exact .error (.operands ho hl hr)

/-- All binary operators. Equality compares the frames of functions, so the relation has to match
one frame with one. -/
theorem Similar.binary
    (hF : ∀ {a a' b b' : FrameId}, F a b → F a' b' → (a = a' ↔ b = b'))
    (hl : l.Similar F T l') (hr : r.Similar F T r') :
    Agree (Fault.Similar F T) (Value.Similar F T) (l.binary o r) (l'.binary o' r') := by
  unfold Value.binary
  rw [hT.kind_eq ho, hl.isTruthy_eq, hr.isTruthy_eq, hl.same_eq hF hr]
  split
  · exact .ok (.boolean _)
  · exact .ok (.boolean _)
  · exact .ok (.boolean _)
  · exact .ok (.boolean _)
  · exact hl.sum ho hr
  · exact hl.quotient ho hr
  · exact hl.arithmetic ho (fun _ _ => .number _) hr
  · exact hl.arithmetic ho (fun _ _ => .number _) hr
  · exact hl.arithmetic ho (fun _ _ => .boolean _) hr
  · exact hl.arithmetic ho (fun _ _ => .boolean _) hr
  · exact hl.arithmetic ho (fun _ _ => .boolean _) hr
  · exact hl.arithmetic ho (fun _ _ => .boolean _) hr
  · exact .error (.binaryOperator ho)

end

end Value

/-! ## Faults -/

/-- Every fault is similar to itself. -/
theorem Fault.similar_eq (f : Fault) : f.Similar Eq Eq f := by
  cases f <;> constructor <;> first | exact rfl | exact Value.similar_eq _

/-- Similar faults are failures of the output, or they are worded alike, on the lines of
related tokens. -/
theorem Fault.Similar.diagnostic_cases {f g : Fault} (hT : LinesOnly T)
    (h : f.Similar F T g) :
    (∃ e, f = .output e ∧ g = .output e) ∨
      ∃ (t u : Token) (message context : String), T t u ∧
        f.diagnostic = .runtimeOn t message context ∧
        g.diagnostic = .runtimeOn u message context := by
  cases h with
  | output e => exact Or.inl ⟨e, rfl, rfl⟩
  | undefined ht | redeclared ht | immutable ht | unaryOperator ht | binaryOperator ht =>
    exact Or.inr ⟨_, _, _, _, ht, rfl, by rw [Fault.diagnostic, hT.lexeme_eq ht]⟩
  | operand ht hv | callee ht hv =>
    exact Or.inr ⟨_, _, _, _, ht, rfl, by rw [Fault.diagnostic, hv.detail_eq]⟩
  | operands ht hl hr | summands ht hl hr =>
    exact Or.inr ⟨_, _, _, _, ht, rfl, by rw [Fault.diagnostic, hl.detail_eq, hr.detail_eq]⟩
  | division ht hl hr =>
    exact Or.inr ⟨_, _, _, _, ht, rfl, by rw [Fault.diagnostic, hl.display_eq, hr.display_eq]⟩
  | arity function expected given ht | depth function ht =>
    exact Or.inr ⟨_, _, _, _, ht, rfl, rfl⟩

/-- On the same tokens they are shown alike. -/
theorem Fault.Similar.diagnostic_eq {f g : Fault} (h : f.Similar F Eq g) :
    g.diagnostic = f.diagnostic := by
  rcases h.diagnostic_cases linesOnly_eq with
    ⟨e, rfl, rfl⟩ | ⟨t, u, message, context, rfl, hf, hg⟩
  · rfl
  · rw [hf, hg]

end PipeLang
