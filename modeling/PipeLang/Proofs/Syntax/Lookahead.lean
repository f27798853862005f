import PipeLang.Proofs.Syntax.Lists
import PipeLang.Proofs.Syntax.OpenBlocks

/-!
# No rule looks past the token that it blames

A rule decides by the next token. So if it leaves a token of `us` when it reads `us ++ vs`,
then it has not looked at `vs`, and it does the same with other tokens in place of these
(`Local`). This holds for rules that succeed and for rules that fail.

There are two exceptions. A parameter is read to its end before it is blamed. And a statement
looks at two tokens when the first one is a name, which may be assigned to. But a name is
always read, as an expression if not as the target of an assignment, so that a failure is at
the second token or behind it (`Fails.length_rest_le_of_name`).
-/

namespace PipeLang.Parser

/-! ## Failures behind a name -/

/-- The rules that begin with an operand, which may be a name. -/
def Rule.BeginsWithOperand : Rule → Prop
  | .expression | .stage | .tier _ | .operand _ | .unary | .call | .primary => True
  | _ => False

/-- A rule does not fail before the tokens that it begins with. -/
theorem Fails.length_rest_le {r : Rule} {ts : List Token} {f : Failure} {n : Nat}
    (h : Fails r ts f n) : f.rest.length ≤ ts.length := by
  obtain ⟨us, rfl, -⟩ := h.openBlocks_eq
  rw [List.length_append]
  exact Nat.le_add_left _ _

/-- They go on with such a rule, or behind the first token. -/
theorem Calls.shorter_or_beginsWithOperand {r r' : Rule} {ts vs : List Token}
    (h : Calls r ts r' vs) (hr : r.BeginsWithOperand) :
    vs.length < ts.length ∨ vs = ts ∧ r'.BeginsWithOperand := by
  cases h with
  | stage | operators | operand | comparison | addition | product | factor | callee
  | primary => exact .inr ⟨rfl, trivial⟩
  | condition | unary | grouping => exact .inl (Nat.lt_succ_self _)
  | pipes h | behindOperand h | calls h => exact .inl (length_lt_of_pair h)
  | body _ h =>
    obtain ⟨e, he⟩ := h
    exact .inl (Nat.lt_succ_of_lt (length_lt_of_pair he))
  | branches _ h h' =>
    obtain ⟨e, he⟩ := h
    obtain ⟨body, hbody⟩ := h'
    exact .inl (Nat.lt_succ_of_lt (Nat.lt_trans (length_lt_of_pair hbody) (length_lt_of_pair he)))
  | _ => exact hr.elim

/-- Where an operand has to be, a name is not to blame. -/
theorem Fails.length_rest_le_of_name {r : Rule} {x : Token} {us : List Token} {f : Failure}
    {n : Nat} (h : Fails r (x :: us) f n) (hr : r.BeginsWithOperand)
    (hx : x.kind = .identifier) : f.rest.length ≤ us.length := by
  generalize hts : x :: us = ts at h
  induction h with
  | raises hrun h =>
    cases h with
    | operand => cases hts
    | groupingEnd hp =>
      cases hts
      cases hx.symm.trans hp
    | primary =>
      subst hts
      obtain ⟨kind, lexeme, line⟩ := x
      obtain rfl : kind = .identifier := hx
      rw [Rule.run, Parser.primary] at hrun
      cases hrun
    | _ => exact hr.elim
  | calls _ h hfails ih =>
    rcases h.shorter_or_beginsWithOperand hr with hlt | ⟨rfl, hr'⟩
    · rw [← hts] at hlt
      exact Nat.le_trans hfails.length_rest_le (Nat.le_of_lt_succ hlt)
    · exact ih hr' hts
  | opens _ h hfails =>
    have hlt := h.length_lt
    rw [← hts] at hlt
    exact Nat.le_trans hfails.length_rest_le (Nat.le_of_lt_succ hlt)

/-! ## Results -/

section

variable {α β : Type} {vs vs' : List Token} {n : Nat}

/-- No more than so many tokens are left, if there is a result. -/
inductive Leaves (n : Nat) : Reader.Result α → Prop
  | gaveUp : Leaves n none
  | ok {a : α} {left : List Token} : left.length ≤ n → Leaves n (some (.ok (a, left)))
  | error {f : Failure} : f.rest.length ≤ n → Leaves n (some (.error f))

/-- A step that puts no tokens back. -/
def Shrinks (x : Reader α) : Prop := ∀ ts, Leaves ts.length (x ts)

/-- A bound may be raised. -/
theorem Leaves.mono {m : Nat} {r : Reader.Result α} (h : Leaves m r) (hmn : m ≤ n) :
    Leaves n r := by
  cases h with
  | gaveUp => exact .gaveUp
  | ok hle => exact .ok (Nat.le_trans hle hmn)
  | error hle => exact .error (Nat.le_trans hle hmn)

/-- What follows leaves no more than the first step has left. -/
theorem Leaves.bind {x : Reader α} {f : α → Reader β} {ts : List Token}
    (h : Leaves n (x ts)) (hf : ∀ a, Shrinks (f a)) : Leaves n ((x >>= f) ts) := by
  generalize hx : x ts = r at h
  cases h with
  | gaveUp =>
    rw [Reader.bind_none hx]
    exact .gaveUp
  | @ok a left hle =>
    rw [Reader.bind_ok hx]
    exact (hf a left).mono hle
  | error hle =>
    rw [Reader.bind_error hx]
    exact .error hle

variable (vs vs') in
/-- The first result is for tokens that end in `vs`, the second one for the same tokens with
`vs'` in place of `vs`. If the first one leaves more than `vs`, the second one is the same. -/
inductive Agrees : Reader.Result α → Reader.Result α → Prop
  | ok (a : α) (ws : List Token) : ws ≠ [] →
    Agrees (some (.ok (a, ws ++ vs))) (some (.ok (a, ws ++ vs')))
  | error (cause : SyntaxCause) (ws : List Token) : ws ≠ [] →
    Agrees (some (.error ⟨cause, ws ++ vs⟩)) (some (.error ⟨cause, ws ++ vs'⟩))
  | parameter (ts : List Token) (r : Reader.Result α) : Agrees (some (.error ⟨.parameter, ts⟩)) r
  | beyond {r : Reader.Result α} (r' : Reader.Result α) : Leaves vs.length r → Agrees r r'

variable (vs vs') in
/-- Two steps that do the same as long as they do not come to `vs` or `vs'`. -/
structure Local (α : Type) (x y : Reader α) : Prop where
  shrinks : Shrinks x
  agrees : ∀ us, us ≠ [] → Agrees vs vs' (x (us ++ vs)) (y (us ++ vs'))

/-- Two steps agree if their parts do. Where the first part comes to `vs`, nothing more is said. -/
theorem Agrees.bind {x y : Reader α} {f g : α → Reader β} {ts ts' : List Token}
    (h : Agrees vs vs' (x ts) (y ts')) (hfg : ∀ a, Local vs vs' β (f a) (g a)) :
    Agrees vs vs' ((x >>= f) ts) ((y >>= g) ts') := by
  generalize hx : x ts = r at h
  generalize hy : y ts' = r' at h
  cases h with
  | ok a ws hws =>
    rw [Reader.bind_ok hx, Reader.bind_ok hy]
    exact (hfg a).agrees ws hws
  | error cause ws hws =>
    rw [Reader.bind_error hx, Reader.bind_error hy]
    exact .error cause ws hws
  | parameter ts =>
    rw [Reader.bind_error hx]
    exact .parameter ts _
  | beyond _ h =>
    rw [← hx] at h
    exact .beyond _ (h.bind fun a => (hfg a).shrinks)

/-! ## Steps -/

theorem Leaves.parameter {x : Reader Expr} {ts : List Token} (h : Leaves n (x ts))
    (hts : ts.length ≤ n) : Leaves n (listed.parameter x ts) := by
  generalize hx : x ts = r at h
  cases h with
  | gaveUp =>
    simp only [listed, hx]
    exact .gaveUp
  | ok hle =>
    rcases parameter_cases hx with ⟨t, -, hname⟩ | hother
    · rw [hname]
      exact .ok hle
    · rw [hother]
      exact .error hts
  | error hle =>
    rw [parameter_error hx]
    exact .error hle

/-- A token in front of `vs` is taken on both sides or on neither. -/
theorem Agrees.take (p : Kind → Bool) {us : List Token} (hus : us ≠ []) :
    Agrees vs vs' (listed.take p (us ++ vs)) (listed.take p (us ++ vs')) := by
  obtain ⟨t, us, rfl⟩ := List.exists_cons_of_ne_nil hus
  cases ht : p t.kind with
  | false =>
    rw [take_of_not (by simpa using ht), take_of_not (by simpa using ht)]
    exact .ok none (t :: us) hus
  | true =>
    rw [List.cons_append, List.cons_append, take_of ht, take_of ht]
    by_cases hnil : us = []
    · subst hnil
      exact .beyond _ (.ok (Nat.le_refl _))
    · exact .ok (some t) us hnil

/-- What is no name is blamed where it starts. -/
theorem Agrees.ofParameter {x y : Reader Expr} {us : List Token}
    (h : Agrees vs vs' (x (us ++ vs)) (y (us ++ vs'))) :
    Agrees vs vs' (listed.parameter x (us ++ vs)) (listed.parameter y (us ++ vs')) := by
  generalize hx : x (us ++ vs) = r at h
  generalize hy : y (us ++ vs') = r' at h
  cases h with
  | ok e ws hws =>
    rcases parameter_cases hx with ⟨t, rfl, hname⟩ | hother
    · rw [hname, parameter_name hy]
      exact .ok t ws hws
    · rw [hother]
      exact .parameter _ _
  | error cause ws hws =>
    rw [parameter_error hx, parameter_error hy]
    exact .error cause ws hws
  | parameter ts =>
    rw [parameter_error hx]
    exact .parameter ts _
  | beyond _ h =>
    cases h with
    | gaveUp =>
      simp only [listed, hx]
      exact .beyond _ .gaveUp
    | ok hle =>
      rcases parameter_cases hx with ⟨t, -, hname⟩ | hother
      · rw [hname]
        exact .beyond _ (.ok hle)
      · rw [hother]
        exact .parameter _ _
    | error hle =>
      rw [parameter_error hx]
      exact .beyond _ (.error hle)

/-- Taking a token, or none, puts nothing back. -/
theorem shrinks_take (p : Kind → Bool) : Shrinks (listed.take p) := by
  intro ts
  cases ts with
  | nil => exact .ok (Nat.le_refl _)
  | cons t us =>
    cases ht : p t.kind with
    | false =>
      rw [take_of_not (by simpa using ht)]
      exact .ok (Nat.le_refl _)
    | true =>
      rw [take_of ht]
      exact .ok (Nat.le_succ _)

/-- The steps of which all rules are made are local. -/
theorem relates_local : Relates listed listed (Local vs vs') where
  pure a := ⟨fun _ => .ok (Nat.le_refl _), fun us hus => .ok a us hus⟩
  bind hxy hfg :=
    ⟨fun ts => (hxy.shrinks ts).bind fun a => (hfg a).shrinks,
      fun us hus => (hxy.agrees us hus).bind hfg⟩
  atEnd := by
    refine ⟨fun _ => .ok (Nat.le_refl _), fun us hus => ?_⟩
    obtain ⟨t, us, rfl⟩ := List.exists_cons_of_ne_nil hus
    exact .ok false (t :: us) hus
  take p _ := ⟨shrinks_take p, fun _ => .take p⟩
  fail cause := ⟨fun _ => .error (Nat.le_refl _), fun us hus => .error cause us hus⟩
  parameter h :=
    ⟨fun ts => (h.shrinks ts).parameter (Nat.le_refl _),
      fun us hus => (h.agrees us hus).ofParameter⟩

/-! ## Assignments -/

/-- One token is enough to see that there is no assignment, unless it is a name. -/
theorem Agrees.assignment {x : Token} {us : List Token}
    (hname : us = [] → x.kind ≠ .identifier) :
    Agrees vs vs' (listed.assignment (x :: us ++ vs)) (listed.assignment (x :: us ++ vs')) := by
  cases us with
  | nil =>
    rw [assignment_of_not (by rintro _ _ _ ⟨⟩ hx; exact absurd hx (hname rfl)),
      assignment_of_not (by rintro _ _ _ ⟨⟩ hx; exact absurd hx (hname rfl))]
    exact .ok none [x] (List.cons_ne_nil _ _)
  | cons q us =>
    by_cases hassign : x.kind = .identifier ∧ q.kind = .symbol .equal
    · rw [List.cons_append, List.cons_append, List.cons_append, List.cons_append,
        assignment_of hassign.1 hassign.2, assignment_of hassign.1 hassign.2]
      by_cases hnil : us = []
      · subst hnil
        exact .beyond _ (.ok (Nat.le_refl _))
      · exact .ok (some x) us hnil
    · rw [assignment_of_not (by rintro _ _ _ ⟨⟩ hx hq; exact hassign ⟨hx, hq⟩),
        assignment_of_not (by rintro _ _ _ ⟨⟩ hx hq; exact hassign ⟨hx, hq⟩)]
      exact .ok none (x :: q :: us) (List.cons_ne_nil _ _)

variable {read read' : (r : Rule) → Reader r.Tree}

theorem assignmentStep_of {ts us : List Token} {name : Option Token}
    (h : listed.assignment ts = some (.ok (name, us))) :
    assignmentStep listed read ts = assignedStep listed read name us :=
  Reader.bind_ok h

variable (read) in
/-- An assignment is seen by its name and the sign behind it, or there is none. -/
theorem assignmentStep_cases (ts : List Token) :
    (∃ x q us, ts = x :: q :: us ∧
        assignmentStep listed read ts = assignedStep listed read (some x) us) ∨
      assignmentStep listed read ts = assignedStep listed read none ts := by
  by_cases h : ∃ x q us, ts = x :: q :: us ∧ x.kind = .identifier ∧ q.kind = .symbol .equal
  · obtain ⟨x, q, us, rfl, hx, hq⟩ := h
    exact .inl ⟨x, q, us, rfl, assignmentStep_of (assignment_of hx hq)⟩
  · have hnone := assignment_of_not fun x q us hts hx hq => h ⟨x, q, us, hts, hx, hq⟩
    exact .inr (assignmentStep_of hnone)

theorem local_assignmentStep (hread : ∀ r, Local vs vs' r.Tree (read r) (read' r))
    (hname : ∀ x us, x.kind = .identifier → Leaves us.length (read .expression (x :: us))) :
    Local vs vs' Stmt (assignmentStep listed read) (assignmentStep listed read') := by
  have hlocal : Relates listed listed (Local vs vs') := relates_local
  have hassigned : ∀ name, Local vs vs' Stmt (assignedStep listed read name)
      (assignedStep listed read' name) := hlocal.assignedStep hread
  refine ⟨fun ts => ?_, fun us hus => ?_⟩
  · rcases assignmentStep_cases read ts with ⟨x, q, us, rfl, h⟩ | h
    · rw [h]
      exact ((hassigned _).shrinks us).mono (Nat.le_add_right us.length 2)
    · rw [h]
      exact (hassigned _).shrinks ts
  · obtain ⟨x, us, rfl⟩ := List.exists_cons_of_ne_nil hus
    by_cases halone : us = [] ∧ x.kind = .identifier
    · -- Whether `vs` begins with an equals sign or not, the name is read.
      obtain ⟨rfl, hx⟩ := halone
      refine .beyond _ ?_
      rcases assignmentStep_cases read ([x] ++ vs) with ⟨_, q, us, hvs, h⟩ | h
      · obtain ⟨-, rfl⟩ := List.cons.inj hvs
        rw [h]
        exact ((hassigned _).shrinks us).mono (Nat.le_succ _)
      · rw [h]
        exact (hname x vs hx).bind fun e =>
          (hlocal.bind (hlocal.expect (by nofun) _) fun _ => hlocal.pure _).shrinks
    · exact (Agrees.assignment fun hnil hx => halone ⟨hnil, hx⟩).bind hassigned

/-- What a failure in front of `vs` says about the other result. -/
theorem Agrees.eq_error {t : Token} {cause : SyntaxCause} {r' : Reader.Result α}
    (h : Agrees vs vs' (some (.error ⟨cause, t :: vs⟩)) r') (hcause : cause ≠ .parameter) :
    r' = some (.error ⟨cause, t :: vs'⟩) := by
  generalize hts : t :: vs = ts at h
  cases h with
  | error _ ws _ =>
    have hws : [t] = ws := List.append_cancel_right hts
    rw [← hws]
    rfl
  | parameter => exact absurd rfl hcause
  | beyond _ h =>
    subst hts
    cases h with
    | error hle => exact absurd hle (Nat.not_succ_le_self _)

end

/-! ## All rules -/

/-- An expression that begins with a name has passed it, also where it fails. -/
theorem leaves_read_of_name {x : Token} (hx : x.kind = .identifier) (us : List Token) (n : Nat) :
    Leaves us.length (Rule.expression.read n (x :: us)) := by
  rcases Rule.expression.read_cases n (x :: us) with h | h
  · rw [h]
    exact .gaveUp
  · rw [h]
    cases hrun : Rule.expression.run (x :: us) with
    | ok p => exact .ok (Nat.le_of_lt_succ (length_lt_of_pair hrun))
    | error f =>
      obtain ⟨k, hk⟩ := Rule.expression.fails _ _ hrun
      exact .error (hk.length_rest_le_of_name trivial hx)

/-- By induction on the depth, since a rule is made of steps and of rules one less deep. -/
theorem Rule.read_local (vs vs' : List Token) (n : Nat) (r : Rule) :
    Local vs vs' r.Tree (r.read n) (r.read n) := by
  induction n generalizing r with
  | zero => exact ⟨fun _ => .gaveUp, fun _ _ => .beyond _ .gaveUp⟩
  | succ n ih =>
    exact relates_local.step ih (fun r _ => ih r)
      (local_assignmentStep ih fun x us hx => leaves_read_of_name hx us n) r

/-- What stands behind the blamed token makes no difference. -/
theorem program_error_of_append {us vs : List Token} {t : Token} {cause : SyntaxCause}
    (h : Parser.program (us ++ t :: vs) = .error ⟨cause, t :: vs⟩) (hcause : cause ≠ .parameter)
    (vs' : List Token) : Parser.program (us ++ t :: vs') = .error ⟨cause, t :: vs'⟩ := by
  -- Deep enough for both lists.
  let n := Rule.program.depth (us ++ t :: vs) + Rule.program.depth (us ++ t :: vs') + 1
  have hagrees : Agrees vs vs' (Rule.program.read n (us ++ [t] ++ vs))
      (Rule.program.read n (us ++ [t] ++ vs')) :=
    (Rule.read_local vs vs' n .program).agrees (us ++ [t]) (List.concat_ne_nil t us)
  rw [← List.append_cons, ← List.append_cons, Rule.read_eq (by omega), Rule.read_eq (by omega),
    run_program_eq_error_iff.2 h] at hagrees
  exact run_program_eq_error_iff.1 (Option.some.inj (hagrees.eq_error hcause))

end PipeLang.Parser
