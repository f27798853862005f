import PipeLang.Proofs.Syntax.Soundness
import PipeLang.Proofs.Syntax.Steps

/-!
# The rules on lists of tokens

The parser is the fixed point of `Rule.step`, for lists of tokens that become shorter.
`Rule.read n` goes down `n` rules and gives up then. With enough of them it does what the
parser does (`Rule.read_eq`), and with fewer it does the same or gives up
(`Rule.read_cases`).

So what `Rule.step` keeps can be proved of the parser, by induction on `n`.
-/

namespace PipeLang.Parser

/-- A step on a list of tokens. It may give up, which is neither a tree nor a failure. -/
abbrev Reader := StateT (List Token) (ExceptT Failure Option)

/-- What a step comes to on some tokens. -/
abbrev Reader.Result (α : Type) := Option (Except Failure (α × List Token))

/-- The tokens that are left, in a list. -/
def listed : Access Reader where
  atEnd := fun ts => some (.ok (ts.isEmpty, ts))
  take p := fun
    | [] => some (.ok (none, []))
    | t :: us => if p t.kind then some (.ok (some t, us)) else some (.ok (none, t :: us))
  assignment := fun
    | ⟨.identifier, lexeme, line⟩ :: ⟨.symbol .equal, _, _⟩ :: us =>
      some (.ok (some ⟨.identifier, lexeme, line⟩, us))
    | ts => some (.ok (none, ts))
  fail cause := fun ts => some (.error ⟨cause, ts⟩)
  parameter x := fun ts =>
    match x ts with
    | some (.ok (.name t, us)) => some (.ok (t, us))
    | some (.ok _) => some (.error ⟨.parameter, ts⟩)
    | some (.error f) => some (.error f)
    | none => none
  iteration x := x

/-- The rule, at most `n` rules deep. -/
def Rule.read : Nat → (r : Rule) → Reader r.Tree
  | 0, _ => fun _ => none
  | n + 1, r => r.step listed (read n)

/-! ## Single steps -/

section

variable {α β γ : Type} {ts us : List Token} {t : Token} {x : Reader α} {f : α → Reader β}

/-- A step that returns is followed by the next. -/
theorem Reader.bind_ok {a : α} (h : x ts = some (.ok (a, us))) : (x >>= f) ts = f a us := by
  simp [bind, StateT.bind, ExceptT.bind, ExceptT.mk, ExceptT.bindCont, h]

/-- A step that fails is the end. -/
theorem Reader.bind_error {e : Failure} (h : x ts = some (.error e)) :
    (x >>= f) ts = some (.error e) := by
  simp [bind, StateT.bind, ExceptT.bind, ExceptT.mk, ExceptT.bindCont, h]

/-- So is a step that gives up. -/
theorem Reader.bind_none (h : x ts = none) : (x >>= f) ts = none := by
  simp [bind, StateT.bind, ExceptT.bind, ExceptT.mk, h]

/-- Two steps do what the parser does in two steps when each of them does. -/
theorem bindParsed_read {y : Except Failure (Parsed α ts)}
    {g : Parsed α ts → Except Failure γ} {k : γ → β × List Token}
    (hx : x ts = some (y.map Parsed.pair))
    (hf : ∀ a us (h : us.length < ts.length), f a us = some ((g ⟨a, us, h⟩).map k)) :
    (x >>= f) ts = some ((y >>= g).map k) := by
  cases y with
  | error e => exact Reader.bind_error hx
  | ok p => exact (Reader.bind_ok hx).trans (hf p.value p.rest p.shorter)

/-- The same when the first may read nothing. -/
theorem bindContinued_read {y : Except Failure (Continued α ts)}
    {g : Continued α ts → Except Failure γ} {k : γ → β × List Token}
    (hx : x ts = some (y.map Continued.pair))
    (hf : ∀ a us (h : us.length ≤ ts.length), f a us = some ((g ⟨a, us, h⟩).map k)) :
    (x >>= f) ts = some ((y >>= g).map k) := by
  cases y with
  | error e => exact Reader.bind_error hx
  | ok p => exact (Reader.bind_ok hx).trans (hf p.value p.rest p.noLonger)

/-- The last rule that is gone on with. -/
theorem lastParsed_read {y : Except Failure (Parsed α ts)}
    {g : Parsed α ts → Except Failure γ} {k : γ → α × List Token}
    (hx : x ts = some (y.map Parsed.pair))
    (hg : ∀ a us (h : us.length < ts.length), (g ⟨a, us, h⟩).map k = .ok (a, us)) :
    x ts = some ((y >>= g).map k) := by
  cases y with
  | error e => exact hx
  | ok p => exact hx.trans (congrArg some (hg p.value p.rest p.shorter).symm)

/-- And when the parser only passes on what it has read. -/
theorem lastContinued_read {y : Except Failure (Continued α ts)}
    {g : Continued α ts → Except Failure γ} {k : γ → α × List Token}
    (hx : x ts = some (y.map Continued.pair))
    (hg : ∀ a us (h : us.length ≤ ts.length), (g ⟨a, us, h⟩).map k = .ok (a, us)) :
    x ts = some ((y >>= g).map k) := by
  cases y with
  | error e => exact hx
  | ok p => exact hx.trans (congrArg some (hg p.value p.rest p.noLonger).symm)

end

/-! ## Single tokens -/

section

variable {α : Type} {ts us : List Token} {t : Token} {k : Kind} {p : Kind → Bool}
  {a b : Reader α} {f : Token → Reader α}

theorem take_of (hp : p t.kind = true) : listed.take p (t :: us) = some (.ok (some t, us)) :=
  if_pos hp

/-- A token that does not fit is left where it is, and so is the end of the list. -/
theorem take_of_not (hp : ∀ t ∈ ts.head?, p t.kind = false) :
    listed.take p ts = some (.ok (none, ts)) := by
  cases ts with
  | nil => rfl
  | cons t us => exact if_neg (Bool.not_eq_true _ ▸ hp t rfl)

/-- A token that fits is read and decides how to go on. -/
theorem option_of (hp : p t.kind = true) :
    (do match ← listed.take p with | none => a | some t => f t : Reader α) (t :: us) = f t us :=
  Reader.bind_ok (take_of hp)

theorem option_of_not (hp : ∀ t ∈ ts.head?, p t.kind = false) :
    (do match ← listed.take p with | none => a | some t => f t : Reader α) ts = a ts :=
  Reader.bind_ok (take_of_not hp)

theorem skip_of (ht : t.kind = k) : listed.skip k (t :: us) = some (.ok (true, us)) :=
  Reader.bind_ok (take_of (p := (· == k)) (beq_iff_eq.2 ht))

theorem skip_of_not (ht : ∀ t ∈ ts.head?, t.kind ≠ k) :
    listed.skip k ts = some (.ok (false, ts)) :=
  Reader.bind_ok (take_of_not (p := (· == k)) fun t h => beq_eq_false_iff_ne.2 (ht t h))

/-- A token of the kind is skipped and decides how to go on. -/
theorem ite_of (ht : t.kind = k) :
    (do if ← listed.skip k then a else b : Reader α) (t :: us) = a us :=
  Reader.bind_ok (skip_of ht)

theorem ite_of_not (ht : ∀ t ∈ ts.head?, t.kind ≠ k) :
    (do if ← listed.skip k then a else b : Reader α) ts = b ts :=
  Reader.bind_ok (skip_of_not ht)

theorem ite_atEnd : (do if ← listed.atEnd then a else b : Reader α) [] = a [] := rfl

theorem ite_not_atEnd :
    (do if ← listed.atEnd then a else b : Reader α) (t :: us) = b (t :: us) := rfl

/-- A list that does not begin with a token of this kind. -/
theorem head?_kind_ne (h : ∀ lexeme line us, ts = ⟨k, lexeme, line⟩ :: us → False) :
    ∀ t ∈ ts.head?, t.kind ≠ k := by
  rintro t ht rfl
  obtain ⟨us, rfl⟩ := List.head?_eq_some_iff.1 ht
  exact h _ _ _ rfl

theorem expect_of {cause : SyntaxCause} (ht : t.kind = k) :
    listed.expect k cause (t :: us) = some (.ok (t, us)) :=
  Reader.bind_ok (take_of (p := (· == k)) (beq_iff_eq.2 ht))

/-- The failure keeps the tokens in front of which it happened. -/
theorem expect_of_not {cause : SyntaxCause} (ht : ∀ t ∈ ts.head?, t.kind ≠ k) :
    listed.expect k cause ts = some (.error ⟨cause, ts⟩) :=
  Reader.bind_ok (take_of_not (p := (· == k)) fun t h => beq_eq_false_iff_ne.2 (ht t h))

/-- The parser's own way to ask for a symbol. -/
theorem expect_read (s : Symbol) (cause : SyntaxCause) (ts : List Token) :
    listed.expect (.symbol s) cause ts = some ((expect s cause ts).map Parsed.pair) := by
  unfold expect
  split
  · rfl
  · split
    · next h => exact expect_of h
    · next h => exact expect_of_not (by simpa using h)

/-- And for a name. -/
theorem expectName_read (cause : SyntaxCause) (ts : List Token) :
    listed.expect .identifier cause ts = some ((expectName cause ts).map Parsed.pair) := by
  unfold expectName
  split
  · rfl
  · split
    · next h => exact expect_of h
    · next h => exact expect_of_not (by simpa using h)

/-- And for the word that may stand behind `let`. -/
theorem mutWord_read (ts : List Token) :
    listed.skip (.keyword .mutWord) ts = some (.ok (mutWord? ts).pair) := by
  unfold mutWord?
  split
  · exact skip_of rfl
  · next h => exact skip_of_not (head?_kind_ne h)

theorem assignment_of {x q : Token} (hx : x.kind = .identifier) (hq : q.kind = .symbol .equal) :
    listed.assignment (x :: q :: us) = some (.ok (some x, us)) := by
  obtain ⟨kind, lexeme, line⟩ := x
  obtain ⟨kind', lexeme', line'⟩ := q
  obtain rfl : kind = .identifier := hx
  obtain rfl : kind' = .symbol .equal := hq
  rfl

/-- Unless a name and `=` come first, nothing is read. -/
theorem assignment_of_not (h : ∀ x q us, ts = x :: q :: us → x.kind = .identifier →
    q.kind ≠ .symbol .equal) : listed.assignment ts = some (.ok (none, ts)) := by
  unfold listed
  dsimp only
  split
  · exact (h _ _ _ rfl rfl rfl).elim
  · rfl

theorem parameter_name {x : Reader Expr} (h : x ts = some (.ok (.name t, us))) :
    listed.parameter x ts = some (.ok (t, us)) := by
  simp only [listed, h]

/-- An expression that is no name is no parameter, and it is blamed from its start. -/
theorem parameter_other {x : Reader Expr} {e : Expr} (h : x ts = some (.ok (e, us)))
    (he : ∀ t, e ≠ .name t) : listed.parameter x ts = some (.error ⟨.parameter, ts⟩) := by
  simp only [listed, h]
  split
  · next heq => cases heq; exact (he _ rfl).elim
  · rfl
  · next heq => cases heq
  · next heq => cases heq

/-- A parameter is a name, or it is blamed. -/
theorem parameter_cases {x : Reader Expr} {e : Expr} (h : x ts = some (.ok (e, us))) :
    (∃ t, e = .name t ∧ listed.parameter x ts = some (.ok (t, us))) ∨
      listed.parameter x ts = some (.error ⟨.parameter, ts⟩) := by
  by_cases he : ∃ t, e = .name t
  · obtain ⟨t, rfl⟩ := he
    exact .inl ⟨t, rfl, parameter_name h⟩
  · exact .inr (parameter_other h fun t ht => he ⟨t, ht⟩)

theorem parameter_error {x : Reader Expr} {f : Failure} (h : x ts = some (.error f)) :
    listed.parameter x ts = some (.error f) := by
  simp only [listed, h]

end

/-! ## One rule after the other -/

variable (read : (r : Rule) → Reader r.Tree)

/-- On these tokens it is what the parser does. -/
def Meets (r : Rule) (ts : List Token) : Prop := read r ts = some (r.run ts)

/-- So are all rules on shorter lists. -/
def MeetsBelow (ts : List Token) : Prop := ∀ r us, us.length < ts.length → Meets read r us

/-- So are all rules on lists that are no longer. -/
def MeetsUpTo (ts : List Token) : Prop := ∀ r us, us.length ≤ ts.length → Meets read r us

variable {read}

/-- What is shorter than a list is no longer than the rest of it. -/
theorem MeetsBelow.tail {t : Token} {us : List Token} (h : MeetsBelow read (t :: us)) :
    MeetsUpTo read us :=
  fun r vs hvs => h r vs (Nat.lt_succ_of_le hvs)

theorem MeetsUpTo.tail {t : Token} {us : List Token} (h : MeetsUpTo read (t :: us)) :
    MeetsUpTo read us :=
  fun r vs hvs => h r vs (Nat.le_succ_of_le hvs)

/-- Until the list is empty, a statement and the program behind it. -/
theorem meets_program {ts : List Token} (below : MeetsBelow read ts)
    (here : Meets read .statement ts) : Rule.program.step listed read ts =
      some (Rule.program.run ts) := by
  cases ts with
  | nil =>
    rw [Rule.run, Parser.program]
    exact ite_atEnd
  | cons t us =>
    rw [Rule.run, Parser.program]
    refine ite_not_atEnd.trans (bindParsed_read here fun x vs h => ?_)
    have hrest : read .program vs = some ((Parser.program vs).map (·, [])) := below .program vs h
    dsimp only
    generalize Parser.program vs = p at hrest
    cases p with
    | error f => exact Reader.bind_error hrest
    | ok p => exact Reader.bind_ok hrest

/-- A statement is told by its first token, and an assignment by its first two. -/
theorem meets_statement {ts : List Token} (below : MeetsBelow read ts)
    (here : Meets read .expression ts) :
    Rule.statement.step listed read ts = some (Rule.statement.run ts) := by
  refine statement.fun_cases_unfolding (fun ts x => MeetsBelow read ts →
    Meets read .expression ts → Rule.statement.step listed read ts = some (x.map Parsed.pair))
    ?_ ?_ ?_ ?_ ?_ ts below here
  · intro lexeme line us below _
    refine (ite_of rfl).trans ?_
    refine bindParsed_read (below.tail .expression us (Nat.le_refl _)) fun e vs h => ?_
    exact bindParsed_read (expect_read ..) fun _ _ _ => rfl
  · intro lexeme line us mutable us₁ h₁ hm below _
    refine (ite_of_not (by simp)).trans ((ite_of rfl).trans ((Reader.bind_ok
      (mutWord_read us)).trans ?_))
    rw [hm]
    refine bindParsed_read (expectName_read ..) fun x us₂ h₂ => ?_
    refine bindParsed_read (expect_read ..) fun _ us₃ h₃ => ?_
    have shorter : us₃.length ≤ us.length := by dsimp only at h₂; omega
    refine bindParsed_read (below.tail .expression us₃ shorter) fun e us₄ h₄ => ?_
    exact bindParsed_read (expect_read ..) fun _ _ _ => rfl
  · intro lexeme line us below _
    refine (ite_of_not (by simp)).trans ((ite_of_not (by simp)).trans ((ite_of rfl).trans ?_))
    refine bindParsed_read (expectName_read ..) fun x us₁ h₁ => ?_
    refine bindParsed_read (expect_read ..) fun _ us₂ h₂ => ?_
    refine bindParsed_read (below.tail .parameters us₂ (by omega)) fun ps us₃ h₃ => ?_
    refine bindParsed_read (below.tail (.block _) us₃ (by omega)) fun body us₄ h₄ => ?_
    exact bindParsed_read (expect_read ..) fun _ _ _ => rfl
  · intro lexeme line lexeme' line' us below _
    refine (ite_of_not (by simp)).trans ((ite_of_not (by simp)).trans
      ((ite_of_not (by simp)).trans ((Reader.bind_ok rfl).trans ?_)))
    refine bindParsed_read (below.tail.tail .expression us (by omega)) fun e vs h => ?_
    exact bindParsed_read (expect_read ..) fun _ _ _ => rfl
  · intro ts hprint hlet hfunc hassign _ here
    have hnone : listed.assignment ts = some (.ok (none, ts)) := by
      refine assignment_of_not fun x q vs hts hx hq => ?_
      obtain ⟨kind, lexeme, line⟩ := x
      obtain ⟨kind', lexeme', line'⟩ := q
      obtain rfl : kind = .identifier := hx
      obtain rfl : kind' = .symbol .equal := hq
      exact hassign _ _ _ _ _ hts
    refine (ite_of_not (head?_kind_ne hprint)).trans ((ite_of_not (head?_kind_ne hlet)).trans
      ((ite_of_not (head?_kind_ne hfunc)).trans ((Reader.bind_ok hnone).trans ?_)))
    refine bindParsed_read here fun e us h => ?_
    exact bindParsed_read (expect_read ..) fun _ _ _ => rfl

theorem meets_parameters {ts : List Token} (here : Meets read .parameterList ts) :
    Rule.parameters.step listed read ts = some (Rule.parameters.run ts) := by
  refine parameters.fun_cases_unfolding (fun ts x => Meets read .parameterList ts →
    Rule.parameters.step listed read ts = some (x.map Parsed.pair)) ?_ ?_ ts here
  · intro lexeme line us _
    exact ite_of rfl
  · intro ts hnone here
    exact (ite_of_not (head?_kind_ne hnone)).trans here

/-- After each parameter a comma or the closing parenthesis. -/
theorem meets_parameterList {ts : List Token} (below : MeetsBelow read ts)
    (here : Meets read .expression ts) :
    Rule.parameterList.step listed read ts = some (Rule.parameterList.run ts) := by
  rw [Rule.run, parameterList]
  have here : read .expression ts = some ((Parser.expression ts).map Parsed.pair) := here
  cases he : Parser.expression ts with
  | error f =>
    rw [he] at here
    exact Reader.bind_error (parameter_error here)
  | ok p =>
    obtain ⟨e, us, h⟩ := p
    rw [he] at here
    dsimp only [bind, Except.bind]
    split
    · next vs h p =>
      refine (Reader.bind_ok (parameter_name here)).trans ((ite_of rfl).trans ?_)
      exact bindParsed_read (below .parameterList vs (Nat.lt_of_succ_lt h)) fun _ _ _ => rfl
    · next p hcomma =>
      refine (Reader.bind_ok (parameter_name here)).trans ((ite_of_not ?_).trans ?_)
      · refine head?_kind_ne fun lexeme line vs hus => ?_
        subst hus
        exact hcomma lexeme line vs h rfl HEq.rfl
      · exact bindParsed_read (expect_read ..) fun _ _ _ => rfl
    · next hname _ =>
      exact Reader.bind_error (parameter_other here hname)

/-- A brace and the statements up to its partner. -/
theorem meets_block {cause : SyntaxCause} {ts : List Token} (below : MeetsBelow read ts) :
    (Rule.block cause).step listed read ts = some ((Rule.block cause).run ts) := by
  refine block.fun_cases_unfolding cause (fun ts x => MeetsBelow read ts →
    (Rule.block cause).step listed read ts = some (x.map Parsed.pair)) ?_ ?_ ts below
  · intro lexeme line us below
    refine (Reader.bind_ok (expect_of (k := .symbol .leftBrace) rfl)).trans ?_
    exact lastParsed_read (below.tail .statements us (Nat.le_refl _)) fun _ _ _ => rfl
  · intro ts hnone _
    exact Reader.bind_error (expect_of_not (head?_kind_ne hnone))

/-- Until the closing brace or the end, a statement and the block behind it. -/
theorem meets_statements {ts : List Token} (below : MeetsBelow read ts)
    (here : Meets read .statement ts) :
    Rule.statements.step listed read ts = some (Rule.statements.run ts) := by
  refine statements.fun_cases_unfolding (fun ts x => MeetsBelow read ts →
    Meets read .statement ts → Rule.statements.step listed read ts = some (x.map Parsed.pair))
    ?_ ?_ ?_ ts below here
  · intro _ _
    rfl
  · intro lexeme line us _ _
    exact ite_of rfl
  · intro ts hnil hbrace below here
    refine (ite_of_not (head?_kind_ne hbrace)).trans ?_
    cases ts with
    | nil => exact (hnil rfl).elim
    | cons t us =>
      refine ite_not_atEnd.trans (bindParsed_read here fun x vs h => ?_)
      exact bindParsed_read (below .statements vs h) fun _ _ _ => rfl

theorem meets_expression {ts : List Token} (below : MeetsBelow read ts)
    (here : Meets read .stage ts) :
    Rule.expression.step listed read ts = some (Rule.expression.run ts) := by
  rw [Rule.run, expression]
  refine bindParsed_read here fun e us h => ?_
  exact lastContinued_read (below (.pipes e) us h) fun _ _ _ => rfl

/-- As long as there are pipes. -/
theorem meets_pipes {value : Expr} {ts : List Token} (below : MeetsBelow read ts) :
    (Rule.pipes value).step listed read ts = some ((Rule.pipes value).run ts) := by
  refine pipes.fun_cases_unfolding value (fun ts x => MeetsBelow read ts →
    (Rule.pipes value).step listed read ts = some (x.map Continued.pair)) ?_ ?_ ts below
  · intro lexeme line us below
    refine (option_of rfl).trans ?_
    refine bindParsed_read (below.tail .stage us (Nat.le_refl _)) fun e vs h => ?_
    exact lastContinued_read (below.tail (.pipes _) vs (by omega)) fun _ _ _ => rfl
  · intro ts hnone _
    exact option_of_not fun t ht => beq_eq_false_iff_ne.2 (head?_kind_ne hnone t ht)

/-- A block, an `if` or an equality, by the first token. -/
theorem meets_stage {ts : List Token} (below : MeetsBelow read ts)
    (here : Meets read (.tier .equality) ts) :
    Rule.stage.step listed read ts = some (Rule.stage.run ts) := by
  refine stage.fun_cases_unfolding (fun ts x => MeetsBelow read ts →
    Meets read (.tier .equality) ts → Rule.stage.step listed read ts = some (x.map Parsed.pair))
    ?_ ?_ ?_ ts below here
  · intro lexeme line us below _
    refine (ite_of rfl).trans (bindParsed_read (below.tail .statements us (Nat.le_refl _)) ?_)
    exact fun _ _ _ => rfl
  · intro lexeme line us below _
    refine (ite_of_not (by simp)).trans ((ite_of rfl).trans ?_)
    refine bindParsed_read (below.tail .expression us (Nat.le_refl _)) fun e us₁ h₁ => ?_
    refine bindParsed_read (below.tail (.block _) us₁ (by omega)) fun body us₂ h₂ => ?_
    exact bindContinued_read (below.tail .branches us₂ (by omega)) fun _ _ _ => rfl
  · intro ts hbrace hif _ here
    exact (ite_of_not (head?_kind_ne hbrace)).trans
      ((ite_of_not (head?_kind_ne hif)).trans here)

/-- `else if`, `else` or neither. -/
theorem meets_branches {ts : List Token} (below : MeetsBelow read ts) :
    Rule.branches.step listed read ts = some (Rule.branches.run ts) := by
  refine branches.fun_cases_unfolding (fun ts x => MeetsBelow read ts →
    Rule.branches.step listed read ts = some (x.map Continued.pair)) ?_ ?_ ?_ ts below
  · intro lexeme line lexeme' line' us below
    refine (ite_of rfl).trans ((ite_of rfl).trans ?_)
    refine bindParsed_read (below.tail.tail .expression us (by omega)) fun e us₁ h₁ => ?_
    refine bindParsed_read (below.tail.tail (.block _) us₁ (by omega)) fun body us₂ h₂ => ?_
    exact bindContinued_read (below.tail.tail .branches us₂ (by omega)) fun _ _ _ => rfl
  · intro lexeme line us hif below
    refine (ite_of rfl).trans ((ite_of_not (head?_kind_ne fun lexeme' line' vs => ?_)).trans ?_)
    · rintro rfl
      exact hif _ _ _ rfl
    · exact bindParsed_read (below.tail (.block _) us (Nat.le_refl _)) fun _ _ _ => rfl
  · intro ts _ helse _
    exact ite_of_not (head?_kind_ne helse)

theorem meets_tier {t : Tier} {ts : List Token} (below : MeetsBelow read ts)
    (here : Meets read (.operand t) ts) :
    (Rule.tier t).step listed read ts = some ((Rule.tier t).run ts) := by
  rw [Rule.run, Parser.tier]
  refine bindParsed_read here fun e us h => ?_
  exact lastContinued_read (below (.operators t e) us h) fun _ _ _ => rfl

/-- The operand of a level is the level below, or a prefix operator's. -/
theorem meets_operand {t : Tier} {ts : List Token}
    (here : ∀ r : Rule, r.rank < (Rule.operand t).rank → Meets read r ts) :
    (Rule.operand t).step listed read ts = some ((Rule.operand t).run ts) := by
  cases t <;> rw [Rule.run, operand]
  · exact here (.tier .comparison) (by decide)
  · exact here (.tier .addition) (by decide)
  · exact here (.tier .product) (by decide)
  · exact here .unary (by decide)

/-- As long as there are operators of the level. -/
theorem meets_operators {t : Tier} {left : Expr} {ts : List Token}
    (below : MeetsBelow read ts) :
    (Rule.operators t left).step listed read ts = some ((Rule.operators t left).run ts) := by
  refine operators.fun_cases_unfolding t left (fun ts x => MeetsBelow read ts →
    (Rule.operators t left).step listed read ts = some (x.map Continued.pair)) ?_ ?_ ?_ ts below
  · intro _
    rfl
  · intro o us ho below
    refine (option_of ho).trans
      (bindParsed_read (below.tail (.operand t) us (Nat.le_refl _)) fun e vs h => ?_)
    exact lastContinued_read (below.tail (.operators t _) vs (by omega)) fun _ _ _ => rfl
  · intro o us ho _
    exact option_of_not (by simpa using ho)

/-- A prefix operator, or a call. -/
theorem meets_unary {ts : List Token} (below : MeetsBelow read ts)
    (here : Meets read .call ts) :
    Rule.unary.step listed read ts = some (Rule.unary.run ts) := by
  refine Parser.unary.fun_cases_unfolding (fun ts x => MeetsBelow read ts →
    Meets read .call ts → Rule.unary.step listed read ts = some (x.map Parsed.pair))
    ?_ ?_ ?_ ts below here
  · intro _ here
    refine (option_of_not (by simp)).trans (here.trans ?_)
    rw [Rule.run, Parser.call, Parser.primary]
    · rfl
    all_goals simp
  · intro o us ho below _
    exact (option_of ho).trans
      (bindParsed_read (below.tail .unary us (Nat.le_refl _)) fun _ _ _ => rfl)
  · intro o us ho _ here
    exact (option_of_not (by simpa using ho)).trans here

theorem meets_call {ts : List Token} (below : MeetsBelow read ts)
    (here : Meets read .primary ts) :
    Rule.call.step listed read ts = some (Rule.call.run ts) := by
  rw [Rule.run, Parser.call]
  refine bindParsed_read here fun e us h => ?_
  exact lastContinued_read (below (.calls e) us h) fun _ _ _ => rfl

/-- As long as there are argument lists. -/
theorem meets_calls {callee : Expr} {ts : List Token} (below : MeetsBelow read ts) :
    (Rule.calls callee).step listed read ts = some ((Rule.calls callee).run ts) := by
  refine calls.fun_cases_unfolding callee (fun ts x => MeetsBelow read ts →
    (Rule.calls callee).step listed read ts = some (x.map Continued.pair)) ?_ ?_ ts below
  · intro lexeme line us below
    refine (option_of rfl).trans
      (bindParsed_read (below.tail .arguments us (Nat.le_refl _)) fun es vs h => ?_)
    exact lastContinued_read (below.tail (.calls _) vs (by omega)) fun _ _ _ => rfl
  · intro ts hnone _
    exact option_of_not fun t ht => beq_eq_false_iff_ne.2 (head?_kind_ne hnone t ht)

theorem meets_arguments {ts : List Token} (here : Meets read .argumentList ts) :
    Rule.arguments.step listed read ts = some (Rule.arguments.run ts) := by
  refine arguments.fun_cases_unfolding (fun ts x => Meets read .argumentList ts →
    Rule.arguments.step listed read ts = some (x.map Parsed.pair)) ?_ ?_ ts here
  · intro lexeme line us _
    exact ite_of rfl
  · intro ts hnone here
    exact (ite_of_not (head?_kind_ne hnone)).trans here

/-- After each argument a comma or the closing parenthesis. -/
theorem meets_argumentList {ts : List Token} (below : MeetsBelow read ts)
    (here : Meets read .expression ts) :
    Rule.argumentList.step listed read ts = some (Rule.argumentList.run ts) := by
  rw [Rule.run, argumentList]
  refine bindParsed_read here fun e us h => ?_
  dsimp only
  split
  · next vs h =>
    refine (ite_of rfl).trans ?_
    exact bindParsed_read (below .argumentList vs (Nat.lt_of_succ_lt h)) fun _ _ _ => rfl
  · next hcomma =>
    refine (ite_of_not (head?_kind_ne fun lexeme line vs hus => ?_)).trans ?_
    · subst hus
      exact hcomma lexeme line vs h rfl HEq.rfl
    · exact bindParsed_read (expect_read ..) fun _ _ _ => rfl

/-- An operand is told by its first token, in the order in which the parser asks. -/
theorem meets_primary {ts : List Token} (below : MeetsBelow read ts) :
    Rule.primary.step listed read ts = some (Rule.primary.run ts) := by
  refine primary.fun_cases_unfolding (fun ts x => MeetsBelow read ts →
    Rule.primary.step listed read ts = some (x.map Parsed.pair)) ?_ ?_ ?_ ?_ ?_ ?_ ?_ ?_ ?_ ts
    below
  case refine_7 =>
    intro lexeme line us below
    change (do
      let e ← read .expression
      let _ ← listed.expect (.symbol .rightParen) .groupingEnd
      pure (.grouping e) : Reader Expr) us = _
    refine bindParsed_read (below.tail .expression us (Nat.le_refl _)) fun e vs h => ?_
    exact bindParsed_read (expect_read ..) fun _ _ _ => rfl
  case refine_8 =>
    intro lexeme line us below
    change (do
      let body ← read .statements
      pure (.block body) : Reader Expr) us = _
    exact bindParsed_read (below.tail .statements us (Nat.le_refl _)) fun _ _ _ => rfl
  case refine_9 =>
    intro ts hfalse htrue hnil hstring hnumber hname hparen hbrace _
    have hliteral : ∀ t ∈ ts.head?, t.kind.literal?.isSome = false := by
      intro t ht
      cases hkind : t.kind with
      | string s => exact (head?_kind_ne (hstring s) t ht hkind).elim
      | number x => exact (head?_kind_ne (hnumber x) t ht hkind).elim
      | _ => rfl
    refine (ite_of_not (head?_kind_ne hfalse)).trans ((ite_of_not (head?_kind_ne htrue)).trans
      ((ite_of_not (head?_kind_ne hnil)).trans ((option_of_not hliteral).trans ?_)))
    refine (option_of_not (p := (· == .identifier)) fun t ht =>
      beq_eq_false_iff_ne.2 (head?_kind_ne hname t ht)).trans ?_
    exact (ite_of_not (head?_kind_ne hparen)).trans (ite_of_not (head?_kind_ne hbrace))
  all_goals
    intros
    rfl

/-- The parser is a fixed point. -/
theorem Rule.step_eq {r : Rule} {ts : List Token} (below : MeetsBelow read ts)
    (here : ∀ r' : Rule, r'.rank < r.rank → Meets read r' ts) :
    r.step listed read ts = some (r.run ts) := by
  cases r with
  | program => exact meets_program below (here _ (by decide))
  | statement => exact meets_statement below (here _ (by decide))
  | parameters => exact meets_parameters (here _ (by decide))
  | parameterList => exact meets_parameterList below (here _ (by decide))
  | block cause => exact meets_block below
  | statements => exact meets_statements below (here _ (by decide))
  | expression => exact meets_expression below (here _ (by decide))
  | pipes value => exact meets_pipes below
  | stage => exact meets_stage below (here _ (by decide))
  | branches => exact meets_branches below
  | tier t => exact meets_tier below (here _ (Nat.lt_succ_self _))
  | operand t => exact meets_operand here
  | operators t left => exact meets_operators below
  | unary => exact meets_unary below (here _ (by decide))
  | call => exact meets_call below (here _ (by decide))
  | calls callee => exact meets_calls below
  | arguments => exact meets_arguments (here _ (by decide))
  | argumentList => exact meets_argumentList below (here _ (by decide))
  | primary => exact meets_primary below

/-- Without reading a token, rules follow one another less than twenty times. -/
theorem Rule.rank_le (r : Rule) : r.rank ≤ 17 := by
  cases r with
  | tier t | operand t => cases t <;> decide
  | _ => simp [Rule.rank]

/-! ## Deep enough -/

/-- How deep the rule can go down on so many tokens. -/
def Rule.depth (r : Rule) (ts : List Token) : Nat := 20 * ts.length + r.rank

/-- Deep enough, the rule does what the parser does. -/
theorem Rule.read_eq : ∀ {n : Nat} {r : Rule} {ts : List Token}, r.depth ts < n →
    r.read n ts = some (r.run ts) := by
  intro n
  induction n with
  | zero => exact fun h => absurd h (Nat.not_lt_zero _)
  | succ n ih =>
    intro r ts h
    unfold depth at h
    refine Rule.step_eq (fun r' us hlt => ih ?_) fun r' hlt => ih ?_
    · have hrank := r'.rank_le
      unfold depth
      omega
    · unfold depth
      omega

/-- The first step gives up, or it does what the second does. -/
def Approximates (α : Type) (x y : Reader α) : Prop := ∀ ts, x ts = none ∨ x ts = y ts

/-- Steps built alike from such steps are such steps, so giving up can only spread. -/
theorem relates_approximates : Relates listed listed Approximates where
  pure _ _ := .inr rfl
  bind {_ _ x y f g} hxy hfg ts := by
    rcases hxy ts with h | h
    · exact .inl (Reader.bind_none h)
    · cases hy : y ts with
      | none => exact .inl (Reader.bind_none (h.trans hy))
      | some r =>
        cases r with
        | error e => exact .inr ((Reader.bind_error (h.trans hy)).trans (Reader.bind_error hy).symm)
        | ok p =>
          rw [Reader.bind_ok (h.trans hy), Reader.bind_ok hy]
          exact hfg p.1 p.2
  atEnd _ := .inr rfl
  take _ _ _ := .inr rfl
  fail _ _ := .inr rfl
  parameter {x y} h ts := by
    rcases h ts with h | h
    · exact .inl (by simp only [listed, h])
    · exact .inr (by simp only [listed, h])

/-- A rule that may go down one more rule does what it did, or no longer gives up. -/
theorem Rule.read_succ (n : Nat) (r : Rule) :
    Approximates r.Tree (r.read n) (r.read (n + 1)) := by
  induction n generalizing r with
  | zero => exact fun _ => .inl rfl
  | succ n ih =>
    exact relates_approximates.step ih (fun r _ => ih r)
      (relates_approximates.assignmentStep ih fun _ => .inr rfl) r

/-- However deep the rule may go, it gives up or does what the parser does. -/
theorem Rule.read_cases (n : Nat) (r : Rule) (ts : List Token) :
    r.read n ts = none ∨ r.read n ts = some (r.run ts) := by
  have deeper : ∀ k, r.read n ts = none ∨ r.read n ts = r.read (n + k) ts := by
    intro k
    induction k with
    | zero => exact .inr rfl
    | succ k ih =>
      rcases ih with h | h
      · exact .inl h
      · rw [h]
        exact r.read_succ (n + k) ts
  rw [← Rule.read_eq (n := n + (r.depth ts + 1)) (by omega)]
  exact deeper _

end PipeLang.Parser
