import PipeLang.Proofs.Syntax.Soundness

/-!
# Where a parse fails

A rule fails because it does not find the token that it needs (`Raises`), or because a rule
fails that it goes on with (`Calls`), or because the statements of a block fail that it opens
(`Opens`). `Fails r ts f n` follows these steps down to the place where the failure `f` arises :
the rule `r`, begun at `ts`, is then inside `n` blocks that it has opened and not closed.

Every failure of the parser comes about in this way (`Rule.fails`). There is one lemma for
each function of the parser, which says where that function can fail; `Rule.induction` puts
them together.
-/

namespace PipeLang.Parser

/-! ## The steps of a failing parse -/

/-- The rule reads something from the head of `ts` and leaves `rest`. -/
def Rule.Passes (r : Rule) (ts rest : List Token) : Prop := ∃ x, r.run ts = .ok (x, rest)

/-- Begun at `ts`, the rule `r` goes on with the rule `r'` at `vs`, in the same block. -/
inductive Calls : Rule → List Token → Rule → List Token → Prop
  | program {ts : List Token} : Calls .program ts .statement ts
  | programRest {ts vs : List Token} :
    Rule.statement.Passes ts vs → Calls .program ts .program vs
  | print {t : Token} {us : List Token} :
    t.kind = .keyword .printWord → Calls .statement (t :: us) .expression us
  | declare {t x q : Token} {us vs : List Token} :
    t.kind = .keyword .letWord → (mutWord? us).rest = x :: q :: vs → x.kind = .identifier →
    q.kind = .symbol .equal → Calls .statement (t :: us) .expression vs
  | functionParameters {t x p : Token} {us : List Token} :
    t.kind = .keyword .funcWord → x.kind = .identifier → p.kind = .symbol .leftParen →
    Calls .statement (t :: x :: p :: us) .parameters us
  | functionBody {t x p : Token} {us vs : List Token} :
    t.kind = .keyword .funcWord → x.kind = .identifier → p.kind = .symbol .leftParen →
    Rule.parameters.Passes us vs →
    Calls .statement (t :: x :: p :: us) (.block (.functionBody x.lexeme)) vs
  | assign {x q : Token} {us : List Token} :
    x.kind = .identifier → q.kind = .symbol .equal →
    Calls .statement (x :: q :: us) .expression us
  | evaluate {ts : List Token} : Calls .statement ts .expression ts
  | parameters {ts : List Token} : Calls .parameters ts .parameterList ts
  | parameter {ts : List Token} : Calls .parameterList ts .expression ts
  | nextParameter {c : Token} {ts vs : List Token} :
    Rule.expression.Passes ts (c :: vs) → c.kind = .symbol .comma →
    Calls .parameterList ts .parameterList vs
  | statement {ts : List Token} : Calls .statements ts .statement ts
  | nextStatement {ts vs : List Token} :
    Rule.statement.Passes ts vs → Calls .statements ts .statements vs
  | stage {ts : List Token} : Calls .expression ts .stage ts
  | pipes {ts vs : List Token} {e : Expr} :
    Rule.stage.run ts = .ok (e, vs) → Calls .expression ts (.pipes e) vs
  | nextStage {v : Expr} {p : Token} {us : List Token} :
    p.kind = .symbol .pipe → Calls (.pipes v) (p :: us) .stage us
  | nextPipes {v e : Expr} {p : Token} {us vs : List Token} :
    p.kind = .symbol .pipe → Rule.stage.run us = .ok (e, vs) →
    Calls (.pipes v) (p :: us) (.pipes (pipeInto v p e)) vs
  | condition {i : Token} {us : List Token} :
    i.kind = .keyword .ifWord → Calls .stage (i :: us) .expression us
  | body {i : Token} {us vs : List Token} :
    i.kind = .keyword .ifWord → Rule.expression.Passes us vs →
    Calls .stage (i :: us) (.block .branchBlock) vs
  | branches {i : Token} {us vs ws : List Token} :
    i.kind = .keyword .ifWord → Rule.expression.Passes us vs →
    (Rule.block .branchBlock).Passes vs ws → Calls .stage (i :: us) .branches ws
  | operators {ts : List Token} : Calls .stage ts (.tier .equality) ts
  | nextCondition {l i : Token} {us : List Token} :
    l.kind = .keyword .elseWord → i.kind = .keyword .ifWord →
    Calls .branches (l :: i :: us) .expression us
  | nextBody {l i : Token} {us vs : List Token} :
    l.kind = .keyword .elseWord → i.kind = .keyword .ifWord →
    Rule.expression.Passes us vs → Calls .branches (l :: i :: us) (.block .branchBlock) vs
  | nextBranches {l i : Token} {us vs ws : List Token} :
    l.kind = .keyword .elseWord → i.kind = .keyword .ifWord →
    Rule.expression.Passes us vs → (Rule.block .branchBlock).Passes vs ws →
    Calls .branches (l :: i :: us) .branches ws
  | otherwise {l : Token} {us : List Token} :
    l.kind = .keyword .elseWord → Calls .branches (l :: us) (.block .branchBlock) us
  | operand {t : Tier} {ts : List Token} : Calls (.tier t) ts (.operand t) ts
  | behindOperand {t : Tier} {ts vs : List Token} {e : Expr} :
    (Rule.operand t).run ts = .ok (e, vs) → Calls (.tier t) ts (.operators t e) vs
  | comparison {ts : List Token} : Calls (.operand .equality) ts (.tier .comparison) ts
  | addition {ts : List Token} : Calls (.operand .comparison) ts (.tier .addition) ts
  | product {ts : List Token} : Calls (.operand .addition) ts (.tier .product) ts
  | factor {ts : List Token} : Calls (.operand .product) ts .unary ts
  | nextOperand {t : Tier} {l : Expr} {o : Token} {us : List Token} :
    t.admits o.kind → Calls (.operators t l) (o :: us) (.operand t) us
  | nextOperators {t : Tier} {l e : Expr} {o : Token} {us vs : List Token} :
    t.admits o.kind → (Rule.operand t).run us = .ok (e, vs) →
    Calls (.operators t l) (o :: us) (.operators t (.binary l o e)) vs
  | unary {o : Token} {us : List Token} :
    isUnaryOperator o.kind → Calls .unary (o :: us) .unary us
  | callee {ts : List Token} : Calls .unary ts .call ts
  | primary {ts : List Token} : Calls .call ts .primary ts
  | calls {ts vs : List Token} {e : Expr} :
    Rule.primary.run ts = .ok (e, vs) → Calls .call ts (.calls e) vs
  | argumentsOf {c : Expr} {p : Token} {us : List Token} :
    p.kind = .symbol .leftParen → Calls (.calls c) (p :: us) .arguments us
  | nextCalls {c : Expr} {p : Token} {us vs : List Token} {es : List Expr} :
    p.kind = .symbol .leftParen → Rule.arguments.run us = .ok (es, vs) →
    Calls (.calls c) (p :: us) (.calls (.call c p es false)) vs
  | arguments {ts : List Token} : Calls .arguments ts .argumentList ts
  | argument {ts : List Token} : Calls .argumentList ts .expression ts
  | nextArgument {c : Token} {ts vs : List Token} :
    Rule.expression.Passes ts (c :: vs) → c.kind = .symbol .comma →
    Calls .argumentList ts .argumentList vs
  | grouping {p : Token} {us : List Token} :
    p.kind = .symbol .leftParen → Calls .primary (p :: us) .expression us

/-- Begun at `ts`, the rule finds a brace and goes on with the statements of a block at
`vs`. -/
inductive Opens : Rule → List Token → List Token → Prop
  | block {cause : SyntaxCause} {b : Token} {us : List Token} :
    b.kind = .symbol .leftBrace → Opens (.block cause) (b :: us) us
  | stage {b : Token} {us : List Token} :
    b.kind = .symbol .leftBrace → Opens .stage (b :: us) us
  | primary {b : Token} {us : List Token} :
    b.kind = .symbol .leftBrace → Opens .primary (b :: us) us

/-- Begun at `ts`, the rule itself has this failure. -/
inductive Raises : Rule → List Token → Failure → Prop
  | printEnd {t : Token} {us vs : List Token} :
    t.kind = .keyword .printWord → Rule.expression.Passes us vs →
    Raises .statement (t :: us) ⟨.expressionEnd, vs⟩
  | variableName {t : Token} {us : List Token} :
    t.kind = .keyword .letWord →
    Raises .statement (t :: us) ⟨.variableName, (mutWord? us).rest⟩
  | variableEqual {t x : Token} {us vs : List Token} :
    t.kind = .keyword .letWord → (mutWord? us).rest = x :: vs → x.kind = .identifier →
    Raises .statement (t :: us) ⟨.variableEqual, vs⟩
  | declarationEnd {t x q : Token} {us vs ws : List Token} :
    t.kind = .keyword .letWord → (mutWord? us).rest = x :: q :: vs → x.kind = .identifier →
    q.kind = .symbol .equal → Rule.expression.Passes vs ws →
    Raises .statement (t :: us) ⟨.declarationEnd, ws⟩
  | functionName {t : Token} {us : List Token} :
    t.kind = .keyword .funcWord → Raises .statement (t :: us) ⟨.functionName, us⟩
  | functionParen {t x : Token} {us : List Token} :
    t.kind = .keyword .funcWord → x.kind = .identifier →
    Raises .statement (t :: x :: us) ⟨.functionParen, us⟩
  | functionEnd {t x p : Token} {us vs ws : List Token} :
    t.kind = .keyword .funcWord → x.kind = .identifier → p.kind = .symbol .leftParen →
    Rule.parameters.Passes us vs → (Rule.block (.functionBody x.lexeme)).Passes vs ws →
    Raises .statement (t :: x :: p :: us) ⟨.functionEnd, ws⟩
  | assignmentEnd {x q : Token} {us vs : List Token} :
    x.kind = .identifier → q.kind = .symbol .equal → Rule.expression.Passes us vs →
    Raises .statement (x :: q :: us) ⟨.assignmentEnd, vs⟩
  | expressionEnd {ts vs : List Token} :
    Rule.expression.Passes ts vs → Raises .statement ts ⟨.expressionEnd, vs⟩
  | parameter {ts : List Token} : Raises .parameterList ts ⟨.parameter, ts⟩
  | parametersEnd {ts vs : List Token} :
    Rule.expression.Passes ts vs → Raises .parameterList ts ⟨.parametersEnd, vs⟩
  | block {cause : SyntaxCause} {ts : List Token} : Raises (.block cause) ts ⟨cause, ts⟩
  | blockEnd : Raises .statements [] ⟨.blockEnd, []⟩
  | operand : Raises .unary [] ⟨.expression, []⟩
  | argumentsEnd {ts vs : List Token} :
    Rule.expression.Passes ts vs → Raises .argumentList ts ⟨.argumentsEnd, vs⟩
  | groupingEnd {p : Token} {us vs : List Token} :
    p.kind = .symbol .leftParen → Rule.expression.Passes us vs →
    Raises .primary (p :: us) ⟨.groupingEnd, vs⟩
  | primary {ts : List Token} : Raises .primary ts ⟨.expression, ts⟩

/-- The rule fails on these tokens, and the failure arises inside so many blocks that it has
opened and not closed. -/
inductive Fails : Rule → List Token → Failure → Nat → Prop
  | raises {r : Rule} {ts : List Token} {f : Failure} :
    r.run ts = .error f → Raises r ts f → Fails r ts f 0
  | calls {r r' : Rule} {ts vs : List Token} {f : Failure} {n : Nat} :
    r.run ts = .error f → Calls r ts r' vs → Fails r' vs f n → Fails r ts f n
  | opens {r : Rule} {ts vs : List Token} {f : Failure} {n : Nat} :
    r.run ts = .error f → Opens r ts vs → Fails .statements vs f n → Fails r ts f (n + 1)

/-! ## Failing steps -/

/-- The failure comes from the rule itself or from the next step. -/
inductive Blames (r : Rule) (ts : List Token) (f : Failure) : Prop
  | raises : Raises r ts f → Blames r ts f
  | calls {r' : Rule} {vs : List Token} :
    Calls r ts r' vs → r'.run vs = .error f → Blames r ts f
  | opens {vs : List Token} :
    Opens r ts vs → Rule.statements.run vs = .error f → Blames r ts f

/-- Whatever failure there is has the property. -/
def Explains {α : Type} (x : Except Failure α) (Q : Failure → Prop) : Prop :=
  ∀ f, x = .error f → Q f

section

variable {α β : Type} {ts : List Token} {Q : Failure → Prop}

/-- A step that returns has nothing to explain. -/
theorem Explains.ok {a : α} : Explains (.ok a) Q := by
  intro f h
  cases h

theorem Explains.error {f : Failure} (h : Q f) : Explains (.error f : Except Failure α) Q := by
  rintro _ ⟨⟩
  exact h

/-- A failure does not depend on what would have been returned. -/
theorem explains_map {x : Except Failure α} {g : α → β} :
    Explains (x.map g) Q ↔ Explains x Q := by
  cases x <;> simp [Explains, Except.map]

/-- The failure of two steps is that of the first, or that of the second. -/
theorem Explains.bind {x : Except Failure α} {g : α → Except Failure β} (hx : Explains x Q)
    (hg : ∀ a, Explains (g a) Q) : Explains (x >>= g) Q := by
  cases x with
  | error f => exact .error (hx f rfl)
  | ok a => exact hg a

/-- The same, with what the first step has read for the second. -/
theorem Explains.bindParsed {x : Except Failure (Parsed α ts)}
    {g : Parsed α ts → Except Failure β} (hx : Explains (x.map Parsed.pair) Q)
    (hg : ∀ a us (h : us.length < ts.length), x.map Parsed.pair = .ok (a, us) →
      Explains (g ⟨a, us, h⟩) Q) : Explains (x >>= g) Q := by
  cases x with
  | error f => exact .error (hx f rfl)
  | ok p => exact hg p.value p.rest p.shorter rfl

theorem Explains.bindContinued {x : Except Failure (Continued α ts)}
    {g : Continued α ts → Except Failure β} (hx : Explains (x.map Continued.pair) Q)
    (hg : ∀ a us (h : us.length ≤ ts.length), x.map Continued.pair = .ok (a, us) →
      Explains (g ⟨a, us, h⟩) Q) : Explains (x >>= g) Q := by
  cases x with
  | error f => exact .error (hx f rfl)
  | ok p => exact hg p.value p.rest p.noLonger rfl

/-- A symbol that is not there is missed where it was looked for. -/
theorem explains_expect {s : Symbol} {cause : SyntaxCause} (h : Q ⟨cause, ts⟩) :
    Explains ((expect s cause ts).map Parsed.pair) Q := by
  refine explains_map.2 ?_
  unfold expect
  split
  · exact .error h
  · split
    · exact .ok
    · exact .error h

/-- And so is a name. -/
theorem explains_expectName {cause : SyntaxCause} (h : Q ⟨cause, ts⟩) :
    Explains ((expectName cause ts).map Parsed.pair) Q := by
  refine explains_map.2 ?_
  unfold expectName
  split
  · exact .error h
  · split
    · exact .ok
    · exact .error h

end

/-- What the rule fails with on these tokens comes from the rule itself or from the next
step. -/
def Blamed (r : Rule) (ts : List Token) : Prop := Explains (r.run ts) (Blames r ts)

/-- A statement is missing a word or a symbol of its own, or one of its parts fails. Five ways to
begin one. -/
theorem blamed_statement (ts : List Token) : Blamed .statement ts := by
  refine explains_map.2 (statement.fun_cases_unfolding (fun ts x =>
    Explains x (Blames .statement ts)) ?_ ?_ ?_ ?_ ?_ ts)
  · intro lexeme line us
    refine .bindParsed (fun _ hf => .calls (.print rfl) hf) fun e vs _ he => ?_
    exact .bindParsed (explains_expect (.raises (.printEnd rfl ⟨e, he⟩))) fun _ _ _ _ => .ok
  · intro lexeme line us mutable us₁ h₁ hm
    have hrest : (mutWord? us).rest = us₁ := congrArg Continued.rest hm
    refine .bindParsed (explains_expectName ?_) fun x us₂ _ hname => ?_
    · exact hrest ▸ .raises (.variableName rfl)
    obtain ⟨rfl, hx⟩ := ensures_expectName _ _ _ hname
    refine .bindParsed (explains_expect (.raises (.variableEqual rfl hrest hx)))
      fun q us₃ _ hequal => ?_
    obtain ⟨rfl, hq⟩ := ensures_expect _ _ _ _ hequal
    refine .bindParsed (fun _ hf => .calls (.declare rfl hrest hx hq) hf) fun e vs _ he => ?_
    exact .bindParsed
      (explains_expect (.raises (.declarationEnd rfl hrest hx hq ⟨e, he⟩))) fun _ _ _ _ => .ok
  · intro lexeme line us
    refine .bindParsed (explains_expectName (.raises (.functionName rfl)))
      fun x us₁ _ hname => ?_
    obtain ⟨rfl, hx⟩ := ensures_expectName _ _ _ hname
    refine .bindParsed (explains_expect (.raises (.functionParen rfl hx)))
      fun p us₂ _ hparen => ?_
    obtain ⟨rfl, hp⟩ := ensures_expect _ _ _ _ hparen
    refine .bindParsed (fun _ hf => .calls (.functionParameters rfl hx hp) hf)
      fun ps us₃ _ hps => ?_
    refine .bindParsed (fun _ hf => .calls (.functionBody rfl hx hp ⟨ps, hps⟩) hf)
      fun body us₄ _ hbody => ?_
    exact .bindParsed
      (explains_expect (.raises (.functionEnd rfl hx hp ⟨ps, hps⟩ ⟨body, hbody⟩)))
      fun _ _ _ _ => .ok
  · intro lexeme line lexeme' line' us
    refine .bindParsed (fun _ hf => .calls (.assign rfl rfl) hf) fun e vs _ he => ?_
    exact .bindParsed (explains_expect (.raises (.assignmentEnd rfl rfl ⟨e, he⟩)))
      fun _ _ _ _ => .ok
  · intro ts _ _ _ _
    refine .bindParsed (fun _ hf => .calls .evaluate hf) fun e vs _ he => ?_
    exact .bindParsed (explains_expect (.raises (.expressionEnd ⟨e, he⟩))) fun _ _ _ _ => .ok

theorem blamed_parameters (ts : List Token) : Blamed .parameters ts := by
  refine explains_map.2 (parameters.fun_cases_unfolding (fun ts x =>
    Explains x (Blames .parameters ts)) ?_ ?_ ts)
  · intro lexeme line us
    exact .ok
  · intro ts _
    exact explains_map.1 fun _ hf => .calls .parameters hf

/-- A parameter fails as an expression, is none, or misses what should be behind it. -/
theorem blamed_parameterList (ts : List Token) : Blamed .parameterList ts := by
  refine explains_map.2 ?_
  rw [parameterList]
  refine .bindParsed (fun _ hf => .calls .parameter hf) fun e vs _ he => ?_
  dsimp only
  split
  · next vs p _ =>
    exact .bindParsed (fun _ hf => .calls (.nextParameter ⟨_, he⟩ rfl) hf) fun _ _ _ _ => .ok
  · exact .bindParsed (explains_expect (.raises (.parametersEnd ⟨_, he⟩))) fun _ _ _ _ => .ok
  · exact .error (.raises .parameter)

/-- Without a brace the block itself is missing; behind one its statements may fail, one block
deeper. -/
theorem blamed_block (cause : SyntaxCause) (ts : List Token) : Blamed (.block cause) ts := by
  refine explains_map.2 (block.fun_cases_unfolding cause (fun ts x =>
    Explains x (Blames (.block cause) ts)) ?_ ?_ ts)
  · intro lexeme line us
    exact .bindParsed (fun _ hf => .opens (.block rfl) hf) fun _ _ _ _ => .ok
  · intro ts _
    exact .error (.raises .block)

/-- The end of the tokens inside a block is the one failure that more tokens always mend. -/
theorem blamed_statements (ts : List Token) : Blamed .statements ts := by
  refine explains_map.2 (statements.fun_cases_unfolding (fun ts x =>
    Explains x (Blames .statements ts)) ?_ ?_ ?_ ts)
  · exact .error (.raises .blockEnd)
  · intro lexeme line us
    exact .ok
  · intro ts _ _
    refine .bindParsed (fun _ hf => .calls .statement hf) fun x vs _ hx => ?_
    exact .bindParsed (fun _ hf => .calls (.nextStatement ⟨x, hx⟩) hf) fun _ _ _ _ => .ok

theorem blamed_expression (ts : List Token) : Blamed .expression ts := by
  refine explains_map.2 ?_
  rw [expression]
  refine .bindParsed (fun _ hf => .calls .stage hf) fun e vs _ he => ?_
  exact .bindContinued (fun _ hf => .calls (.pipes he) hf) fun _ _ _ _ => .ok

theorem blamed_pipes (value : Expr) (ts : List Token) : Blamed (.pipes value) ts := by
  refine explains_map.2 (pipes.fun_cases_unfolding value (fun ts x =>
    Explains x (Blames (.pipes value) ts)) ?_ ?_ ts)
  · intro lexeme line us
    refine .bindParsed (fun _ hf => .calls (.nextStage rfl) hf) fun e vs _ he => ?_
    exact .bindContinued (fun _ hf => .calls (.nextPipes rfl he) hf) fun _ _ _ _ => .ok
  · intro ts _
    exact .ok

/-- A block, an `if` or an equality, whichever begins there. -/
theorem blamed_stage (ts : List Token) : Blamed .stage ts := by
  refine explains_map.2 (stage.fun_cases_unfolding (fun ts x =>
    Explains x (Blames .stage ts)) ?_ ?_ ?_ ts)
  · intro lexeme line us
    exact .bindParsed (fun _ hf => .opens (.stage rfl) hf) fun _ _ _ _ => .ok
  · intro lexeme line us
    refine .bindParsed (fun _ hf => .calls (.condition rfl) hf) fun e vs _ he => ?_
    refine .bindParsed (fun _ hf => .calls (.body rfl ⟨e, he⟩) hf) fun body ws _ hbody => ?_
    exact .bindContinued (fun _ hf => .calls (.branches rfl ⟨e, he⟩ ⟨body, hbody⟩) hf)
      fun _ _ _ _ => .ok
  · intro ts _ _
    exact explains_map.1 fun _ hf => .calls .operators hf

/-- There is no failure without an `else`. -/
theorem blamed_branches (ts : List Token) : Blamed .branches ts := by
  refine explains_map.2 (branches.fun_cases_unfolding (fun ts x =>
    Explains x (Blames .branches ts)) ?_ ?_ ?_ ts)
  · intro lexeme line lexeme' line' us
    refine .bindParsed (fun _ hf => .calls (.nextCondition rfl rfl) hf) fun e vs _ he => ?_
    refine .bindParsed (fun _ hf => .calls (.nextBody rfl rfl ⟨e, he⟩) hf)
      fun body ws _ hbody => ?_
    exact .bindContinued
      (fun _ hf => .calls (.nextBranches rfl rfl ⟨e, he⟩ ⟨body, hbody⟩) hf) fun _ _ _ _ => .ok
  · intro lexeme line us _
    exact .bindParsed (fun _ hf => .calls (.otherwise rfl) hf) fun _ _ _ _ => .ok
  · intro ts _ _
    exact .ok

theorem blamed_tier (t : Tier) (ts : List Token) : Blamed (.tier t) ts := by
  refine explains_map.2 ?_
  rw [Parser.tier]
  refine .bindParsed (fun _ hf => .calls .operand hf) fun e vs _ he => ?_
  exact .bindContinued (fun _ hf => .calls (.behindOperand he) hf) fun _ _ _ _ => .ok

/-- The operand of a level fails as what it is on the next one. -/
theorem blamed_operand (t : Tier) (ts : List Token) : Blamed (.operand t) ts := by
  intro f hf
  cases t <;> simp only [Rule.run, operand] at hf
  · exact .calls .comparison hf
  · exact .calls .addition hf
  · exact .calls .product hf
  · exact .calls .factor hf

/-- Behind an operator its operand may fail, and then what goes on from there. -/
theorem blamed_operators (t : Tier) (left : Expr) (ts : List Token) :
    Blamed (.operators t left) ts := by
  refine explains_map.2 (operators.fun_cases_unfolding t left (fun ts x =>
    Explains x (Blames (.operators t left) ts)) ?_ ?_ ?_ ts)
  · exact .ok
  · intro o us ho
    refine .bindParsed (fun _ hf => .calls (.nextOperand ho) hf) fun e vs _ he => ?_
    exact .bindContinued (fun _ hf => .calls (.nextOperators ho he) hf) fun _ _ _ _ => .ok
  · intro o us _
    exact .ok

theorem blamed_unary (ts : List Token) : Blamed .unary ts := by
  refine explains_map.2 (Parser.unary.fun_cases_unfolding (fun ts x =>
    Explains x (Blames .unary ts)) ?_ ?_ ?_ ts)
  · exact .error (.raises .operand)
  · intro o us ho
    exact .bindParsed (fun _ hf => .calls (.unary ho) hf) fun _ _ _ _ => .ok
  · intro o us _
    exact explains_map.1 fun _ hf => .calls .callee hf

theorem blamed_call (ts : List Token) : Blamed .call ts := by
  refine explains_map.2 ?_
  rw [Parser.call]
  refine .bindParsed (fun _ hf => .calls .primary hf) fun e vs _ he => ?_
  exact .bindContinued (fun _ hf => .calls (.calls he) hf) fun _ _ _ _ => .ok

theorem blamed_calls (callee : Expr) (ts : List Token) : Blamed (.calls callee) ts := by
  refine explains_map.2 (calls.fun_cases_unfolding callee (fun ts x =>
    Explains x (Blames (.calls callee) ts)) ?_ ?_ ts)
  · intro lexeme line us
    refine .bindParsed (fun _ hf => .calls (.argumentsOf rfl) hf) fun es vs _ hes => ?_
    exact .bindContinued (fun _ hf => .calls (.nextCalls rfl hes) hf) fun _ _ _ _ => .ok
  · intro ts _
    exact .ok

theorem blamed_arguments (ts : List Token) : Blamed .arguments ts := by
  refine explains_map.2 (arguments.fun_cases_unfolding (fun ts x =>
    Explains x (Blames .arguments ts)) ?_ ?_ ts)
  · intro lexeme line us
    exact .ok
  · intro ts _
    exact explains_map.1 fun _ hf => .calls .arguments hf

theorem blamed_argumentList (ts : List Token) : Blamed .argumentList ts := by
  refine explains_map.2 ?_
  rw [argumentList]
  refine .bindParsed (fun _ hf => .calls .argument hf) fun e vs _ he => ?_
  dsimp only
  split
  · exact .bindParsed (fun _ hf => .calls (.nextArgument ⟨e, he⟩ rfl) hf) fun _ _ _ _ => .ok
  · exact .bindParsed (explains_expect (.raises (.argumentsEnd ⟨e, he⟩))) fun _ _ _ _ => .ok

/-- Where nothing starts an operand, the operand is missing. -/
theorem blamed_primary (ts : List Token) : Blamed .primary ts := by
  refine explains_map.2 (primary.fun_cases_unfolding (fun ts x =>
    Explains x (Blames .primary ts)) ?_ ?_ ?_ ?_ ?_ ?_ ?_ ?_ ?_ ts)
  case refine_7 =>
    intro lexeme line us
    refine .bindParsed (fun _ hf => .calls (.grouping rfl) hf) fun e vs _ he => ?_
    exact .bindParsed (explains_expect (.raises (.groupingEnd rfl ⟨e, he⟩)))
      fun _ _ _ _ => .ok
  case refine_8 =>
    intro lexeme line us
    exact .bindParsed (fun _ hf => .opens (.primary rfl) hf) fun _ _ _ _ => .ok
  case refine_9 =>
    intro ts _ _ _ _ _ _ _ _
    exact .error (.raises .primary)
  all_goals
    intros
    exact .ok

/-- A program fails with one of its statements. -/
theorem blamed_program (ts : List Token) : Blamed .program ts := by
  refine explains_map.2 ?_
  cases ts with
  | nil =>
    rw [Parser.program]
    exact .ok
  | cons t us =>
    rw [Parser.program]
    refine .bindParsed (fun _ hf => .calls .program hf) fun x vs _ hx => ?_
    refine .bind (fun f hf => .calls (.programRest ⟨x, hx⟩) ?_) fun _ => .ok
    rw [Rule.run, hf]
    rfl

/-- Where any rule can fail. -/
theorem Rule.blamed (r : Rule) (ts : List Token) : Blamed r ts := by
  cases r with
  | program => exact blamed_program ts
  | statement => exact blamed_statement ts
  | parameters => exact blamed_parameters ts
  | parameterList => exact blamed_parameterList ts
  | block cause => exact blamed_block cause ts
  | statements => exact blamed_statements ts
  | expression => exact blamed_expression ts
  | pipes value => exact blamed_pipes value ts
  | stage => exact blamed_stage ts
  | branches => exact blamed_branches ts
  | tier t => exact blamed_tier t ts
  | operand t => exact blamed_operand t ts
  | operators t left => exact blamed_operators t left ts
  | unary => exact blamed_unary ts
  | call => exact blamed_call ts
  | calls callee => exact blamed_calls callee ts
  | arguments => exact blamed_arguments ts
  | argumentList => exact blamed_argumentList ts
  | primary => exact blamed_primary ts

/-! ## Failing parses -/

theorem length_mutWord?_le (ts : List Token) : (mutWord? ts).rest.length ≤ ts.length :=
  (mutWord? ts).noLonger

/-- A rule goes on behind what it has read, or with a rule of a smaller rank. -/
theorem Calls.smaller {r r' : Rule} {ts vs : List Token} (h : Calls r ts r' vs) :
    vs.length < ts.length ∨ vs = ts ∧ r'.rank < r.rank := by
  cases h with
  | program | evaluate | parameters | parameter | statement | stage | operators | comparison
  | addition | product | factor | callee | primary | arguments | argument =>
    exact .inr ⟨rfl, by decide⟩
  | operand => exact .inr ⟨rfl, Nat.lt_succ_self _⟩
  | print | functionParameters | assign | nextStage | condition | nextCondition | otherwise
  | nextOperand | unary | argumentsOf | grouping =>
    exact .inl (by simp only [List.length_cons]; omega)
  | @declare t x q us vs _ hrest =>
    have hlength := length_mutWord?_le us
    rw [hrest] at hlength
    exact .inl (by simp only [List.length_cons] at hlength ⊢; omega)
  | programRest h | nextStatement h =>
    obtain ⟨x, hx⟩ := h
    exact .inl (length_lt_of_pair hx)
  | nextParameter h | nextArgument h =>
    obtain ⟨e, he⟩ := h
    exact .inl (Nat.lt_of_succ_lt (length_lt_of_pair he))
  | functionBody _ _ _ h | body _ h | nextBody _ _ h =>
    obtain ⟨x, hx⟩ := h
    have hlength := length_lt_of_pair hx
    exact .inl (by simp only [List.length_cons]; omega)
  | pipes hx | behindOperand hx | calls hx => exact .inl (length_lt_of_pair hx)
  | nextPipes _ hx | nextOperators _ hx | nextCalls _ hx =>
    exact .inl (Nat.lt_succ_of_lt (length_lt_of_pair hx))
  | branches _ h h' | nextBranches _ _ h h' =>
    obtain ⟨e, he⟩ := h
    obtain ⟨body, hbody⟩ := h'
    have hlength := length_lt_of_pair he
    have hlength' := length_lt_of_pair hbody
    exact .inl (by simp only [List.length_cons]; omega)

/-- Inside a block there are fewer tokens. -/
theorem Opens.length_lt {r : Rule} {ts vs : List Token} (h : Opens r ts vs) :
    vs.length < ts.length := by
  cases h <;> exact Nat.lt_succ_self _

/-- Wherever it arose, it is the failure of the rule that was begun. -/
theorem Fails.run {r : Rule} {ts : List Token} {f : Failure} {n : Nat} (h : Fails r ts f n) :
    r.run ts = .error f := by
  cases h with
  | raises hrun | calls hrun | opens hrun => exact hrun

theorem run_program_eq_error_iff {ts : List Token} {f : Failure} :
    Rule.program.run ts = .error f ↔ Parser.program ts = .error f := by
  cases h : Parser.program ts <;> simp [Rule.run, h, Except.map]

/-- Every failure arises somewhere, inside some number of blocks. -/
theorem Rule.fails : ∀ (r : Rule) (ts : List Token) (f : Failure), r.run ts = .error f →
    ∃ n, Fails r ts f n := by
  refine Rule.induction fun r ts below here f hf => ?_
  cases r.blamed ts f hf with
  | raises h => exact ⟨0, .raises hf h⟩
  | @calls r' vs h hrun =>
    rcases h.smaller with hlt | ⟨rfl, hlt⟩
    · obtain ⟨n, hn⟩ := below r' vs hlt f hrun
      exact ⟨n, .calls hf h hn⟩
    · obtain ⟨n, hn⟩ := here r' hlt f hrun
      exact ⟨n, .calls hf h hn⟩
  | opens h hrun =>
    obtain ⟨n, hn⟩ := below .statements _ h.length_lt f hrun
    exact ⟨n + 1, .opens hf h hn⟩

end PipeLang.Parser
