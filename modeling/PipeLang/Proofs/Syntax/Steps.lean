import PipeLang.Proofs.Syntax.Reading

/-!
# The rules, whatever tokens are kept in

`Rule.step` writes the rules down once more, one test after the other, for any way to get at
the tokens (`Access`) : a list that becomes shorter, or a cursor that moves along an array. A
rule goes on with other rules, which are a parameter.

What two ways to get at tokens have in common, they have in common in every rule
(`Relates.step`) : a relation between steps that is kept by the single things that a rule can
do, and by doing one thing after the other, is kept by the rules.
-/

namespace PipeLang.Parser

/-- What a rule can do with the tokens. -/
structure Access (m : Type → Type) where
  /-- No token is left. -/
  atEnd : m Bool
  /-- The next token, if it is of such a kind. It is behind the rule then. -/
  take : (Kind → Bool) → m (Option Token)
  /-- The name in front of an equals sign, if these two are next. Both are behind the rule
  then. -/
  assignment : m (Option Token)
  /-- Give up at the next token. -/
  fail : {α : Type} → SyntaxCause → m α
  /-- Read an expression that has to be a name, or give up where it starts. -/
  parameter : m Expr → m Token
  /-- Something that is read in every iteration of a loop. -/
  iteration : {α : Type} → m α → m α

section

variable {m : Type → Type} [Monad m] (o : Access m)

namespace Access

/-- Move on if the next token is of this kind. -/
def skip (k : Kind) : m Bool := do
  let t ← o.take (· == k)
  pure t.isSome

/-- The next token, which has to be of this kind. -/
def expect (k : Kind) (cause : SyntaxCause) : m Token := do
  match ← o.take (· == k) with
  | some t => pure t
  | none => o.fail cause

end Access

variable (read : (r : Rule) → m r.Tree)

/-- An assignment to the name, or an expression if there is none. -/
def assignedStep (name : Option Token) : m Stmt := do
  let e ← read .expression
  match name with
  | some name =>
    let _ ← o.expect (.symbol .semicolon) .assignmentEnd
    pure (.assign name e)
  | none =>
    let _ ← o.expect (.symbol .semicolon) .expressionEnd
    pure (.expression e)

/-- An assignment or an expression. -/
def assignmentStep : m Stmt := do
  let name ← o.assignment
  assignedStep o read name

/-- A statement. -/
def statementStep : m Stmt := do
  if ← o.skip (.keyword .printWord) then
    let e ← read .expression
    let _ ← o.expect (.symbol .semicolon) .expressionEnd
    pure (.print e)
  else if ← o.skip (.keyword .letWord) then
    let mutable ← o.skip (.keyword .mutWord)
    let name ← o.expect .identifier .variableName
    let _ ← o.expect (.symbol .equal) .variableEqual
    let e ← read .expression
    let _ ← o.expect (.symbol .semicolon) .declarationEnd
    pure (.declare name e mutable)
  else if ← o.skip (.keyword .funcWord) then
    let name ← o.expect .identifier .functionName
    let _ ← o.expect (.symbol .leftParen) .functionParen
    let parameters ← read .parameters
    let body ← read (.block (.functionBody name.lexeme))
    let _ ← o.expect (.symbol .semicolon) .functionEnd
    pure (.function name parameters body)
  else
    assignmentStep o read

/-- The rule, with `read` for the rules that it goes on with. -/
def Rule.step : (r : Rule) → m r.Tree
  | .program => do
    if ← o.atEnd then
      pure []
    else
      let s ← o.iteration (read .statement)
      let rest ← read .program
      pure (s :: rest)
  | .statement => statementStep o read
  | .parameters => do
    if ← o.skip (.symbol .rightParen) then pure [] else read .parameterList
  | .parameterList => do
    let p ← o.parameter (o.iteration (read .expression))
    if ← o.skip (.symbol .comma) then
      let ps ← read .parameterList
      pure (p :: ps)
    else
      let _ ← o.expect (.symbol .rightParen) .parametersEnd
      pure [p]
  | .block cause => do
    let _ ← o.expect (.symbol .leftBrace) cause
    read .statements
  | .statements => do
    if ← o.skip (.symbol .rightBrace) then
      pure []
    else if ← o.atEnd then
      o.fail .blockEnd
    else
      let s ← o.iteration (read .statement)
      let rest ← read .statements
      pure (s :: rest)
  | .expression => do
    let e ← read .stage
    read (.pipes e)
  | .pipes value => do
    match ← o.take (· == .symbol .pipe) with
    | none => pure value
    | some pipe =>
      let e ← o.iteration (read .stage)
      read (.pipes (pipeInto value pipe e))
  | .stage => do
    if ← o.skip (.symbol .leftBrace) then
      let body ← read .statements
      pure (.block body)
    else if ← o.skip (.keyword .ifWord) then
      let condition ← read .expression
      let body ← read (.block .branchBlock)
      let branches ← read .branches
      pure (.ifChain (.when condition body :: branches))
    else
      read (.tier .equality)
  | .branches => do
    if ← o.skip (.keyword .elseWord) then
      if ← o.skip (.keyword .ifWord) then
        let condition ← read .expression
        let body ← o.iteration (read (.block .branchBlock))
        let rest ← read .branches
        pure (.when condition body :: rest)
      else
        let body ← o.iteration (read (.block .branchBlock))
        pure [.otherwise body]
    else
      pure []
  | .tier t => do
    let e ← read (.operand t)
    read (.operators t e)
  | .operand .equality => read (.tier .comparison)
  | .operand .comparison => read (.tier .addition)
  | .operand .addition => read (.tier .product)
  | .operand .product => read .unary
  | .operators t left => do
    match ← o.take t.admits with
    | none => pure left
    | some operator =>
      let right ← o.iteration (read (.operand t))
      read (.operators t (.binary left operator right))
  | .unary => do
    match ← o.take isUnaryOperator with
    | none => read .call
    | some operator =>
      let right ← read .unary
      pure (.unary operator right)
  | .call => do
    let e ← read .primary
    read (.calls e)
  | .calls callee => do
    match ← o.take (· == .symbol .leftParen) with
    | none => pure callee
    | some paren =>
      let arguments ← o.iteration (read .arguments)
      read (.calls (.call callee paren arguments false))
  | .arguments => do
    if ← o.skip (.symbol .rightParen) then pure [] else read .argumentList
  | .argumentList => do
    let e ← o.iteration (read .expression)
    if ← o.skip (.symbol .comma) then
      let es ← read .argumentList
      pure (e :: es)
    else
      let _ ← o.expect (.symbol .rightParen) .argumentsEnd
      pure [e]
  | .primary => do
    if ← o.skip (.keyword .falseWord) then
      pure (.literal (.boolean false))
    else if ← o.skip (.keyword .trueWord) then
      pure (.literal (.boolean true))
    else if ← o.skip (.keyword .nilWord) then
      pure (.literal .nil)
    else
      match ← o.take (·.literal?.isSome) with
      | none =>
        match ← o.take (· == .identifier) with
        | none =>
          if ← o.skip (.symbol .leftParen) then
            let e ← read .expression
            let _ ← o.expect (.symbol .rightParen) .groupingEnd
            pure (.grouping e)
          else if ← o.skip (.symbol .leftBrace) then
            let body ← read .statements
            pure (.block body)
          else
            o.fail .expression
        | some t => pure (.name t)
      | some t => pure (.literal (t.kind.literal?.getD .nil))

end

/-! ## Two ways to get at the tokens -/

/-- The rules that read a token at least. -/
def Rule.Consumes : Rule → Prop
  | .program | .pipes _ | .branches | .operators _ _ | .calls _ => False
  | _ => True

section

variable {m m' : Type → Type} [Monad m] [Monad m']

/-- The relation between steps is kept by what rules are made of. No test may admit the end
marker. -/
structure Relates (o : Access m) (o' : Access m') (R : (α : Type) → m α → m' α → Prop) :
    Prop where
  pure : ∀ {α} (a : α), R α (pure a) (pure a)
  bind : ∀ {α β} {x : m α} {y : m' α} {f : α → m β} {g : α → m' β}, R α x y →
    (∀ a, R β (f a) (g a)) → R β (x >>= f) (y >>= g)
  atEnd : R Bool o.atEnd o'.atEnd
  take : ∀ p : Kind → Bool, p .eof = false → R (Option Token) (o.take p) (o'.take p)
  fail : ∀ {α} (cause : SyntaxCause), R α (o.fail cause) (o'.fail cause)
  parameter : ∀ {x : m Expr} {y : m' Expr}, R Expr x y →
    R Token (o.parameter x) (o'.parameter y)

namespace Relates

variable {o : Access m} {o' : Access m'} {R : (α : Type) → m α → m' α → Prop} {α : Type}

theorem skip (h : Relates o o' R) {k : Kind} (hk : k ≠ .eof) :
    R Bool (o.skip k) (o'.skip k) :=
  h.bind (h.take _ (beq_eq_false_iff_ne.2 hk.symm)) fun _ => h.pure _

theorem expect (h : Relates o o' R) {k : Kind} (hk : k ≠ .eof) (cause : SyntaxCause) :
    R Token (o.expect k cause) (o'.expect k cause) := by
  refine h.bind (h.take _ (beq_eq_false_iff_ne.2 hk.symm)) fun t => ?_
  cases t with
  | none => exact h.fail cause
  | some t => exact h.pure t

/-- A test, and what is done if it holds or not. -/
theorem ite (h : Relates o o' R) {x : m Bool} {y : m' Bool} {a b : m α} {a' b' : m' α}
    (hx : R Bool x y) (ha : R α a a') (hb : R α b b') :
    R α (do if ← x then a else b) (do if ← y then a' else b') := by
  refine h.bind hx fun c => ?_
  cases c with
  | false => exact hb
  | true => exact ha

/-- A token that may be there, and what is done with it or without it. -/
theorem option (h : Relates o o' R) {x : m (Option Token)} {y : m' (Option Token)}
    {a : m α} {f : Token → m α} {a' : m' α} {f' : Token → m' α} (hx : R (Option Token) x y)
    (ha : R α a a') (hf : ∀ t, R α (f t) (f' t)) :
    R α (do match ← x with | none => a | some t => f t)
      (do match ← y with | none => a' | some t => f' t) := by
  refine h.bind hx fun t => ?_
  cases t with
  | none => exact ha
  | some t => exact hf t

variable {read : (r : Rule) → m r.Tree} {read' : (r : Rule) → m' r.Tree}

theorem assignedStep (h : Relates o o' R) (hread : ∀ r, R r.Tree (read r) (read' r))
    (name : Option Token) :
    R Stmt (Parser.assignedStep o read name) (Parser.assignedStep o' read' name) := by
  refine h.bind (hread .expression) fun _ => ?_
  cases name with
  | none => exact h.bind (h.expect (by nofun) _) fun _ => h.pure _
  | some name => exact h.bind (h.expect (by nofun) _) fun _ => h.pure _

theorem assignmentStep (h : Relates o o' R) (hread : ∀ r, R r.Tree (read r) (read' r))
    (hassignment : R (Option Token) o.assignment o'.assignment) :
    R Stmt (Parser.assignmentStep o read) (Parser.assignmentStep o' read') :=
  h.bind hassignment (h.assignedStep hread)

theorem statementStep (h : Relates o o' R) (hread : ∀ r, R r.Tree (read r) (read' r))
    (hassignment :
      R Stmt (Parser.assignmentStep o read) (Parser.assignmentStep o' read')) :
    R Stmt (Parser.statementStep o read) (Parser.statementStep o' read') := by
  refine h.ite (h.skip (by nofun)) ?print (h.ite (h.skip (by nofun)) ?declare
    (h.ite (h.skip (by nofun)) ?function hassignment))
  case print =>
    exact h.bind (hread .expression) fun _ =>
      h.bind (h.expect (by nofun) _) fun _ => h.pure _
  case declare =>
    exact h.bind (h.skip (by nofun)) fun _ =>
      h.bind (h.expect (by nofun) _) fun _ =>
      h.bind (h.expect (by nofun) _) fun _ =>
      h.bind (hread .expression) fun _ =>
      h.bind (h.expect (by nofun) _) fun _ => h.pure _
  case function =>
    exact h.bind (h.expect (by nofun) _) fun _ =>
      h.bind (h.expect (by nofun) _) fun _ =>
      h.bind (hread .parameters) fun _ =>
      h.bind (hread (.block _)) fun _ =>
      h.bind (h.expect (by nofun) _) fun _ => h.pure _

/-- The rules keep the relation, if the rules that they go on with keep it, also as iterations
of a loop. What may be an assignment is left open, as two tokens are looked at there. -/
theorem step (h : Relates o o' R) (hread : ∀ r, R r.Tree (read r) (read' r))
    (hiteration : ∀ r : Rule, r.Consumes →
      R r.Tree (o.iteration (read r)) (o'.iteration (read' r)))
    (hassignment :
      R Stmt (Parser.assignmentStep o read) (Parser.assignmentStep o' read')) :
    ∀ r : Rule, R r.Tree (r.step o read) (r.step o' read')
  | .program =>
    h.ite h.atEnd (h.pure _) <|
      h.bind (hiteration .statement trivial) fun _ => h.bind (hread .program) fun _ => h.pure _
  | .statement => h.statementStep hread hassignment
  | .parameters => h.ite (h.skip (by nofun)) (h.pure _) (hread .parameterList)
  | .parameterList =>
    h.bind (h.parameter (hiteration .expression trivial)) fun _ =>
      h.ite (h.skip (by nofun))
        (h.bind (hread .parameterList) fun _ => h.pure _)
        (h.bind (h.expect (by nofun) _) fun _ => h.pure _)
  | .block _ => h.bind (h.expect (by nofun) _) fun _ => hread .statements
  | .statements =>
    h.ite (h.skip (by nofun)) (h.pure _) <| h.ite h.atEnd (h.fail _) <|
      h.bind (hiteration .statement trivial) fun _ =>
        h.bind (hread .statements) fun _ => h.pure _
  | .expression => h.bind (hread .stage) fun e => hread (.pipes e)
  | .pipes value =>
    h.option (h.take _ rfl) (h.pure _) fun pipe =>
      h.bind (hiteration .stage trivial) fun e => hread (.pipes (pipeInto value pipe e))
  | .stage =>
    h.ite (h.skip (by nofun)) (h.bind (hread .statements) fun _ => h.pure _) <|
      h.ite (h.skip (by nofun))
        (h.bind (hread .expression) fun _ =>
          h.bind (hread (.block _)) fun _ => h.bind (hread .branches) fun _ => h.pure _)
        (hread (.tier .equality))
  | .branches =>
    h.ite (h.skip (by nofun))
      (h.ite (h.skip (by nofun))
        (h.bind (hread .expression) fun _ =>
          h.bind (hiteration (.block _) trivial) fun _ =>
            h.bind (hread .branches) fun _ => h.pure _)
        (h.bind (hiteration (.block _) trivial) fun _ => h.pure _))
      (h.pure _)
  | .tier t => h.bind (hread (.operand t)) fun e => hread (.operators t e)
  | .operand .equality => hread (.tier .comparison)
  | .operand .comparison => hread (.tier .addition)
  | .operand .addition => hread (.tier .product)
  | .operand .product => hread .unary
  | .operators t left =>
    h.option (h.take _ (by cases t <;> rfl)) (h.pure _) fun operator =>
      h.bind (hiteration (.operand t) trivial) fun right =>
        hread (.operators t (.binary left operator right))
  | .unary =>
    h.option (h.take _ rfl) (hread .call) fun _ => h.bind (hread .unary) fun _ => h.pure _
  | .call => h.bind (hread .primary) fun e => hread (.calls e)
  | .calls callee =>
    h.option (h.take _ rfl) (h.pure _) fun paren =>
      h.bind (hiteration .arguments trivial) fun es => hread (.calls (.call callee paren es false))
  | .arguments => h.ite (h.skip (by nofun)) (h.pure _) (hread .argumentList)
  | .argumentList =>
    h.bind (hiteration .expression trivial) fun _ =>
      h.ite (h.skip (by nofun))
        (h.bind (hread .argumentList) fun _ => h.pure _)
        (h.bind (h.expect (by nofun) _) fun _ => h.pure _)
  | .primary =>
    h.ite (h.skip (by nofun)) (h.pure _) <|
      h.ite (h.skip (by nofun)) (h.pure _) <|
      h.ite (h.skip (by nofun)) (h.pure _) <|
      h.option (h.take _ rfl)
        (h.option (h.take _ rfl)
          (h.ite (h.skip (by nofun))
            (h.bind (hread .expression) fun _ =>
              h.bind (h.expect (by nofun) _) fun _ => h.pure _) <|
            h.ite (h.skip (by nofun))
              (h.bind (hread .statements) fun _ => h.pure _)
              (h.fail _))
          fun _ => h.pure _)
        fun _ => h.pure _

end Relates

end

end PipeLang.Parser
