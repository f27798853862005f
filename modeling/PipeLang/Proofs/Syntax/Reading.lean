import PipeLang.Syntax.Parser

/-!
# What is read from which tokens

`Reads r x us` says that the rule `r` reads the tree `x` from exactly the tokens `us`. There
is one `Rule` for each function of the parser, and one constructor of `Reads` for each way
in which that function succeeds. Nothing is said about the tokens behind `us` : what makes
a rule stop is the matter of `Rule.Follows`.

A rule that goes on from a tree (`pipes`, `operators`, `calls`) carries the tree it starts
from, and reads what is added behind it.
-/

namespace PipeLang.Parser

/-- The rules of the grammar. -/
inductive Rule where
  | program
  | statement
  | parameters
  | parameterList
  | block (cause : SyntaxCause)
  | statements
  | expression
  | pipes (value : Expr)
  | stage
  | branches
  | tier (t : Tier)
  | operand (t : Tier)
  | operators (t : Tier) (left : Expr)
  | unary
  | call
  | calls (callee : Expr)
  | arguments
  | argumentList
  | primary

/-- What a rule reads. -/
@[reducible] def Rule.Tree : Rule → Type
  | statement => Stmt
  | parameters | parameterList => List Token
  | program | block _ | statements => List Stmt
  | branches => List Branch
  | arguments | argumentList => List Expr
  | _ => Expr

/-- The rule reads the tree from exactly these tokens. -/
inductive Reads : (r : Rule) → r.Tree → List Token → Prop
  | endOfProgram : Reads .program [] []
  | program {x : Stmt} {p : Program} {us vs : List Token} :
    Reads .statement x us → Reads .program p vs → Reads .program (x :: p) (us ++ vs)
  | print {t s : Token} {e : Expr} {us : List Token} :
    t.kind = .keyword .printWord → Reads .expression e us → s.kind = .symbol .semicolon →
    Reads .statement (.print e) (t :: us ++ [s])
  | declare {t x q s : Token} {e : Expr} {us : List Token} :
    t.kind = .keyword .letWord → x.kind = .identifier → q.kind = .symbol .equal →
    Reads .expression e us → s.kind = .symbol .semicolon →
    Reads .statement (.declare x e false) (t :: x :: q :: us ++ [s])
  | declareMut {t m x q s : Token} {e : Expr} {us : List Token} :
    t.kind = .keyword .letWord → m.kind = .keyword .mutWord → x.kind = .identifier →
    q.kind = .symbol .equal → Reads .expression e us → s.kind = .symbol .semicolon →
    Reads .statement (.declare x e true) (t :: m :: x :: q :: us ++ [s])
  | function {t x p s : Token} {ps : List Token} {body : Block} {us vs : List Token} :
    t.kind = .keyword .funcWord → x.kind = .identifier → p.kind = .symbol .leftParen →
    Reads .parameters ps us → Reads (.block (.functionBody x.lexeme)) body vs →
    s.kind = .symbol .semicolon →
    Reads .statement (.function x ps body) (t :: x :: p :: us ++ vs ++ [s])
  | assign {x q s : Token} {e : Expr} {us : List Token} :
    x.kind = .identifier → q.kind = .symbol .equal → Reads .expression e us →
    s.kind = .symbol .semicolon → Reads .statement (.assign x e) (x :: q :: us ++ [s])
  | evaluate {s : Token} {e : Expr} {us : List Token} :
    Reads .expression e us → s.kind = .symbol .semicolon →
    Reads .statement (.expression e) (us ++ [s])
  | noParameters {p : Token} :
    p.kind = .symbol .rightParen → Reads .parameters [] [p]
  | someParameters {ps us : List Token} :
    Reads .parameterList ps us → Reads .parameters ps us
  | lastParameter {x p : Token} {us : List Token} :
    Reads .expression (.name x) us → p.kind = .symbol .rightParen →
    Reads .parameterList [x] (us ++ [p])
  | parameter {x c : Token} {ps us vs : List Token} :
    Reads .expression (.name x) us → c.kind = .symbol .comma → Reads .parameterList ps vs →
    Reads .parameterList (x :: ps) (us ++ c :: vs)
  | braces {cause : SyntaxCause} {b : Token} {body : Block} {us : List Token} :
    b.kind = .symbol .leftBrace → Reads .statements body us →
    Reads (.block cause) body (b :: us)
  | noStatements {b : Token} :
    b.kind = .symbol .rightBrace → Reads .statements [] [b]
  | statement {x : Stmt} {body : Block} {us vs : List Token} :
    Reads .statement x us → Reads .statements body vs →
    Reads .statements (x :: body) (us ++ vs)
  | expression {e e' : Expr} {us vs : List Token} :
    Reads .stage e us → Reads (.pipes e) e' vs → Reads .expression e' (us ++ vs)
  | noPipes {e : Expr} : Reads (.pipes e) e []
  | pipe {v e e' : Expr} {p : Token} {us vs : List Token} :
    p.kind = .symbol .pipe → Reads .stage e us → Reads (.pipes (pipeInto v p e)) e' vs →
    Reads (.pipes v) e' (p :: us ++ vs)
  | blockStage {b : Token} {body : Block} {us : List Token} :
    b.kind = .symbol .leftBrace → Reads .statements body us →
    Reads .stage (.block body) (b :: us)
  | ifChain {i : Token} {e : Expr} {body : Block} {bs : List Branch} {us vs ws : List Token} :
    i.kind = .keyword .ifWord → Reads .expression e us →
    Reads (.block .branchBlock) body vs → Reads .branches bs ws →
    Reads .stage (.ifChain (.when e body :: bs)) (i :: us ++ vs ++ ws)
  | operatorStage {e : Expr} {us : List Token} :
    (∀ t ∈ us.head?, t.kind ≠ .symbol .leftBrace) → Reads (.tier .equality) e us →
    Reads .stage e us
  | noBranches : Reads .branches [] []
  | elseIf {l i : Token} {e : Expr} {body : Block} {bs : List Branch}
      {us vs ws : List Token} :
    l.kind = .keyword .elseWord → i.kind = .keyword .ifWord → Reads .expression e us →
    Reads (.block .branchBlock) body vs → Reads .branches bs ws →
    Reads .branches (.when e body :: bs) (l :: i :: us ++ vs ++ ws)
  | otherwise {l : Token} {body : Block} {us : List Token} :
    l.kind = .keyword .elseWord → Reads (.block .branchBlock) body us →
    Reads .branches [.otherwise body] (l :: us)
  | tier {t : Tier} {e e' : Expr} {us vs : List Token} :
    Reads (.operand t) e us → Reads (.operators t e) e' vs → Reads (.tier t) e' (us ++ vs)
  | comparison {e : Expr} {us : List Token} :
    Reads (.tier .comparison) e us → Reads (.operand .equality) e us
  | addition {e : Expr} {us : List Token} :
    Reads (.tier .addition) e us → Reads (.operand .comparison) e us
  | product {e : Expr} {us : List Token} :
    Reads (.tier .product) e us → Reads (.operand .addition) e us
  | factor {e : Expr} {us : List Token} :
    Reads .unary e us → Reads (.operand .product) e us
  | noOperators {t : Tier} {e : Expr} : Reads (.operators t e) e []
  | operator {t : Tier} {l e e' : Expr} {o : Token} {us vs : List Token} :
    t.admits o.kind → Reads (.operand t) e us → Reads (.operators t (.binary l o e)) e' vs →
    Reads (.operators t l) e' (o :: us ++ vs)
  | unary {o : Token} {e : Expr} {us : List Token} :
    isUnaryOperator o.kind → Reads .unary e us → Reads .unary (.unary o e) (o :: us)
  | callee {e : Expr} {us : List Token} : Reads .call e us → Reads .unary e us
  | call {e e' : Expr} {us vs : List Token} :
    Reads .primary e us → Reads (.calls e) e' vs → Reads .call e' (us ++ vs)
  | noCalls {e : Expr} : Reads (.calls e) e []
  | argumentsOf {c e : Expr} {p : Token} {es : List Expr} {us vs : List Token} :
    p.kind = .symbol .leftParen → Reads .arguments es us →
    Reads (.calls (.call c p es false)) e vs → Reads (.calls c) e (p :: us ++ vs)
  | noArguments {p : Token} : p.kind = .symbol .rightParen → Reads .arguments [] [p]
  | someArguments {es : List Expr} {us : List Token} :
    Reads .argumentList es us → Reads .arguments es us
  | lastArgument {e : Expr} {p : Token} {us : List Token} :
    Reads .expression e us → p.kind = .symbol .rightParen →
    Reads .argumentList [e] (us ++ [p])
  | argument {e : Expr} {c : Token} {es : List Expr} {us vs : List Token} :
    Reads .expression e us → c.kind = .symbol .comma → Reads .argumentList es vs →
    Reads .argumentList (e :: es) (us ++ c :: vs)
  | falseWord {t : Token} :
    t.kind = .keyword .falseWord → Reads .primary (.literal (.boolean false)) [t]
  | trueWord {t : Token} :
    t.kind = .keyword .trueWord → Reads .primary (.literal (.boolean true)) [t]
  | nilWord {t : Token} : t.kind = .keyword .nilWord → Reads .primary (.literal .nil) [t]
  | string {t : Token} {s : String} :
    t.kind = .string s → Reads .primary (.literal (.string s)) [t]
  | number {t : Token} {x : Float} :
    t.kind = .number x → Reads .primary (.literal (.number x)) [t]
  | name {t : Token} : t.kind = .identifier → Reads .primary (.name t) [t]
  | grouping {p q : Token} {e : Expr} {us : List Token} :
    p.kind = .symbol .leftParen → Reads .expression e us → q.kind = .symbol .rightParen →
    Reads .primary (.grouping e) (p :: us ++ [q])
  | blockOperand {b : Token} {body : Block} {us : List Token} :
    b.kind = .symbol .leftBrace → Reads .statements body us →
    Reads .primary (.block body) (b :: us)

/-- An operand is a chain of operators of its own. -/
theorem Reads.tier_of_operand {t : Tier} {e : Expr} {us : List Token}
    (h : Reads (.operand t) e us) : Reads (.tier t) e us := by
  simpa using Reads.tier h .noOperators

/-- A call that does not begin with a brace is a stage. -/
theorem Reads.stage_of_call {e : Expr} {us : List Token} (h : Reads .call e us)
    (hbrace : ∀ t ∈ us.head?, t.kind ≠ .symbol .leftBrace) : Reads .stage e us := by
  have product : Reads (.tier .product) e us := (Reads.factor (.callee h)).tier_of_operand
  have addition : Reads (.tier .addition) e us := (Reads.product product).tier_of_operand
  have comparison : Reads (.tier .comparison) e us := (Reads.addition addition).tier_of_operand
  exact .operatorStage hbrace (Reads.comparison comparison).tier_of_operand

theorem Reads.call_name {x : Token} (hx : x.kind = .identifier) : Reads .call (.name x) [x] :=
  .call (.name hx) .noCalls

/-- A name is a stage. -/
theorem Reads.stage_name {x : Token} (hx : x.kind = .identifier) : Reads .stage (.name x) [x] :=
  (Reads.call_name hx).stage_of_call (by simp [hx])

/-- A name is an expression. -/
theorem Reads.expression_name {x : Token} (hx : x.kind = .identifier) :
    Reads .expression (.name x) [x] :=
  .expression (.stage_name hx) .noPipes

/-! ## The parser as one function -/

/-- The tree and the tokens behind it. -/
def Parsed.pair {α : Type} {ts : List Token} (p : Parsed α ts) : α × List Token :=
  (p.value, p.rest)

/-- The tree and the tokens behind it. -/
def Continued.pair {α : Type} {ts : List Token} (p : Continued α ts) : α × List Token :=
  (p.value, p.rest)

theorem length_lt_of_pair {α : Type} {a : α} {ts us : List Token}
    {x : Except Failure (Parsed α ts)} (h : x.map Parsed.pair = .ok (a, us)) :
    us.length < ts.length := by
  cases x with
  | error f => cases h
  | ok p =>
    cases h
    exact p.shorter

/-- Read by a rule. -/
def Rule.run : (r : Rule) → List Token → Except Failure (r.Tree × List Token)
  | .program, ts => (Parser.program ts).map (·, [])
  | .statement, ts => (Parser.statement ts).map Parsed.pair
  | .parameters, ts => (Parser.parameters ts).map Parsed.pair
  | .parameterList, ts => (Parser.parameterList ts).map Parsed.pair
  | .block cause, ts => (Parser.block cause ts).map Parsed.pair
  | .statements, ts => (Parser.statements ts).map Parsed.pair
  | .expression, ts => (Parser.expression ts).map Parsed.pair
  | .pipes value, ts => (Parser.pipes value ts).map Continued.pair
  | .stage, ts => (Parser.stage ts).map Parsed.pair
  | .branches, ts => (Parser.branches ts).map Continued.pair
  | .tier t, ts => (Parser.tier t ts).map Parsed.pair
  | .operand t, ts => (Parser.operand t ts).map Parsed.pair
  | .operators t left, ts => (Parser.operators t left ts).map Continued.pair
  | .unary, ts => (Parser.unary ts).map Parsed.pair
  | .call, ts => (Parser.call ts).map Parsed.pair
  | .calls callee, ts => (Parser.calls callee ts).map Continued.pair
  | .arguments, ts => (Parser.arguments ts).map Parsed.pair
  | .argumentList, ts => (Parser.argumentList ts).map Parsed.pair
  | .primary, ts => (Parser.primary ts).map Parsed.pair

theorem run_program_eq_ok_iff {ts rest : List Token} {p : Program} :
    Rule.program.run ts = .ok (p, rest) ↔ Parser.program ts = .ok p ∧ rest = [] := by
  cases h : Parser.program ts with
  | error f => simp [Rule.run, h, Except.map]
  | ok q => simp [Rule.run, h, Except.map, eq_comm]

/-- How far a rule is from its first token, among the rules that start at one place. -/
def Rule.rank : Rule → Nat
  | .program => 17
  | .parameters | .statements | .arguments => 16
  | .statement | .parameterList | .argumentList => 15
  | .expression => 14
  | .stage => 13
  | .tier t => 2 * t.height + 6
  | .operand t => 2 * t.height + 5
  | .unary => 3
  | .call => 2
  | .primary => 1
  | .block _ | .pipes _ | .branches | .operators _ _ | .calls _ => 0

/-- Recursion along the runs of the parser : a run calls rules on shorter lists, and on the
same list rules of a smaller rank. -/
theorem Rule.induction {P : Rule → List Token → Prop}
    (step : ∀ r ts, (∀ r' us, us.length < ts.length → P r' us) →
      (∀ r', r'.rank < r.rank → P r' ts) → P r ts) : ∀ r ts, P r ts := by
  have all : ∀ n r ts, ts.length = n → P r ts := by
    intro n
    induction n using Nat.strongRecOn with
    | ind n shorter =>
      have same : ∀ k r ts, r.rank = k → ts.length = n → P r ts := by
        intro k
        induction k using Nat.strongRecOn with
        | ind k lower =>
          rintro r ts rfl rfl
          exact step r ts (fun r' us h => shorter _ h r' us rfl)
            fun r' h => lower _ h r' ts rfl rfl
      exact fun r ts => same _ r ts rfl
  exact fun r ts => all _ r ts rfl

end PipeLang.Parser
