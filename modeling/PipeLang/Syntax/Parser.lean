import PipeLang.Diagnostic
import PipeLang.Syntax.Basic

/-!
# Reading programs

```text
program    → statement*
statement  → "print" expression ";"
           | "let" "mut"? NAME "=" expression ";"
           | "func" NAME "(" ( NAME ( "," NAME )* )? ")" block ";"
           | NAME "=" expression ";"
           | expression ";"
expression → stage ( "->" stage )*
stage      → block | "if" branches | equality
branches   → expression block ( "else" "if" expression block )* ( "else" block )?
equality   → comparison ( ( "!=" | "==" ) comparison )*
comparison → addition ( ( "and" | "or" | ">" | ">=" | "<" | "<=" ) addition )*
addition   → product ( ( "-" | "+" ) product )*
product    → unary ( ( "/" | "*" ) unary )*
unary      → ( "!" | "-" ) unary | call
call       → primary ( "(" ( expression ( "," expression )* )? ")" )*
primary    → NUMBER | STRING | "true" | "false" | "nil" | NAME | "(" expression ")" | block
block      → "{" statement* "}"
```

There is one function per rule. Each takes the tokens that are left and returns what it read
with the tokens behind it, or fails at a position, which is again a list of tokens that are
left. No function sees the end marker : `parse` cuts it off, and turns a position into the
token to blame.

A rule that reads something returns fewer tokens (`Parsed`), a loop returns no more than it
got (`Continued`). That is what the recursion ends by.
-/

namespace PipeLang

/-! ## Errors -/

/-- Why the tokens are no program. -/
inductive SyntaxCause where
  | expressionEnd
  | declarationEnd
  | functionEnd
  | assignmentEnd
  | variableName
  | variableEqual
  | functionName
  | functionParen
  | parameter
  | parametersEnd
  | functionBody (name : String)
  | branchBlock
  | blockEnd
  | argumentsEnd
  | groupingEnd
  | expression
deriving DecidableEq

/-- What is wrong at the blamed token. -/
def SyntaxCause.message : SyntaxCause → String
  | expressionEnd => "Expected \";\" after expression"
  | declarationEnd => "Expected \";\" after variable declaration"
  | functionEnd => "Expected \";\" after function declaration"
  | assignmentEnd => "Expected \";\" after reassignment statement"
  | variableName => "Expected variable name"
  | variableEqual => "Expected \"=\" after variable name"
  | functionName => "Expected function name"
  | functionParen => "Expected \"(\" after function name"
  | parameter => "Invalid parameter"
  | parametersEnd => "Expected \")\" after parameters"
  | functionBody name => "Expected block as body of function \"" ++ name ++ "\""
  | branchBlock => "Expected block after condition"
  | blockEnd => "Expected \"\x7d\" after block"
  | argumentsEnd => "Expected \")\" after arguments"
  | groupingEnd => "Expected \")\" after expression"
  | expression => "Expected expression"

/-- A cause and the token to blame. -/
structure SyntaxError where
  cause : SyntaxCause
  token : Token
deriving DecidableEq

/-- A syntax error as it is shown. -/
def SyntaxError.diagnostic (e : SyntaxError) : Diagnostic :=
  .blaming e.token e.cause.message

namespace Parser

/-- A cause and the tokens that were left where it arose. -/
structure Failure where
  cause : SyntaxCause
  rest : List Token
deriving DecidableEq

/-- What a rule read from `ts`, with fewer tokens behind it. -/
structure Parsed (α : Type) (ts : List Token) where
  value : α
  rest : List Token
  shorter : rest.length < ts.length

/-- What a loop read from `ts`, with the tokens behind it. -/
structure Continued (α : Type) (ts : List Token) where
  value : α
  rest : List Token
  noLonger : rest.length ≤ ts.length

/-! ## Single tokens -/

/-- The symbol `s`, or the failure `cause`. -/
def expect (s : Symbol) (cause : SyntaxCause) (ts : List Token) :
    Except Failure (Parsed Token ts) :=
  match ts with
  | [] => .error ⟨cause, []⟩
  | t :: us =>
    if t.kind = .symbol s then .ok ⟨t, us, by simp⟩ else .error ⟨cause, t :: us⟩

/-- A name, or the failure `cause`. -/
def expectName (cause : SyntaxCause) (ts : List Token) : Except Failure (Parsed Token ts) :=
  match ts with
  | [] => .error ⟨cause, []⟩
  | t :: us =>
    if t.kind = .identifier then .ok ⟨t, us, by simp⟩ else .error ⟨cause, t :: us⟩

/-- An optional `mut`. -/
def mutWord? (ts : List Token) : Continued Bool ts :=
  match ts with
  | ⟨.keyword .mutWord, _, _⟩ :: us => ⟨true, us, by simp⟩
  | ts => ⟨false, ts, Nat.le_refl _⟩

/-! ## Operators -/

/-- The levels of operators between operands, the loosest first. -/
inductive Tier where
  | equality
  | comparison
  | addition
  | product
deriving DecidableEq

namespace Tier

/-- The operators of a level. `and` and `or` are comparisons. -/
def admits : Tier → Kind → Bool
  | equality, .symbol s => s == .bangEqual || s == .equalEqual
  | comparison, .symbol s =>
    s == .greater || s == .greaterEqual || s == .less || s == .lessEqual
  | comparison, .keyword k => k == .andWord || k == .orWord
  | addition, .symbol s => s == .minus || s == .plus
  | product, .symbol s => s == .slash || s == .star
  | _, _ => false

/-- How many levels bind tighter. -/
def height : Tier → Nat
  | equality => 3
  | comparison => 2
  | addition => 1
  | product => 0

end Tier

/-- The operators that stand before their operand. -/
def isUnaryOperator : Kind → Bool
  | .symbol s => s == .bang || s == .minus
  | _ => false

/-! ## Pipes -/

/-- Feed `value` to `stage` as its first argument. A stage that is a call, such as `f(a)` or
`f(a)(b)`, takes the value at the front of its innermost argument list; any other stage
becomes the callee of a new call. -/
def pipeInto (value : Expr) (pipe : Token) : Expr → Expr
  | .call (.call callee token arguments piped) outer others flag =>
    .call (pipeInto value pipe (.call callee token arguments piped)) outer others flag
  | .call callee token arguments _ => .call callee token (value :: arguments) true
  | stage => .call stage pipe [value] true

/-! ## The rules -/

mutual

/-- A statement. -/
def statement (ts : List Token) : Except Failure (Parsed Stmt ts) :=
  match ts with
  | ⟨.keyword .printWord, _, _⟩ :: us => do
    let ⟨e, vs, h⟩ ← expression us
    let ⟨_, ws, h'⟩ ← expect .semicolon .expressionEnd vs
    .ok ⟨.print e, ws, by simp; omega⟩
  | ⟨.keyword .letWord, _, _⟩ :: us => do
    let ⟨mutable, us₁, h₁⟩ := mutWord? us
    let ⟨name, us₂, h₂⟩ ← expectName .variableName us₁
    let ⟨_, us₃, h₃⟩ ← expect .equal .variableEqual us₂
    let ⟨e, us₄, h₄⟩ ← expression us₃
    let ⟨_, us₅, h₅⟩ ← expect .semicolon .declarationEnd us₄
    .ok ⟨.declare name e mutable, us₅, by simp; omega⟩
  | ⟨.keyword .funcWord, _, _⟩ :: us => do
    let ⟨name, us₁, h₁⟩ ← expectName .functionName us
    let ⟨_, us₂, h₂⟩ ← expect .leftParen .functionParen us₁
    let ⟨parameters, us₃, h₃⟩ ← parameters us₂
    let ⟨body, us₄, h₄⟩ ← block (.functionBody name.lexeme) us₃
    let ⟨_, us₅, h₅⟩ ← expect .semicolon .functionEnd us₄
    .ok ⟨.function name parameters body, us₅, by simp; omega⟩
  | ⟨.identifier, lexeme, line⟩ :: ⟨.symbol .equal, _, _⟩ :: us => do
    let ⟨e, vs, h⟩ ← expression us
    let ⟨_, ws, h'⟩ ← expect .semicolon .assignmentEnd vs
    .ok ⟨.assign ⟨.identifier, lexeme, line⟩ e, ws, by simp; omega⟩
  | ts => do
    let ⟨e, us, h⟩ ← expression ts
    let ⟨_, vs, h'⟩ ← expect .semicolon .expressionEnd us
    .ok ⟨.expression e, vs, by omega⟩
termination_by 20 * ts.length + 15

/-- The parameters of a function, up to and with the closing parenthesis. -/
def parameters (ts : List Token) : Except Failure (Parsed (List Token) ts) :=
  match ts with
  | ⟨.symbol .rightParen, _, _⟩ :: us => .ok ⟨[], us, by simp⟩
  | ts => parameterList ts
termination_by 20 * ts.length + 16

/-- One parameter or more. A parameter is read as an expression and has to be a name. -/
def parameterList (ts : List Token) : Except Failure (Parsed (List Token) ts) := do
  let ⟨e, us, h⟩ ← expression ts
  match us, h, e with
  | ⟨.symbol .comma, _, _⟩ :: vs, h, .name p =>
    have : vs.length < ts.length := Nat.lt_of_succ_lt h
    let ⟨ps, ws, h'⟩ ← parameterList vs
    .ok ⟨p :: ps, ws, by omega⟩
  | us, h, .name p =>
    let ⟨_, vs, h'⟩ ← expect .rightParen .parametersEnd us
    .ok ⟨[p], vs, by omega⟩
  | _, _, _ => .error ⟨.parameter, ts⟩
termination_by 20 * ts.length + 15

/-- A block, or the failure `cause` where none starts. -/
def block (cause : SyntaxCause) (ts : List Token) : Except Failure (Parsed Block ts) :=
  match ts with
  | ⟨.symbol .leftBrace, _, _⟩ :: us => do
    let ⟨body, vs, h⟩ ← statements us
    .ok ⟨body, vs, by simp; omega⟩
  | ts => .error ⟨cause, ts⟩
termination_by 20 * ts.length

/-- The statements of a block, up to and with the closing brace. -/
def statements (ts : List Token) : Except Failure (Parsed Block ts) :=
  match ts with
  | [] => .error ⟨.blockEnd, []⟩
  | ⟨.symbol .rightBrace, _, _⟩ :: us => .ok ⟨[], us, by simp⟩
  | ts => do
    let ⟨s, us, h⟩ ← statement ts
    let ⟨rest, vs, h'⟩ ← statements us
    .ok ⟨s :: rest, vs, by omega⟩
termination_by 20 * ts.length + 16

/-- An expression : stages with pipes between them. -/
def expression (ts : List Token) : Except Failure (Parsed Expr ts) := do
  let ⟨e, us, h⟩ ← stage ts
  let ⟨e', vs, h'⟩ ← pipes e us
  .ok ⟨e', vs, by omega⟩
termination_by 20 * ts.length + 14

/-- The stages that `value` is fed to in turn. -/
def pipes (value : Expr) (ts : List Token) : Except Failure (Continued Expr ts) :=
  match ts with
  | ⟨.symbol .pipe, lexeme, line⟩ :: us => do
    let ⟨e, vs, h⟩ ← stage us
    let pipe : Token := ⟨.symbol .pipe, lexeme, line⟩
    let ⟨e', ws, h'⟩ ← pipes (pipeInto value pipe e) vs
    .ok ⟨e', ws, by simp; omega⟩
  | ts => .ok ⟨value, ts, Nat.le_refl _⟩
termination_by 20 * ts.length

/-- A block, an `if` chain, or operators. -/
def stage (ts : List Token) : Except Failure (Parsed Expr ts) :=
  match ts with
  | ⟨.symbol .leftBrace, _, _⟩ :: us => do
    let ⟨body, vs, h⟩ ← statements us
    .ok ⟨.block body, vs, by simp; omega⟩
  | ⟨.keyword .ifWord, _, _⟩ :: us => do
    let ⟨condition, us₁, h₁⟩ ← expression us
    let ⟨body, us₂, h₂⟩ ← block .branchBlock us₁
    let ⟨branches, us₃, h₃⟩ ← branches us₂
    .ok ⟨.ifChain (.when condition body :: branches), us₃, by simp; omega⟩
  | ts => tier .equality ts
termination_by 20 * ts.length + 13
decreasing_by all_goals simp [Tier.height] <;> omega

/-- The branches of an `if` chain behind the first. -/
def branches (ts : List Token) : Except Failure (Continued (List Branch) ts) :=
  match ts with
  | ⟨.keyword .elseWord, _, _⟩ :: ⟨.keyword .ifWord, _, _⟩ :: us => do
    let ⟨condition, us₁, h₁⟩ ← expression us
    let ⟨body, us₂, h₂⟩ ← block .branchBlock us₁
    let ⟨rest, us₃, h₃⟩ ← branches us₂
    .ok ⟨.when condition body :: rest, us₃, by simp; omega⟩
  | ⟨.keyword .elseWord, _, _⟩ :: us => do
    let ⟨body, vs, h⟩ ← block .branchBlock us
    .ok ⟨[.otherwise body], vs, by simp; omega⟩
  | ts => .ok ⟨[], ts, Nat.le_refl _⟩
termination_by 20 * ts.length

/-- Operands with operators of one level between them. -/
def tier (t : Tier) (ts : List Token) : Except Failure (Parsed Expr ts) := do
  let ⟨e, us, h⟩ ← operand t ts
  let ⟨e', vs, h'⟩ ← operators t e us
  .ok ⟨e', vs, by omega⟩
termination_by 20 * ts.length + 2 * t.height + 6

/-- An operand of the operators of a level. -/
def operand (t : Tier) (ts : List Token) : Except Failure (Parsed Expr ts) :=
  match t with
  | .equality => tier .comparison ts
  | .comparison => tier .addition ts
  | .addition => tier .product ts
  | .product => unary ts
termination_by 20 * ts.length + 2 * t.height + 5
decreasing_by all_goals simp [Tier.height]

/-- The operators of a level behind `left`, which group to the left. -/
def operators (t : Tier) (left : Expr) (ts : List Token) :
    Except Failure (Continued Expr ts) :=
  match ts with
  | [] => .ok ⟨left, [], Nat.le_refl _⟩
  | o :: us =>
    if t.admits o.kind then do
      let ⟨right, vs, h⟩ ← operand t us
      let ⟨e, ws, h'⟩ ← operators t (.binary left o right) vs
      .ok ⟨e, ws, by simp; omega⟩
    else .ok ⟨left, o :: us, Nat.le_refl _⟩
termination_by 20 * ts.length
decreasing_by
  · cases t <;> simp [Tier.height] <;> omega
  · simp; omega

/-- Operators before their operand. -/
def unary (ts : List Token) : Except Failure (Parsed Expr ts) :=
  match ts with
  | [] => .error ⟨.expression, []⟩
  | o :: us =>
    if isUnaryOperator o.kind then do
      let ⟨right, vs, h⟩ ← unary us
      .ok ⟨.unary o right, vs, by simp; omega⟩
    else call (o :: us)
termination_by 20 * ts.length + 3

/-- A callee with the argument lists behind it. -/
def call (ts : List Token) : Except Failure (Parsed Expr ts) := do
  let ⟨e, us, h⟩ ← primary ts
  let ⟨e', vs, h'⟩ ← calls e us
  .ok ⟨e', vs, by omega⟩
termination_by 20 * ts.length + 2

/-- The argument lists behind a callee. -/
def calls (callee : Expr) (ts : List Token) : Except Failure (Continued Expr ts) :=
  match ts with
  | ⟨.symbol .leftParen, lexeme, line⟩ :: us => do
    let ⟨args, vs, h⟩ ← arguments us
    let paren : Token := ⟨.symbol .leftParen, lexeme, line⟩
    let ⟨e, ws, h'⟩ ← calls (.call callee paren args false) vs
    .ok ⟨e, ws, by simp; omega⟩
  | ts => .ok ⟨callee, ts, Nat.le_refl _⟩
termination_by 20 * ts.length

/-- The arguments of a call, up to and with the closing parenthesis. -/
def arguments (ts : List Token) : Except Failure (Parsed (List Expr) ts) :=
  match ts with
  | ⟨.symbol .rightParen, _, _⟩ :: us => .ok ⟨[], us, by simp⟩
  | ts => argumentList ts
termination_by 20 * ts.length + 16

/-- One argument or more. -/
def argumentList (ts : List Token) : Except Failure (Parsed (List Expr) ts) := do
  let ⟨e, us, h⟩ ← expression ts
  match us, h with
  | ⟨.symbol .comma, _, _⟩ :: vs, h =>
    have : vs.length < ts.length := Nat.lt_of_succ_lt h
    let ⟨es, ws, h'⟩ ← argumentList vs
    .ok ⟨e :: es, ws, by omega⟩
  | us, h =>
    let ⟨_, vs, h'⟩ ← expect .rightParen .argumentsEnd us
    .ok ⟨[e], vs, by omega⟩
termination_by 20 * ts.length + 15

/-- A constant, a name, an expression in parentheses, or a block. -/
def primary (ts : List Token) : Except Failure (Parsed Expr ts) :=
  match ts with
  | ⟨.keyword .falseWord, _, _⟩ :: us => .ok ⟨.literal (.boolean false), us, by simp⟩
  | ⟨.keyword .trueWord, _, _⟩ :: us => .ok ⟨.literal (.boolean true), us, by simp⟩
  | ⟨.keyword .nilWord, _, _⟩ :: us => .ok ⟨.literal .nil, us, by simp⟩
  | ⟨.string s, _, _⟩ :: us => .ok ⟨.literal (.string s), us, by simp⟩
  | ⟨.number x, _, _⟩ :: us => .ok ⟨.literal (.number x), us, by simp⟩
  | ⟨.identifier, lexeme, line⟩ :: us =>
    .ok ⟨.name ⟨.identifier, lexeme, line⟩, us, by simp⟩
  | ⟨.symbol .leftParen, _, _⟩ :: us => do
    let ⟨e, vs, h⟩ ← expression us
    let ⟨_, ws, h'⟩ ← expect .rightParen .groupingEnd vs
    .ok ⟨.grouping e, ws, by simp; omega⟩
  | ⟨.symbol .leftBrace, _, _⟩ :: us => do
    let ⟨body, vs, h⟩ ← statements us
    .ok ⟨.block body, vs, by simp; omega⟩
  | ts => .error ⟨.expression, ts⟩
termination_by 20 * ts.length + 1

end

/-- Statements as long as tokens are left. -/
def program (ts : List Token) : Except Failure Program :=
  match ts with
  | [] => .ok []
  | t :: us => do
    let ⟨s, vs, _⟩ ← statement (t :: us)
    let rest ← program vs
    .ok (s :: rest)
termination_by ts.length
decreasing_by assumption

/-- The failure as an error : the first token that is left is to blame, or `stop` when none
is. -/
def Failure.blame (f : Failure) (stop : Token) : SyntaxError :=
  ⟨f.cause, f.rest.head?.getD stop⟩

end Parser

/-- The token marks the end of the text. -/
def Token.isEnd (t : Token) : Bool := t.kind == .eof

/-- The program that the tokens before the first end marker make up.

Without an end marker nothing closes the last statement or block : where the tokens run out
a further expression is expected, and the last token is to blame. -/
def parse (ts : List Token) : Except SyntaxError Program :=
  let before := ts.takeWhile (!·.isEnd)
  match ts.find? Token.isEnd, before.getLast? with
  | some stop, _ => (Parser.program before).mapError (·.blame stop)
  | none, none => .ok []
  | none, some last =>
    match Parser.program before with
    | .ok _ => .error ⟨.expression, last⟩
    | .error ⟨.blockEnd, _⟩ => .error ⟨.expression, last⟩
    | .error f => .error (f.blame last)

end PipeLang
