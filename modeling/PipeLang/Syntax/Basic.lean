import PipeLang.Token.Basic

/-!
# Programs

A program is a list of statements. Blocks and `if` chains are expressions : they have the
value of the last statement they run. Names, operators and calls keep the token they were
read from, which is what errors point to.
-/

namespace PipeLang

mutual

/-- An expression. -/
inductive Expr where
  /-- An operator between two operands. -/
  | binary (left : Expr) (operator : Token) (right : Expr)
  /-- An operator before its operand. -/
  | unary (operator : Token) (right : Expr)
  /-- An expression in parentheses. -/
  | grouping (inner : Expr)
  /-- A constant. -/
  | literal (value : Literal)
  /-- The value a name stands for. -/
  | name (token : Token)
  /-- A call. The token is the parenthesis or the pipe that made it; `piped` says that the
  first argument was written to the left of a pipe and runs before the callee. -/
  | call (callee : Expr) (token : Token) (arguments : List Expr) (piped : Bool)
  /-- Statements in braces. -/
  | block (body : List Stmt)
  /-- The first branch that applies. -/
  | ifChain (branches : List Branch)

/-- One arm of an `if` chain. -/
inductive Branch where
  | when (condition : Expr) (body : List Stmt)
  | otherwise (body : List Stmt)

/-- A statement. -/
inductive Stmt where
  | expression (value : Expr)
  | print (value : Expr)
  | declare (name : Token) (initializer : Expr) (mutable : Bool)
  | function (name : Token) (parameters : List Token) (body : List Stmt)
  | assign (name : Token) (value : Expr)

end

/-- A block is a list of statements. -/
abbrev Block := List Stmt

/-- A program is a list of statements. -/
abbrev Program := List Stmt

end PipeLang
