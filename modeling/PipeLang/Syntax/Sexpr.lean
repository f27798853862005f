import PipeLang.Syntax.Basic

/-!
# Programs as prefix expressions

`Program.sexpr` writes a program in parentheses, the operator first, one statement a line.
It shows shape, names and constants; lines, call tokens and the way a first argument was
passed are left out. Strings are written as they are, between quotes.
-/

namespace PipeLang

/-- A constant number : an integer with all its digits and `.0`, any other number plainly. -/
def Number.sexpr (x : Float) : String :=
  let b := Binary.ofFloat x
  match b.integer? with
  | some k => signed b.negative (toString k.natAbs ++ ".0")
  | none => plain x

/-- A constant as it is written in a prefix expression. -/
def Literal.sexpr : Literal → String
  | number x => Number.sexpr x
  | string s => "\"" ++ s ++ "\""
  | boolean true => "true"
  | boolean false => "false"
  | nil => "nil"

/-- The parts in parentheses, with blanks between them. -/
def parenthesized (parts : List String) : String :=
  "(" ++ " ".intercalate parts ++ ")"

mutual

/-- An expression as a prefix expression. -/
def Expr.sexpr : Expr → String
  | .binary left operator right => parenthesized [operator.lexeme, left.sexpr, right.sexpr]
  | .unary operator right => parenthesized [operator.lexeme, right.sexpr]
  | .grouping inner => parenthesized ["group", inner.sexpr]
  | .literal value => value.sexpr
  | .name token => token.lexeme
  | .call callee _ arguments _ =>
    parenthesized ("call" :: callee.sexpr :: Expr.sexprs arguments)
  | .block body => parenthesized ("block" :: Stmt.sexprs body)
  -- an `if` without branches keeps the blank behind its head
  | .ifChain branches => "(if " ++ " ".intercalate (Branch.sexprs branches) ++ ")"

/-- Expressions one by one. -/
def Expr.sexprs : List Expr → List String
  | [] => []
  | e :: es => e.sexpr :: Expr.sexprs es

/-- A branch as a prefix expression headed by its condition or by `else`. -/
def Branch.sexpr : Branch → String
  | .when condition body =>
    parenthesized [condition.sexpr, parenthesized ("block" :: Stmt.sexprs body)]
  | .otherwise body => parenthesized ["else", parenthesized ("block" :: Stmt.sexprs body)]

/-- Branches one by one. -/
def Branch.sexprs : List Branch → List String
  | [] => []
  | b :: bs => b.sexpr :: Branch.sexprs bs

/-- A statement as a prefix expression. -/
def Stmt.sexpr : Stmt → String
  | .expression value => parenthesized [";", value.sexpr]
  | .print value => parenthesized ["print", value.sexpr]
  | .declare name initializer mutable =>
    parenthesized [if mutable then "let mut" else "let", name.lexeme, initializer.sexpr]
  | .function name parameters body =>
    parenthesized ["func", name.lexeme, parenthesized (parameters.map Token.lexeme),
      parenthesized ("block" :: Stmt.sexprs body)]
  | .assign name value => parenthesized ["=", name.lexeme, value.sexpr]

/-- Statements one by one. -/
def Stmt.sexprs : List Stmt → List String
  | [] => []
  | s :: ss => s.sexpr :: Stmt.sexprs ss

end

/-- A program as prefix expressions, one statement a line. -/
def Program.sexpr (p : Program) : String := "\n".intercalate (Stmt.sexprs p)

end PipeLang
