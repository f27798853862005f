import PipeLang.Diagnostic
import PipeLang.Sink
import PipeLang.Value

/-!
# Why a program stops

A fault is the cause of a failed evaluation with the token it is reported at.
`Fault.diagnostic` words it; no other function does.
-/

namespace PipeLang

/-- The deepest chain of calls of closures. -/
def callLimit : Nat := 1000

/-- The cause of a failed evaluation. -/
inductive Fault where
  /-- A name that no frame around declares. -/
  | undefined (name : Token)
  /-- A name that its frame has declared before. -/
  | redeclared (name : Token)
  /-- An assignment to a name that was declared without `mut`. -/
  | immutable (name : Token)
  /-- The minus sign before something other than a number. -/
  | operand (operator : Token) (value : Value)
  /-- An operator on numbers with something else. -/
  | operands (operator : Token) (left right : Value)
  /-- A sum of neither two numbers nor two strings. -/
  | summands (operator : Token) (left right : Value)
  /-- A division by zero of either sign. -/
  | division (operator : Token) (left right : Value)
  /-- A token before an operand that is no such operator. -/
  | unaryOperator (operator : Token)
  /-- A token between operands that is no such operator. -/
  | binaryOperator (operator : Token)
  /-- A call of something that is no function. -/
  | callee (call : Token) (value : Value)
  /-- A call with too few arguments or too many. -/
  | arity (call : Token) (function : String) (expected given : Nat)
  /-- A call too deep. -/
  | depth (call : Token) (function : String)
  /-- The output failed. -/
  | output (error : SinkError)

/-- A fault as it is shown. -/
def Fault.diagnostic : Fault → Diagnostic
  | undefined name => .runtimeOn name "Undefined variable" name.lexeme
  | redeclared name =>
    .runtimeOn name ("Cannot redeclare variable \"" ++ name.lexeme ++ "\"") name.lexeme
  | immutable name =>
    .runtimeOn name
      "Variable is immutable. It can be made mutable by declaring it with \"let mut\""
      name.lexeme
  | operand operator value =>
    .runtimeOn operator "Operand must be a number" ("Operand: " ++ value.detail)
  | operands operator left right =>
    .runtimeOn operator "Operands must be numbers"
      ("Operands: " ++ left.detail ++ " and " ++ right.detail)
  | summands operator left right =>
    .runtimeOn operator "Operands must be either two numbers or two strings"
      ("Operands: " ++ left.detail ++ " and " ++ right.detail)
  | division operator left right =>
    .runtimeOn operator "Cannot divide by zero" (left.display ++ " / " ++ right.display)
  | unaryOperator operator => .runtimeOn operator "Invalid unary operator" operator.lexeme
  | binaryOperator operator => .runtimeOn operator "Invalid binary operator" operator.lexeme
  | callee call value =>
    .runtimeOn call "Can only call functions" ("Callee: " ++ value.detail)
  | arity call function expected given =>
    .runtimeOn call
      ((if given < expected then "Missing argument" else "Too many arguments")
        ++ " for function \"" ++ function ++ "\"")
      ("expected " ++ toString expected ++ ", got " ++ toString given)
  | depth call function =>
    .runtimeOn call "Maximum call depth exceeded"
      (toString callLimit ++ " nested calls, in function \"" ++ function ++ "\"")
  | output error => .io error.text

end PipeLang
