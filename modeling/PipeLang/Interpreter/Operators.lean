import PipeLang.Fault

/-!
# Operators on values

`Value.unary` and `Value.binary` apply an operator, given by its token, to operands that
have been evaluated. `and` and `or` answer with a boolean.
-/

namespace PipeLang

namespace Value

/-- The operator before one operand. -/
def unary (operator : Token) (v : Value) : Except Fault Value :=
  match operator.kind with
  | .symbol .minus =>
    match v with
    | number x => .ok (number (-x))
    | v => .error (.operand operator v)
  | .symbol .bang => .ok (boolean !v.isTruthy)
  | _ => .error (.unaryOperator operator)

/-- Two numbers to a value. -/
def arithmetic (operator : Token) (f : Float → Float → Value) (l r : Value) :
    Except Fault Value :=
  match l, r with
  | number x, number y => .ok (f x y)
  | l, r => .error (.operands operator l r)

/-- The words for the constants : a string that spells one is never joined to another. -/
def isConstantWord (s : String) : Bool := s == "true" || s == "false" || s == "nil"

/-- The sum of two numbers, or two strings one after the other. -/
def sum (operator : Token) (l r : Value) : Except Fault Value :=
  match l, r with
  | number x, number y => .ok (number (x + y))
  | string s, string t =>
    if isConstantWord s || isConstantWord t then .error (.summands operator l r)
    else .ok (string (s ++ t))
  | l, r => .error (.summands operator l r)

/-- The quotient of two numbers, the second other than zero. -/
def quotient (operator : Token) (l r : Value) : Except Fault Value :=
  match l, r with
  | number x, number y =>
    if y == 0 then .error (.division operator l r) else .ok (number (x / y))
  | l, r => .error (.operands operator l r)

/-- The operator between two operands. -/
def binary (operator : Token) (l r : Value) : Except Fault Value :=
  match operator.kind with
  | .keyword .andWord => .ok (boolean (l.isTruthy && r.isTruthy))
  | .keyword .orWord => .ok (boolean (l.isTruthy || r.isTruthy))
  | .symbol .equalEqual => .ok (boolean (l.same r))
  | .symbol .bangEqual => .ok (boolean !l.same r)
  | .symbol .plus => sum operator l r
  | .symbol .slash => quotient operator l r
  | .symbol .minus => arithmetic operator (fun x y => number (x - y)) l r
  | .symbol .star => arithmetic operator (fun x y => number (x * y)) l r
  | .symbol .less => arithmetic operator (fun x y => boolean (decide (x < y))) l r
  | .symbol .lessEqual => arithmetic operator (fun x y => boolean (decide (x ≤ y))) l r
  | .symbol .greater => arithmetic operator (fun x y => boolean (decide (x > y))) l r
  | .symbol .greaterEqual => arithmetic operator (fun x y => boolean (decide (x ≥ y))) l r
  | _ => .error (.binaryOperator operator)

end Value

end PipeLang
