import PipeLang.Syntax.Basic

/-!
# Values

Numbers, strings, booleans, `nil` and functions. A function is the builtin `log` or a
closure, which names the frame that it was declared in.

`Value.same` is equality as programs see it. A frame declares a name once, so two closures
are the same function when frame and name are.
-/

namespace PipeLang

/-- The number of a frame of names. -/
abbrev FrameId := Nat

/-- A function of a program with the frame it was declared in. -/
structure Closure where
  name : String
  parameters : List Token
  body : Block
  frame : FrameId

/-- Functions that every program knows. -/
inductive Builtin where
  | log
deriving DecidableEq

/-- The name a builtin is known by. -/
def Builtin.name : Builtin → String
  | log => "log"

/-- What an expression evaluates to. -/
inductive Value where
  | number (x : Float)
  | string (s : String)
  | boolean (b : Bool)
  | nil
  | builtin (b : Builtin)
  | closure (c : Closure)

namespace Value

/-- The value of a constant. -/
def ofLiteral : Literal → Value
  | .number x => number x
  | .string s => string s
  | .boolean b => boolean b
  | .nil => nil

/-- Everything but `nil` and `false` counts as true. -/
def isTruthy : Value → Bool
  | nil => false
  | boolean b => b
  | _ => true

/-- The name of a value's type. -/
def typeName : Value → String
  | number _ => "number"
  | string _ => "string"
  | boolean _ => "boolean"
  | nil => "nil"
  | builtin _ => "function"
  | closure _ => "function"

/-- Equality of numbers is that of doubles, and values of different types differ. -/
def same : Value → Value → Bool
  | number x, number y => x == y
  | string s, string t => s == t
  | boolean a, boolean b => a == b
  | nil, nil => true
  | builtin a, builtin b => a == b
  | closure c, closure d => c.frame == d.frame && c.name == d.name
  | _, _ => false

/-- Integers below `10 ^ 15` have neither point nor negative zero, all else is written
plainly. -/
def numberText (x : Float) : String :=
  match Number.smallInteger? x with
  | some k => toString k
  | none => Number.plain x

/-- The text a program prints. -/
def display : Value → String
  | number x => numberText x
  | string s => s
  | boolean true => "true"
  | boolean false => "false"
  | nil => "nil"
  | builtin b => "<native fn " ++ b.name ++ ">"
  | closure c => "<fn " ++ c.name ++ ">"

/-- The text in diagnostics : strings in quotes, functions as they print, other values with
their type. -/
def detail : Value → String
  | string s => "\"" ++ s ++ "\""
  | builtin b => (builtin b).display
  | closure c => (closure c).display
  | v => v.display ++ " (" ++ v.typeName ++ ")"

end Value

end PipeLang
