import PipeLang.Json
import PipeLang.Syntax.Basic

/-!
# Programs as JSON

`Program.json` keeps every field of a program : lines, call tokens and the piped flag too.
A variant is an object with the one field that names it; a variant without contents is its
name.
-/

namespace PipeLang

/-- A variant with contents. -/
def Json.variant (name : String) (contents : Json) : Json := .object [(name, contents)]

/-- A kind is its name; strings and numbers add their value. -/
def Kind.json (k : Kind) : Json :=
  match k with
  | string s => .variant k.name (.string s)
  | number x => .variant k.name (.number x)
  | _ => .string k.name

/-- A token with its three fields. -/
def Token.json (t : Token) : Json :=
  .object [("type", t.kind.json), ("lexeme", .string t.lexeme), ("line", .natural t.line)]

/-- A list of tokens. -/
def Token.listJson (ts : List Token) : Json := .array (ts.map Token.json)

/-- A constant. -/
def Literal.json : Literal → Json
  | number x => .variant "Number" (.number x)
  | string s => .variant "Str" (.string s)
  | boolean b => .variant "Bool" (.boolean b)
  | nil => .string "Nil"

mutual

/-- An expression. -/
def Expr.json : Expr → Json
  | .binary left operator right =>
    .variant "Binary" (.object
      [("left", left.json), ("operator", operator.json), ("right", right.json)])
  | .unary operator right =>
    .variant "Unary" (.object [("operator", operator.json), ("right", right.json)])
  | .grouping inner => .variant "Grouping" inner.json
  | .literal value => .variant "Literal" value.json
  | .name token => .variant "Variable" token.json
  | .call callee token arguments piped =>
    .variant "Call" (.object
      [("callee", callee.json), ("token", token.json),
        ("arguments", .array (Expr.jsons arguments)), ("piped", .boolean piped)])
  | .block body => .variant "Block" (.object [("statements", .array (Stmt.jsons body))])
  | .ifChain branches =>
    .variant "If" (.object [("branches", .array (Branch.jsons branches))])

/-- Expressions one by one. -/
def Expr.jsons : List Expr → List Json
  | [] => []
  | e :: es => e.json :: Expr.jsons es

/-- A branch. The condition of the last resort is `null`. -/
def Branch.json : Branch → Json
  | .when condition body =>
    .object [("condition", condition.json),
      ("block", .object [("statements", .array (Stmt.jsons body))])]
  | .otherwise body =>
    .object [("condition", .null),
      ("block", .object [("statements", .array (Stmt.jsons body))])]

/-- Branches one by one. -/
def Branch.jsons : List Branch → List Json
  | [] => []
  | b :: bs => b.json :: Branch.jsons bs

/-- A statement. -/
def Stmt.json : Stmt → Json
  | .expression value => .variant "Expression" value.json
  | .print value => .variant "Print" value.json
  | .declare name initializer mutable =>
    .variant "Let" (.object
      [("name", name.json), ("initializer", initializer.json), ("mutable", .boolean mutable)])
  | .function name parameters body =>
    .variant "FuncDef" (.object
      [("name", name.json), ("params", Token.listJson parameters),
        ("body", .object [("statements", .array (Stmt.jsons body))])])
  | .assign name value =>
    .variant "Reassignment" (.object [("name", name.json), ("value", value.json)])

/-- Statements one by one. -/
def Stmt.jsons : List Stmt → List Json
  | [] => []
  | s :: ss => s.json :: Stmt.jsons ss

end

/-- A program as the list of its statements. -/
def Program.json (p : Program) : Json := .array (Stmt.jsons p)

end PipeLang
