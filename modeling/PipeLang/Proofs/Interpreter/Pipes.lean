import PipeLang.Proofs.Interpreter.Scopes
import PipeLang.Proofs.Syntax.Pipes

/-!
# A pipe means the call that it abbreviates

A piped call evaluates its first argument before it looks its callee up. When the callee is a
name whose nearest declaration is immutable, this makes no difference
(`Interpreter.evaluate_piped`) : the lookup changes nothing, and the argument, whatever it runs,
neither hides the declaration nor changes its value.
-/

namespace PipeLang

open Interpreter (evaluate execute)

section

variable {i j : Interpreter} {x : Token} {owner : FrameId} {b : Binding}

theorem Run.read_of_find? (h : i.store.find? i.current x.lexeme = some (owner, b)) :
    Run.read x i = .ok b.value i := by
  rw [Run.read, Store.read, h]

/-- An immutable name is read alike before an expression and behind it. -/
theorem Interpreter.find?_of_evaluate_ok {e : Expr} {v : Value} (he : evaluate e i = .ok v j)
    (h : i.store.find? i.current x.lexeme = some (owner, b)) (hb : b.mutable = false) :
    j.store.find? j.current x.lexeme = some (owner, b) := by
  have hextends := extends_evaluate e i i.current
  rw [Run.after_ok he] at hextends
  rw [current_of_evaluate_ok he]
  exact hextends.find? h hb

end

namespace Interpreter

theorem evaluate_call_piped (callee first : Expr) (token : Token) (others : List Expr) :
    evaluate (.call callee token (first :: others) true) =
      evaluate first >>= fun v => evaluate callee >>= fun f =>
        Expr.evalAll call others >>= fun vs => call f token (v :: vs) := by
  rw [evaluate, Expr.eval]
  rfl

theorem evaluate_call_plain (callee first : Expr) (token : Token) (others : List Expr) :
    evaluate (.call callee token (first :: others) false) =
      evaluate callee >>= fun f => evaluate first >>= fun v =>
        Expr.evalAll call others >>= fun vs => call f token (v :: vs) := by
  rw [evaluate, Expr.eval]
  · exact bind_congr fun f => Machine.evalAll_cons_bind call first others (call f token)
  · intro _ _ hpiped
    cases hpiped

/-- The first argument may run before the callee is looked up, or behind that. -/
theorem evaluate_piped {i : Interpreter} {x : Token} {owner : FrameId} {b : Binding}
    (h : i.store.find? i.current x.lexeme = some (owner, b)) (hb : b.mutable = false)
    (token : Token) (first : Expr) (others : List Expr) :
    evaluate (.call (.name x) token (first :: others) true) i =
      evaluate (.call (.name x) token (first :: others) false) i := by
  have name : ∀ j, evaluate (.name x) j = Run.read x j := fun j => by rw [evaluate, Expr.eval]
  have before := (name i).trans (Run.read_of_find? h)
  rw [evaluate_call_piped, evaluate_call_plain, Run.bind_ok before]
  cases hfirst : evaluate first i with
  | ok v j =>
    have behind := (name j).trans (Run.read_of_find? (find?_of_evaluate_ok hfirst h hb))
    rw [Run.bind_ok hfirst, Run.bind_ok behind, Run.bind_ok hfirst]
  | error f j => rw [Run.bind_error hfirst, Run.bind_error hfirst]

end Interpreter

/-- From tokens that are an expression, and from any arguments, the piped call of a name and the
call with the expression in front are read as statements that differ in the flag alone. And
from any interpreter that finds the name immutable, two calls of it that differ in the flag
alone come to the same : value or fault, output and frames. -/
theorem pipes_abbreviate_calls :
    (∀ (c : CallTokens) (us vs : List Token) (e : Expr) (es : List Expr),
      Parser.Rule.expression.run us = .ok (e, []) →
      Parser.Rule.arguments.run (vs ++ [c.closing]) = .ok (es, []) →
      (∀ rest,
        Parser.Rule.statement.run (c.piped us vs ++ rest) = .ok (c.tree (e :: es) true, rest) ∧
        Parser.Rule.statement.run (c.plain us vs ++ rest) = .ok (c.tree (e :: es) false, rest)) ∧
      ∀ stop : Token, stop.isEnd →
        parse (c.piped us vs ++ [stop]) = .ok [c.tree (e :: es) true] ∧
        parse (c.plain us vs ++ [stop]) = .ok [c.tree (e :: es) false]) ∧
    ∀ (i : Interpreter) (x token : Token) (first : Expr) (others : List Expr) (owner : FrameId)
      (b : Binding), i.store.find? i.current x.lexeme = some (owner, b) → b.mutable = false →
        evaluate (.call (.name x) token (first :: others) true) i =
          evaluate (.call (.name x) token (first :: others) false) i := by
  refine ⟨fun c us vs e es he hes => ⟨c.run_statement he hes, ?_⟩, ?_⟩
  · intro stop hstop
    exact c.parse_statement he hes hstop
  · intro i x token first others owner b h hb
    exact Interpreter.evaluate_piped h hb token first others

/-- The tokens around the operand and the argument in `… -> pair(…);` and `pair(…, …);`. -/
def pairTokens : CallTokens where
  name := ⟨.identifier, "pair", 1⟩
  pipe := ⟨.symbol .pipe, "->", 1⟩
  opening := ⟨.symbol .leftParen, "(", 1⟩
  comma := ⟨.symbol .comma, ",", 1⟩
  closing := ⟨.symbol .rightParen, ")", 1⟩
  semicolon := ⟨.symbol .semicolon, ";", 1⟩
  name_kind := rfl
  pipe_kind := rfl
  opening_kind := rfl
  comma_kind := rfl
  closing_kind := rfl
  semicolon_kind := rfl

/-- The function `pair`, which joins two strings. -/
def pairClosure : Closure :=
  let x : Token := ⟨.identifier, "x", 1⟩
  let y : Token := ⟨.identifier, "y", 1⟩
  ⟨"pair", [x, y], [.expression (.binary (.name x) ⟨.symbol .plus, "+", 1⟩ (.name y))],
    Interpreter.globals⟩

/-- What is there after a mutable `s` and the function `pair` have been declared. -/
def pairInterpreter : Interpreter :=
  let declared := (execute (.declare ⟨.identifier, "s", 1⟩ (.literal (.string "a")) true)).after
    (.new .unlimited)
  (execute (.function pairTokens.name pairClosure.parameters pairClosure.body)).after declared

/-- The tokens of the block `{ s = "b"; log(s); s; }`. -/
def reassigningTokens : List Token :=
  let s : Token := ⟨.identifier, "s", 1⟩
  let semicolon : Token := ⟨.symbol .semicolon, ";", 1⟩
  [⟨.symbol .leftBrace, "\x7b", 1⟩, s, ⟨.symbol .equal, "=", 1⟩, ⟨.string "b", "\"b\"", 1⟩,
    semicolon, ⟨.identifier, "log", 1⟩, ⟨.symbol .leftParen, "(", 1⟩, s,
    ⟨.symbol .rightParen, ")", 1⟩, semicolon, s, semicolon, ⟨.symbol .rightBrace, "\x7d", 1⟩]

/-- And what is read from them. -/
def reassigningBlock : Expr :=
  let s : Token := ⟨.identifier, "s", 1⟩
  let log : Expr := .name ⟨.identifier, "log", 1⟩
  .block [.assign s (.literal (.string "b")),
    .expression (.call log ⟨.symbol .leftParen, "(", 1⟩ [.name s] false), .expression (.name s)]

/-- The call of `pair` with the block and with `s`, which the block gives another value. -/
def pairCall (piped : Bool) : Expr :=
  .call (.name pairTokens.name) pairTokens.opening
    [reassigningBlock, .name ⟨.identifier, "s", 1⟩] piped

/-- `{ s = "b"; log(s); s; } -> pair(s);` and `pair({ s = "b"; log(s); s; }, s);` : the block
runs first, with or without a pipe, so both arguments are the new value. A `print` of the call
writes what the block logs and then the two values joined. -/
theorem pipes_abbreviate_calls_pair :
    let s : Token := ⟨.identifier, "s", 1⟩
    let stop : Token := ⟨.eof, "", 1⟩
    parse (pairTokens.piped reassigningTokens [s] ++ [stop]) = .ok [.expression (pairCall true)] ∧
      parse (pairTokens.plain reassigningTokens [s] ++ [stop]) =
        .ok [.expression (pairCall false)] ∧
      pairInterpreter.store.find? pairInterpreter.current "pair" =
        some (0, ⟨false, .closure pairClosure⟩) ∧
      evaluate (pairCall true) pairInterpreter = evaluate (pairCall false) pairInterpreter ∧
      ((execute (.print (pairCall false))).after pairInterpreter).out.written =
        "b\nbb\n".toUTF8 := by
  intro s stop
  have he : Parser.Rule.expression.run reassigningTokens = .ok (reassigningBlock, []) := by cbv
  have hes : Parser.Rule.arguments.run ([s] ++ [pairTokens.closing]) = .ok ([.name s], []) := by
    cbv
  have hfind : pairInterpreter.store.find? pairInterpreter.current "pair" =
      some (0, ⟨false, .closure pairClosure⟩) := by
    rw [Store.find?]
    rfl
  obtain ⟨hparse, hevaluate⟩ := pipes_abbreviate_calls
  obtain ⟨hpiped, hplain⟩ := (hparse pairTokens reassigningTokens [s] _ _ he hes).2 stop rfl
  refine ⟨hpiped, hplain, hfind, ?_, ?_⟩
  · exact hevaluate pairInterpreter pairTokens.name pairTokens.opening _ _ 0 _ hfind rfl
  · decide +kernel

end PipeLang
