import Mathlib.Data.List.Forall2
import PipeLang.Proofs.Syntax.Completeness

/-!
# Writing programs back

`Stmt.marksAll` writes a program as a list of marks : a token that the tree has kept, or the
kind of a token that it has not. The parts of a node stand in the order in which they are
executed, with the punctuation of the grammar between them.

What the parser reads is what is written (`Reads.written`), token by token
(`parse_written`), so a program determines the kinds of its tokens.
-/

namespace PipeLang

/-! ## Marks -/

/-- What a tree knows about one of its tokens. -/
inductive Mark where
  /-- This very token. -/
  | kept (t : Token)
  /-- Some token of this kind. -/
  | fixed (k : Kind)

namespace Mark

/-- The kind that is written. -/
def kind : Mark → Kind
  | kept t => t.kind
  | fixed k => k

/-- The mark stands for the token. -/
def Fits : Mark → Token → Prop
  | kept t, u => u = t
  | fixed k, u => u.kind = k

/-- A mark has one kind, and the tokens that fit it are of this kind. -/
theorem Fits.kind_eq {m : Mark} {t : Token} (h : m.Fits t) : t.kind = m.kind := by
  cases m with
  | kept u => rw [show t = u from h]; rfl
  | fixed k => exact h

/-- A symbol. -/
def symbol (s : Symbol) : Mark := fixed (.symbol s)

/-- A keyword. -/
def word (k : Keyword) : Mark := fixed (.keyword k)

end Mark

/-- The kind of the token of a constant. -/
def Literal.kind : Literal → Kind
  | .number x => .number x
  | .string s => .string s
  | .boolean true => .keyword .trueWord
  | .boolean false => .keyword .falseWord
  | .nil => .keyword .nilWord

/-- Names with commas between them. -/
def nameMarks : List Token → List Mark
  | [] => []
  | [x] => [.kept x]
  | x :: xs => .kept x :: .symbol .comma :: nameMarks xs

mutual

/-- An expression as it is written. A piped call has its first argument in front of the
arrow; its token is the arrow, or the parenthesis before the other arguments. -/
def Expr.marks : Expr → List Mark
  | .binary left operator right => left.marks ++ .kept operator :: right.marks
  | .unary operator right => .kept operator :: right.marks
  | .grouping inner => .symbol .leftParen :: inner.marks ++ [.symbol .rightParen]
  | .literal value => [.fixed value.kind]
  | .name token => [.kept token]
  | .call callee token arguments piped =>
    match piped, arguments with
    | true, first :: others =>
      if token.kind = .symbol .pipe then
        first.marks ++ .kept token :: callee.marks
      else
        first.marks ++ .symbol .pipe :: callee.marks ++ .kept token :: Expr.marksAll others
          ++ [.symbol .rightParen]
    | _, arguments =>
      callee.marks ++ .kept token :: Expr.marksAll arguments ++ [.symbol .rightParen]
  | .block body => .symbol .leftBrace :: Stmt.marksAll body ++ [.symbol .rightBrace]
  | .ifChain branches => Branch.marksAll branches

/-- Arguments with commas between them. -/
def Expr.marksAll : List Expr → List Mark
  | [] => []
  | [e] => e.marks
  | e :: es => e.marks ++ .symbol .comma :: Expr.marksAll es

/-- A branch without the word that ties it to the one before. -/
def Branch.marks : Branch → List Mark
  | .when condition body =>
    .word .ifWord :: condition.marks ++ .symbol .leftBrace :: Stmt.marksAll body
      ++ [.symbol .rightBrace]
  | .otherwise body => .symbol .leftBrace :: Stmt.marksAll body ++ [.symbol .rightBrace]

/-- Branches with `else` between them. -/
def Branch.marksAll : List Branch → List Mark
  | [] => []
  | [b] => b.marks
  | b :: bs => b.marks ++ .word .elseWord :: Branch.marksAll bs

/-- A statement as it is written. -/
def Stmt.marks : Stmt → List Mark
  | .expression value => value.marks ++ [.symbol .semicolon]
  | .print value => .word .printWord :: value.marks ++ [.symbol .semicolon]
  | .declare name initializer mutable =>
    .word .letWord :: (if mutable then [.word .mutWord] else [])
      ++ .kept name :: .symbol .equal :: initializer.marks ++ [.symbol .semicolon]
  | .function name parameters body =>
    .word .funcWord :: .kept name :: .symbol .leftParen :: nameMarks parameters
      ++ .symbol .rightParen :: .symbol .leftBrace :: Stmt.marksAll body
      ++ [.symbol .rightBrace, .symbol .semicolon]
  | .assign name value =>
    .kept name :: .symbol .equal :: value.marks ++ [.symbol .semicolon]

/-- Statements one after the other. -/
def Stmt.marksAll : List Stmt → List Mark
  | [] => []
  | s :: ss => s.marks ++ Stmt.marksAll ss

end

/-- The marks stand for these tokens, one for one. -/
def Writes (ms : List Mark) (us : List Token) : Prop := List.Forall₂ Mark.Fits ms us

namespace Writes

variable {m : Mark} {t : Token} {ms ns : List Mark} {us vs : List Token}

theorem nil : Writes [] [] := List.Forall₂.nil

theorem cons (h : m.Fits t) (hs : Writes ms us) : Writes (m :: ms) (t :: us) :=
  List.Forall₂.cons h hs

theorem symbol {s : Symbol} (h : t.kind = .symbol s) (hs : Writes ms us) :
    Writes (.symbol s :: ms) (t :: us) :=
  cons h hs

theorem word {k : Keyword} (h : t.kind = .keyword k) (hs : Writes ms us) :
    Writes (.word k :: ms) (t :: us) :=
  cons h hs

/-- A token of the tree stands there itself. -/
theorem kept (hs : Writes ms us) : Writes (.kept t :: ms) (t :: us) := cons rfl hs

theorem single (h : m.Fits t) : Writes [m] [t] := cons h nil

theorem append (h : Writes ms us) (h' : Writes ns vs) : Writes (ms ++ ns) (us ++ vs) :=
  List.rel_append h h'

/-- The kinds of what is written can be read off the marks. -/
theorem kinds_eq (h : Writes ms us) : us.map Token.kind = ms.map Mark.kind := by
  induction h with
  | nil => rfl
  | cons h _ ih => rw [List.map_cons, List.map_cons, h.kind_eq, ih]

end Writes

/-! ## Pipes -/

/-- A call written with parentheses, of a callee that may be such a call; or no call. -/
def Expr.Unpiped : Expr → Prop
  | .call callee token _ piped =>
    callee.Unpiped ∧ token.kind = .symbol .leftParen ∧ piped = false
  | _ => True

open PipeLang.Parser

/-- The trees that a pipe can lead to are unpiped. -/
def Parser.Rule.Unpiped : (r : Rule) → r.Tree → Prop
  | .stage, e | .tier _, e | .operand _, e | .unary, e | .call, e | .primary, e => e.Unpiped
  | .operators _ v, e | .calls v, e => v.Unpiped → e.Unpiped
  | _, _ => True

/-- A tree that a pipe can lead to has been read as a plain call or as no call. -/
theorem Parser.Reads.unpiped {r : Rule} {x : r.Tree} {us : List Token} (h : Reads r x us) :
    r.Unpiped x := by
  induction h with
  | tier _ _ ih ih' | call _ _ ih ih' => exact ih' ih
  | operator _ _ _ _ ih' => exact fun _ => ih' trivial
  | argumentsOf hp _ _ _ ih' => exact fun hc => ih' ⟨hc, hp, rfl⟩
  | operatorStage _ _ ih | comparison _ ih | addition _ ih | product _ ih | factor _ ih
  | callee _ ih => exact ih
  | noOperators | noCalls => exact id
  | _ => trivial

/-- A plain call writes its callee, the kept parenthesis and its arguments. -/
theorem marks_call (callee : Expr) (token : Token) (arguments : List Expr) :
    (Expr.call callee token arguments false).marks =
      callee.marks ++ .kept token :: Expr.marksAll arguments ++ [.symbol .rightParen] := by
  rw [Expr.marks]
  simp

/-- A pipe writes the value, the arrow and the stage, wherever the value went. -/
theorem marks_pipeInto {v e : Expr} {p : Token} (hp : p.kind = .symbol .pipe)
    (he : e.Unpiped) :
    ∃ m : Mark, m.Fits p ∧ (pipeInto v p e).marks = v.marks ++ m :: e.marks := by
  fun_induction pipeInto v p e with
  | case1 callee token arguments piped outer others flag ih =>
    obtain ⟨hcallee, -, rfl⟩ := he
    obtain ⟨m, hm, heq⟩ := ih hcallee
    refine ⟨m, hm, ?_⟩
    rw [marks_call, marks_call _ outer, heq]
    simp
  | case2 callee token arguments flag hcallee =>
    obtain ⟨-, htoken, rfl⟩ := he
    refine ⟨.symbol .pipe, hp, ?_⟩
    simp [Expr.marks, htoken]
  | case3 e _ =>
    exact ⟨.kept p, rfl, by simp [Expr.marks, hp]⟩

/-! ## What is read is written -/

/-- A comma stands behind an expression that others follow. -/
theorem marksAll_cons {e : Expr} {es : List Expr} (h : es ≠ []) :
    Expr.marksAll (e :: es) = e.marks ++ .symbol .comma :: Expr.marksAll es := by
  rw [Expr.marksAll]
  exact h

/-- And behind a parameter that others follow. -/
theorem nameMarks_cons {x : Token} {xs : List Token} (h : xs ≠ []) :
    nameMarks (x :: xs) = .kept x :: .symbol .comma :: nameMarks xs := by
  rw [nameMarks]
  exact h

/-- The tree of a rule is written as the tokens that it was read from. A rule that goes on
from a tree adds its tokens to those of the tree; branches stand behind a branch. -/
def Parser.Rule.Written : (r : Rule) → r.Tree → List Token → Prop
  | .program, p, us => Writes (Stmt.marksAll p) us
  | .statement, s, us => Writes s.marks us
  | .parameters, ps, us => Writes (nameMarks ps ++ [.symbol .rightParen]) us
  | .parameterList, ps, us => ps ≠ [] ∧ Writes (nameMarks ps ++ [.symbol .rightParen]) us
  | .block _, body, us =>
    Writes (.symbol .leftBrace :: (Stmt.marksAll body ++ [.symbol .rightBrace])) us
  | .statements, body, us => Writes (Stmt.marksAll body ++ [.symbol .rightBrace]) us
  | .branches, bs, us => ∀ b vs, Writes b.marks vs → Writes (Branch.marksAll (b :: bs)) (vs ++ us)
  | .arguments, es, us => Writes (Expr.marksAll es ++ [.symbol .rightParen]) us
  | .argumentList, es, us =>
    es ≠ [] ∧ Writes (Expr.marksAll es ++ [.symbol .rightParen]) us
  | .pipes v, e, us | .operators _ v, e, us | .calls v, e, us =>
    ∀ vs, Writes v.marks vs → Writes e.marks (vs ++ us)
  | .expression, e, us | .stage, e, us | .tier _, e, us | .operand _, e, us | .unary, e, us
  | .call, e, us | .primary, e, us => Writes e.marks us

/-- What a rule has read is written as the tree it gives. The induction is on the derivation, one
case for each way to read something. -/
theorem Parser.Reads.written {r : Rule} {x : r.Tree} {us : List Token} (h : Reads r x us) :
    r.Written x us := by
  induction h with
  | endOfProgram => exact .nil
  | program _ _ ihx ihp => exact ihx.append ihp
  | print ht _ hs ih => exact .word ht (.append ih (.symbol hs .nil))
  | declare ht _ hq _ hs ih => exact .word ht (.kept (.symbol hq (.append ih (.symbol hs .nil))))
  | declareMut ht hm _ hq _ hs ih =>
    exact .word ht (.word hm (.kept (.symbol hq (.append ih (.symbol hs .nil)))))
  | function ht _ hp _ _ hs ihps ihbody =>
    have body := Writes.append ihbody (.symbol hs .nil)
    simpa [Rule.Written, Stmt.marks] using Writes.word ht (.kept (.symbol hp (ihps.append body)))
  | assign _ hq _ hs ih => exact .kept (.symbol hq (.append ih (.symbol hs .nil)))
  | evaluate _ hs ih => exact .append ih (.symbol hs .nil)
  | noParameters hp | noArguments hp => exact .symbol hp .nil
  | someParameters _ ih | someArguments _ ih => exact ih.2
  | lastParameter _ hp ih | lastArgument _ hp ih =>
    exact ⟨by simp, .append ih (.symbol hp .nil)⟩
  | parameter _ hc _ ih ihps =>
    have names := Writes.append ih (.symbol hc ihps.2)
    refine ⟨by simp, ?_⟩
    simpa [nameMarks_cons ihps.1, Expr.marks] using names
  | braces hb _ ih | blockStage hb _ ih | blockOperand hb _ ih => exact .symbol hb ih
  | noStatements hb => exact .symbol hb .nil
  | statement _ _ ihx ihbody =>
    simpa [Rule.Written, Stmt.marksAll] using Writes.append ihx ihbody
  | expression _ _ ih ih' | tier _ _ ih ih' | call _ _ ih ih' => exact ih' _ ih
  | noPipes | noOperators | noCalls => exact fun vs hv => by simpa using hv
  | @pipe _ _ _ p us _ hp he _ ih ih' =>
    intro vs hv
    -- The value has gone into the stage, but it is written before it.
    obtain ⟨m, hm, heq⟩ := marks_pipeInto hp he.unpiped
    have stage : Writes _ (vs ++ p :: us) := hv.append (.cons hm ih)
    have whole : Writes _ _ := ih' _ (heq ▸ stage)
    simpa using whole
  | ifChain hi _ _ _ ihe ihbody ihbs =>
    have first := Writes.word hi (ihe.append ihbody)
    have whole : Writes _ _ := ihbs (.when _ _) _ (by simpa [Branch.marks] using first)
    simpa [Rule.Written, Expr.marks] using whole
  | noBranches => exact fun b vs hv => by simpa [Branch.marksAll] using hv
  | elseIf hl hi _ _ _ ihe ihbody ihbs =>
    intro b vs hv
    have next := Writes.word hi (ihe.append ihbody)
    have others := ihbs (.when _ _) _ (by simpa [Branch.marks] using next)
    simpa [Branch.marksAll] using hv.append (.word hl others)
  | otherwise hl _ ih =>
    intro b vs hv
    simpa [Branch.marksAll, Branch.marks] using hv.append (.word hl ih)
  | operator _ _ _ ih ih' =>
    intro vs hv
    simpa using ih' _ (hv.append (.kept ih))
  | unary _ _ ih => exact .kept ih
  | @argumentsOf c e p es us ws _ _ _ ihes ih =>
    intro vs hv
    have call : Writes (Expr.call c p es false).marks (vs ++ p :: us) := by
      simpa [marks_call] using hv.append (.kept ihes)
    simpa using ih _ call
  | argument _ hc _ ih ihes =>
    have list := Writes.append ih (.symbol hc ihes.2)
    refine ⟨by simp, ?_⟩
    simpa [marksAll_cons ihes.1] using list
  | falseWord ht | trueWord ht | nilWord ht | string ht | number ht => exact .single ht
  | name _ => exact .kept .nil
  | grouping hp _ hq ih => exact .symbol hp (.append ih (.symbol hq .nil))
  | comparison _ ih | addition _ ih | product _ ih | factor _ ih | callee _ ih
  | operatorStage _ _ ih => exact ih

/-! ## Programs -/

/-- With an end marker in the list, a program is written as the tokens before the first one :
the kept tokens are those tokens, and the kinds are theirs. So no two lists that differ in
the kinds before their first end markers are read as the same program. -/
theorem parse_written {ts : List Token} {p : Program} (hend : ∃ t ∈ ts, t.isEnd)
    (h : parse ts = .ok p) :
    Writes (Stmt.marksAll p) (ts.takeWhile (!·.isEnd)) ∧
      (ts.takeWhile (!·.isEnd)).map Token.kind = (Stmt.marksAll p).map Mark.kind ∧
      ∀ us : List Token, (∃ t ∈ us, t.isEnd) → parse us = .ok p →
        (us.takeWhile (!·.isEnd)).map Token.kind = (ts.takeWhile (!·.isEnd)).map Token.kind := by
  have hts : Writes (Stmt.marksAll p) (ts.takeWhile (!·.isEnd)) :=
    ((parse_eq_ok_iff hend).1 h).written
  refine ⟨hts, hts.kinds_eq, fun us hus hparse => ?_⟩
  have hus : Writes (Stmt.marksAll p) (us.takeWhile (!·.isEnd)) :=
    ((parse_eq_ok_iff hus).1 hparse).written
  rw [hts.kinds_eq, hus.kinds_eq]

/-- The tokens of `a -> f(b)(c);` on one line, with a semicolon behind the end marker. -/
def pipedTokens : List Token :=
  [⟨.identifier, "a", 1⟩, ⟨.symbol .pipe, "->", 1⟩, ⟨.identifier, "f", 1⟩,
    ⟨.symbol .leftParen, "(", 1⟩, ⟨.identifier, "b", 1⟩, ⟨.symbol .rightParen, ")", 1⟩,
    ⟨.symbol .leftParen, "(", 1⟩, ⟨.identifier, "c", 1⟩, ⟨.symbol .rightParen, ")", 1⟩,
    ⟨.symbol .semicolon, ";", 1⟩, ⟨.eof, "", 1⟩, ⟨.symbol .semicolon, ";", 1⟩]

/-- Their program : the arrow gives `a` to the first of the two calls. -/
def pipedProgram : Program :=
  [.expression (.call
    (.call (.name ⟨.identifier, "f", 1⟩) ⟨.symbol .leftParen, "(", 1⟩
      [.name ⟨.identifier, "a", 1⟩, .name ⟨.identifier, "b", 1⟩] true)
    ⟨.symbol .leftParen, "(", 1⟩ [.name ⟨.identifier, "c", 1⟩] false)]

/-- A pipe into a pipe, with tokens behind the end marker that are not written. -/
theorem parse_written_piped :
    parse pipedTokens = .ok pipedProgram ∧
      Writes (Stmt.marksAll pipedProgram) (pipedTokens.takeWhile (!·.isEnd)) := by
  have h : parse pipedTokens = .ok pipedProgram := by cbv
  have hend : ∃ t ∈ pipedTokens, t.isEnd := by decide
  exact ⟨h, (parse_written hend h).1⟩

end PipeLang
