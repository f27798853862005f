import PipeLang.Proofs.Syntax.Completeness

/-!
# Pipes are calls

A pipe feeds what stands before it to the stage behind it. When that stage is a call of a
name, the whole reads as the call with one argument more in front : the same tree, but for
the flag that the call was piped (`CallTokens.parse_statement`).
-/

namespace PipeLang

namespace Parser

/-- Stages behind stages. -/
theorem Reads.pipes_append {v e e' : Expr} {us vs : List Token} :
    Reads (.pipes v) e us → Reads (.pipes e) e' vs → Reads (.pipes v) e' (us ++ vs)
  | .noPipes, h' => h'
  | .pipe hp he h, h' => by
    rw [List.append_assoc]
    exact .pipe hp he (pipes_append h h')
termination_by us.length
decreasing_by
  simp only [List.length_cons, List.length_append]
  omega

variable {e e' : Expr} {us vs : List Token}

/-- An expression goes on with one more stage. -/
theorem Reads.pipe_stage {p : Token} (he : Reads .expression e us)
    (hp : p.kind = .symbol .pipe) (he' : Reads .stage e' vs) :
    Reads .expression (pipeInto e p e') (us ++ p :: vs) := by
  cases he with
  | expression hstage hpipes =>
    have last : Reads (.pipes e) (pipeInto e p e') (p :: vs ++ []) := .pipe hp he' .noPipes
    rw [List.append_nil] at last
    rw [List.append_assoc]
    exact .expression hstage (hpipes.pipes_append last)

theorem Tier.ne_eof_of_admits {t : Tier} {k : Kind} (h : t.admits k) : k ≠ .eof := by
  rintro rfl
  cases t <;> simp [Tier.admits] at h

theorem ne_eof_of_isUnaryOperator {k : Kind} (h : isUnaryOperator k) : k ≠ .eof := by
  rintro rfl
  simp [isUnaryOperator] at h

/-- No rule reads an end marker. -/
theorem Reads.kind_ne_eof {r : Rule} {x : r.Tree} (h : Reads r x us) :
    ∀ t ∈ us, t.kind ≠ .eof := by
  induction h with
  | operator ho _ _ ih ih' =>
    have ho := Tier.ne_eof_of_admits ho
    simp_all [or_imp]
  | unary ho _ ih =>
    have ho := ne_eof_of_isUnaryOperator ho
    simp_all
  | _ => simp_all [or_imp]

end Parser

/-! ## Two ways to write a call -/

/-- The tokens that a call of a name is written with, as a statement, with or without a pipe. -/
structure CallTokens where
  name : Token
  pipe : Token
  opening : Token
  comma : Token
  closing : Token
  semicolon : Token
  name_kind : name.kind = .identifier
  pipe_kind : pipe.kind = .symbol .pipe
  opening_kind : opening.kind = .symbol .leftParen
  comma_kind : comma.kind = .symbol .comma
  closing_kind : closing.kind = .symbol .rightParen
  semicolon_kind : semicolon.kind = .symbol .semicolon

namespace CallTokens

open PipeLang.Parser (Reads Rule)

variable (c : CallTokens)

/-- What stands before a pipe, and the call behind it : `us -> name(vs);`. -/
def piped (us vs : List Token) : List Token :=
  us ++ c.pipe :: c.name :: c.opening :: (vs ++ [c.closing]) ++ [c.semicolon]

/-- The call with one argument in front, and a comma unless it is the only one :
`name(us, vs);` or `name(us);`. -/
def plain (us vs : List Token) : List Token :=
  c.name :: c.opening :: (us ++ if vs = [] then [c.closing] else c.comma :: vs ++ [c.closing])
    ++ [c.semicolon]

/-- The statement, with the flag that the call was piped. -/
def tree (arguments : List Expr) (piped : Bool) : Stmt :=
  .expression (.call (.name c.name) c.opening arguments piped)

variable {e : Expr} {es : List Expr} {us vs : List Token}

theorem stage_call (h : Reads .arguments es us) :
    Reads .stage (.call (.name c.name) c.opening es false) (c.name :: c.opening :: us) := by
  have call := Reads.call (.name c.name_kind) (.argumentsOf c.opening_kind h .noCalls)
  rw [List.append_nil] at call
  exact call.stage_of_call (by simp [c.name_kind])

variable {c}

theorem reads_piped (he : Reads .expression e us)
    (hes : Reads .arguments es (vs ++ [c.closing])) :
    Reads .statement (c.tree (e :: es) true) (c.piped us vs) := by
  have expression := he.pipe_stage c.pipe_kind (c.stage_call hes)
  rw [Parser.pipeInto] at expression
  · exact .evaluate expression c.semicolon_kind
  · nofun

/-- An empty argument list is no other. -/
theorem eq_nil_of_reads_closing (hes : Reads .arguments es [c.closing]) : es = [] := by
  have found := hes.run [] (Parser.stops_zero [])
  rw [(Reads.noArguments c.closing_kind).run [] (Parser.stops_zero [])] at found
  cases found
  rfl

/-- One argument in front of the others. -/
theorem reads_first (he : Reads .expression e us)
    (hes : Reads .arguments es (vs ++ [c.closing])) :
    Reads .arguments (e :: es)
      (us ++ if vs = [] then [c.closing] else c.comma :: vs ++ [c.closing]) := by
  split
  · next hvs =>
    rw [hvs, List.nil_append] at hes
    rw [eq_nil_of_reads_closing hes]
    exact .someArguments (.lastArgument he c.closing_kind)
  · next hvs =>
    generalize hws : vs ++ [c.closing] = ws at hes
    cases hes with
    | noArguments =>
      rw [List.append_eq_singleton_iff] at hws
      simp [hvs] at hws
    | someArguments hlist =>
      rw [List.cons_append, hws]
      exact .someArguments (.argument he c.comma_kind hlist)

theorem reads_plain (he : Reads .expression e us)
    (hes : Reads .arguments es (vs ++ [c.closing])) :
    Reads .statement (c.tree (e :: es) false) (c.plain us vs) := by
  have expression := Reads.expression (c.stage_call (reads_first he hes)) .noPipes
  rw [List.append_nil] at expression
  exact .evaluate expression c.semicolon_kind

end CallTokens

/-! ## Statements alone -/

namespace Parser

theorem reads_of_run {r : Rule} {x : r.Tree} {us : List Token} (h : r.run us = .ok (x, [])) :
    Reads r x us := by
  obtain ⟨vs, hvs, hx⟩ := Rule.sound r us (x, []) h
  simpa [hvs] using hx

/-- A statement with nothing but an end marker behind it is a program. -/
theorem Reads.parse_statement {x : Stmt} {us : List Token} (h : Reads .statement x us)
    {stop : Token} (hstop : stop.isEnd) : parse (us ++ [stop]) = .ok [x] := by
  have hus : (us ++ [stop]).takeWhile (!·.isEnd) = us := by
    rw [List.takeWhile_append_of_pos fun t ht => by
      simpa [Token.isEnd] using h.kind_ne_eof t ht]
    simp [hstop]
  have program := Reads.program h .endOfProgram
  rw [List.append_nil] at program
  rw [parse_eq_ok_iff ⟨stop, by simp, hstop⟩, hus]
  exact program

end Parser

/-- An expression piped into a call of a name, and the call with the expression as its first
argument, are statements that differ in the flag alone, in front of whatever tokens. -/
theorem CallTokens.run_statement (c : CallTokens) {e : Expr} {es : List Expr}
    {us vs : List Token} (he : Parser.Rule.expression.run us = .ok (e, []))
    (hes : Parser.Rule.arguments.run (vs ++ [c.closing]) = .ok (es, [])) (rest : List Token) :
    Parser.Rule.statement.run (c.piped us vs ++ rest) = .ok (c.tree (e :: es) true, rest) ∧
      Parser.Rule.statement.run (c.plain us vs ++ rest) = .ok (c.tree (e :: es) false, rest) := by
  have expression := Parser.reads_of_run he
  have arguments := Parser.reads_of_run hes
  exact ⟨(reads_piped expression arguments).run rest (Parser.stops_zero rest),
    (reads_plain expression arguments).run rest (Parser.stops_zero rest)⟩

/-- With an end marker behind them, they are programs. -/
theorem CallTokens.parse_statement (c : CallTokens) {e : Expr} {es : List Expr}
    {us vs : List Token} (he : Parser.Rule.expression.run us = .ok (e, []))
    (hes : Parser.Rule.arguments.run (vs ++ [c.closing]) = .ok (es, []))
    {stop : Token} (hstop : stop.isEnd) :
    parse (c.piped us vs ++ [stop]) = .ok [c.tree (e :: es) true] ∧
      parse (c.plain us vs ++ [stop]) = .ok [c.tree (e :: es) false] := by
  have expression := Parser.reads_of_run he
  have arguments := Parser.reads_of_run hes
  exact ⟨(reads_piped expression arguments).parse_statement hstop,
    (reads_plain expression arguments).parse_statement hstop⟩

end PipeLang
