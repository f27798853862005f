import PipeLang.Proofs.Syntax.Soundness

/-!
# The parser returns what can be read

`Reads.run` : a rule that reads a tree from some tokens returns it, whatever stands behind
them, as long as that does not go on with the tree (`Rule.Follows`). The tokens that go on
with an expression are ordered by how loosely they bind (`Kind.looseness`), and a rule
takes in those that are below its `Rule.reach`.

What a rule decides by one token, or by two, is safe by the tokens that a tree can start
with (`Reads.entry`) and by what can stand behind a name (`Reads.second`).
-/

namespace PipeLang.Parser

/-! ## What goes on with a tree -/

/-- How loosely a token binds that goes on with an expression. -/
def looseness : Kind → Nat
  | .symbol .leftParen => 0
  | .symbol .slash | .symbol .star => 1
  | .symbol .minus | .symbol .plus => 2
  | .symbol .greater | .symbol .greaterEqual | .symbol .less | .symbol .lessEqual => 3
  | .keyword .andWord | .keyword .orWord => 3
  | .symbol .bangEqual | .symbol .equalEqual => 4
  | .keyword .elseWord => 5
  | .symbol .pipe => 6
  | _ => 7

/-- The operators of a level bind alike, and looser from level to level. -/
theorem Tier.looseness_of_admits {t : Tier} {k : Kind} (h : t.admits k) :
    looseness k = t.height + 1 := by
  cases k with
  | symbol s => revert h; cases t <;> cases s <;> decide
  | keyword w => revert h; cases t <;> cases w <;> decide
  | _ => cases t <;> simp [Tier.admits] at h

/-- A rule takes in the tokens whose looseness is below this. -/
def Rule.reach : Rule → Nat
  | .expression | .pipes _ => 7
  | .stage | .branches => 6
  | .tier t | .operators t _ => t.height + 2
  | .operand t => t.height + 1
  | .unary | .call | .calls _ => 1
  | _ => 0

/-- The list does not start with a token below `n`. -/
def Stops (n : Nat) (us : List Token) : Prop := ∀ t ∈ us.head?, n ≤ looseness t.kind

/-- No token binds more tightly than looseness `0`, so a rule of reach `0` always stops. -/
theorem stops_zero (us : List Token) : Stops 0 us := fun _ _ => Nat.zero_le _

theorem stops_cons {n : Nat} {t : Token} {us : List Token} :
    Stops n (t :: us) ↔ n ≤ looseness t.kind := by
  simp [Stops]

/-- A token that goes on with nothing stops every rule. -/
theorem stops_symbol {t : Token} {s : Symbol} (ht : t.kind = .symbol s)
    (hs : looseness (.symbol s) = 7) (us : List Token) : Stops 7 (t :: us) := by
  simp [stops_cons, ht, hs]

/-- An empty list stops a rule only as far as what stands behind it does. -/
theorem Stops.append {n : Nat} {us vs : List Token} (hus : Stops n us) (hvs : Stops n vs) :
    Stops n (us ++ vs) := by
  cases us with
  | nil => exact hvs
  | cons t us => simpa [Stops] using hus

theorem Stops.mono {m n : Nat} {us : List Token} (h : Stops n us) (hmn : m ≤ n) :
    Stops m us :=
  fun t ht => Nat.le_trans hmn (h t ht)

/-- Behind what the rule reads, these tokens do not go on with it. A program goes on to
the end. -/
def Rule.Follows : Rule → List Token → Prop
  | .program, rest => rest = []
  | r, rest => Stops r.reach rest

/-! ## What a tree can start with -/

/-- Among the tokens that start something, the first rule that takes them : operands, prefix
operators, `if`, and the words of statements. -/
def entry : Kind → Nat
  | .symbol .leftParen | .symbol .leftBrace => 0
  | .keyword .falseWord | .keyword .trueWord | .keyword .nilWord => 0
  | .identifier | .string _ | .number _ => 0
  | .symbol .bang | .symbol .minus => 1
  | .keyword .ifWord => 2
  | .keyword .printWord | .keyword .letWord | .keyword .funcWord => 3
  | _ => 4

/-- A rule starts with tokens whose entry is at most this. -/
def Rule.entry : Rule → Nat
  | .block _ | .call | .primary => 0
  | .tier _ | .operand _ | .unary => 1
  | .expression | .stage | .parameterList | .argumentList => 2
  | .statement => 3
  | _ => 4

/-- The list is not empty and starts with such a token. -/
def Starts (n : Nat) (us : List Token) : Prop := ∃ t vs, us = t :: vs ∧ entry t.kind ≤ n

theorem Starts.append {n : Nat} {us : List Token} (h : Starts n us) (vs : List Token) :
    Starts n (us ++ vs) := by
  obtain ⟨t, ws, rfl, ht⟩ := h
  exact ⟨t, ws ++ vs, rfl, ht⟩

theorem Starts.mono {m n : Nat} {us : List Token} (h : Starts m us) (hmn : m ≤ n) :
    Starts n us := by
  obtain ⟨t, ws, rfl, ht⟩ := h
  exact ⟨t, ws, rfl, Nat.le_trans ht hmn⟩

/-- A prefix operator starts the rule for them, and no operand. -/
theorem entry_of_isUnaryOperator {k : Kind} (h : isUnaryOperator k) : entry k = 1 := by
  cases k with
  | symbol s => revert h; cases s <;> decide
  | _ => simp [isUnaryOperator] at h

/-- Every tree but a list starts with a token that its rule can start with. -/
theorem Reads.starts {r : Rule} {x : r.Tree} {us : List Token} (h : Reads r x us)
    (hr : r.entry < 4) : Starts r.entry us := by
  induction h with
  | print ht | declare ht | declareMut ht | function ht | assign ht | braces ht | blockStage ht
  | ifChain ht | falseWord ht | trueWord ht | nilWord ht | string ht | number ht | name ht
  | grouping ht | blockOperand ht =>
    exact ⟨_, _, rfl, by simp [ht, PipeLang.Parser.entry, Rule.entry]⟩
  | evaluate _ _ ih | lastParameter _ _ ih | parameter _ _ _ ih | expression _ _ ih
  | lastArgument _ _ ih | argument _ _ _ ih =>
    exact ((ih (by decide)).append _).mono (by decide)
  | tier _ _ ih | call _ _ ih => exact ((ih hr).append _).mono (Nat.le_refl _)
  | operatorStage _ _ ih | callee _ ih => exact (ih (by decide)).mono (by decide)
  | comparison _ ih | addition _ ih | product _ ih | factor _ ih => exact ih hr
  | unary ho => exact ⟨_, _, rfl, Nat.le_of_eq (entry_of_isUnaryOperator ho)⟩
  | _ => simp [Rule.entry] at hr

/-- The list starts with a token that goes on with an expression, or is empty. -/
def GoesOn (us : List Token) : Prop := ∀ t ∈ us.head?, looseness t.kind < 7

/-- Behind a name at the start stands a token that goes on with an expression. -/
def GoesOnBehindName (us : List Token) : Prop :=
  ∀ t vs, us = t :: vs → t.kind = .identifier → GoesOn vs

/-- Seen from a list that starts something, only a name alone lets what stands behind it matter. -/
theorem GoesOnBehindName.append {n : Nat} {us vs : List Token} (hs : Starts n us)
    (hus : GoesOnBehindName us) (hvs : GoesOn vs) : GoesOnBehindName (us ++ vs) := by
  obtain ⟨t, ws, rfl, -⟩ := hs
  rintro _ _ ⟨⟩ hname
  cases ws with
  | nil => exact hvs
  | cons t' ws => simpa [GoesOn] using hus t _ rfl hname

theorem goesOnBehindName_of_ne {t : Token} {us : List Token} (h : t.kind ≠ .identifier) :
    GoesOnBehindName (t :: us) := by
  rintro _ _ ⟨⟩ hname
  exact absurd hname h

/-- What stands second in an expression that starts with a name, and first in what goes on
from a tree. -/
def Rule.Second : Rule → List Token → Prop
  | .expression, us | .stage, us | .tier _, us | .operand _, us | .unary, us | .call, us
  | .primary, us => GoesOnBehindName us
  | .pipes _, us | .operators _ _, us | .calls _, us => GoesOn us
  | _, _ => True

/-- In an expression no second token turns a name in front into something else : it goes on with
the expression. So `=` behind a name always means an assignment. -/
theorem Reads.second {r : Rule} {x : r.Tree} {us : List Token} (h : Reads r x us) :
    r.Second us := by
  induction h with
  | expression h _ ih ih' | tier h _ ih ih' | call h _ ih ih' =>
    exact .append (h.starts (by simp [Rule.entry])) ih ih'
  | pipe hp | argumentsOf hp => simp [Rule.Second, GoesOn, hp, looseness]
  | @operator t _ _ _ _ _ _ ho =>
    have := Tier.looseness_of_admits ho
    cases t <;> simp_all [Rule.Second, GoesOn, Tier.height]
  | blockStage ht | ifChain ht | falseWord ht | trueWord ht | nilWord ht | string ht
  | number ht | grouping ht | blockOperand ht =>
    exact goesOnBehindName_of_ne (by simp [ht])
  | unary ho =>
    refine goesOnBehindName_of_ne fun hname => ?_
    simp [hname, isUnaryOperator] at ho
  | operatorStage _ _ ih | comparison _ ih | addition _ ih | product _ ih | factor _ ih
  | callee _ ih => exact ih
  | name =>
    rintro _ _ ⟨⟩ _
    simp [GoesOn]
  | noPipes | noOperators | noCalls => simp [Rule.Second, GoesOn]
  | _ => trivial

/-! ## Runs -/

section

variable {α β γ : Type} {ts us : List Token} {a : α}

/-- A rule that starts by reading `a` goes on from there. -/
theorem bindParsed_eq {x : Except Failure (Parsed α ts)} {f : Parsed α ts → Except Failure β}
    {g : β → γ} {c : γ} (hx : x.map Parsed.pair = .ok (a, us))
    (hf : ∀ h, (f ⟨a, us, h⟩).map g = .ok c) : (x >>= f).map g = .ok c := by
  cases x with
  | error e => simp [Except.map] at hx
  | ok p =>
    obtain ⟨a', us', h⟩ := p
    obtain ⟨rfl, rfl⟩ : a' = a ∧ us' = us := by simpa [Except.map, Parsed.pair] using hx
    exact hf h

/-- The same behind a rule that may read nothing. -/
theorem bindContinued_eq {x : Except Failure (Continued α ts)}
    {f : Continued α ts → Except Failure β} {g : β → γ} {c : γ}
    (hx : x.map Continued.pair = .ok (a, us)) (hf : ∀ h, (f ⟨a, us, h⟩).map g = .ok c) :
    (x >>= f).map g = .ok c := by
  cases x with
  | error e => simp [Except.map] at hx
  | ok p =>
    obtain ⟨a', us', h⟩ := p
    obtain ⟨rfl, rfl⟩ : a' = a ∧ us' = us := by simpa [Except.map, Continued.pair] using hx
    exact hf h

end

theorem expect_eq {s : Symbol} {cause : SyntaxCause} {t : Token} (h : t.kind = .symbol s)
    (us : List Token) : (expect s cause (t :: us)).map Parsed.pair = .ok (t, us) := by
  simp [expect, h, Except.map, Parsed.pair]

theorem expectName_eq {cause : SyntaxCause} {t : Token} (h : t.kind = .identifier)
    (us : List Token) : (expectName cause (t :: us)).map Parsed.pair = .ok (t, us) := by
  simp [expectName, h, Except.map, Parsed.pair]

/-- A token by its kind. -/
theorem Token.eq_of_kind {t : Token} {k : Kind} (h : t.kind = k) :
    t = ⟨k, t.lexeme, t.line⟩ := by
  subst h
  rfl

theorem mutWord?_of_ne {t : Token} (h : t.kind ≠ .keyword .mutWord) (us : List Token) :
    mutWord? (t :: us) = ⟨false, t :: us, Nat.le_refl _⟩ := by
  rw [mutWord?]
  rintro _ _ _ ⟨⟩
  exact h rfl

/-! ### Statements -/

section

variable {t m x q s p : Token} {e : Expr} {us vs ws rest : List Token}

/-- `print`, an expression and a semicolon. -/
theorem run_print (ht : t.kind = .keyword .printWord)
    (he : Rule.expression.run us = .ok (e, s :: rest)) (hs : s.kind = .symbol .semicolon) :
    Rule.statement.run (t :: us) = .ok (.print e, rest) := by
  rw [Token.eq_of_kind ht, Rule.run, Parser.statement]
  refine bindParsed_eq he fun _ => ?_
  exact bindParsed_eq (expect_eq hs rest) fun _ => rfl

/-- `let`, a name, `=`, an expression and a semicolon. -/
theorem run_declare (ht : t.kind = .keyword .letWord) (hx : x.kind = .identifier)
    (hq : q.kind = .symbol .equal) (he : Rule.expression.run us = .ok (e, s :: rest))
    (hs : s.kind = .symbol .semicolon) :
    Rule.statement.run (t :: x :: q :: us) = .ok (.declare x e false, rest) := by
  rw [Token.eq_of_kind ht, Rule.run, Parser.statement, mutWord?_of_ne (by simp [hx])]
  refine bindParsed_eq (expectName_eq hx _) fun _ => ?_
  refine bindParsed_eq (expect_eq hq _) fun _ => ?_
  refine bindParsed_eq he fun _ => ?_
  exact bindParsed_eq (expect_eq hs rest) fun _ => rfl

/-- The same with `mut` in front of the name. -/
theorem run_declareMut (ht : t.kind = .keyword .letWord) (hm : m.kind = .keyword .mutWord)
    (hx : x.kind = .identifier) (hq : q.kind = .symbol .equal)
    (he : Rule.expression.run us = .ok (e, s :: rest)) (hs : s.kind = .symbol .semicolon) :
    Rule.statement.run (t :: m :: x :: q :: us) = .ok (.declare x e true, rest) := by
  rw [Token.eq_of_kind ht, Token.eq_of_kind hm, Rule.run, Parser.statement]
  refine bindParsed_eq (expectName_eq hx _) fun _ => ?_
  refine bindParsed_eq (expect_eq hq _) fun _ => ?_
  refine bindParsed_eq he fun _ => ?_
  exact bindParsed_eq (expect_eq hs rest) fun _ => rfl

/-- `func`, a name, parameters in parentheses, a block and a semicolon. -/
theorem run_function {ps : List Token} {body : Block} (ht : t.kind = .keyword .funcWord)
    (hx : x.kind = .identifier) (hp : p.kind = .symbol .leftParen)
    (hps : Rule.parameters.run us = .ok (ps, vs))
    (hbody : (Rule.block (.functionBody x.lexeme)).run vs = .ok (body, s :: rest))
    (hs : s.kind = .symbol .semicolon) :
    Rule.statement.run (t :: x :: p :: us) = .ok (.function x ps body, rest) := by
  rw [Token.eq_of_kind ht, Rule.run, Parser.statement]
  refine bindParsed_eq (expectName_eq hx _) fun _ => ?_
  refine bindParsed_eq (expect_eq hp _) fun _ => ?_
  refine bindParsed_eq hps fun _ => ?_
  refine bindParsed_eq hbody fun _ => ?_
  exact bindParsed_eq (expect_eq hs rest) fun _ => rfl

/-- A name with `=` behind it is an assignment, whatever else it might start. -/
theorem run_assign (hx : x.kind = .identifier) (hq : q.kind = .symbol .equal)
    (he : Rule.expression.run us = .ok (e, s :: rest)) (hs : s.kind = .symbol .semicolon) :
    Rule.statement.run (x :: q :: us) = .ok (.assign x e, rest) := by
  rw [Token.eq_of_kind hx, Token.eq_of_kind hq, Rule.run, Parser.statement]
  refine bindParsed_eq he fun _ => ?_
  exact bindParsed_eq (expect_eq hs rest) fun _ => rfl

/-- A statement that starts with no word and no assignment is an expression. -/
theorem run_evaluate (hstart : Starts 2 us)
    (hassign : ∀ x q ws, us = x :: q :: ws → x.kind = .identifier → q.kind ≠ .symbol .equal)
    (he : Rule.expression.run us = .ok (e, s :: rest)) (hs : s.kind = .symbol .semicolon) :
    Rule.statement.run us = .ok (.expression e, rest) := by
  obtain ⟨t, us, rfl, ht⟩ := hstart
  rw [Rule.run, Parser.statement]
  · refine bindParsed_eq he fun _ => ?_
    exact bindParsed_eq (expect_eq hs rest) fun _ => rfl
  · rintro _ _ _ ⟨⟩
    simp [entry] at ht
  · rintro _ _ _ ⟨⟩
    simp [entry] at ht
  · rintro _ _ _ ⟨⟩
    simp [entry] at ht
  · rintro _ _ _ _ _ ⟨⟩
    exact hassign _ _ _ rfl rfl rfl

/-- What starts an expression is no closing parenthesis, so there is a parameter. -/
theorem run_someParameters {ps : List Token} (hstart : Starts 2 us)
    (hps : Rule.parameterList.run us = .ok (ps, rest)) :
    Rule.parameters.run us = .ok (ps, rest) := by
  obtain ⟨t, us, rfl, ht⟩ := hstart
  rw [Rule.run, Parser.parameters]
  · exact hps
  · rintro _ _ _ ⟨⟩
    simp [entry] at ht

/-- A parameter is read as an expression, and that must be a name. -/
theorem run_lastParameter (hx : Rule.expression.run us = .ok (.name x, p :: rest))
    (hp : p.kind = .symbol .rightParen) : Rule.parameterList.run us = .ok ([x], rest) := by
  rw [Token.eq_of_kind hp] at hx
  rw [Rule.run, Parser.parameterList]
  refine bindParsed_eq hx fun _ => ?_
  exact bindParsed_eq (expect_eq rfl rest) fun _ => rfl

theorem run_parameter {ps : List Token} (hx : Rule.expression.run us = .ok (.name x, p :: vs))
    (hp : p.kind = .symbol .comma) (hps : Rule.parameterList.run vs = .ok (ps, rest)) :
    Rule.parameterList.run us = .ok (x :: ps, rest) := by
  rw [Token.eq_of_kind hp] at hx
  rw [Rule.run, Parser.parameterList]
  refine bindParsed_eq hx fun _ => ?_
  exact bindParsed_eq hps fun _ => rfl

/-- A block stands in braces, whatever it is the body of. -/
theorem run_block {cause : SyntaxCause} {body : Block} (ht : t.kind = .symbol .leftBrace)
    (hbody : Rule.statements.run us = .ok (body, rest)) :
    (Rule.block cause).run (t :: us) = .ok (body, rest) := by
  rw [Token.eq_of_kind ht, Rule.run, Parser.block]
  exact bindParsed_eq hbody fun _ => rfl

theorem run_noStatements (ht : t.kind = .symbol .rightBrace) :
    Rule.statements.run (t :: rest) = .ok ([], rest) := by
  rw [Token.eq_of_kind ht, Rule.run, Parser.statements]
  rfl

/-- What starts a statement is no closing brace, so the block goes on. -/
theorem run_statements {y : Stmt} {body : Block} (hstart : Starts 3 us)
    (hy : Rule.statement.run us = .ok (y, vs))
    (hbody : Rule.statements.run vs = .ok (body, rest)) :
    Rule.statements.run us = .ok (y :: body, rest) := by
  obtain ⟨t, us, rfl, ht⟩ := hstart
  rw [Rule.run, Parser.statements]
  · refine bindParsed_eq hy fun _ => ?_
    exact bindParsed_eq hbody fun _ => rfl
  · simp
  · rintro _ _ _ ⟨⟩
    simp [entry] at ht

/-- And no end marker, so the program goes on. -/
theorem run_program {y : Stmt} {body : Program} (hstart : Starts 3 us)
    (hy : Rule.statement.run us = .ok (y, vs))
    (hbody : Rule.program.run vs = .ok (body, [])) :
    Rule.program.run us = .ok (y :: body, []) := by
  obtain ⟨t, us, rfl, ht⟩ := hstart
  rw [Rule.run, Parser.program]
  refine bindParsed_eq hy fun _ => ?_
  simp only [(run_program_eq_ok_iff.1 hbody).1]
  rfl

/-! ### Expressions -/

/-- An expression is a stage and what is piped on from it. -/
theorem run_expression {e' : Expr} (he : Rule.stage.run us = .ok (e, vs))
    (he' : (Rule.pipes e).run vs = .ok (e', rest)) :
    Rule.expression.run us = .ok (e', rest) := by
  rw [Rule.run, Parser.expression]
  refine bindParsed_eq he fun _ => ?_
  exact bindContinued_eq he' fun _ => rfl

/-- What stops an expression is no pipe. -/
theorem run_noPipes (h : Stops 7 us) : (Rule.pipes e).run us = .ok (e, us) := by
  rw [Rule.run, Parser.pipes]
  · rfl
  · rintro _ _ _ rfl
    simp [stops_cons, looseness] at h

/-- A pipe feeds what has been read so far to the next stage, from left to right. -/
theorem run_pipes {v e' : Expr} (hp : p.kind = .symbol .pipe)
    (he : Rule.stage.run us = .ok (e, vs))
    (he' : (Rule.pipes (pipeInto v p e)).run vs = .ok (e', rest)) :
    (Rule.pipes v).run (p :: us) = .ok (e', rest) := by
  rw [Token.eq_of_kind hp] at he' ⊢
  rw [Rule.run, Parser.pipes]
  refine bindParsed_eq he fun _ => ?_
  exact bindContinued_eq he' fun _ => rfl

/-- A stage that begins with a brace is that block and nothing more. -/
theorem run_blockStage {body : Block} (ht : t.kind = .symbol .leftBrace)
    (hbody : Rule.statements.run us = .ok (body, rest)) :
    Rule.stage.run (t :: us) = .ok (.block body, rest) := by
  rw [Token.eq_of_kind ht, Rule.run, Parser.stage]
  exact bindParsed_eq hbody fun _ => rfl

/-- A condition with its block, and the branches behind them. -/
theorem run_ifChain {body : Block} {bs : List Branch} (ht : t.kind = .keyword .ifWord)
    (he : Rule.expression.run us = .ok (e, vs))
    (hbody : (Rule.block .branchBlock).run vs = .ok (body, ws))
    (hbs : Rule.branches.run ws = .ok (bs, rest)) :
    Rule.stage.run (t :: us) = .ok (.ifChain (.when e body :: bs), rest) := by
  rw [Token.eq_of_kind ht, Rule.run, Parser.stage]
  refine bindParsed_eq he fun _ => ?_
  refine bindParsed_eq hbody fun _ => ?_
  exact bindContinued_eq hbs fun _ => rfl

/-- Without a brace or an `if` in front, a stage is an equality. -/
theorem run_operatorStage (hstart : Starts 1 us)
    (hbrace : ∀ t ∈ us.head?, t.kind ≠ .symbol .leftBrace)
    (he : (Rule.tier .equality).run us = .ok (e, rest)) :
    Rule.stage.run us = .ok (e, rest) := by
  obtain ⟨t, us, rfl, ht⟩ := hstart
  rw [Rule.run, Parser.stage]
  · exact he
  · rintro _ _ _ ⟨⟩
    simp at hbrace
  · rintro _ _ _ ⟨⟩
    simp [entry] at ht

/-- What stops a stage is no `else`. -/
theorem run_noBranches (h : Stops 6 us) : Rule.branches.run us = .ok ([], us) := by
  rw [Rule.run, Parser.branches]
  · rfl
  · rintro _ _ _ _ _ rfl
    simp [stops_cons, looseness] at h
  · rintro _ _ _ rfl
    simp [stops_cons, looseness] at h

/-- `else if` begins one more condition. -/
theorem run_elseIf {body : Block} {bs : List Branch} (ht : t.kind = .keyword .elseWord)
    (hm : m.kind = .keyword .ifWord) (he : Rule.expression.run us = .ok (e, vs))
    (hbody : (Rule.block .branchBlock).run vs = .ok (body, ws))
    (hbs : Rule.branches.run ws = .ok (bs, rest)) :
    Rule.branches.run (t :: m :: us) = .ok (.when e body :: bs, rest) := by
  rw [Token.eq_of_kind ht, Token.eq_of_kind hm, Rule.run, Parser.branches]
  refine bindParsed_eq he fun _ => ?_
  refine bindParsed_eq hbody fun _ => ?_
  exact bindContinued_eq hbs fun _ => rfl

/-- An `else` with a block behind it ends the chain. -/
theorem run_otherwise {body : Block} (ht : t.kind = .keyword .elseWord)
    (hstart : Starts 0 us) (hbody : (Rule.block .branchBlock).run us = .ok (body, rest)) :
    Rule.branches.run (t :: us) = .ok ([.otherwise body], rest) := by
  obtain ⟨b, us, rfl, hb⟩ := hstart
  rw [Token.eq_of_kind ht, Rule.run, Parser.branches]
  · exact bindParsed_eq hbody fun _ => rfl
  · rintro _ _ _ ⟨⟩
    simp [entry] at hb

/-- A level is an operand and the operators behind it. -/
theorem run_tier {l : Tier} {e' : Expr} (he : (Rule.operand l).run us = .ok (e, vs))
    (he' : (Rule.operators l e).run vs = .ok (e', rest)) :
    (Rule.tier l).run us = .ok (e', rest) := by
  rw [Rule.run, Parser.tier]
  refine bindParsed_eq he fun _ => ?_
  exact bindContinued_eq he' fun _ => rfl

/-- A token that binds more loosely than the level ends it. -/
theorem run_noOperators {l : Tier} (h : Stops (l.height + 2) us) :
    (Rule.operators l e).run us = .ok (e, us) := by
  cases us with
  | nil =>
    rw [Rule.run, Parser.operators]
    rfl
  | cons o us =>
    have ho : ¬l.admits o.kind := by
      intro ho
      have := Tier.looseness_of_admits ho
      have := stops_cons.1 h
      omega
    rw [Rule.run, Parser.operators, if_neg ho]
    rfl

/-- Operators of one level associate to the left. -/
theorem run_operators {l : Tier} {left e' : Expr} (ho : l.admits t.kind)
    (he : (Rule.operand l).run us = .ok (e, vs))
    (he' : (Rule.operators l (.binary left t e)).run vs = .ok (e', rest)) :
    (Rule.operators l left).run (t :: us) = .ok (e', rest) := by
  rw [Rule.run, Parser.operators, if_pos ho]
  refine bindParsed_eq he fun _ => ?_
  exact bindContinued_eq he' fun _ => rfl

theorem run_unary (ho : isUnaryOperator t.kind) (he : Rule.unary.run us = .ok (e, rest)) :
    Rule.unary.run (t :: us) = .ok (.unary t e, rest) := by
  rw [Rule.run, Parser.unary, if_pos ho]
  exact bindParsed_eq he fun _ => rfl

/-- What starts an operand is no prefix operator. -/
theorem run_callee (hstart : Starts 0 us) (he : Rule.call.run us = .ok (e, rest)) :
    Rule.unary.run us = .ok (e, rest) := by
  obtain ⟨t, us, rfl, ht⟩ := hstart
  have ho : ¬isUnaryOperator t.kind := by
    intro ho
    have := entry_of_isUnaryOperator ho
    omega
  rw [Rule.run, Parser.unary, if_neg ho]
  exact he

/-- A call is an operand and the argument lists behind it. -/
theorem run_call {e' : Expr} (he : Rule.primary.run us = .ok (e, vs))
    (he' : (Rule.calls e).run vs = .ok (e', rest)) : Rule.call.run us = .ok (e', rest) := by
  rw [Rule.run, Parser.call]
  refine bindParsed_eq he fun _ => ?_
  exact bindContinued_eq he' fun _ => rfl

/-- What stops a call is no opening parenthesis. -/
theorem run_noCalls (h : Stops 1 us) : (Rule.calls e).run us = .ok (e, us) := by
  rw [Rule.run, Parser.calls]
  · rfl
  · rintro _ _ _ rfl
    simp [stops_cons, looseness] at h

/-- One argument list behind the other calls what the call before it returns. -/
theorem run_calls {callee : Expr} {es : List Expr} (hp : p.kind = .symbol .leftParen)
    (hes : Rule.arguments.run us = .ok (es, vs))
    (he : (Rule.calls (.call callee p es false)).run vs = .ok (e, rest)) :
    (Rule.calls callee).run (p :: us) = .ok (e, rest) := by
  rw [Token.eq_of_kind hp] at he ⊢
  rw [Rule.run, Parser.calls]
  refine bindParsed_eq hes fun _ => ?_
  exact bindContinued_eq he fun _ => rfl

/-- What starts an expression is no closing parenthesis, so there is an argument. -/
theorem run_someArguments {es : List Expr} (hstart : Starts 2 us)
    (hes : Rule.argumentList.run us = .ok (es, rest)) :
    Rule.arguments.run us = .ok (es, rest) := by
  obtain ⟨t, us, rfl, ht⟩ := hstart
  rw [Rule.run, Parser.arguments]
  · exact hes
  · rintro _ _ _ ⟨⟩
    simp [entry] at ht

theorem run_lastArgument (he : Rule.expression.run us = .ok (e, p :: rest))
    (hp : p.kind = .symbol .rightParen) : Rule.argumentList.run us = .ok ([e], rest) := by
  rw [Token.eq_of_kind hp] at he
  rw [Rule.run, Parser.argumentList]
  refine bindParsed_eq he fun _ => ?_
  exact bindParsed_eq (expect_eq rfl rest) fun _ => rfl

theorem run_argument {es : List Expr} (he : Rule.expression.run us = .ok (e, p :: vs))
    (hp : p.kind = .symbol .comma) (hes : Rule.argumentList.run vs = .ok (es, rest)) :
    Rule.argumentList.run us = .ok (e :: es, rest) := by
  rw [Token.eq_of_kind hp] at he
  rw [Rule.run, Parser.argumentList]
  refine bindParsed_eq he fun _ => ?_
  exact bindParsed_eq hes fun _ => rfl

/-- An expression in parentheses is an operand of its own kind. -/
theorem run_grouping (hp : p.kind = .symbol .leftParen)
    (he : Rule.expression.run us = .ok (e, q :: rest)) (hq : q.kind = .symbol .rightParen) :
    Rule.primary.run (p :: us) = .ok (.grouping e, rest) := by
  rw [Token.eq_of_kind hp, Rule.run, Parser.primary]
  refine bindParsed_eq he fun _ => ?_
  exact bindParsed_eq (expect_eq hq rest) fun _ => rfl

/-- A block may also stand where an operand does. -/
theorem run_blockOperand {body : Block} (ht : t.kind = .symbol .leftBrace)
    (hbody : Rule.statements.run us = .ok (body, rest)) :
    Rule.primary.run (t :: us) = .ok (.block body, rest) := by
  rw [Token.eq_of_kind ht, Rule.run, Parser.primary]
  exact bindParsed_eq hbody fun _ => rfl

end

/-! ## What can be read is returned -/

/-- What goes on from a tree starts with a token that the rule takes in. -/
theorem Reads.stops_pipes {v e : Expr} {us : List Token} (h : Reads (.pipes v) e us) :
    Stops 6 us := by
  cases h with
  | noPipes => simp [Stops]
  | pipe hp => simp [stops_cons, hp, looseness]

/-- Nor does an operator go on with what is in front of it on a tighter level. -/
theorem Reads.stops_operators {t : Tier} {v e : Expr} {us : List Token}
    (h : Reads (.operators t v) e us) : Stops (t.height + 1) us := by
  cases h with
  | noOperators => simp [Stops]
  | operator ho => simp [stops_cons, Tier.looseness_of_admits ho]

/-- A block starts with a brace, which goes on with nothing. -/
theorem Reads.stops_block {cause : SyntaxCause} {body : Block} {us : List Token}
    (h : Reads (.block cause) body us) (vs : List Token) : Stops 7 (us ++ vs) := by
  cases h with
  | braces hb => simp [stops_cons, hb, looseness]

/-- No expression starts like an assignment. -/
theorem Reads.not_assignment {e : Expr} {us rest : List Token} (h : Reads .expression e us)
    (hrest : ∀ t ∈ rest.head?, t.kind ≠ .symbol .equal) :
    ∀ x q ws, us ++ rest = x :: q :: ws → x.kind = .identifier → q.kind ≠ .symbol .equal := by
  obtain ⟨t, vs, rfl, -⟩ := h.starts (by decide)
  intro x q ws heq hx hq
  obtain ⟨rfl, hws⟩ := List.cons.inj heq
  cases vs with
  | nil => exact hrest q (by simp [show rest = q :: ws from hws]) hq
  | cons t' vs =>
    obtain ⟨rfl, -⟩ := List.cons.inj hws
    have := h.second t (t' :: vs) rfl hx t' rfl
    simp [hq, looseness] at this

/-- A rule that can read a tree from some tokens returns it, whatever follows. -/
theorem Reads.run {r : Rule} {x : r.Tree} {us : List Token} (h : Reads r x us) :
    ∀ rest, r.Follows rest → r.run (us ++ rest) = .ok (x, rest) := by
  induction h with
  | endOfProgram =>
    rintro _ rfl
    rw [Rule.run, List.append_nil, Parser.program]
    rfl
  | program hy hp ihy ihp =>
    rintro _ rfl
    rw [List.append_assoc]
    exact run_program ((hy.starts (by decide)).append _) (ihy _ (stops_zero _)) (ihp [] rfl)
  | print ht he hs ih =>
    intro rest _
    simpa using run_print ht (ih _ (stops_symbol hs rfl rest)) hs
  | declare ht hx hq he hs ih =>
    intro rest _
    simpa using run_declare ht hx hq (ih _ (stops_symbol hs rfl rest)) hs
  | declareMut ht hm hx hq he hs ih =>
    intro rest _
    simpa using run_declareMut ht hm hx hq (ih _ (stops_symbol hs rfl rest)) hs
  | function ht hx hp hps hbody hs ihps ihbody =>
    intro rest _
    simpa using run_function ht hx hp (ihps _ (stops_zero _)) (ihbody _ (stops_zero _)) hs
  | assign hx hq he hs ih =>
    intro rest _
    simpa using run_assign hx hq (ih _ (stops_symbol hs rfl rest)) hs
  | @evaluate s e us he hs ih =>
    intro rest _
    have notEqual : ∀ t ∈ (s :: rest).head?, t.kind ≠ .symbol .equal := by simp [hs]
    simpa using run_evaluate ((he.starts (by decide)).append _) (he.not_assignment notEqual)
      (ih _ (stops_symbol hs rfl rest)) hs
  | noParameters hp =>
    intro rest _
    rw [Token.eq_of_kind hp, Rule.run, List.cons_append, Parser.parameters]
    rfl
  | someParameters hps ih =>
    intro rest _
    exact run_someParameters ((hps.starts (by decide)).append _) (ih _ (stops_zero _))
  | lastParameter hx hp ih =>
    intro rest _
    simpa using run_lastParameter (ih _ (stops_symbol hp rfl rest)) hp
  | parameter hx hc hps ih ihps =>
    intro rest _
    simpa using run_parameter (ih _ (stops_symbol hc rfl _)) hc (ihps rest (stops_zero _))
  | braces hb hbody ih =>
    intro rest _
    exact run_block hb (ih rest (stops_zero _))
  | noStatements hb =>
    intro rest _
    exact run_noStatements hb
  | statement hy hbody ihy ihbody =>
    intro rest _
    rw [List.append_assoc]
    exact run_statements ((hy.starts (by decide)).append _) (ihy _ (stops_zero _))
      (ihbody rest (stops_zero _))
  | expression he he' ih ih' =>
    intro rest hrest
    rw [List.append_assoc]
    exact run_expression (ih _ (he'.stops_pipes.append (Stops.mono hrest (by decide))))
      (ih' rest hrest)
  | noPipes =>
    intro rest hrest
    exact run_noPipes hrest
  | pipe hp he he' ih ih' =>
    intro rest hrest
    simp only [List.cons_append, List.append_assoc]
    exact run_pipes hp (ih _ (he'.stops_pipes.append (Stops.mono hrest (Nat.le_succ 6))))
      (ih' rest hrest)
  | blockStage hb hbody ih =>
    intro rest _
    exact run_blockStage hb (ih rest (stops_zero _))
  | ifChain hi he hbody hbs ihe ihbody ihbs =>
    intro rest hrest
    simp only [List.cons_append, List.append_assoc]
    exact run_ifChain hi (ihe _ (hbody.stops_block _)) (ihbody _ (stops_zero _))
      (ihbs rest hrest)
  | operatorStage hbrace he ih =>
    intro rest hrest
    have hstart := he.starts (by decide)
    refine run_operatorStage (hstart.append rest) ?_ (ih rest (Stops.mono hrest (by decide)))
    obtain ⟨t, vs, rfl, -⟩ := hstart
    exact hbrace
  | noBranches =>
    intro rest hrest
    exact run_noBranches hrest
  | elseIf hl hi he hbody hbs ihe ihbody ihbs =>
    intro rest hrest
    simp only [List.cons_append, List.append_assoc]
    exact run_elseIf hl hi (ihe _ (hbody.stops_block _)) (ihbody _ (stops_zero _))
      (ihbs rest hrest)
  | otherwise hl hbody ih =>
    intro rest _
    exact run_otherwise hl ((hbody.starts (by decide)).append _) (ih rest (stops_zero _))
  | @tier t e e' us vs he he' ih ih' =>
    intro rest hrest
    rw [List.append_assoc]
    refine run_tier (ih _ ?_) (ih' rest hrest)
    exact he'.stops_operators.append (Stops.mono hrest (Nat.le_succ _))
  | comparison he ih | addition he ih | product he ih | factor he ih =>
    intro rest hrest
    have below := ih rest hrest
    rw [Rule.run] at below
    rw [Rule.run, Parser.operand, below]
  | noOperators =>
    intro rest hrest
    exact run_noOperators hrest
  | operator ho he he' ih ih' =>
    intro rest hrest
    simp only [List.cons_append, List.append_assoc]
    refine run_operators ho (ih _ ?_) (ih' rest hrest)
    exact he'.stops_operators.append (Stops.mono hrest (Nat.le_succ _))
  | unary ho he ih =>
    intro rest hrest
    exact run_unary ho (ih rest hrest)
  | callee he ih =>
    intro rest hrest
    exact run_callee ((he.starts (by decide)).append _) (ih rest hrest)
  | call he he' ih ih' =>
    intro rest hrest
    rw [List.append_assoc]
    exact run_call (ih _ (stops_zero _)) (ih' rest hrest)
  | noCalls =>
    intro rest hrest
    exact run_noCalls hrest
  | argumentsOf hp hes he ihes ihe =>
    intro rest hrest
    simp only [List.cons_append, List.append_assoc]
    exact run_calls hp (ihes _ (stops_zero _)) (ihe rest hrest)
  | noArguments hp =>
    intro rest _
    rw [Token.eq_of_kind hp, Rule.run, List.cons_append, Parser.arguments]
    rfl
  | someArguments hes ih =>
    intro rest _
    exact run_someArguments ((hes.starts (by decide)).append _) (ih rest (stops_zero _))
  | lastArgument he hp ih =>
    intro rest _
    simpa using run_lastArgument (ih _ (stops_symbol hp rfl rest)) hp
  | argument he hc hes ih ihes =>
    intro rest _
    simpa using run_argument (ih _ (stops_symbol hc rfl _)) hc (ihes rest (stops_zero _))
  | falseWord ht | trueWord ht | nilWord ht | string ht | number ht =>
    intro rest _
    rw [Token.eq_of_kind ht, Rule.run, List.cons_append, Parser.primary]
    rfl
  | @name t ht =>
    intro rest _
    conv => rhs; rw [Token.eq_of_kind ht]
    rw [Token.eq_of_kind ht, Rule.run, List.cons_append, Parser.primary]
    rfl
  | grouping hp he hq ih =>
    intro rest _
    simpa using run_grouping hp (ih _ (stops_symbol hq rfl rest)) hq
  | blockOperand hb hbody ih =>
    intro rest _
    exact run_blockOperand hb (ih rest (stops_zero _))

/-- The parser returns a program exactly when it can be read from the tokens. -/
theorem program_eq_ok_iff {ts : List Token} {p : Program} :
    Parser.program ts = .ok p ↔ Reads .program p ts := by
  constructor
  · intro h
    obtain ⟨us, hus, hp⟩ := Rule.sound .program ts (p, []) (run_program_eq_ok_iff.2 ⟨h, rfl⟩)
    simpa [hus] using hp
  · intro h
    have hrun := h.run [] rfl
    rw [List.append_nil] at hrun
    exact (run_program_eq_ok_iff.1 hrun).1

/-- With an end marker, a program is read from the tokens before the first one. -/
theorem parse_eq_ok_iff {ts : List Token} (hend : ∃ t ∈ ts, t.isEnd) {p : Program} :
    parse ts = .ok p ↔ Reads .program p (ts.takeWhile (!·.isEnd)) := by
  obtain ⟨stop, hstop⟩ := Option.isSome_iff_exists.1 (List.find?_isSome.2 hend)
  have hparse : parse ts =
      (Parser.program (ts.takeWhile (!·.isEnd))).mapError (·.blame stop) := by
    rw [parse, hstop]
  rw [← program_eq_ok_iff, hparse]
  cases Parser.program (ts.takeWhile (!·.isEnd)) with
  | error f => exact ⟨nofun, nofun⟩
  | ok q =>
    constructor <;> intro h <;> cases h <;> rfl

end PipeLang.Parser
