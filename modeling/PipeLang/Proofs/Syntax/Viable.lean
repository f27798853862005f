import PipeLang.Proofs.Syntax.OpenBlocks

/-!
# What stands in front of a failure can be completed

Where a rule gives up, nothing is wrong with the tokens in front of that place : with other
tokens behind them the rule can read them (`Rule.viable_of_error`). What is missing there is
written down for every failure (`Raises.viableTo`), and a rule that was gone on with is
completed by what the rule around it still needs (`Calls.viableTo`, `Opens.viableTo`).

Parameters are left out. They are read as expressions, and what is an expression need not be
a parameter.
-/

namespace PipeLang.Parser

/-- No function is declared. -/
def NoFunction (ts : List Token) : Prop := ∀ t ∈ ts, t.kind ≠ .keyword .funcWord

/-- The rule has nothing to do with parameters. -/
def Rule.Ordinary : Rule → Prop
  | .parameters | .parameterList => False
  | .block cause => cause ≠ .parameter
  | _ => True

/-- With some tokens behind them, none of which is an end marker, the rule reads the tokens. -/
def Rule.Viable (r : Rule) (us : List Token) : Prop :=
  ∃ ws x, (∀ t ∈ ws, t.kind ≠ .eof) ∧ Reads r x (us ++ ws)

/-- The tokens in front of the rest can be continued to what the rule reads. -/
def ViableTo (r : Rule) (ts rest : List Token) : Prop := ∃ us, ts = us ++ rest ∧ r.Viable us

/-! ## Tokens to complete others with -/

/-- A symbol that stands nowhere. -/
def someSymbol (s : Symbol) : Token := ⟨.symbol s, "", 0⟩

/-- A name that stands nowhere. -/
def someName : Token := ⟨.identifier, "x", 0⟩

theorem someSymbol_kind_ne_eof (s : Symbol) : ∀ t ∈ [someSymbol s], t.kind ≠ .eof := by
  rintro t (_ | ⟨_, ⟨⟩⟩)
  exact nofun

/-- A block with nothing in it. -/
def emptyBlock : List Token := [someSymbol .leftBrace, someSymbol .rightBrace]

theorem emptyBlock_kind_ne_eof : ∀ t ∈ emptyBlock, t.kind ≠ .eof := by decide

theorem reads_emptyBlock (cause : SyntaxCause) : Reads (.block cause) [] emptyBlock :=
  .braces rfl (.noStatements rfl)

/-! ## Tokens that have been read -/

theorem exists_reads_of_run {r : Rule} {x : r.Tree} {ts rest : List Token}
    (h : r.run ts = .ok (x, rest)) : ∃ us, ts = us ++ rest ∧ Reads r x us :=
  r.sound ts _ h

theorem Rule.Passes.reads {r : Rule} {ts rest : List Token} (h : r.Passes ts rest) :
    ∃ us x, ts = us ++ rest ∧ Reads r x us := by
  obtain ⟨x, hx⟩ := h
  obtain ⟨us, hus, hreads⟩ := exists_reads_of_run hx
  exact ⟨us, x, hus, hreads⟩

/-- Behind `let` there may be `mut`. What follows is read in the same way. -/
theorem declaration_front {t : Token} {us rest : List Token}
    (ht : t.kind = .keyword .letWord) (hrest : (mutWord? us).rest = rest) :
    ∃ front, t :: us = front ++ rest ∧
      ∀ {x q s : Token} {e : Expr} {vs : List Token}, x.kind = .identifier →
        q.kind = .symbol .equal → Reads .expression e vs → s.kind = .symbol .semicolon →
          ∃ y, Reads .statement y (front ++ x :: q :: vs ++ [s]) := by
  cases hmut : mutWord? us with
  | mk mutable vs hle =>
    obtain rfl : vs = rest := by rw [← hrest, hmut]
    rcases mutWord?_cases hmut with ⟨-, m, rfl, hm⟩ | ⟨-, rfl⟩
    · exact ⟨[t, m], rfl, fun hx hq he hs => ⟨_, .declareMut ht hm hx hq he hs⟩⟩
    · exact ⟨[t], rfl, fun hx hq he hs => ⟨_, .declare ht hx hq he hs⟩⟩

/-! ## Completing a rule -/

section

variable {r r' : Rule} {ts vs rest : List Token} {f : Failure}

/-- A rule that is read from tokens with one symbol more behind them. -/
theorem ViableTo.symbol (us : List Token) {x : r.Tree} {s : Symbol}
    (h : Reads r x (us ++ [someSymbol s])) : ViableTo r (us ++ rest) rest :=
  ⟨us, rfl, [someSymbol s], x, someSymbol_kind_ne_eof s, h⟩

/-- Around a rule there is another one, which needs some tokens in front of it and some behind
it. -/
theorem ViableTo.within (h : ViableTo r' vs rest) (front back : List Token)
    (hback : ∀ t ∈ back, t.kind ≠ .eof)
    (hr : ∀ x us, Reads r' x us → ∃ y, Reads r y (front ++ us ++ back)) :
    ViableTo r (front ++ vs) rest := by
  obtain ⟨us, rfl, ws, x, hws, hreads⟩ := h
  obtain ⟨y, hy⟩ := hr x _ hreads
  refine ⟨front ++ us, (List.append_assoc ..).symm, ws ++ back, y, fun t ht => ?_, ?_⟩
  · exact (List.mem_append.1 ht).elim (hws t) (hback t)
  · simpa using hy

/-- So is a rule that needs one symbol behind it. -/
theorem ViableTo.until (h : ViableTo r' vs rest) (front : List Token) {s : Symbol}
    (hr : ∀ x us, Reads r' x us → ∃ y, Reads r y (front ++ us ++ [someSymbol s])) :
    ViableTo r (front ++ vs) rest :=
  h.within front [someSymbol s] (someSymbol_kind_ne_eof s) hr

/-- The last thing that a rule reads. -/
theorem ViableTo.last (h : ViableTo r' vs rest) (front : List Token)
    (hr : ∀ x us, Reads r' x us → ∃ y, Reads r y (front ++ us)) :
    ViableTo r (front ++ vs) rest :=
  h.within front [] nofun fun x us hx => by simpa using hr x us hx

/-- A rule reads what another one reads. -/
theorem ViableTo.same (h : ViableTo r' ts rest) (hr : ∀ x us, Reads r' x us → ∃ y, Reads r y us) :
    ViableTo r ts rest :=
  h.last [] hr

/-! ## One step of a failing parse -/

theorem Raises.viableTo (h : Raises r ts f) (hr : r.Ordinary) (hts : NoFunction ts) :
    ViableTo r ts f.rest := by
  cases h with
  | functionName ht | functionParen ht _ | functionEnd ht _ _ _ _ =>
    exact absurd ht (hts _ (.head _))
  | parameter | parametersEnd => exact hr.elim
  | printEnd ht h =>
    obtain ⟨us, e, rfl, he⟩ := h.reads
    exact .symbol (_ :: us) (.print ht he rfl)
  | expressionEnd h =>
    obtain ⟨us, e, rfl, he⟩ := h.reads
    exact .symbol us (.evaluate he rfl)
  | assignmentEnd hx hq h =>
    obtain ⟨us, e, rfl, he⟩ := h.reads
    exact .symbol (_ :: _ :: us) (.assign hx hq he rfl)
  | declarationEnd ht hrest hx hq h =>
    obtain ⟨us, e, rfl, he⟩ := h.reads
    obtain ⟨front, hfront, hreads⟩ := declaration_front ht hrest
    obtain ⟨y, hy⟩ := hreads hx hq he (s := someSymbol .semicolon) rfl
    rw [hfront, ← List.cons_append, ← List.cons_append, ← List.append_assoc]
    exact .symbol _ hy
  | variableName ht =>
    obtain ⟨front, hfront, hreads⟩ := declaration_front ht rfl
    obtain ⟨y, hy⟩ := hreads (x := someName) (q := someSymbol .equal) rfl rfl
      (.expression_name (x := someName) rfl) (s := someSymbol .semicolon) rfl
    refine ⟨front, hfront, [someName, someSymbol .equal, someName, someSymbol .semicolon], y,
      by decide, ?_⟩
    simpa using hy
  | @variableEqual t x us vs ht hrest hx =>
    obtain ⟨front, hfront, hreads⟩ := declaration_front ht hrest
    obtain ⟨y, hy⟩ := hreads hx (q := someSymbol .equal) rfl
      (.expression_name (x := someName) rfl) (s := someSymbol .semicolon) rfl
    refine ⟨front ++ [x], by simpa using hfront,
      [someSymbol .equal, someName, someSymbol .semicolon], y, by decide, ?_⟩
    simpa using hy
  | block => exact ⟨[], rfl, _, [], emptyBlock_kind_ne_eof, reads_emptyBlock _⟩
  | blockEnd => exact .symbol [] (.noStatements rfl)
  | operand => exact ⟨[], rfl, [someName], _, by decide, .callee (.call_name rfl)⟩
  | primary => exact ⟨[], rfl, [someName], _, by decide, .name rfl⟩
  | argumentsEnd h =>
    obtain ⟨us, e, rfl, he⟩ := h.reads
    exact .symbol us (.lastArgument he rfl)
  | groupingEnd hp h =>
    obtain ⟨us, e, rfl, he⟩ := h.reads
    exact .symbol (_ :: us) (.grouping hp he rfl)

/-- What a rule begins can be completed when a rule that it goes on with can be. A stage that
begins with a brace does not go on with operators. -/
theorem Calls.viableTo (h : Calls r ts r' vs) (hr : r.Ordinary) (hts : NoFunction ts)
    (hbrace : r = .stage → r' = .tier .equality → ∀ t ∈ ts.head?, t.kind ≠ .symbol .leftBrace)
    (hvs : ViableTo r' vs rest) : ViableTo r ts rest := by
  cases h with
  | functionParameters ht _ _ | functionBody ht _ _ _ => exact absurd ht (hts _ (.head _))
  | parameters | parameter | nextParameter => exact hr.elim
  | program =>
    exact hvs.same fun x us hx => ⟨_, by simpa using Reads.program hx .endOfProgram⟩
  | programRest h =>
    obtain ⟨us, x, rfl, hx⟩ := h.reads
    exact hvs.last us fun p vs hp => ⟨_, .program hx hp⟩
  | print ht => exact hvs.until [_] fun e us he => ⟨_, .print ht he rfl⟩
  | declare ht hrest hx hq =>
    obtain ⟨front, hfront, hreads⟩ := declaration_front ht hrest
    rw [hfront, List.append_cons, List.append_cons]
    refine hvs.until _ (s := .semicolon) fun e us he => ?_
    simpa using hreads hx hq he (s := someSymbol .semicolon) rfl
  | assign hx hq => exact hvs.until [_, _] fun e us he => ⟨_, .assign hx hq he rfl⟩
  | evaluate => exact hvs.until [] fun e us he => ⟨_, .evaluate he rfl⟩
  | statement => exact hvs.until [] fun x us hx => ⟨_, .statement hx (.noStatements rfl)⟩
  | nextStatement h =>
    obtain ⟨us, x, rfl, hx⟩ := h.reads
    exact hvs.last us fun body vs hbody => ⟨_, .statement hx hbody⟩
  | stage => exact hvs.same fun e us he => ⟨_, by simpa using Reads.expression he .noPipes⟩
  | pipes h =>
    obtain ⟨us, rfl, he⟩ := exists_reads_of_run h
    exact hvs.last us fun e' vs he' => ⟨_, .expression he he'⟩
  | nextStage hp => exact hvs.last [_] fun e us he => ⟨_, by simpa using Reads.pipe hp he .noPipes⟩
  | nextPipes hp h =>
    obtain ⟨us, rfl, he⟩ := exists_reads_of_run h
    exact hvs.last (_ :: us) fun e' vs he' => ⟨_, .pipe hp he he'⟩
  | condition hi =>
    exact hvs.within [_] emptyBlock emptyBlock_kind_ne_eof fun e us he =>
      ⟨_, by simpa using Reads.ifChain hi he (reads_emptyBlock _) .noBranches⟩
  | body hi h =>
    obtain ⟨us, e, rfl, he⟩ := h.reads
    exact hvs.last (_ :: us) fun body vs hbody =>
      ⟨_, by simpa using Reads.ifChain hi he hbody .noBranches⟩
  | branches hi h h' =>
    obtain ⟨us, e, rfl, he⟩ := h.reads
    obtain ⟨vs, body, rfl, hbody⟩ := h'.reads
    rw [← List.append_assoc]
    exact hvs.last (_ :: us ++ vs) fun bs ws hbs => ⟨_, .ifChain hi he hbody hbs⟩
  | operators =>
    obtain ⟨us, rfl, ws, e, hws, he⟩ := hvs
    cases us with
    | nil =>
      -- The completion may begin with a brace. Nothing has been read, so a name will do.
      exact ⟨[], rfl, [someName], _, by decide, .stage_name rfl⟩
    | cons t us =>
      exact ⟨t :: us, rfl, ws, e, hws, .operatorStage (hbrace rfl rfl) he⟩
  | nextCondition hl hi =>
    exact hvs.within [_, _] emptyBlock emptyBlock_kind_ne_eof fun e us he =>
      ⟨_, by simpa using Reads.elseIf hl hi he (reads_emptyBlock _) .noBranches⟩
  | nextBody hl hi h =>
    obtain ⟨us, e, rfl, he⟩ := h.reads
    exact hvs.last (_ :: _ :: us) fun body vs hbody =>
      ⟨_, by simpa using Reads.elseIf hl hi he hbody .noBranches⟩
  | nextBranches hl hi h h' =>
    obtain ⟨us, e, rfl, he⟩ := h.reads
    obtain ⟨vs, body, rfl, hbody⟩ := h'.reads
    rw [← List.append_assoc]
    exact hvs.last (_ :: _ :: us ++ vs) fun bs ws hbs => ⟨_, .elseIf hl hi he hbody hbs⟩
  | otherwise hl => exact hvs.last [_] fun body us hbody => ⟨_, .otherwise hl hbody⟩
  | operand => exact hvs.same fun e us he => ⟨_, by simpa using Reads.tier he .noOperators⟩
  | behindOperand h =>
    obtain ⟨us, rfl, he⟩ := exists_reads_of_run h
    exact hvs.last us fun e' vs he' => ⟨_, .tier he he'⟩
  | comparison => exact hvs.same fun e us he => ⟨_, .comparison he⟩
  | addition => exact hvs.same fun e us he => ⟨_, .addition he⟩
  | product => exact hvs.same fun e us he => ⟨_, .product he⟩
  | factor => exact hvs.same fun e us he => ⟨_, .factor he⟩
  | nextOperand ho =>
    exact hvs.last [_] fun e us he => ⟨_, by simpa using Reads.operator ho he .noOperators⟩
  | nextOperators ho h =>
    obtain ⟨us, rfl, he⟩ := exists_reads_of_run h
    exact hvs.last (_ :: us) fun e' vs he' => ⟨_, .operator ho he he'⟩
  | unary ho => exact hvs.last [_] fun e us he => ⟨_, .unary ho he⟩
  | callee => exact hvs.same fun e us he => ⟨_, .callee he⟩
  | primary => exact hvs.same fun e us he => ⟨_, by simpa using Reads.call he .noCalls⟩
  | calls h =>
    obtain ⟨us, rfl, he⟩ := exists_reads_of_run h
    exact hvs.last us fun e' vs he' => ⟨_, .call he he'⟩
  | argumentsOf hp =>
    exact hvs.last [_] fun es us hes => ⟨_, by simpa using Reads.argumentsOf hp hes .noCalls⟩
  | nextCalls hp h =>
    obtain ⟨us, rfl, hes⟩ := exists_reads_of_run h
    exact hvs.last (_ :: us) fun e vs he => ⟨_, .argumentsOf hp hes he⟩
  | arguments => exact hvs.same fun es us hes => ⟨_, .someArguments hes⟩
  | argument => exact hvs.until [] fun e us he => ⟨_, .lastArgument he rfl⟩
  | nextArgument h hc =>
    obtain ⟨us, e, hus, he⟩ := h.reads
    rw [hus, List.append_cons]
    exact hvs.last _ fun es vs hes => ⟨_, by simpa using Reads.argument he hc hes⟩
  | grouping hp => exact hvs.until [_] fun e us he => ⟨_, .grouping hp he rfl⟩

theorem Opens.viableTo (h : Opens r ts vs) (hvs : ViableTo .statements vs rest) :
    ViableTo r ts rest := by
  cases h with
  | block hb => exact hvs.last [_] fun body us hbody => ⟨_, .braces hb hbody⟩
  | stage hb => exact hvs.last [_] fun body us hbody => ⟨_, .blockStage hb hbody⟩
  | primary hb => exact hvs.last [_] fun body us hbody => ⟨_, .blockOperand hb hbody⟩

end

/-! ## Without function declarations -/

section

variable {r r' : Rule} {ts vs : List Token} {f : Failure}

theorem Calls.ordinary (h : Calls r ts r' vs) (hr : r.Ordinary) (hts : NoFunction ts) :
    r'.Ordinary := by
  cases h with
  | functionParameters ht | functionBody ht => exact absurd ht (hts _ (.head _))
  | parameters | nextParameter => exact hr.elim
  | body | nextBody | otherwise => exact nofun
  | _ => trivial

theorem Raises.cause_ne_parameter (h : Raises r ts f) (hr : r.Ordinary) :
    f.cause ≠ .parameter := by
  cases h with
  | parameter => exact hr.elim
  | block => exact hr
  | _ => exact nofun

theorem NoFunction.of_level (hts : NoFunction ts) (h : Level ts vs) : NoFunction vs := by
  obtain ⟨us, rfl, -⟩ := h
  exact fun t ht => hts t (List.mem_append_right us ht)

theorem NoFunction.tail {t : Token} (hts : NoFunction (t :: ts)) : NoFunction ts :=
  fun _ ht => hts _ (.tail _ ht)

/-- A stage that begins with a brace fails as its statements do. -/
theorem run_statements_of_stage {b : Token} {us : List Token} (hb : b.kind = .symbol .leftBrace)
    (h : Rule.stage.run (b :: us) = .error f) : Rule.statements.run us = .error f := by
  obtain ⟨kind, lexeme, line⟩ := b
  obtain rfl : kind = .symbol .leftBrace := hb
  rw [Rule.run, Parser.stage] at h
  rw [Rule.run]
  cases hbody : Parser.statements us with
  | error g =>
    rw [hbody] at h
    cases h
    rfl
  | ok p =>
    rw [hbody] at h
    cases h

/-- Where no function is declared, no failure comes from a parameter, and everything in front
of a failure can be completed. -/
theorem Rule.viable_of_error : ∀ (r : Rule) (ts : List Token), r.Ordinary → NoFunction ts →
    ∀ f, r.run ts = .error f → f.cause ≠ .parameter ∧ ViableTo r ts f.rest := by
  refine Rule.induction fun r ts below here hr hts f hf => ?_
  -- `Calls.operators` does not say that the stage begins with no brace.
  by_cases hbrace : r = .stage ∧ ∃ b us, ts = b :: us ∧ b.kind = .symbol .leftBrace
  · obtain ⟨rfl, b, us, rfl, hb⟩ := hbrace
    obtain ⟨hcause, hviable⟩ := below .statements us (Nat.lt_succ_self _) trivial hts.tail f
      (run_statements_of_stage hb hf)
    exact ⟨hcause, (Opens.stage hb).viableTo hviable⟩
  cases r.blamed ts f hf with
  | raises h => exact ⟨h.cause_ne_parameter hr, h.viableTo hr hts⟩
  | opens h hrun =>
    obtain ⟨b, rfl, -⟩ := h.brace
    obtain ⟨hcause, hviable⟩ := below .statements _ h.length_lt trivial hts.tail f hrun
    exact ⟨hcause, h.viableTo hviable⟩
  | @calls r' vs h hrun =>
    have next : f.cause ≠ .parameter ∧ ViableTo r' vs f.rest := by
      rcases h.smaller with hlt | ⟨rfl, hlt⟩
      · exact below r' vs hlt (h.ordinary hr hts) (hts.of_level h.level) f hrun
      · exact here r' hlt (h.ordinary hr hts) hts f hrun
    refine ⟨next.1, h.viableTo hr hts (fun hstage _ t ht hb => hbrace ⟨hstage, ?_⟩) next.2⟩
    obtain ⟨us, rfl⟩ := List.head?_eq_some_iff.1 ht
    exact ⟨t, us, rfl, hb⟩

end

end PipeLang.Parser
