import PipeLang.Proofs.Syntax.Writing

/-!
# The shape of programs

The type of trees allows more than the grammar does : any token for an operator, a piped call
without arguments, an `if` chain that does not begin with a condition. `Stmt.AllWellShaped`
rules these out at every depth, inside the bodies of functions too. Every program that is
read is well shaped (`wellShaped_of_parse`), pipes included, which rebuild the call that they
lead to.
-/

namespace PipeLang

/-! ## Well-shaped trees -/

/-- The operators before one operand. -/
def Kind.unaryOperators : List Kind := [.symbol .bang, .symbol .minus]

/-- The operators between two operands. -/
def Kind.binaryOperators : List Kind :=
  [.symbol .bangEqual, .symbol .equalEqual, .symbol .greater, .symbol .greaterEqual,
    .symbol .less, .symbol .lessEqual, .keyword .andWord, .keyword .orWord, .symbol .minus,
    .symbol .plus, .symbol .slash, .symbol .star]

/-- A piped call has an argument, and no other when the arrow made the call. A call that is
not piped was made by a parenthesis. -/
def CallShape (token : Token) (arguments : List Expr) (piped : Bool) : Prop :=
  if piped then arguments ≠ [] ∧ (token.kind = .symbol .pipe → arguments.length = 1)
  else token.kind = .symbol .leftParen

/-- There is a branch, and the first one has a condition. -/
def Branch.StartConditioned : List Branch → Prop
  | .when _ _ :: _ => True
  | _ => False

mutual

/-- Operators, calls and branches are as the grammar has them, at every depth. -/
def Expr.WellShaped : Expr → Prop
  | .binary left operator right =>
    left.WellShaped ∧ operator.kind ∈ Kind.binaryOperators ∧ right.WellShaped
  | .unary operator right => operator.kind ∈ Kind.unaryOperators ∧ right.WellShaped
  | .grouping inner => inner.WellShaped
  | .literal _ | .name _ => True
  | .call callee token arguments piped =>
    callee.WellShaped ∧ CallShape token arguments piped ∧ Expr.AllWellShaped arguments
  | .block body => Stmt.AllWellShaped body
  | .ifChain branches => Branch.StartConditioned branches ∧ Branch.AllWellShaped branches

/-- All the expressions are well shaped. -/
def Expr.AllWellShaped : List Expr → Prop
  | [] => True
  | e :: es => e.WellShaped ∧ Expr.AllWellShaped es

/-- All the branches are well shaped, and nothing is behind one without a condition. -/
def Branch.AllWellShaped : List Branch → Prop
  | [] => True
  | .when condition body :: bs =>
    condition.WellShaped ∧ Stmt.AllWellShaped body ∧ Branch.AllWellShaped bs
  | .otherwise body :: bs => Stmt.AllWellShaped body ∧ bs = []

/-- The expressions and the body of a statement are well shaped. -/
def Stmt.WellShaped : Stmt → Prop
  | .expression value | .print value | .declare _ value _ | .assign _ value => value.WellShaped
  | .function _ _ body => Stmt.AllWellShaped body

/-- All the statements are well shaped. -/
def Stmt.AllWellShaped : List Stmt → Prop
  | [] => True
  | s :: ss => s.WellShaped ∧ Stmt.AllWellShaped ss

end

/-! ## Operators -/

theorem mem_unaryOperators {k : Kind} (h : Parser.isUnaryOperator k) :
    k ∈ Kind.unaryOperators := by
  cases k with
  | symbol s => simpa [Parser.isUnaryOperator, Kind.unaryOperators] using h
  | _ => cases h

theorem mem_binaryOperators {t : Parser.Tier} {k : Kind} (h : t.admits k) :
    k ∈ Kind.binaryOperators := by
  cases t <;> cases k <;> simp [Parser.Tier.admits, Kind.binaryOperators] at h ⊢ <;> grind

/-! ## Pipes -/

theorem wellShaped_pipeInto {v e : Expr} {p : Token} (hv : v.WellShaped) (he : e.WellShaped)
    (hunpiped : e.Unpiped) : (Parser.pipeInto v p e).WellShaped := by
  fun_induction Parser.pipeInto v p e with
  | case1 callee token arguments piped outer others flag ih =>
    obtain ⟨hcallee, hshape, hothers⟩ := he
    exact ⟨ih hcallee hunpiped.1, hshape, hothers⟩
  | case2 callee token arguments flag hcallee =>
    obtain ⟨-, htoken, rfl⟩ := hunpiped
    obtain ⟨hcallee, -, harguments⟩ := he
    refine ⟨hcallee, ⟨List.cons_ne_nil _ _, fun hpipe => ?_⟩, hv, harguments⟩
    cases htoken.symm.trans hpipe
  | case3 e _ => exact ⟨he, ⟨List.cons_ne_nil _ _, fun _ => rfl⟩, hv, trivial⟩

/-! ## What is read is well shaped -/

open PipeLang.Parser

/-- The tree of a rule is well shaped. A rule that goes on from a tree asks that the tree is. -/
def Parser.Rule.Shaped : (r : Rule) → r.Tree → Prop
  | .program, p | .block _, p | .statements, p => Stmt.AllWellShaped p
  | .statement, s => s.WellShaped
  | .parameters, _ | .parameterList, _ => True
  | .branches, bs => Branch.AllWellShaped bs
  | .arguments, es | .argumentList, es => Expr.AllWellShaped es
  | .pipes v, e | .operators _ v, e | .calls v, e => v.WellShaped → e.WellShaped
  | .expression, e | .stage, e | .tier _, e | .operand _, e | .unary, e | .call, e
  | .primary, e => e.WellShaped

theorem Parser.Reads.shaped {r : Rule} {x : r.Tree} {us : List Token} (h : Reads r x us) :
    r.Shaped x := by
  induction h with
  | endOfProgram | noStatements | noBranches | noArguments | noParameters | someParameters
  | lastParameter | parameter | falseWord | trueWord | nilWord | string | number | name =>
    trivial
  | program _ _ ihx ihp | statement _ _ ihx ihp => exact ⟨ihx, ihp⟩
  | print _ _ _ ih | declare _ _ _ _ _ ih | declareMut _ _ _ _ _ _ ih | assign _ _ _ _ ih
  | evaluate _ _ ih => exact ih
  | function _ _ _ _ _ _ _ ihbody => exact ihbody
  | braces _ _ ih | blockStage _ _ ih | blockOperand _ _ ih => exact ih
  | expression _ _ ih ih' | tier _ _ ih ih' | call _ _ ih ih' => exact ih' ih
  | noPipes | noOperators | noCalls => exact id
  | pipe _ he _ ih ih' => exact fun hv => ih' (wellShaped_pipeInto hv ih he.unpiped)
  | ifChain _ _ _ _ ihe ihbody ihbs => exact ⟨trivial, ihe, ihbody, ihbs⟩
  | elseIf _ _ _ _ _ ihe ihbody ihbs => exact ⟨ihe, ihbody, ihbs⟩
  | otherwise _ _ ih => exact ⟨ih, rfl⟩
  | operator ho _ _ ih ih' => exact fun hl => ih' ⟨hl, mem_binaryOperators ho, ih⟩
  | unary ho _ ih => exact ⟨mem_unaryOperators ho, ih⟩
  | argumentsOf hp _ _ ihes ih => exact fun hc => ih ⟨hc, hp, ihes⟩
  | lastArgument _ _ ih => exact ⟨ih, trivial⟩
  | argument _ _ _ ih ihes => exact ⟨ih, ihes⟩
  | someArguments _ ih | comparison _ ih | addition _ ih | product _ ih | factor _ ih
  | callee _ ih | operatorStage _ _ ih | grouping _ _ _ ih => exact ih

/-- Every program that is read is well shaped. -/
theorem wellShaped_of_parse {ts : List Token} {p : Program} (h : parse ts = .ok p) :
    Stmt.AllWellShaped p := by
  by_cases hend : ∃ t ∈ ts, t.isEnd
  · exact ((parse_eq_ok_iff hend).1 h).shaped
  · -- Without an end marker nothing is read but the program of no tokens.
    have hnone : ts.find? Token.isEnd = none :=
      List.find?_eq_none.2 fun t ht hisEnd => hend ⟨t, ht, hisEnd⟩
    unfold parse at h
    rw [hnone] at h
    dsimp only at h
    cases hlast : (ts.takeWhile (!·.isEnd)).getLast? with
    | none =>
      rw [hlast] at h
      cases h
      trivial
    | some last =>
      rw [hlast] at h
      dsimp only at h
      split at h <;> cases h

end PipeLang
