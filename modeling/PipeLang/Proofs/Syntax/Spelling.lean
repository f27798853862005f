import PipeLang.Proofs.Number.Rounding
import PipeLang.Proofs.Syntax.Shape
import PipeLang.Proofs.Token.Lexeme

/-!
# Spelled programs

The types of trees allow a name that is spelled like a number, or an operator that is spelled
like a name. `Stmt.AllSpelled` asks of each token that its text is a lexeme of its kind, and
that operators, names and chains are as the grammar has them. Every tree that is read from
tokens of a text is spelled (`Parser.Reads.spelled`).
-/

namespace PipeLang

open Lexer (Lexeme)

/-! ## Tokens -/

/-- The text is a lexeme of the kind. -/
def Token.Spelled (t : Token) : Prop := Lexeme t.lexeme.toList t.kind

/-- The operators before one operand or between two. -/
def Kind.operators : List Kind := Kind.unaryOperators ++ Kind.binaryOperators

/-- The text is a name. -/
def Token.IsName (t : Token) : Prop := t.Spelled ∧ t.kind = .identifier

/-- The text is an operator. -/
def Token.IsOperator (t : Token) : Prop := t.Spelled ∧ t.kind ∈ Kind.operators

/-- Numbers are finite and strings have no quote in them. -/
def Literal.Spelled : Literal → Prop
  | number x => Number.IsFinite x
  | string s => '"' ∉ s.toList
  | boolean _ | nil => True

mutual

/-- Tokens have the texts of their kinds, and there is a branch in each chain. -/
def Expr.Spelled : Expr → Prop
  | .binary left operator right => left.Spelled ∧ operator.IsOperator ∧ right.Spelled
  | .unary operator right => operator.IsOperator ∧ right.Spelled
  | .grouping inner => inner.Spelled
  | .literal value => value.Spelled
  | .name token => token.IsName
  | .call callee _ arguments _ => callee.Spelled ∧ Expr.AllSpelled arguments
  | .block body => Stmt.AllSpelled body
  | .ifChain branches => branches ≠ [] ∧ Branch.AllSpelled branches

/-- All the expressions are spelled. -/
def Expr.AllSpelled : List Expr → Prop
  | [] => True
  | e :: es => e.Spelled ∧ Expr.AllSpelled es

/-- The condition and the body of a branch are spelled. -/
def Branch.Spelled : Branch → Prop
  | .when condition body => condition.Spelled ∧ Stmt.AllSpelled body
  | .otherwise body => Stmt.AllSpelled body

/-- All the branches are spelled. -/
def Branch.AllSpelled : List Branch → Prop
  | [] => True
  | b :: bs => b.Spelled ∧ Branch.AllSpelled bs

/-- The names, the expressions and the body of a statement are spelled. -/
def Stmt.Spelled : Stmt → Prop
  | .expression value | .print value => value.Spelled
  | .declare name value _ | .assign name value => name.IsName ∧ value.Spelled
  | .function name parameters body =>
    name.IsName ∧ (∀ t ∈ parameters, t.IsName) ∧ Stmt.AllSpelled body

/-- All the statements are spelled. -/
def Stmt.AllSpelled : List Stmt → Prop
  | [] => True
  | s :: ss => s.Spelled ∧ Stmt.AllSpelled ss

end

/-! ## What is read is spelled -/

theorem spelled_pipeInto {v e : Expr} {p : Token} (hv : v.Spelled) (he : e.Spelled) :
    (Parser.pipeInto v p e).Spelled := by
  fun_induction Parser.pipeInto v p e with
  | case1 callee token arguments piped outer others flag ih => exact ⟨ih he.1, he.2⟩
  | case2 callee token arguments flag hcallee => exact ⟨he.1, hv, he.2⟩
  | case3 e _ => exact ⟨he, hv, trivial⟩

/-- The text of a token is a lexeme, and its number is finite. -/
structure Token.Regular (t : Token) : Prop where
  spelled : t.Spelled
  finite : ∀ x, t.kind = .number x → Number.IsFinite x

/-- The tree of a rule is spelled. A rule that goes on from a tree asks that the tree is. -/
def Parser.Rule.Spelled : (r : Rule) → r.Tree → Prop
  | .program, p | .block _, p | .statements, p => Stmt.AllSpelled p
  | .statement, s => s.Spelled
  | .parameters, ps | .parameterList, ps => ∀ t ∈ ps, t.IsName
  | .branches, bs => Branch.AllSpelled bs
  | .arguments, es | .argumentList, es => Expr.AllSpelled es
  | .pipes v, e | .operators _ v, e | .calls v, e => v.Spelled → e.Spelled
  | .expression, e | .stage, e | .tier _, e | .operand _, e | .unary, e | .call, e
  | .primary, e => e.Spelled

theorem Lexer.Lexeme.quote_not_mem {text : List Char} {s : String}
    (h : Lexeme text (.string s)) : '"' ∉ s.toList := by
  cases h with
  | string hcontents => rwa [String.toList_ofList]

/-- Every tree that is read from regular tokens is spelled. -/
theorem Parser.Reads.spelled {r : Rule} {x : r.Tree} {us : List Token} (h : Reads r x us)
    (hus : ∀ t ∈ us, t.Regular) : r.Spelled x := by
  induction h with
  | pipe _ _ _ ih ih' =>
    simp only [List.forall_mem_append, List.forall_mem_cons] at hus
    exact fun hv => ih' hus.2 (spelled_pipeInto hv (ih hus.1.2))
  | operator ho _ _ ih ih' =>
    simp only [List.forall_mem_append, List.forall_mem_cons] at hus
    have hoperator := List.mem_append_right Kind.unaryOperators (mem_binaryOperators ho)
    exact fun hl => ih' hus.2 ⟨hl, ⟨hus.1.1.spelled, hoperator⟩, ih hus.1.2⟩
  | unary ho _ ih =>
    rw [List.forall_mem_cons] at hus
    have hoperator := List.mem_append_left Kind.binaryOperators (mem_unaryOperators ho)
    exact ⟨⟨hus.1.spelled, hoperator⟩, ih hus.2⟩
  | string ht =>
    have hlexeme := (hus _ (List.mem_singleton_self _)).spelled
    rw [Token.Spelled, ht] at hlexeme
    exact hlexeme.quote_not_mem
  | number ht => exact (hus _ (List.mem_singleton_self _)).finite _ ht
  | _ =>
    -- the other rules keep their parts as they are, and names are identifiers by their kind
    simp_all [Rule.Spelled, Expr.Spelled, Branch.Spelled, Stmt.Spelled, Expr.AllSpelled,
      Branch.AllSpelled, Stmt.AllSpelled, Token.IsName, Literal.Spelled, Token.Regular.spelled,
      or_imp, forall_and]

/-! ## Texts of tokens -/

theorem Token.IsName.ne_keyword {t : Token} (h : t.IsName) (w : Keyword) :
    t.lexeme ≠ w.spelling := by
  intro heq
  have hlexeme := h.1
  rw [Token.Spelled, h.2, heq] at hlexeme
  cases hlexeme.kind_unique (.keyword w)

/-- The text that each lexeme of a kind has. -/
def Kind.fixedText : Kind → String
  | .symbol s => String.ofList s.spelling
  | .keyword w => w.spelling
  | _ => ""

theorem Token.IsOperator.lexeme_eq {t : Token} (h : t.IsOperator) :
    t.lexeme = t.kind.fixedText := by
  obtain ⟨kind, lexeme, line⟩ := t
  obtain ⟨hlexeme, hkind⟩ := h
  simp only [Token.Spelled] at hlexeme
  refine String.toList_injective ?_
  generalize lexeme.toList = text at hlexeme
  cases hlexeme with
  | symbol => simp [Kind.fixedText]
  | keyword => rfl
  | _ => simp [Kind.operators, Kind.unaryOperators, Kind.binaryOperators] at hkind

end PipeLang
