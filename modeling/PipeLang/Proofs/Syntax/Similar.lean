import Mathlib.Data.List.Forall2
import PipeLang.Syntax.Basic

/-!
# Trees that differ in their tokens only

`Expr.Similar T` relates two expressions of one shape whose tokens are related by `T`, one
by one. Statements, branches and their lists are related in the same way.

Trees are similar to themselves when their tokens are (`Stmt.allSimilar_refl`), and equal
when they are similar by equality (`Stmt.eq_of_allSimilar`).
-/

namespace PipeLang

section

variable (T : Token → Token → Prop)

mutual

/-- Two expressions with tokens related by `T`. -/
inductive Expr.Similar : Expr → Expr → Prop where
  | binary {l l' r r' : Expr} {o o' : Token} :
    Expr.Similar l l' → T o o' → Expr.Similar r r' →
    Expr.Similar (.binary l o r) (.binary l' o' r')
  | unary {o o' : Token} {r r' : Expr} :
    T o o' → Expr.Similar r r' → Expr.Similar (.unary o r) (.unary o' r')
  | grouping {e e' : Expr} :
    Expr.Similar e e' → Expr.Similar (.grouping e) (.grouping e')
  | literal (value : Literal) : Expr.Similar (.literal value) (.literal value)
  | name {t t' : Token} : T t t' → Expr.Similar (.name t) (.name t')
  | call {f f' : Expr} {t t' : Token} {es es' : List Expr} (piped : Bool) :
    Expr.Similar f f' → T t t' → Expr.AllSimilar es es' →
    Expr.Similar (.call f t es piped) (.call f' t' es' piped)
  | block {b b' : Block} : Stmt.AllSimilar b b' → Expr.Similar (.block b) (.block b')
  | ifChain {bs bs' : List Branch} :
    Branch.AllSimilar bs bs' → Expr.Similar (.ifChain bs) (.ifChain bs')

/-- Expressions, one by one. -/
inductive Expr.AllSimilar : List Expr → List Expr → Prop where
  | nil : Expr.AllSimilar [] []
  | cons {e e' : Expr} {es es' : List Expr} :
    Expr.Similar e e' → Expr.AllSimilar es es' → Expr.AllSimilar (e :: es) (e' :: es')

/-- Branches, one by one. -/
inductive Branch.AllSimilar : List Branch → List Branch → Prop where
  | nil : Branch.AllSimilar [] []
  | when {e e' : Expr} {b b' : Block} {bs bs' : List Branch} :
    Expr.Similar e e' → Stmt.AllSimilar b b' → Branch.AllSimilar bs bs' →
    Branch.AllSimilar (.when e b :: bs) (.when e' b' :: bs')
  | otherwise {b b' : Block} {bs bs' : List Branch} :
    Stmt.AllSimilar b b' → Branch.AllSimilar bs bs' →
    Branch.AllSimilar (.otherwise b :: bs) (.otherwise b' :: bs')

/-- Two statements with tokens related by `T`. -/
inductive Stmt.Similar : Stmt → Stmt → Prop where
  | expression {e e' : Expr} :
    Expr.Similar e e' → Stmt.Similar (.expression e) (.expression e')
  | print {e e' : Expr} : Expr.Similar e e' → Stmt.Similar (.print e) (.print e')
  | declare {x x' : Token} {e e' : Expr} (mutable : Bool) :
    T x x' → Expr.Similar e e' → Stmt.Similar (.declare x e mutable) (.declare x' e' mutable)
  | function {x x' : Token} {ps ps' : List Token} {b b' : Block} :
    T x x' → List.Forall₂ T ps ps' → Stmt.AllSimilar b b' →
    Stmt.Similar (.function x ps b) (.function x' ps' b')
  | assign {x x' : Token} {e e' : Expr} :
    T x x' → Expr.Similar e e' → Stmt.Similar (.assign x e) (.assign x' e')

/-- Statements, one by one. -/
inductive Stmt.AllSimilar : List Stmt → List Stmt → Prop where
  | nil : Stmt.AllSimilar [] []
  | cons {s s' : Stmt} {ss ss' : List Stmt} :
    Stmt.Similar s s' → Stmt.AllSimilar ss ss' → Stmt.AllSimilar (s :: ss) (s' :: ss')

end

end

/-! ## Similar to itself -/

section

variable {T : Token → Token → Prop}

mutual

/-- Trees are similar to themselves if tokens are related to themselves. -/
theorem Expr.similar_refl (hT : ∀ t, T t t) : ∀ e : Expr, e.Similar T e
  | .binary l o r => .binary (Expr.similar_refl hT l) (hT o) (Expr.similar_refl hT r)
  | .unary o r => .unary (hT o) (Expr.similar_refl hT r)
  | .grouping e => .grouping (Expr.similar_refl hT e)
  | .literal value => .literal value
  | .name t => .name (hT t)
  | .call f t es piped =>
    .call piped (Expr.similar_refl hT f) (hT t) (Expr.allSimilar_refl hT es)
  | .block b => .block (Stmt.allSimilar_refl hT b)
  | .ifChain bs => .ifChain (Branch.allSimilar_refl hT bs)

theorem Expr.allSimilar_refl (hT : ∀ t, T t t) : ∀ es : List Expr, Expr.AllSimilar T es es
  | [] => .nil
  | e :: es => .cons (Expr.similar_refl hT e) (Expr.allSimilar_refl hT es)

theorem Branch.allSimilar_refl (hT : ∀ t, T t t) :
    ∀ bs : List Branch, Branch.AllSimilar T bs bs
  | [] => .nil
  | .when e b :: bs =>
    .when (Expr.similar_refl hT e) (Stmt.allSimilar_refl hT b) (Branch.allSimilar_refl hT bs)
  | .otherwise b :: bs =>
    .otherwise (Stmt.allSimilar_refl hT b) (Branch.allSimilar_refl hT bs)

theorem Stmt.similar_refl (hT : ∀ t, T t t) : ∀ s : Stmt, s.Similar T s
  | .expression e => .expression (Expr.similar_refl hT e)
  | .print e => .print (Expr.similar_refl hT e)
  | .declare x e mutable => .declare mutable (hT x) (Expr.similar_refl hT e)
  | .function x _ b =>
    .function (hT x) (List.forall₂_same.2 fun p _ => hT p) (Stmt.allSimilar_refl hT b)
  | .assign x e => .assign (hT x) (Expr.similar_refl hT e)

theorem Stmt.allSimilar_refl (hT : ∀ t, T t t) : ∀ ss : List Stmt, Stmt.AllSimilar T ss ss
  | [] => .nil
  | s :: ss => .cons (Stmt.similar_refl hT s) (Stmt.allSimilar_refl hT ss)

end

end

/-! ## Similar by equality -/

mutual

/-- Trees that are similar with equal tokens are equal. -/
theorem Expr.eq_of_similar : ∀ e e' : Expr, e.Similar Eq e' → e = e'
  | .binary l o r, _, .binary hl ho hr => by
    rw [Expr.eq_of_similar l _ hl, ho, Expr.eq_of_similar r _ hr]
  | .unary o r, _, .unary ho hr => by rw [ho, Expr.eq_of_similar r _ hr]
  | .grouping e, _, .grouping h => by rw [Expr.eq_of_similar e _ h]
  | .literal value, _, .literal _ => rfl
  | .name t, _, .name ht => by rw [ht]
  | .call f t es piped, _, .call _ hf ht hes => by
    rw [Expr.eq_of_similar f _ hf, ht, Expr.eq_of_allSimilar es _ hes]
  | .block b, _, .block h => by rw [Stmt.eq_of_allSimilar b _ h]
  | .ifChain bs, _, .ifChain h => by rw [Branch.eq_of_allSimilar bs _ h]

theorem Expr.eq_of_allSimilar : ∀ es es' : List Expr, Expr.AllSimilar Eq es es' → es = es'
  | [], _, .nil => rfl
  | e :: es, _, .cons he hes => by
    rw [Expr.eq_of_similar e _ he, Expr.eq_of_allSimilar es _ hes]

theorem Branch.eq_of_allSimilar :
    ∀ bs bs' : List Branch, Branch.AllSimilar Eq bs bs' → bs = bs'
  | [], _, .nil => rfl
  | .when e b :: bs, _, .when he hb hbs => by
    rw [Expr.eq_of_similar e _ he, Stmt.eq_of_allSimilar b _ hb,
      Branch.eq_of_allSimilar bs _ hbs]
  | .otherwise b :: bs, _, .otherwise hb hbs => by
    rw [Stmt.eq_of_allSimilar b _ hb, Branch.eq_of_allSimilar bs _ hbs]

theorem Stmt.eq_of_similar : ∀ s s' : Stmt, s.Similar Eq s' → s = s'
  | .expression e, _, .expression h => by rw [Expr.eq_of_similar e _ h]
  | .print e, _, .print h => by rw [Expr.eq_of_similar e _ h]
  | .declare x e mutable, _, .declare _ hx he => by rw [hx, Expr.eq_of_similar e _ he]
  | .function x ps b, _, .function hx hps hb => by
    rw [hx, (congrFun₂ List.forall₂_eq_eq_eq ps _).mp hps, Stmt.eq_of_allSimilar b _ hb]
  | .assign x e, _, .assign hx he => by rw [hx, Expr.eq_of_similar e _ he]

theorem Stmt.eq_of_allSimilar : ∀ ss ss' : List Stmt, Stmt.AllSimilar Eq ss ss' → ss = ss'
  | [], _, .nil => rfl
  | s :: ss, _, .cons hs hss => by
    rw [Stmt.eq_of_similar s _ hs, Stmt.eq_of_allSimilar ss _ hss]

end

end PipeLang
