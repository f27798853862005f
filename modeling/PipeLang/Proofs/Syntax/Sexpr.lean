import PipeLang.Proofs.Number.Numeral
import PipeLang.Proofs.Syntax.Spelling
import PipeLang.Proofs.Text.Sexp
import PipeLang.Syntax.Sexpr

/-!
# Programs and their prefix expressions

The text of a spelled program is that of a list of trees (`Program.toList_sexpr`), which can
be read back (`Sexp.eq_of_lines_eq`). The trees tell everything but lines, call tokens and how
first arguments were passed (`Stmt.bares_eq_of_trees_eq`), so programs have one text only if
they are equal but for these, and then they do.

Statements and expressions share parentheses : what a tree is the tree of depends on where it
stands. Among expressions its head tells (`Sexp.shape`).
-/

namespace PipeLang

open Lexer (Lexeme)

/-! ## What is shown -/

/-- The token without its line. -/
def Token.bare (t : Token) : Token := { t with line := 0 }

mutual

/-- The expression without lines, call tokens and flags. -/
def Expr.bare : Expr → Expr
  | .binary left operator right => .binary left.bare operator.bare right.bare
  | .unary operator right => .unary operator.bare right.bare
  | .grouping inner => .grouping inner.bare
  | .literal value => .literal value
  | .name token => .name token.bare
  | .call callee _ arguments _ => .call callee.bare ⟨.eof, "", 0⟩ (Expr.bares arguments) false
  | .block body => .block (Stmt.bares body)
  | .ifChain branches => .ifChain (Branch.bares branches)

/-- The expressions without lines, call tokens and flags. -/
def Expr.bares : List Expr → List Expr
  | [] => []
  | e :: es => e.bare :: Expr.bares es

/-- The branch without lines, call tokens and flags. -/
def Branch.bare : Branch → Branch
  | .when condition body => .when condition.bare (Stmt.bares body)
  | .otherwise body => .otherwise (Stmt.bares body)

/-- The branches without lines, call tokens and flags. -/
def Branch.bares : List Branch → List Branch
  | [] => []
  | b :: bs => b.bare :: Branch.bares bs

/-- The statement without lines, call tokens and flags. -/
def Stmt.bare : Stmt → Stmt
  | .expression value => .expression value.bare
  | .print value => .print value.bare
  | .declare name initializer mutable => .declare name.bare initializer.bare mutable
  | .function name parameters body =>
    .function name.bare (parameters.map Token.bare) (Stmt.bares body)
  | .assign name value => .assign name.bare value.bare

/-- The statements without lines, call tokens and flags. -/
def Stmt.bares : List Stmt → List Stmt
  | [] => []
  | s :: ss => s.bare :: Stmt.bares ss

end

/-- The program without lines, call tokens and flags. -/
def Program.bare (p : Program) : Program := Stmt.bares p

/-! ## Trees -/

/-- A constant as a word or a string. -/
def Literal.tree : Literal → Sexp
  | number x => .word (Number.sexpr x)
  | string s => .quoted s
  | boolean true => .word Keyword.trueWord.spelling
  | boolean false => .word Keyword.falseWord.spelling
  | nil => .word Keyword.nilWord.spelling

mutual

/-- An expression as a tree. -/
def Expr.tree : Expr → Sexp
  | .binary left operator right => .list [.word operator.lexeme, left.tree, right.tree]
  | .unary operator right => .list [.word operator.lexeme, right.tree]
  | .grouping inner => .list [.word "group", inner.tree]
  | .literal value => value.tree
  | .name token => .word token.lexeme
  | .call callee _ arguments _ => .list (.word "call" :: callee.tree :: Expr.trees arguments)
  | .block body => .list (.word "block" :: Stmt.trees body)
  | .ifChain branches => .list (.word "if" :: Branch.trees branches)

/-- Expressions as trees. -/
def Expr.trees : List Expr → List Sexp
  | [] => []
  | e :: es => e.tree :: Expr.trees es

/-- A branch as a tree. -/
def Branch.tree : Branch → Sexp
  | .when condition body => .list [condition.tree, .list (.word "block" :: Stmt.trees body)]
  | .otherwise body => .list [.word "else", .list (.word "block" :: Stmt.trees body)]

/-- Branches as trees. -/
def Branch.trees : List Branch → List Sexp
  | [] => []
  | b :: bs => b.tree :: Branch.trees bs

/-- A statement as a tree. -/
def Stmt.tree : Stmt → Sexp
  | .expression value => .list [.word ";", value.tree]
  | .print value => .list [.word "print", value.tree]
  | .declare name initializer mutable =>
    .list (.word "let" :: (if mutable then [.word "mut"] else []) ++
      [.word name.lexeme, initializer.tree])
  | .function name parameters body =>
    .list [.word "func", .word name.lexeme, .list (parameters.map fun t => .word t.lexeme),
      .list (.word "block" :: Stmt.trees body)]
  | .assign name value => .list [.word "=", .word name.lexeme, value.tree]

/-- Statements as trees. -/
def Stmt.trees : List Stmt → List Sexp
  | [] => []
  | s :: ss => s.tree :: Stmt.trees ss

end

/-! ## Texts of trees -/

/-- Parts in parentheses are the text of the list of their trees. -/
theorem toList_parenthesized {parts : List String} {ts : List Sexp}
    (h : parts.map String.toList = ts.map Sexp.text) :
    (parenthesized parts).toList = (Sexp.list ts).text := by
  simp [parenthesized, Sexp.text, Sexp.texts_eq, String.toList_intercalate, h]

/-- A constant is written as the word or the string that its tree is. -/
theorem Literal.toList_sexpr (l : Literal) : l.sexpr.toList = l.tree.text := by
  cases l with
  | string s => simp [Literal.sexpr, Literal.tree, Sexp.text]
  | boolean b => cases b <;> rfl
  | number | nil => rfl

/-- So are the statements of a block behind its head. -/
theorem toList_block (ss : List Stmt)
    (h : (Stmt.sexprs ss).map String.toList = (Stmt.trees ss).map Sexp.text) :
    (parenthesized ("block" :: Stmt.sexprs ss)).toList =
      (Sexp.list (.word "block" :: Stmt.trees ss)).text :=
  toList_parenthesized (by simp [Sexp.text, h])

mutual

/-- An expression is written as its tree is. By induction on the expression, together with the
branches and statements in it. -/
theorem Expr.toList_sexpr : ∀ {e : Expr}, e.Spelled → e.sexpr.toList = e.tree.text
  | .binary l o r, ⟨hl, _, hr⟩ =>
    toList_parenthesized (by simp [Sexp.text, Expr.toList_sexpr hl, Expr.toList_sexpr hr])
  | .unary o r, ⟨_, hr⟩ => toList_parenthesized (by simp [Sexp.text, Expr.toList_sexpr hr])
  | .grouping e, he => toList_parenthesized (by simp [Sexp.text, Expr.toList_sexpr (e := e) he])
  | .literal l, _ => l.toList_sexpr
  | .name t, _ => rfl
  | .call c _ es _, ⟨hc, hes⟩ =>
    toList_parenthesized (by simp [Sexp.text, Expr.toList_sexpr hc, Expr.toList_sexprs hes])
  | .block ss, hss => toList_block ss (Stmt.toList_sexprs hss)
  | .ifChain bs, ⟨hne, hbs⟩ => by
    have hsexpr : (Expr.ifChain bs).sexpr = parenthesized ("if" :: Branch.sexprs bs) := by
      cases bs with
      | nil => exact absurd rfl hne
      | cons b bs => simp [Expr.sexpr, parenthesized, Branch.sexprs, ← String.append_assoc]
    rw [hsexpr]
    exact toList_parenthesized (by simp [Sexp.text, Branch.toList_sexprs hbs])

theorem Expr.toList_sexprs : ∀ {es : List Expr}, Expr.AllSpelled es →
    (Expr.sexprs es).map String.toList = (Expr.trees es).map Sexp.text
  | [], _ => rfl
  | e :: es, ⟨he, hes⟩ => by
    simp [Expr.sexprs, Expr.trees, Expr.toList_sexpr he, Expr.toList_sexprs hes]

theorem Branch.toList_sexpr : ∀ {b : Branch}, b.Spelled → b.sexpr.toList = b.tree.text
  | .when e ss, ⟨he, hss⟩ =>
    toList_parenthesized (by simp [Expr.toList_sexpr he, toList_block ss (Stmt.toList_sexprs hss)])
  | .otherwise ss, hss =>
    toList_parenthesized (by simp [toList_block ss (Stmt.toList_sexprs hss)])

theorem Branch.toList_sexprs : ∀ {bs : List Branch}, Branch.AllSpelled bs →
    (Branch.sexprs bs).map String.toList = (Branch.trees bs).map Sexp.text
  | [], _ => rfl
  | b :: bs, ⟨hb, hbs⟩ => by
    simp [Branch.sexprs, Branch.trees, Branch.toList_sexpr hb, Branch.toList_sexprs hbs]

theorem Stmt.toList_sexpr : ∀ {s : Stmt}, s.Spelled → s.sexpr.toList = s.tree.text
  | .expression e, he => toList_parenthesized (by simp [Sexp.text, Expr.toList_sexpr he])
  | .print e, he => toList_parenthesized (by simp [Sexp.text, Expr.toList_sexpr he])
  | .declare x e true, ⟨_, he⟩ => by
    -- what stands in front of the name is one part, but two words
    simp [Stmt.sexpr, Stmt.tree, parenthesized, Sexp.text, Sexp.texts, Expr.toList_sexpr he]
  | .declare x e false, ⟨_, he⟩ =>
    toList_parenthesized (by simp [Sexp.text, Expr.toList_sexpr he])
  | .function x ps ss, ⟨_, _, hss⟩ => by
    have hparameters : (parenthesized (ps.map Token.lexeme)).toList =
        (Sexp.list (ps.map fun t => .word t.lexeme)).text :=
      toList_parenthesized (by simp [Function.comp_def, Sexp.text])
    exact toList_parenthesized
      (by simp [hparameters, toList_block ss (Stmt.toList_sexprs hss)])
  | .assign x e, ⟨_, he⟩ => toList_parenthesized (by simp [Sexp.text, Expr.toList_sexpr he])

theorem Stmt.toList_sexprs : ∀ {ss : List Stmt}, Stmt.AllSpelled ss →
    (Stmt.sexprs ss).map String.toList = (Stmt.trees ss).map Sexp.text
  | [], _ => rfl
  | s :: ss, ⟨hs, hss⟩ => by
    simp [Stmt.sexprs, Stmt.trees, Stmt.toList_sexpr hs, Stmt.toList_sexprs hss]

end

/-! ## Words -/

/-- A name or a keyword. -/
def Kind.IsWord (k : Kind) : Prop := k = .identifier ∨ ∃ w, k = .keyword w

/-- A name or a keyword is not how a number is written. -/
theorem sexpr_ne_word {x : Float} (hx : Number.IsFinite x) {s : String} {k : Kind}
    (hs : Lexeme s.toList k) (hk : k.IsWord) : Number.sexpr x ≠ s := by
  obtain ⟨_, hdisplays⟩ := exists_displays_sexpr hx
  obtain ⟨c, cs, hcs, hc⟩ := hdisplays.leads
  rintro rfl
  rw [hcs] at hs
  obtain rfl | hdigit := hc
  · obtain ⟨_, rfl⟩ := hs.leads.of_punctuation ⟨rfl, by decide, rfl, rfl⟩
    obtain hk | ⟨_, hk⟩ := hk <;> cases hk
  · obtain ⟨_, rfl⟩ := hs.leads.of_digit hdigit
    obtain hk | ⟨_, hk⟩ := hk <;> cases hk

/-- Nor is it how `true`, `nil` or another keyword is written. -/
theorem sexpr_ne_keyword {x : Float} (hx : Number.IsFinite x) (w : Keyword) :
    Number.sexpr x ≠ w.spelling :=
  sexpr_ne_word hx (.keyword w) (.inr ⟨w, rfl⟩)

/-- Different constants are written differently. -/
theorem Literal.tree_inj {l m : Literal} (hl : l.Spelled) (hm : m.Spelled)
    (h : l.tree = m.tree) : l = m := by
  cases l with
  | number x =>
    cases m with
    | number y =>
      obtain ⟨_, hx⟩ := exists_displays_sexpr hl
      obtain ⟨_, hy⟩ := exists_displays_sexpr hm
      have htext : Number.sexpr x = Number.sexpr y := Sexp.word.inj h
      exact congrArg number (hx.eq (htext ▸ hy))
    | string => cases h
    | boolean b => cases b <;> exact absurd (Sexp.word.inj h) (sexpr_ne_keyword hl _)
    | nil => exact absurd (Sexp.word.inj h) (sexpr_ne_keyword hl _)
  | string s =>
    cases m with
    | string s' => rw [Sexp.quoted.inj h]
    | boolean b => cases b <;> cases h
    | number | nil => cases h
  | boolean b =>
    cases m with
    | number => cases b <;> exact absurd (Sexp.word.inj h).symm (sexpr_ne_keyword hm _)
    | string => cases b <;> cases h
    | boolean b' => cases b <;> cases b' <;> simp_all [Literal.tree, Keyword.spelling]
    | nil => cases b <;> simp [Literal.tree, Keyword.spelling] at h
  | nil =>
    cases m with
    | number => exact absurd (Sexp.word.inj h).symm (sexpr_ne_keyword hm _)
    | string => cases h
    | boolean b => cases b <;> simp [Literal.tree, Keyword.spelling] at h
    | nil => rfl

/-- A name is no constant. -/
theorem Literal.tree_ne_name {l : Literal} {t : Token} (hl : l.Spelled) (ht : t.IsName) :
    l.tree ≠ .word t.lexeme := by
  intro h
  cases l with
  | number x => exact sexpr_ne_word hl ht.1 (.inl ht.2) (Sexp.word.inj h)
  | string => cases h
  | boolean b => cases b <;> exact ht.ne_keyword _ (Sexp.word.inj h).symm
  | nil => exact ht.ne_keyword _ (Sexp.word.inj h).symm

/-- A token is told by its text, up to its line. -/
theorem Token.bare_eq {t u : Token} (ht : t.Spelled) (hu : u.Spelled)
    (h : t.lexeme = u.lexeme) : t.bare = u.bare := by
  have hkind : t.kind = u.kind := by
    unfold Token.Spelled at ht
    rw [h] at ht
    exact ht.kind_unique hu
  simp [Token.bare, hkind, h]

/-- Operators are made of characters of words, and are none of the words that head others. -/
theorem fixedText_operators : ∀ k ∈ Kind.operators,
    k.fixedText.toList ≠ [] ∧ k.fixedText.toList.all Sexp.isWordChar ∧
      k.fixedText ≠ "group" ∧ k.fixedText ≠ "call" ∧ k.fixedText ≠ "block" ∧
      k.fixedText ≠ "if" := by
  decide +kernel

/-! ## Trees are well formed -/

/-- A word that is not empty and has no separators can be read back. -/
theorem wellFormed_word (s : String) (h : s.toList ≠ [] ∧ s.toList.all Sexp.isWordChar) :
    (Sexp.word s).WellFormed :=
  .word h.1 (List.all_eq_true.1 h.2)

/-- Operators are words. -/
theorem Token.IsOperator.wellFormed {t : Token} (h : t.IsOperator) :
    (Sexp.word t.lexeme).WellFormed := by
  obtain ⟨hne, hchars, -⟩ := fixedText_operators t.kind h.2
  rw [h.lexeme_eq]
  exact wellFormed_word _ ⟨hne, hchars⟩

/-- Names are words, because they are made of letters, digits and underscores. -/
theorem Token.IsName.wellFormed {t : Token} (h : t.IsName) :
    (Sexp.word t.lexeme).WellFormed := by
  have hlexeme := h.1
  rw [Token.Spelled, h.2] at hlexeme
  obtain ⟨c, cs, hcs⟩ := List.exists_cons_of_ne_nil hlexeme.ne_nil
  rw [hcs] at hlexeme
  have hchars := hlexeme.of_nameStart hlexeme.leads
  rw [← hcs] at hchars
  exact .word (hcs ▸ List.cons_ne_nil _ _) fun d hd => Sexp.isWordChar_of (by decide) (hchars d hd)

/-- Constants are words or strings. -/
theorem Literal.wellFormed_tree {l : Literal} (h : l.Spelled) : l.tree.WellFormed := by
  cases l with
  | number x =>
    obtain ⟨_, hdisplays⟩ := exists_displays_sexpr h
    obtain ⟨hne, hchars⟩ := hdisplays.isNumeralChar
    exact .word hne fun c hc => Sexp.isWordChar_of (by decide) (hchars c hc)
  | string s => exact .quoted h
  | boolean b => cases b <;> exact wellFormed_word _ (by decide)
  | nil => exact wellFormed_word _ (by decide)

mutual

/-- The tree of a spelled expression is well formed. By induction as above. -/
theorem Expr.wellFormed_tree : ∀ {e : Expr}, e.Spelled → e.tree.WellFormed
  | .binary l o r, ⟨hl, ho, hr⟩ =>
    .list (by simp [ho.wellFormed, Expr.wellFormed_tree hl, Expr.wellFormed_tree hr])
  | .unary o r, ⟨ho, hr⟩ => .list (by simp [ho.wellFormed, Expr.wellFormed_tree hr])
  | .grouping e, he =>
    .list (by simp [wellFormed_word "group" (by decide), Expr.wellFormed_tree (e := e) he])
  | .literal l, hl => Literal.wellFormed_tree (l := l) hl
  | .name t, ht => Token.IsName.wellFormed (t := t) ht
  | .call c _ es _, ⟨hc, hes⟩ =>
    .list (List.forall_mem_cons.2 ⟨wellFormed_word "call" (by decide),
      List.forall_mem_cons.2 ⟨Expr.wellFormed_tree hc, Expr.wellFormed_trees hes⟩⟩)
  | .block ss, hss => Stmt.wellFormed_block ss hss
  | .ifChain bs, ⟨_, hbs⟩ =>
    .list (List.forall_mem_cons.2 ⟨wellFormed_word "if" (by decide), Branch.wellFormed_trees hbs⟩)

theorem Expr.wellFormed_trees : ∀ {es : List Expr}, Expr.AllSpelled es →
    ∀ t ∈ Expr.trees es, t.WellFormed
  | [], _ => by simp [Expr.trees]
  | _ :: _, ⟨he, hes⟩ =>
    List.forall_mem_cons.2 ⟨Expr.wellFormed_tree he, Expr.wellFormed_trees hes⟩

theorem Branch.wellFormed_tree : ∀ {b : Branch}, b.Spelled → b.tree.WellFormed
  | .when _ ss, ⟨he, hss⟩ =>
    .list (by simp [Expr.wellFormed_tree he, Stmt.wellFormed_block ss hss])
  | .otherwise ss, hss =>
    .list (by simp [wellFormed_word "else" (by decide), Stmt.wellFormed_block ss hss])

theorem Branch.wellFormed_trees : ∀ {bs : List Branch}, Branch.AllSpelled bs →
    ∀ t ∈ Branch.trees bs, t.WellFormed
  | [], _ => by simp [Branch.trees]
  | _ :: _, ⟨hb, hbs⟩ =>
    List.forall_mem_cons.2 ⟨Branch.wellFormed_tree hb, Branch.wellFormed_trees hbs⟩

theorem Stmt.wellFormed_tree : ∀ {s : Stmt}, s.Spelled → s.tree.WellFormed
  | .expression _, he =>
    .list (by simp [wellFormed_word ";" (by decide), Expr.wellFormed_tree he])
  | .print _, he => .list (by simp [wellFormed_word "print" (by decide), Expr.wellFormed_tree he])
  | .declare _ _ true, ⟨hx, he⟩ =>
    .list (by
      simp [wellFormed_word "let" (by decide), wellFormed_word "mut" (by decide), hx.wellFormed,
        Expr.wellFormed_tree he])
  | .declare _ _ false, ⟨hx, he⟩ =>
    .list (by simp [wellFormed_word "let" (by decide), hx.wellFormed, Expr.wellFormed_tree he])
  | .function _ ps ss, ⟨hx, hps, hss⟩ => by
    have hparameters : (Sexp.list (ps.map fun t => .word t.lexeme)).WellFormed :=
      .list (by simpa using fun t ht => (hps t ht).wellFormed)
    exact .list (by
      simp [wellFormed_word "func" (by decide), hx.wellFormed, hparameters,
        Stmt.wellFormed_block ss hss])
  | .assign _ _, ⟨hx, he⟩ =>
    .list (by simp [wellFormed_word "=" (by decide), hx.wellFormed, Expr.wellFormed_tree he])

theorem Stmt.wellFormed_block : ∀ (ss : List Stmt), Stmt.AllSpelled ss →
    (Sexp.list (.word "block" :: Stmt.trees ss)).WellFormed
  | ss, hss =>
    .list (List.forall_mem_cons.2 ⟨wellFormed_word "block" (by decide), Stmt.wellFormed_trees hss⟩)

theorem Stmt.wellFormed_trees : ∀ {ss : List Stmt}, Stmt.AllSpelled ss →
    ∀ t ∈ Stmt.trees ss, t.WellFormed
  | [], _ => by simp [Stmt.trees]
  | _ :: _, ⟨hs, hss⟩ =>
    List.forall_mem_cons.2 ⟨Stmt.wellFormed_tree hs, Stmt.wellFormed_trees hss⟩

end

/-! ## Kinds of expressions -/

/-- What the head of a tree tells. -/
inductive Expr.Shape where
  | leaf | binary | unary | grouping | call | block | ifChain

/-- The kind of an expression, constants and names being one. -/
def Expr.shape : Expr → Expr.Shape
  | .literal _ | .name _ => .leaf
  | .binary .. => .binary
  | .unary .. => .unary
  | .grouping _ => .grouping
  | .call .. => .call
  | .block _ => .block
  | .ifChain _ => .ifChain

/-- The kind of the expression that a tree is of. -/
def Sexp.shape : Sexp → Expr.Shape
  | .list (.word head :: rest) =>
    if head = "group" then .grouping
    else if head = "call" then .call
    else if head = "block" then .block
    else if head = "if" then .ifChain
    else if rest.length = 1 then .unary
    else .binary
  | _ => .leaf

/-- Where an operator heads a tree, the number of operands tells whether it stands in front or
between. -/
theorem Token.IsOperator.shape {t : Token} (h : t.IsOperator) (rest : List Sexp) :
    (Sexp.list (.word t.lexeme :: rest)).shape = if rest.length = 1 then .unary else .binary := by
  obtain ⟨-, -, hgroup, hcall, hblock, hif⟩ := fixedText_operators t.kind h.2
  rw [h.lexeme_eq, Sexp.shape, if_neg hgroup, if_neg hcall, if_neg hblock, if_neg hif]

/-- A tree tells what kind of expression it is of. -/
theorem Expr.shape_tree {e : Expr} (h : e.Spelled) : e.tree.shape = e.shape := by
  cases e with
  | binary l o r => exact h.2.1.shape _
  | unary o r => exact h.1.shape _
  | literal l =>
    cases l with
    | boolean b => cases b <;> rfl
    | _ => rfl
  | _ => rfl

/-- Expressions with one tree are of one kind. -/
theorem Expr.shape_eq {e f : Expr} (he : e.Spelled) (hf : f.Spelled) (h : e.tree = f.tree) :
    f.shape = e.shape := by
  rw [← shape_tree he, ← shape_tree hf, h]

/-- A constant and a name are never written alike, nor are two constants or two names. -/
theorem Expr.leaf_inj {e f : Expr} (he : e.Spelled) (hf : f.Spelled) (hshape : e.shape = .leaf)
    (hshape' : f.shape = .leaf) (h : e.tree = f.tree) : e.bare = f.bare := by
  cases e with
  | literal l =>
    cases f with
    | literal m => rw [Literal.tree_inj he hf h]
    | name t => exact absurd h (Literal.tree_ne_name he hf)
    | _ => cases hshape'
  | name t =>
    cases f with
    | literal m => exact absurd h.symm (Literal.tree_ne_name hf he)
    | name u => exact congrArg Expr.name (Token.bare_eq he.1 hf.1 (Sexp.word.inj h))
    | _ => cases hshape'
  | _ => cases hshape

/-- No expression is written as the head of the last branch. -/
theorem Expr.tree_ne_else {e : Expr} (h : e.Spelled) : e.tree ≠ .word "else" := by
  intro htree
  cases e with
  | literal l =>
    cases l with
    | number x => exact sexpr_ne_keyword h .elseWord (Sexp.word.inj htree)
    | string s => cases htree
    | boolean b => cases b <;> simp [Expr.tree, Literal.tree, Keyword.spelling] at htree
    | nil => simp [Expr.tree, Literal.tree, Keyword.spelling] at htree
  | name t => exact h.ne_keyword .elseWord (Sexp.word.inj htree)
  | _ => cases htree

/-! ## Trees tell the programs -/

/-- Parameters are told by their words. -/
theorem names_inj {ps qs : List Token} (hps : ∀ t ∈ ps, t.IsName) (hqs : ∀ t ∈ qs, t.IsName)
    (h : ps.map (fun t => Sexp.word t.lexeme) = qs.map fun t => Sexp.word t.lexeme) :
    ps.map Token.bare = qs.map Token.bare := by
  induction ps generalizing qs with
  | nil => cases qs <;> simp_all
  | cons p ps ih =>
    cases qs with
    | nil => simp at h
    | cons q qs =>
      rw [List.forall_mem_cons] at hps hqs
      simp only [List.map_cons, List.cons.injEq, Sexp.word.injEq] at h ⊢
      exact ⟨Token.bare_eq hps.1.1 hqs.1.1 h.1, ih hps.2 hqs.2 h.2⟩

mutual

/-- Two spelled expressions with one tree differ at most in what it does not show. By induction on
the first; the second is of the same kind, since the tree has one head. -/
theorem Expr.bare_eq_of_tree_eq : ∀ {e f : Expr}, e.Spelled → f.Spelled → e.tree = f.tree →
    e.bare = f.bare
  | .binary l o r, f, he, hf, h => by
    -- trees with one head are of one kind, so the same constructor is all that is left
    have hshape := Expr.shape_eq he hf h
    cases f <;> cases hshape
    simp only [Expr.tree, Sexp.list.injEq, List.cons.injEq, Sexp.word.injEq, and_true] at h
    obtain ⟨ho, hl, hr⟩ := h
    rw [Expr.bare, Expr.bare, Expr.bare_eq_of_tree_eq he.1 hf.1 hl,
      Token.bare_eq he.2.1.1 hf.2.1.1 ho, Expr.bare_eq_of_tree_eq he.2.2 hf.2.2 hr]
  | .unary o r, f, he, hf, h => by
    have hshape := Expr.shape_eq he hf h
    cases f <;> cases hshape
    simp only [Expr.tree, Sexp.list.injEq, List.cons.injEq, Sexp.word.injEq, and_true] at h
    rw [Expr.bare, Expr.bare, Token.bare_eq he.1.1 hf.1.1 h.1,
      Expr.bare_eq_of_tree_eq he.2 hf.2 h.2]
  | .grouping e, f, he, hf, h => by
    have hshape := Expr.shape_eq he hf h
    cases f <;> cases hshape
    rename_i inner
    simp only [Expr.tree, Sexp.list.injEq, List.cons.injEq, true_and, and_true] at h
    rw [Expr.bare, Expr.bare, Expr.bare_eq_of_tree_eq (e := e) (f := inner) he hf h]
  | .literal l, f, he, hf, h => Expr.leaf_inj he hf rfl (Expr.shape_eq he hf h) h
  | .name t, f, he, hf, h => Expr.leaf_inj he hf rfl (Expr.shape_eq he hf h) h
  | .call c t es p, f, he, hf, h => by
    have hshape := Expr.shape_eq he hf h
    cases f <;> cases hshape
    simp only [Expr.tree, Sexp.list.injEq, List.cons.injEq, true_and] at h
    rw [Expr.bare, Expr.bare, Expr.bare_eq_of_tree_eq he.1 hf.1 h.1,
      Expr.bares_eq_of_trees_eq he.2 hf.2 h.2]
  | .block ss, f, he, hf, h => by
    have hshape := Expr.shape_eq he hf h
    cases f <;> cases hshape
    simp only [Expr.tree, Sexp.list.injEq, List.cons.injEq, true_and] at h
    rw [Expr.bare, Expr.bare, Stmt.bares_eq_of_trees_eq he hf h]
  | .ifChain bs, f, he, hf, h => by
    have hshape := Expr.shape_eq he hf h
    cases f <;> cases hshape
    simp only [Expr.tree, Sexp.list.injEq, List.cons.injEq, true_and] at h
    rw [Expr.bare, Expr.bare, Branch.bares_eq_of_trees_eq he.2 hf.2 h]

theorem Expr.bares_eq_of_trees_eq : ∀ {es fs : List Expr}, Expr.AllSpelled es →
    Expr.AllSpelled fs → Expr.trees es = Expr.trees fs → Expr.bares es = Expr.bares fs
  | [], fs, _, _, h => by
    cases fs <;> simp [Expr.trees] at h
    rfl
  | e :: es, fs, hes, hfs, h => by
    cases fs <;> simp [Expr.trees] at h
    rw [Expr.bares, Expr.bares, Expr.bare_eq_of_tree_eq hes.1 hfs.1 h.1,
      Expr.bares_eq_of_trees_eq hes.2 hfs.2 h.2]

theorem Branch.bare_eq_of_tree_eq : ∀ {b c : Branch}, b.Spelled → c.Spelled → b.tree = c.tree →
    b.bare = c.bare
  | .when e ss, c, hb, hc, h => by
    cases c <;> simp [Branch.tree] at h
    · rw [Branch.bare, Branch.bare, Expr.bare_eq_of_tree_eq hb.1 hc.1 h.1,
        Stmt.bares_eq_of_trees_eq hb.2 hc.2 h.2]
    · exact absurd h.1 (Expr.tree_ne_else hb.1)
  | .otherwise ss, c, hb, hc, h => by
    cases c <;> simp [Branch.tree] at h
    · exact absurd h.1.symm (Expr.tree_ne_else hc.1)
    · rw [Branch.bare, Branch.bare, Stmt.bares_eq_of_trees_eq hb hc h]

theorem Branch.bares_eq_of_trees_eq : ∀ {bs cs : List Branch}, Branch.AllSpelled bs →
    Branch.AllSpelled cs → Branch.trees bs = Branch.trees cs → Branch.bares bs = Branch.bares cs
  | [], cs, _, _, h => by
    cases cs <;> simp [Branch.trees] at h
    rfl
  | b :: bs, cs, hbs, hcs, h => by
    cases cs <;> simp [Branch.trees] at h
    rw [Branch.bares, Branch.bares, Branch.bare_eq_of_tree_eq hbs.1 hcs.1 h.1,
      Branch.bares_eq_of_trees_eq hbs.2 hcs.2 h.2]

theorem Stmt.bare_eq_of_tree_eq : ∀ {s t : Stmt}, s.Spelled → t.Spelled → s.tree = t.tree →
    s.bare = t.bare
  | .expression e, t, hs, ht, h => by
    cases t <;> simp [Stmt.tree] at h
    rw [Stmt.bare, Stmt.bare, Expr.bare_eq_of_tree_eq (e := e) hs ht h]
  | .print e, t, hs, ht, h => by
    cases t <;> simp [Stmt.tree] at h
    rw [Stmt.bare, Stmt.bare, Expr.bare_eq_of_tree_eq (e := e) hs ht h]
  | .declare x e m, t, hs, ht, h => by
    cases t <;> simp [Stmt.tree] at h
    rename_i x' e' m'
    have hparts : m = m' ∧ x.lexeme = x'.lexeme ∧ e.tree = e'.tree := by
      cases m <;> cases m' <;> simp at h <;> simp [h]
    obtain ⟨rfl, hx, he⟩ := hparts
    rw [Stmt.bare, Stmt.bare, Token.bare_eq hs.1.1 ht.1.1 hx, Expr.bare_eq_of_tree_eq hs.2 ht.2 he]
  | .function x ps ss, t, hs, ht, h => by
    cases t <;> simp [Stmt.tree] at h
    obtain ⟨hx, hps, hss⟩ := h
    rw [Stmt.bare, Stmt.bare, Token.bare_eq hs.1.1 ht.1.1 hx, names_inj hs.2.1 ht.2.1 hps,
      Stmt.bares_eq_of_trees_eq hs.2.2 ht.2.2 hss]
  | .assign x e, t, hs, ht, h => by
    cases t <;> simp [Stmt.tree] at h
    rw [Stmt.bare, Stmt.bare, Token.bare_eq hs.1.1 ht.1.1 h.1,
      Expr.bare_eq_of_tree_eq hs.2 ht.2 h.2]

theorem Stmt.bares_eq_of_trees_eq : ∀ {ss ts : List Stmt}, Stmt.AllSpelled ss →
    Stmt.AllSpelled ts → Stmt.trees ss = Stmt.trees ts → Stmt.bares ss = Stmt.bares ts
  | [], ts, _, _, h => by
    cases ts <;> simp [Stmt.trees] at h
    rfl
  | s :: ss, ts, hss, hts, h => by
    cases ts <;> simp [Stmt.trees] at h
    rw [Stmt.bares, Stmt.bares, Stmt.bare_eq_of_tree_eq hss.1 hts.1 h.1,
      Stmt.bares_eq_of_trees_eq hss.2 hts.2 h.2]

end

/-! ## What is not shown -/

@[simp] theorem Token.lexeme_bare (t : Token) : t.bare.lexeme = t.lexeme := rfl

mutual

/-- The text does not show what `bare` takes away. -/
theorem Expr.sexpr_bare : ∀ e : Expr, e.bare.sexpr = e.sexpr
  | .binary l o r => by simp [Expr.bare, Expr.sexpr, Expr.sexpr_bare l, Expr.sexpr_bare r]
  | .unary o r => by simp [Expr.bare, Expr.sexpr, Expr.sexpr_bare r]
  | .grouping e => by simp [Expr.bare, Expr.sexpr, Expr.sexpr_bare e]
  | .literal l => rfl
  | .name t => rfl
  | .call c t es p => by simp [Expr.bare, Expr.sexpr, Expr.sexpr_bare c, Expr.sexprs_bares es]
  | .block ss => by simp [Expr.bare, Expr.sexpr, Stmt.sexprs_bares ss]
  | .ifChain bs => by simp [Expr.bare, Expr.sexpr, Branch.sexprs_bares bs]

theorem Expr.sexprs_bares : ∀ es : List Expr, Expr.sexprs (Expr.bares es) = Expr.sexprs es
  | [] => rfl
  | e :: es => by simp [Expr.bares, Expr.sexprs, Expr.sexpr_bare e, Expr.sexprs_bares es]

theorem Branch.sexpr_bare : ∀ b : Branch, b.bare.sexpr = b.sexpr
  | .when e ss => by simp [Branch.bare, Branch.sexpr, Expr.sexpr_bare e, Stmt.sexprs_bares ss]
  | .otherwise ss => by simp [Branch.bare, Branch.sexpr, Stmt.sexprs_bares ss]

theorem Branch.sexprs_bares : ∀ bs : List Branch,
    Branch.sexprs (Branch.bares bs) = Branch.sexprs bs
  | [] => rfl
  | b :: bs => by simp [Branch.bares, Branch.sexprs, Branch.sexpr_bare b, Branch.sexprs_bares bs]

theorem Stmt.sexpr_bare : ∀ s : Stmt, s.bare.sexpr = s.sexpr
  | .expression e | .print e => by simp [Stmt.bare, Stmt.sexpr, Expr.sexpr_bare e]
  | .declare x e m => by simp [Stmt.bare, Stmt.sexpr, Expr.sexpr_bare e]
  | .function x ps ss => by
    simp [Stmt.bare, Stmt.sexpr, Stmt.sexprs_bares ss, Function.comp_def]
  | .assign x e => by simp [Stmt.bare, Stmt.sexpr, Expr.sexpr_bare e]

theorem Stmt.sexprs_bares : ∀ ss : List Stmt, Stmt.sexprs (Stmt.bares ss) = Stmt.sexprs ss
  | [] => rfl
  | s :: ss => by simp [Stmt.bares, Stmt.sexprs, Stmt.sexpr_bare s, Stmt.sexprs_bares ss]

end

/-! ## Texts of programs -/

/-- A program is written statement by statement, one on a line. -/
theorem Program.toList_sexpr {p : Program} (hp : Stmt.AllSpelled p) :
    (Program.sexpr p).toList = ['\n'].intercalate ((Stmt.trees p).map Sexp.text) := by
  simp [Program.sexpr, String.toList_intercalate, Stmt.toList_sexprs hp]

/-- The text of a spelled program tells all but lines, call tokens and flags, and nothing of
these. -/
theorem Program.sexpr_eq_iff_of_spelled {p q : Program} (hp : Stmt.AllSpelled p)
    (hq : Stmt.AllSpelled q) :
    Program.sexpr p = Program.sexpr q ↔ Program.bare p = Program.bare q := by
  constructor
  · intro h
    refine Stmt.bares_eq_of_trees_eq hp hq (Sexp.eq_of_lines_eq (Stmt.wellFormed_trees hp)
      (Stmt.wellFormed_trees hq) ?_)
    rw [← Program.toList_sexpr hp, ← Program.toList_sexpr hq, h]
  · intro h
    have hsexprs : Stmt.sexprs p = Stmt.sexprs q := by
      rw [← Stmt.sexprs_bares p, ← Stmt.sexprs_bares q]
      exact congrArg Stmt.sexprs h
    rw [Program.sexpr, Program.sexpr, hsexprs]

end PipeLang
