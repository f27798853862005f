import PipeLang.Proofs.Interpreter.Similar
import PipeLang.Proofs.Syntax.Writing

/-!
# The parser does not look at lines

From two lists of tokens that differ in their lines only, every rule reads similar trees, or
fails for the same cause at the same place (`Rule.alike`). So the lists are both programs,
similar to one another, or neither is, and then the same is wrong at related tokens
(`parse_alike`).

There is one lemma for each function of the parser, and `Rule.induction` puts them together,
as it does for soundness.
-/

namespace PipeLang

/-- The same cause, at related tokens. -/
structure SyntaxError.Similar (T : Token → Token → Prop) (e f : SyntaxError) : Prop where
  cause_eq : f.cause = e.cause
  token : T e.token f.token

namespace Parser

/-! ## Related results -/

section

variable (T : Token → Token → Prop)

/-- The same cause, with related tokens left. -/
structure Failure.Similar (f g : Failure) : Prop where
  cause_eq : g.cause = f.cause
  rest : List.Forall₂ T f.rest g.rest

/-- Related trees with related tokens behind them. -/
structure Both {α β : Type} (Q : α → β → Prop) (p : α × List Token) (q : β × List Token) :
    Prop where
  tree : Q p.1 q.1
  rest : List.Forall₂ T p.2 q.2

/-- Rules that differ in tokens only, and how what they read is related. -/
inductive Rule.Similar : (r r' : Rule) → (r.Tree → r'.Tree → Prop) → Prop where
  | program : Rule.Similar .program .program (Stmt.AllSimilar T)
  | statement : Rule.Similar .statement .statement (Stmt.Similar T)
  | parameters : Rule.Similar .parameters .parameters (List.Forall₂ T)
  | parameterList : Rule.Similar .parameterList .parameterList (List.Forall₂ T)
  | block (cause : SyntaxCause) :
    Rule.Similar (.block cause) (.block cause) (Stmt.AllSimilar T)
  | statements : Rule.Similar .statements .statements (Stmt.AllSimilar T)
  | expression : Rule.Similar .expression .expression (Expr.Similar T)
  | pipes {v v' : Expr} : v.Similar T v' →
    Rule.Similar (.pipes v) (.pipes v') (Expr.Similar T)
  | stage : Rule.Similar .stage .stage (Expr.Similar T)
  | branches : Rule.Similar .branches .branches (Branch.AllSimilar T)
  | tier (t : Tier) : Rule.Similar (.tier t) (.tier t) (Expr.Similar T)
  | operand (t : Tier) : Rule.Similar (.operand t) (.operand t) (Expr.Similar T)
  | operators (t : Tier) {l l' : Expr} : l.Similar T l' →
    Rule.Similar (.operators t l) (.operators t l') (Expr.Similar T)
  | unary : Rule.Similar .unary .unary (Expr.Similar T)
  | call : Rule.Similar .call .call (Expr.Similar T)
  | calls {c c' : Expr} : c.Similar T c' →
    Rule.Similar (.calls c) (.calls c') (Expr.Similar T)
  | arguments : Rule.Similar .arguments .arguments (Expr.AllSimilar T)
  | argumentList : Rule.Similar .argumentList .argumentList (Expr.AllSimilar T)
  | primary : Rule.Similar .primary .primary (Expr.Similar T)

/-- From related tokens, similar rules read the same or fail alike. -/
def Alike (r : Rule) (ts : List Token) : Prop :=
  ∀ {r' : Rule} {Q : r.Tree → r'.Tree → Prop} {ts' : List Token}, Rule.Similar T r r' Q →
    List.Forall₂ T ts ts' → Agree (Failure.Similar T) (Both T Q) (r.run ts) (r'.run ts')

/-- Every rule does on shorter lists. -/
def AlikeBelow (ts : List Token) : Prop := ∀ r us, us.length < ts.length → Alike T r us

end

section

variable {ε ε' α β γ δ : Type} {E : ε → ε' → Prop}

theorem agree_map {R : γ → δ → Prop} {x : Except ε α} {y : Except ε' β} {f : α → γ}
    {g : β → δ} :
    Agree E R (x.map f) (y.map g) ↔ Agree E (fun a b => R (f a) (g b)) x y := by
  constructor
  · intro h
    cases x <;> cases y <;> cases h <;> constructor <;> assumption
  · rintro (h | h)
    · exact .ok h
    · exact .error h

/-- Steps that agree, and then steps that agree from related results. -/
theorem agree_bind {Q : α → β → Prop} {R : γ → δ → Prop} {x : Except ε α} {y : Except ε' β}
    {f : α → Except ε γ} {g : β → Except ε' δ} (hxy : Agree E Q x y)
    (hfg : ∀ a b, Q a b → Agree E R (f a) (g b)) : Agree E R (x >>= f) (y >>= g) := by
  cases hxy with
  | ok h => exact hfg _ _ h
  | error h => exact .error h

end

section

variable {α β γ δ : Type} {T : Token → Token → Prop} {ts ts' : List Token}
  {Q : α → β → Prop} {R : γ → δ → Prop}

/-- The same for steps that read tokens : what is left is related too. -/
theorem agree_bindParsed {x : Except Failure (Parsed α ts)} {y : Except Failure (Parsed β ts')}
    {f : Parsed α ts → Except Failure γ} {g : Parsed β ts' → Except Failure δ}
    (hxy : Agree (Failure.Similar T) (Both T Q) (x.map Parsed.pair) (y.map Parsed.pair))
    (hfg : ∀ a us (h : us.length < ts.length) b vs (h' : vs.length < ts'.length), Q a b →
      List.Forall₂ T us vs → Agree (Failure.Similar T) R (f ⟨a, us, h⟩) (g ⟨b, vs, h'⟩)) :
    Agree (Failure.Similar T) R (x >>= f) (y >>= g) :=
  agree_bind (agree_map.1 hxy) fun p q hpq =>
    hfg p.value p.rest p.shorter q.value q.rest q.shorter hpq.tree hpq.rest

theorem agree_bindContinued {x : Except Failure (Continued α ts)}
    {y : Except Failure (Continued β ts')} {f : Continued α ts → Except Failure γ}
    {g : Continued β ts' → Except Failure δ}
    (hxy : Agree (Failure.Similar T) (Both T Q) (x.map Continued.pair) (y.map Continued.pair))
    (hfg : ∀ a us (h : us.length ≤ ts.length) b vs (h' : vs.length ≤ ts'.length), Q a b →
      List.Forall₂ T us vs → Agree (Failure.Similar T) R (f ⟨a, us, h⟩) (g ⟨b, vs, h'⟩)) :
    Agree (Failure.Similar T) R (x >>= f) (y >>= g) :=
  agree_bind (agree_map.1 hxy) fun p q hpq =>
    hfg p.value p.rest p.noLonger q.value q.rest q.noLonger hpq.tree hpq.rest

end

/-! ## Single tokens -/

section

variable {T : Token → Token → Prop} (hT : LinesOnly T) {ts ts' us : List Token}

include hT

/-- The first token on the other side is of the same kind, with the same text. -/
theorem forall₂_first {kind : Kind} {lexeme : String} {line : Nat}
    (h : List.Forall₂ T (⟨kind, lexeme, line⟩ :: us) ts') :
    ∃ line' us', ts' = ⟨kind, lexeme, line'⟩ :: us' ∧
      T ⟨kind, lexeme, line⟩ ⟨kind, lexeme, line'⟩ ∧ List.Forall₂ T us us' := by
  obtain ⟨⟨kind', lexeme', line'⟩, us', ht, hus, rfl⟩ := List.forall₂_cons_left_iff.1 h
  obtain rfl : kind' = kind := hT.kind_eq ht
  obtain rfl : lexeme' = lexeme := hT.lexeme_eq ht
  exact ⟨line', us', rfl, ht, hus⟩

/-- What does not start on one side does not start on the other. -/
theorem not_first {kind : Kind} (h : List.Forall₂ T ts ts')
    (hno : ∀ lexeme line us, ts = ⟨kind, lexeme, line⟩ :: us → False) :
    ∀ lexeme line us, ts' = ⟨kind, lexeme, line⟩ :: us → False := by
  rintro lexeme line us rfl
  obtain ⟨⟨kind', lexeme', line'⟩, us', ht, hus, rfl⟩ := List.forall₂_cons_right_iff.1 h
  obtain rfl : kind = kind' := hT.kind_eq ht
  exact hno lexeme' line' us' rfl

/-- Nor do two tokens come first on one side alone. -/
theorem not_first_two {kind kind' : Kind} (h : List.Forall₂ T ts ts')
    (hno : ∀ lexeme line lexeme' line' us,
      ts = ⟨kind, lexeme, line⟩ :: ⟨kind', lexeme', line'⟩ :: us → False) :
    ∀ lexeme line lexeme' line' us,
      ts' = ⟨kind, lexeme, line⟩ :: ⟨kind', lexeme', line'⟩ :: us → False := by
  rintro lexeme line lexeme' line' us rfl
  obtain ⟨⟨k, l, n⟩, us', ht, hus, rfl⟩ := List.forall₂_cons_right_iff.1 h
  obtain ⟨⟨k', l', n'⟩, us', ht', hus, rfl⟩ := List.forall₂_cons_right_iff.1 hus
  obtain rfl : kind = k := hT.kind_eq ht
  obtain rfl : kind' = k' := hT.kind_eq ht'
  exact hno l n l' n' us' rfl

/-- A symbol is found on both sides or missed on both. -/
theorem alike_expect (s : Symbol) (cause : SyntaxCause) (h : List.Forall₂ T ts ts') :
    Agree (Failure.Similar T) (Both T T) ((expect s cause ts).map Parsed.pair)
      ((expect s cause ts').map Parsed.pair) := by
  refine agree_map.2 ?_
  cases h with
  | nil => exact .error ⟨rfl, .nil⟩
  | cons ht hus =>
    unfold expect
    dsimp only
    rw [hT.kind_eq ht]
    split
    · exact .ok ⟨ht, hus⟩
    · exact .error ⟨rfl, .cons ht hus⟩

/-- And so is a name. -/
theorem alike_expectName (cause : SyntaxCause) (h : List.Forall₂ T ts ts') :
    Agree (Failure.Similar T) (Both T T) ((expectName cause ts).map Parsed.pair)
      ((expectName cause ts').map Parsed.pair) := by
  refine agree_map.2 ?_
  cases h with
  | nil => exact .error ⟨rfl, .nil⟩
  | cons ht hus =>
    unfold expectName
    dsimp only
    rw [hT.kind_eq ht]
    split
    · exact .ok ⟨ht, hus⟩
    · exact .error ⟨rfl, .cons ht hus⟩

/-- An optional word is there on both sides or on neither. -/
theorem alike_mutWord? {us : List Token} {mutable : Bool} {hle : us.length ≤ ts.length}
    (h : List.Forall₂ T ts ts') (hm : mutWord? ts = ⟨mutable, us, hle⟩) :
    ∃ us' hle', mutWord? ts' = ⟨mutable, us', hle'⟩ ∧ List.Forall₂ T us us' := by
  unfold mutWord? at hm
  split at hm
  · cases hm
    obtain ⟨line', us', rfl, -, hus⟩ := forall₂_first hT h
    exact ⟨us', _, rfl, hus⟩
  · next hno =>
    cases hm
    refine ⟨ts', Nat.le_refl _, ?_, h⟩
    rw [mutWord?]
    exact not_first hT h hno

end

/-! ## One rule after the other -/

/-- Into a call the piped expression goes as an argument, on both sides alike. -/
theorem pipeInto_similar {T : Token → Token → Prop} {v v' : Expr} {p p' : Token}
    (hv : v.Similar T v') (hp : T p p') {e e' : Expr} (he : e.Similar T e') :
    (pipeInto v p e).Similar T (pipeInto v' p' e') := by
  fun_induction pipeInto v p e generalizing e' with
  | case1 callee token arguments piped outer others flag ih =>
    cases he with
    | call _ hcall houter hothers =>
      have hinner := ih hcall
      cases hcall with
      | call _ hcallee htoken hes =>
        rw [pipeInto]
        exact .call flag hinner houter hothers
  | case2 callee token arguments flag hno =>
    cases he with
    | call _ hcallee htoken hes =>
      rw [pipeInto]
      · exact .call true hcallee htoken (.cons hv hes)
      · rintro callee' token' arguments' piped' rfl
        cases hcallee with
        | call _ _ _ _ => exact hno _ _ _ _ rfl
  | case3 e _ hno =>
    have hother : ∀ callee token arguments piped,
        e' = .call callee token arguments piped → False := by
      rintro callee token arguments piped rfl
      cases he with
      | call _ _ _ _ => exact hno _ _ _ _ rfl
    rw [pipeInto]
    · exact .call true he hp (.cons hv .nil)
    · exact fun callee token arguments piped outer others flag => hother _ _ _ _
    · exact hother

section

variable {T : Token → Token → Prop} (hT : LinesOnly T) {ts : List Token}

include hT

/-- The same first tokens decide between the same five ways to begin a statement. -/
theorem alike_statement (below : AlikeBelow T ts) (here : Alike T .expression ts) :
    Alike T .statement ts := by
  intro r' Q ts' hr h
  cases hr
  refine agree_map.2 (statement.fun_cases_unfolding (fun ts x =>
    AlikeBelow T ts → Alike T .expression ts → List.Forall₂ T ts ts' →
      Agree (Failure.Similar T) (fun p q => Both T (Stmt.Similar T) p.pair q.pair) x
        (statement ts')) ?_ ?_ ?_ ?_ ?_ ts below here h)
  · intro lexeme line us below _ h
    obtain ⟨line', us', rfl, -, hus⟩ := forall₂_first hT h
    rw [statement]
    refine agree_bindParsed (below .expression us (by simp) .expression hus) ?_
    intro e vs _ e' vs' _ he hvs
    refine agree_bindParsed (alike_expect hT _ _ hvs) ?_
    intro _ ws _ _ ws' _ _ hws
    exact .ok ⟨.print he, hws⟩
  · intro lexeme line us mutable us₁ h₁ hm below _ h
    obtain ⟨line', us', rfl, -, hus⟩ := forall₂_first hT h
    obtain ⟨us₁', h₁', hm', hus₁⟩ := alike_mutWord? hT hus hm
    rw [statement, hm']
    refine agree_bindParsed (alike_expectName hT _ hus₁) ?_
    intro x us₂ h₂ x' us₂' _ hx hus₂
    refine agree_bindParsed (alike_expect hT _ _ hus₂) ?_
    intro _ us₃ h₃ _ us₃' _ _ hus₃
    refine agree_bindParsed
      (below .expression us₃ (by simp only [List.length_cons]; omega) .expression hus₃) ?_
    intro e us₄ _ e' us₄' _ he hus₄
    refine agree_bindParsed (alike_expect hT _ _ hus₄) ?_
    intro _ us₅ _ _ us₅' _ _ hus₅
    exact .ok ⟨.declare mutable hx he, hus₅⟩
  · intro lexeme line us below _ h
    obtain ⟨line', us', rfl, -, hus⟩ := forall₂_first hT h
    rw [statement]
    refine agree_bindParsed (alike_expectName hT _ hus) ?_
    intro x us₁ h₁ x' us₁' _ hx hus₁
    refine agree_bindParsed (alike_expect hT _ _ hus₁) ?_
    intro _ us₂ h₂ _ us₂' _ _ hus₂
    refine agree_bindParsed
      (below .parameters us₂ (by simp only [List.length_cons]; omega) .parameters hus₂) ?_
    intro ps us₃ h₃ ps' us₃' _ hps hus₃
    rw [hT.lexeme_eq hx]
    refine agree_bindParsed
      (below (.block _) us₃ (by simp only [List.length_cons]; omega) (.block _) hus₃) ?_
    intro body us₄ _ body' us₄' _ hbody hus₄
    refine agree_bindParsed (alike_expect hT _ _ hus₄) ?_
    intro _ us₅ _ _ us₅' _ _ hus₅
    exact .ok ⟨.function hx hps hbody, hus₅⟩
  · intro lexeme line lexeme₂ line₂ us below _ h
    obtain ⟨line', _, rfl, hx, h⟩ := forall₂_first hT h
    obtain ⟨line₂', us', rfl, -, hus⟩ := forall₂_first hT h
    rw [statement]
    refine agree_bindParsed
      (below .expression us (by simp only [List.length_cons]; omega) .expression hus) ?_
    intro e vs _ e' vs' _ he hvs
    refine agree_bindParsed (alike_expect hT _ _ hvs) ?_
    intro _ ws _ _ ws' _ _ hws
    exact .ok ⟨.assign hx he, hws⟩
  · intro ts noPrint noLet noFunc noAssign _ here h
    rw [statement]
    · refine agree_bindParsed (here .expression h) ?_
      intro e us _ e' us' _ he hus
      refine agree_bindParsed (alike_expect hT _ _ hus) ?_
      intro _ vs _ _ vs' _ _ hvs
      exact .ok ⟨.expression he, hvs⟩
    · exact not_first hT h noPrint
    · exact not_first hT h noLet
    · exact not_first hT h noFunc
    · exact not_first_two hT h noAssign

theorem alike_parameters (here : Alike T .parameterList ts) : Alike T .parameters ts := by
  intro r' Q ts' hr h
  cases hr
  refine agree_map.2 (parameters.fun_cases_unfolding (fun ts x =>
    Alike T .parameterList ts → List.Forall₂ T ts ts' →
      Agree (Failure.Similar T) (fun p q => Both T (List.Forall₂ T) p.pair q.pair) x
        (parameters ts')) ?_ ?_ ts here h)
  · intro lexeme line us _ h
    obtain ⟨line', us', rfl, -, hus⟩ := forall₂_first hT h
    rw [parameters]
    exact .ok ⟨.nil, hus⟩
  · intro ts hno here h
    rw [parameters]
    · exact agree_map.1 (here .parameterList h)
    · exact not_first hT h hno

/-- Expressions that are similar are both names or neither is. -/
theorem alike_parameterList (below : AlikeBelow T ts) (here : Alike T .expression ts) :
    Alike T .parameterList ts := by
  intro r' Q ts' hr h
  cases hr
  refine agree_map.2 ?_
  rw [parameterList, parameterList]
  refine agree_bindParsed (here .expression h) ?_
  intro e us hus e' us' hus' he husus'
  dsimp only
  split
  · next lexeme line vs p hvs =>
    obtain ⟨line', vs', rfl, -, hvs'⟩ := forall₂_first hT husus'
    cases he with
    | name hp =>
      refine agree_bindParsed (below .parameterList vs (by simp at hus; omega)
        .parameterList hvs') ?_
      intro ps ws _ ps' ws' _ hps hws
      exact .ok ⟨.cons hp hps, hws⟩
  · next p hle hno =>
    have hcomma := not_first hT husus' fun lexeme line vs heq =>
      hno lexeme line vs (heq ▸ hus) heq (proof_irrel_heq ..)
    cases he with
    | name hp =>
      split
      · exact (hcomma _ _ _ rfl).elim
      · next heq =>
        cases heq
        refine agree_bindParsed (alike_expect hT _ _ husus') ?_
        intro _ vs _ _ vs' _ _ hvs
        exact .ok ⟨.cons hp .nil, hvs⟩
      · next hname _ => exact (hname _ rfl).elim
  · next hname _ =>
    split
    · cases he with
      | name hp => exact (hname _ rfl).elim
    · cases he with
      | name hp => exact (hname _ rfl).elim
    · exact .error ⟨rfl, h⟩

theorem alike_block {cause : SyntaxCause} (below : AlikeBelow T ts) :
    Alike T (.block cause) ts := by
  intro r' Q ts' hr h
  cases hr
  refine agree_map.2 (block.fun_cases_unfolding cause (fun ts x =>
    AlikeBelow T ts → List.Forall₂ T ts ts' →
      Agree (Failure.Similar T) (fun p q => Both T (Stmt.AllSimilar T) p.pair q.pair) x
        (block cause ts')) ?_ ?_ ts below h)
  · intro lexeme line us below h
    obtain ⟨line', us', rfl, -, hus⟩ := forall₂_first hT h
    rw [block]
    refine agree_bindParsed (below .statements us (by simp) .statements hus) ?_
    intro body vs _ body' vs' _ hbody hvs
    exact .ok ⟨hbody, hvs⟩
  · intro ts hno _ h
    rw [block]
    · exact .error ⟨rfl, h⟩
    · exact not_first hT h hno

theorem alike_statements (below : AlikeBelow T ts) (here : Alike T .statement ts) :
    Alike T .statements ts := by
  intro r' Q ts' hr h
  cases hr
  refine agree_map.2 (statements.fun_cases_unfolding (fun ts x =>
    AlikeBelow T ts → Alike T .statement ts → List.Forall₂ T ts ts' →
      Agree (Failure.Similar T) (fun p q => Both T (Stmt.AllSimilar T) p.pair q.pair) x
        (statements ts')) ?_ ?_ ?_ ts below here h)
  · intro _ _ h
    cases h
    rw [statements]
    exact .error ⟨rfl, .nil⟩
  · intro lexeme line us _ _ h
    obtain ⟨line', us', rfl, -, hus⟩ := forall₂_first hT h
    rw [statements]
    exact .ok ⟨.nil, hus⟩
  · intro ts hnil hno below here h
    rw [statements]
    · refine agree_bindParsed (here .statement h) ?_
      intro x us hlt x' us' _ hx hus
      refine agree_bindParsed (below .statements us hlt .statements hus) ?_
      intro body vs _ body' vs' _ hbody hvs
      exact .ok ⟨.cons hx hbody, hvs⟩
    · rintro rfl
      cases h
      exact hnil rfl
    · exact not_first hT h hno

omit hT in
theorem alike_expression (below : AlikeBelow T ts) (here : Alike T .stage ts) :
    Alike T .expression ts := by
  intro r' Q ts' hr h
  cases hr
  refine agree_map.2 ?_
  rw [expression, expression]
  refine agree_bindParsed (here .stage h) ?_
  intro e us hlt e' us' _ he hus
  refine agree_bindContinued (below (.pipes e) us hlt (.pipes he) hus) ?_
  intro d vs _ d' vs' _ hd hvs
  exact .ok ⟨hd, hvs⟩

/-- Pipes come one after the other on both sides. -/
theorem alike_pipes {value : Expr} (below : AlikeBelow T ts) : Alike T (.pipes value) ts := by
  intro r' Q ts' hr h
  cases hr with
  | @pipes _ value' hvalue =>
  refine agree_map.2 (pipes.fun_cases_unfolding value (fun ts x =>
    AlikeBelow T ts → List.Forall₂ T ts ts' →
      Agree (Failure.Similar T) (fun p q => Both T (Expr.Similar T) p.pair q.pair) x
        (pipes value' ts')) ?_ ?_ ts below h)
  · intro lexeme line us below h
    obtain ⟨line', us', rfl, hp, hus⟩ := forall₂_first hT h
    rw [pipes]
    refine agree_bindParsed (below .stage us (by simp) .stage hus) ?_
    intro e vs _ e' vs' _ he hvs
    refine agree_bindContinued (below (.pipes _) vs (by simp only [List.length_cons]; omega)
      (.pipes (pipeInto_similar hvalue hp he)) hvs) ?_
    intro d ws _ d' ws' _ hd hws
    exact .ok ⟨hd, hws⟩
  · intro ts hno _ h
    rw [pipes]
    · exact .ok ⟨hvalue, h⟩
    · exact not_first hT h hno

/-- A brace or an `if` is first on both sides or on neither. -/
theorem alike_stage (below : AlikeBelow T ts) (here : Alike T (.tier .equality) ts) :
    Alike T .stage ts := by
  intro r' Q ts' hr h
  cases hr
  refine agree_map.2 (stage.fun_cases_unfolding (fun ts x =>
    AlikeBelow T ts → Alike T (.tier .equality) ts → List.Forall₂ T ts ts' →
      Agree (Failure.Similar T) (fun p q => Both T (Expr.Similar T) p.pair q.pair) x
        (stage ts')) ?_ ?_ ?_ ts below here h)
  · intro lexeme line us below _ h
    obtain ⟨line', us', rfl, -, hus⟩ := forall₂_first hT h
    rw [stage]
    refine agree_bindParsed (below .statements us (by simp) .statements hus) ?_
    intro body vs _ body' vs' _ hbody hvs
    exact .ok ⟨.block hbody, hvs⟩
  · intro lexeme line us below _ h
    obtain ⟨line', us', rfl, -, hus⟩ := forall₂_first hT h
    rw [stage]
    refine agree_bindParsed (below .expression us (by simp) .expression hus) ?_
    intro e us₁ h₁ e' us₁' _ he hus₁
    refine agree_bindParsed (below (.block _) us₁ (by simp only [List.length_cons]; omega)
      (.block _) hus₁) ?_
    intro body us₂ h₂ body' us₂' _ hbody hus₂
    refine agree_bindContinued (below .branches us₂ (by simp only [List.length_cons]; omega)
      .branches hus₂) ?_
    intro bs us₃ _ bs' us₃' _ hbs hus₃
    exact .ok ⟨.ifChain (.when he hbody hbs), hus₃⟩
  · intro ts noBrace noIf _ here h
    rw [stage]
    · exact agree_map.1 (here (.tier .equality) h)
    · exact not_first hT h noBrace
    · exact not_first hT h noIf

/-- Equally long chains. -/
theorem alike_branches (below : AlikeBelow T ts) : Alike T .branches ts := by
  intro r' Q ts' hr h
  cases hr
  refine agree_map.2 (branches.fun_cases_unfolding (fun ts x =>
    AlikeBelow T ts → List.Forall₂ T ts ts' →
      Agree (Failure.Similar T) (fun p q => Both T (Branch.AllSimilar T) p.pair q.pair) x
        (branches ts')) ?_ ?_ ?_ ts below h)
  · intro lexeme line lexeme₂ line₂ us below h
    obtain ⟨line', _, rfl, -, h⟩ := forall₂_first hT h
    obtain ⟨line₂', us', rfl, -, hus⟩ := forall₂_first hT h
    rw [branches]
    refine agree_bindParsed (below .expression us (by simp only [List.length_cons]; omega)
      .expression hus) ?_
    intro e us₁ h₁ e' us₁' _ he hus₁
    refine agree_bindParsed (below (.block _) us₁ (by simp only [List.length_cons]; omega)
      (.block _) hus₁) ?_
    intro body us₂ h₂ body' us₂' _ hbody hus₂
    refine agree_bindContinued (below .branches us₂ (by simp only [List.length_cons]; omega)
      .branches hus₂) ?_
    intro bs us₃ _ bs' us₃' _ hbs hus₃
    exact .ok ⟨.when he hbody hbs, hus₃⟩
  · intro lexeme line us noIf below h
    obtain ⟨line', us', rfl, -, hus⟩ := forall₂_first hT h
    rw [branches]
    · refine agree_bindParsed (below (.block _) us (by simp) (.block _) hus) ?_
      intro body vs _ body' vs' _ hbody hvs
      exact .ok ⟨.otherwise hbody .nil, hvs⟩
    · exact not_first hT hus noIf
  · intro ts noElseIf noElse _ h
    rw [branches]
    · exact .ok ⟨.nil, h⟩
    · exact not_first_two hT h noElseIf
    · exact not_first hT h noElse

omit hT in
theorem alike_tier {t : Tier} (below : AlikeBelow T ts) (here : Alike T (.operand t) ts) :
    Alike T (.tier t) ts := by
  intro r' Q ts' hr h
  cases hr
  refine agree_map.2 ?_
  rw [Parser.tier, Parser.tier]
  refine agree_bindParsed (here (.operand t) h) ?_
  intro e us hlt e' us' _ he hus
  refine agree_bindContinued (below (.operators t e) us hlt (.operators t he) hus) ?_
  intro d vs _ d' vs' _ hd hvs
  exact .ok ⟨hd, hvs⟩

omit hT in
theorem alike_operand {t : Tier}
    (here : ∀ r : Rule, r.rank < (Rule.operand t).rank → Alike T r ts) :
    Alike T (.operand t) ts := by
  intro r' Q ts' hr h
  cases hr
  cases t with
  | equality =>
    simp only [Rule.run, operand]
    exact here (.tier .comparison) (by decide) (.tier .comparison) h
  | comparison =>
    simp only [Rule.run, operand]
    exact here (.tier .addition) (by decide) (.tier .addition) h
  | addition =>
    simp only [Rule.run, operand]
    exact here (.tier .product) (by decide) (.tier .product) h
  | product =>
    simp only [Rule.run, operand]
    exact here .unary (by decide) .unary h

/-- Operators of the level come one after the other on both sides. -/
theorem alike_operators {t : Tier} {left : Expr} (below : AlikeBelow T ts) :
    Alike T (.operators t left) ts := by
  intro r' Q ts' hr h
  cases hr with
  | @operators _ _ left' hleft =>
  refine agree_map.2 ?_
  cases h with
  | nil =>
    rw [operators, operators]
    exact .ok ⟨hleft, .nil⟩
  | @cons o o' us us' ho hus =>
    rw [operators, operators, hT.kind_eq ho]
    split
    · refine agree_bindParsed (below (.operand t) us (by simp) (.operand t) hus) ?_
      intro e vs _ e' vs' _ he hvs
      refine agree_bindContinued (below (.operators t _) vs
        (by simp only [List.length_cons]; omega) (.operators t (.binary hleft ho he)) hvs) ?_
      intro d ws _ d' ws' _ hd hws
      exact .ok ⟨hd, hws⟩
    · exact .ok ⟨hleft, .cons ho hus⟩

theorem alike_unary (below : AlikeBelow T ts) (here : Alike T .call ts) :
    Alike T .unary ts := by
  intro r' Q ts' hr h
  cases hr
  refine agree_map.2 (Parser.unary.fun_cases_unfolding (fun ts x =>
    AlikeBelow T ts → Alike T .call ts → List.Forall₂ T ts ts' →
      Agree (Failure.Similar T) (fun p q => Both T (Expr.Similar T) p.pair q.pair) x
        (Parser.unary ts')) ?_ ?_ ?_ ts below here h)
  · intro _ _ h
    cases h
    rw [Parser.unary]
    exact .error ⟨rfl, .nil⟩
  · intro o us ho below _ h
    obtain ⟨o', us', hoo', hus, rfl⟩ := List.forall₂_cons_left_iff.1 h
    rw [Parser.unary, if_pos (hT.kind_eq hoo' ▸ ho)]
    refine agree_bindParsed (below .unary us (by simp) .unary hus) ?_
    intro e vs _ e' vs' _ he hvs
    exact .ok ⟨.unary hoo' he, hvs⟩
  · intro o us ho _ here h
    obtain ⟨o', us', hoo', hus, rfl⟩ := List.forall₂_cons_left_iff.1 h
    rw [Parser.unary, if_neg (hT.kind_eq hoo' ▸ ho)]
    exact agree_map.1 (here .call h)

omit hT in
theorem alike_call (below : AlikeBelow T ts) (here : Alike T .primary ts) :
    Alike T .call ts := by
  intro r' Q ts' hr h
  cases hr
  refine agree_map.2 ?_
  rw [Parser.call, Parser.call]
  refine agree_bindParsed (here .primary h) ?_
  intro e us hlt e' us' _ he hus
  refine agree_bindContinued (below (.calls e) us hlt (.calls he) hus) ?_
  intro d vs _ d' vs' _ hd hvs
  exact .ok ⟨hd, hvs⟩

theorem alike_calls {callee : Expr} (below : AlikeBelow T ts) :
    Alike T (.calls callee) ts := by
  intro r' Q ts' hr h
  cases hr with
  | @calls _ callee' hcallee =>
  refine agree_map.2 (calls.fun_cases_unfolding callee (fun ts x =>
    AlikeBelow T ts → List.Forall₂ T ts ts' →
      Agree (Failure.Similar T) (fun p q => Both T (Expr.Similar T) p.pair q.pair) x
        (calls callee' ts')) ?_ ?_ ts below h)
  · intro lexeme line us below h
    obtain ⟨line', us', rfl, hp, hus⟩ := forall₂_first hT h
    rw [calls]
    refine agree_bindParsed (below .arguments us (by simp) .arguments hus) ?_
    intro es vs _ es' vs' _ hes hvs
    refine agree_bindContinued (below (.calls _) vs (by simp only [List.length_cons]; omega)
      (.calls (.call false hcallee hp hes)) hvs) ?_
    intro d ws _ d' ws' _ hd hws
    exact .ok ⟨hd, hws⟩
  · intro ts hno _ h
    rw [calls]
    · exact .ok ⟨hcallee, h⟩
    · exact not_first hT h hno

theorem alike_arguments (here : Alike T .argumentList ts) : Alike T .arguments ts := by
  intro r' Q ts' hr h
  cases hr
  refine agree_map.2 (arguments.fun_cases_unfolding (fun ts x =>
    Alike T .argumentList ts → List.Forall₂ T ts ts' →
      Agree (Failure.Similar T) (fun p q => Both T (Expr.AllSimilar T) p.pair q.pair) x
        (arguments ts')) ?_ ?_ ts here h)
  · intro lexeme line us _ h
    obtain ⟨line', us', rfl, -, hus⟩ := forall₂_first hT h
    rw [arguments]
    exact .ok ⟨.nil, hus⟩
  · intro ts hno here h
    rw [arguments]
    · exact agree_map.1 (here .argumentList h)
    · exact not_first hT h hno

theorem alike_argumentList (below : AlikeBelow T ts) (here : Alike T .expression ts) :
    Alike T .argumentList ts := by
  intro r' Q ts' hr h
  cases hr
  refine agree_map.2 ?_
  rw [argumentList, argumentList]
  refine agree_bindParsed (here .expression h) ?_
  intro e us hus e' us' hus' he husus'
  dsimp only
  split
  · next lexeme line vs hvs =>
    obtain ⟨line', vs', rfl, -, hvs'⟩ := forall₂_first hT husus'
    refine agree_bindParsed (below .argumentList vs (by simp at hus; omega)
      .argumentList hvs') ?_
    intro es ws _ es' ws' _ hes hws
    exact .ok ⟨.cons he hes, hws⟩
  · next hle hno =>
    have hcomma := not_first hT husus' fun lexeme line vs heq =>
      hno lexeme line vs (heq ▸ hus) heq (proof_irrel_heq ..)
    split
    · exact (hcomma _ _ _ rfl).elim
    · refine agree_bindParsed (alike_expect hT _ _ husus') ?_
      intro _ vs _ _ vs' _ _ hvs
      exact .ok ⟨.cons he .nil, hvs⟩

/-- One case for each token that starts an operand, with equal values where it has one. -/
theorem alike_primary (below : AlikeBelow T ts) : Alike T .primary ts := by
  intro r' Q ts' hr h
  cases hr
  refine agree_map.2 (primary.fun_cases_unfolding (fun ts x =>
    AlikeBelow T ts → List.Forall₂ T ts ts' →
      Agree (Failure.Similar T) (fun p q => Both T (Expr.Similar T) p.pair q.pair) x
        (primary ts')) ?_ ?_ ?_ ?_ ?_ ?_ ?_ ?_ ?_ ts below h)
  · intro lexeme line us _ h
    obtain ⟨line', us', rfl, -, hus⟩ := forall₂_first hT h
    rw [primary]
    exact .ok ⟨.literal _, hus⟩
  · intro lexeme line us _ h
    obtain ⟨line', us', rfl, -, hus⟩ := forall₂_first hT h
    rw [primary]
    exact .ok ⟨.literal _, hus⟩
  · intro lexeme line us _ h
    obtain ⟨line', us', rfl, -, hus⟩ := forall₂_first hT h
    rw [primary]
    exact .ok ⟨.literal _, hus⟩
  · intro s lexeme line us _ h
    obtain ⟨line', us', rfl, -, hus⟩ := forall₂_first hT h
    rw [primary]
    exact .ok ⟨.literal _, hus⟩
  · intro x lexeme line us _ h
    obtain ⟨line', us', rfl, -, hus⟩ := forall₂_first hT h
    rw [primary]
    exact .ok ⟨.literal _, hus⟩
  · intro lexeme line us _ h
    obtain ⟨line', us', rfl, hx, hus⟩ := forall₂_first hT h
    rw [primary]
    exact .ok ⟨.name hx, hus⟩
  · intro lexeme line us below h
    obtain ⟨line', us', rfl, -, hus⟩ := forall₂_first hT h
    rw [primary]
    refine agree_bindParsed (below .expression us (by simp) .expression hus) ?_
    intro e vs _ e' vs' _ he hvs
    refine agree_bindParsed (alike_expect hT _ _ hvs) ?_
    intro _ ws _ _ ws' _ _ hws
    exact .ok ⟨.grouping he, hws⟩
  · intro lexeme line us below h
    obtain ⟨line', us', rfl, -, hus⟩ := forall₂_first hT h
    rw [primary]
    refine agree_bindParsed (below .statements us (by simp) .statements hus) ?_
    intro body vs _ body' vs' _ hbody hvs
    exact .ok ⟨.block hbody, hvs⟩
  · intro ts noFalse noTrue noNil noString noNumber noName noParen noBrace _ h
    rw [primary]
    · exact .error ⟨rfl, h⟩
    · exact not_first hT h noFalse
    · exact not_first hT h noTrue
    · exact not_first hT h noNil
    · exact fun s => not_first hT h (noString s)
    · exact fun x => not_first hT h (noNumber x)
    · exact not_first hT h noName
    · exact not_first hT h noParen
    · exact not_first hT h noBrace

omit hT in
theorem alike_program (below : AlikeBelow T ts) (here : Alike T .statement ts) :
    Alike T .program ts := by
  intro r' Q ts' hr h
  cases hr
  refine agree_map.2 ?_
  cases h with
  | nil =>
    rw [Parser.program]
    exact .ok ⟨.nil, .nil⟩
  | cons ht hus =>
    rw [Parser.program, Parser.program]
    refine agree_bindParsed (here .statement (.cons ht hus)) ?_
    intro x vs hlt x' vs' _ hx hvs
    refine agree_bind (agree_map.1 (below .program vs hlt .program hvs)) ?_
    intro p p' hp
    exact .ok ⟨.cons hx hp.tree, .nil⟩

/-- Every rule reads similar trees from lists that differ in lines only, or fails alike. -/
theorem Rule.alike : ∀ (r : Rule) (ts : List Token), Alike T r ts := by
  refine Rule.induction fun r ts below here => ?_
  cases r with
  | program => exact alike_program below (here .statement (by decide))
  | statement => exact alike_statement hT below (here .expression (by decide))
  | parameters => exact alike_parameters hT (here .parameterList (by decide))
  | parameterList => exact alike_parameterList hT below (here .expression (by decide))
  | block cause => exact alike_block hT below
  | statements => exact alike_statements hT below (here .statement (by decide))
  | expression => exact alike_expression below (here .stage (by decide))
  | pipes value => exact alike_pipes hT below
  | stage => exact alike_stage hT below (here (.tier .equality) (by decide))
  | branches => exact alike_branches hT below
  | tier t => exact alike_tier below (here (.operand t) (by simp [Rule.rank]))
  | operand t => exact alike_operand here
  | operators t left => exact alike_operators hT below
  | unary => exact alike_unary hT below (here .call (by decide))
  | call => exact alike_call below (here .primary (by decide))
  | calls callee => exact alike_calls hT below
  | arguments => exact alike_arguments hT (here .argumentList (by decide))
  | argumentList => exact alike_argumentList hT below (here .expression (by decide))
  | primary => exact alike_primary hT below

/-- A program on both sides, similar ones, or on neither. -/
theorem program_alike {ts' : List Token} (h : List.Forall₂ T ts ts') :
    Agree (Failure.Similar T) (Stmt.AllSimilar T) (Parser.program ts) (Parser.program ts') := by
  have hrun := agree_map.1 (Rule.alike hT .program ts .program h)
  generalize Parser.program ts = x at hrun
  generalize Parser.program ts' = y at hrun
  cases hrun with
  | ok hp => exact .ok hp.tree
  | error hf => exact .error hf

end

end Parser

section

variable {T : Token → Token → Prop} (hT : LinesOnly T) {ts ts' : List Token}

include hT

/-- The same tokens are before the first end marker, and the same one it is. -/
theorem forall₂_end (h : List.Forall₂ T ts ts') :
    List.Forall₂ T (ts.takeWhile (!·.isEnd)) (ts'.takeWhile (!·.isEnd)) ∧
      Option.Rel T (ts.find? Token.isEnd) (ts'.find? Token.isEnd) := by
  induction h with
  | nil => exact ⟨.nil, .none⟩
  | @cons t t' us us' ht _ ih =>
    have hend : t'.isEnd = t.isEnd := by rw [Token.isEnd, Token.isEnd, hT.kind_eq ht]
    cases he : t.isEnd with
    | true =>
      rw [he] at hend
      simpa [he, hend] using Option.Rel.some ht
    | false =>
      rw [he] at hend
      simpa [he, hend] using ⟨⟨ht, ih.1⟩, ih.2⟩

omit hT in
theorem forall₂_getLast? (h : List.Forall₂ T ts ts') : Option.Rel T ts.getLast? ts'.getLast? := by
  induction h with
  | nil => exact .none
  | @cons t t' us us' ht _ ih =>
    rw [List.getLast?_cons, List.getLast?_cons]
    generalize us.getLast? = last at ih
    generalize us'.getLast? = last' at ih
    cases ih with
    | none => exact .some ht
    | some h => exact .some h

omit hT in
/-- Related failures blame related tokens, or the end markers. -/
theorem Parser.Failure.Similar.blame {f g : Failure} (h : f.Similar T g) {stop stop' : Token}
    (hstop : T stop stop') : (f.blame stop).Similar T (g.blame stop') where
  cause_eq := h.cause_eq
  token := by
    obtain ⟨-, hrest⟩ := h
    unfold Failure.blame
    generalize f.rest = us at hrest
    generalize g.rest = us' at hrest
    cases hrest with
    | nil => exact hstop
    | cons ht _ => exact ht

/-- Lists of tokens that differ in lines only are similar programs, or the same is wrong at
related tokens. -/
theorem parse_alike (h : List.Forall₂ T ts ts') :
    Agree (SyntaxError.Similar T) (Stmt.AllSimilar T) (parse ts) (parse ts') := by
  obtain ⟨hbefore, hend⟩ := forall₂_end hT h
  have hlast := forall₂_getLast? hbefore
  have hprogram := Parser.program_alike hT hbefore
  unfold parse
  dsimp only
  generalize ts.find? Token.isEnd = stop at hend
  generalize ts'.find? Token.isEnd = stop' at hend
  generalize (ts.takeWhile (!·.isEnd)).getLast? = last at hlast
  generalize (ts'.takeWhile (!·.isEnd)).getLast? = last' at hlast
  generalize Parser.program (ts.takeWhile (!·.isEnd)) = x at hprogram
  generalize Parser.program (ts'.takeWhile (!·.isEnd)) = y at hprogram
  cases hend with
  | some hstop =>
    cases hprogram with
    | ok hp => exact .ok hp
    | error hf => exact .error (hf.blame hstop)
  | none =>
    cases hlast with
    | none => exact .ok .nil
    | some hlast =>
      cases hprogram with
      | ok hp => exact .error ⟨rfl, hlast⟩
      | @error f g hf =>
        obtain ⟨cause, rest⟩ := f
        obtain ⟨cause', rest'⟩ := g
        obtain rfl : cause' = cause := hf.cause_eq
        have hblame := hf.blame hlast
        -- An open block is blamed on what would follow the last token.
        cases cause' with
        | blockEnd => exact .error ⟨rfl, hlast⟩
        | _ => exact .error hblame

end

end PipeLang
