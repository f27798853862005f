import PipeLang.Proofs.Syntax.Reading

/-!
# The parser reads what it returns

`Rule.sound` : when a rule returns a tree and the tokens behind it, it has read the tree
from the tokens in front of those. There is one lemma for each function of the parser. It
takes the rule for shorter lists (`SoundBelow`), and for the rules that start at the same
token it names the one it needs; `Rule.induction` puts them together.
-/

namespace PipeLang.Parser

/-! ## Results -/

/-- Whatever is returned has the property. -/
def Ensures {ε α : Type} (x : Except ε α) (Q : α → Prop) : Prop := ∀ a, x = .ok a → Q a

section

variable {ε α β : Type} {Q Q' : α → Prop} {R : β → Prop}

/-- A step that fails returns nothing to be wrong. -/
theorem Ensures.error {e : ε} : Ensures (.error e : Except ε α) Q := by
  intro a h
  simp at h

theorem Ensures.ok {a : α} (h : Q a) : Ensures (.ok a : Except ε α) Q := by
  rintro _ ⟨⟩
  exact h

theorem Ensures.mono {x : Except ε α} (hx : Ensures x Q) (h : ∀ a, Q a → Q' a) :
    Ensures x Q' :=
  fun a ha => h a (hx a ha)

/-- What the first step ensures may be used of the second. -/
theorem Ensures.bind {x : Except ε α} {f : α → Except ε β} (hx : Ensures x Q)
    (hf : ∀ a, Q a → Ensures (f a) R) : Ensures (x >>= f) R := by
  cases x with
  | error e => exact .error
  | ok a => exact hf a (hx a rfl)

theorem ensures_map {x : Except ε α} {f : α → β} :
    Ensures (x.map f) R ↔ Ensures x fun a => R (f a) := by
  cases x <;> simp [Ensures, Except.map]

end

section

variable {α β : Type} {ts : List Token} {Q : α × List Token → Prop} {R : β → Prop}

/-- The same, with what the first step has read. -/
theorem Ensures.bindParsed {x : Except Failure (Parsed α ts)}
    {f : Parsed α ts → Except Failure β} (hx : Ensures (x.map Parsed.pair) Q)
    (hf : ∀ a us (h : us.length < ts.length), Q (a, us) → Ensures (f ⟨a, us, h⟩) R) :
    Ensures (x >>= f) R :=
  (ensures_map.1 hx).bind fun p hp => hf p.value p.rest p.shorter hp

theorem Ensures.bindContinued {x : Except Failure (Continued α ts)}
    {f : Continued α ts → Except Failure β} (hx : Ensures (x.map Continued.pair) Q)
    (hf : ∀ a us (h : us.length ≤ ts.length), Q (a, us) → Ensures (f ⟨a, us, h⟩) R) :
    Ensures (x >>= f) R :=
  (ensures_map.1 hx).bind fun p hp => hf p.value p.rest p.noLonger hp

end

/-! ## Single tokens -/

/-- If a symbol is returned, it was the first token. -/
theorem ensures_expect (s : Symbol) (cause : SyntaxCause) (ts : List Token) :
    Ensures ((expect s cause ts).map Parsed.pair) fun (t, us) =>
      ts = t :: us ∧ t.kind = .symbol s := by
  refine ensures_map.2 ?_
  unfold expect
  split
  · exact .error
  · split
    · next h => exact .ok ⟨rfl, h⟩
    · exact .error

/-- And if a name is. -/
theorem ensures_expectName (cause : SyntaxCause) (ts : List Token) :
    Ensures ((expectName cause ts).map Parsed.pair) fun (t, us) =>
      ts = t :: us ∧ t.kind = .identifier := by
  refine ensures_map.2 ?_
  unfold expectName
  split
  · exact .error
  · split
    · next h => exact .ok ⟨rfl, h⟩
    · exact .error

/-- An optional word is there or is left out. -/
theorem mutWord?_cases {ts us : List Token} {mutable : Bool} {h : us.length ≤ ts.length}
    (hm : mutWord? ts = ⟨mutable, us, h⟩) :
    (mutable = true ∧ ∃ m, ts = m :: us ∧ m.kind = .keyword .mutWord) ∨
      (mutable = false ∧ us = ts) := by
  unfold mutWord? at hm
  split at hm
  · cases hm
    exact Or.inl ⟨rfl, _, rfl, rfl⟩
  · cases hm
    exact Or.inr ⟨rfl, rfl⟩

/-! ## One rule after the other -/

/-- The tree is read from the tokens in front of the rest. -/
def ReadsUpTo (r : Rule) (ts : List Token) : r.Tree × List Token → Prop
  | (x, rest) => ∃ us, ts = us ++ rest ∧ Reads r x us

/-- What the rule returns on these tokens, it has read from them. -/
def Sound (r : Rule) (ts : List Token) : Prop := Ensures (r.run ts) (ReadsUpTo r ts)

/-- Every rule is sound on shorter lists. -/
def SoundBelow (ts : List Token) : Prop := ∀ r us, us.length < ts.length → Sound r us

/-- The five ways to begin a statement, in the order in which the parser tries them. -/
theorem sound_statement {ts : List Token} (below : SoundBelow ts)
    (here : Sound .expression ts) : Sound .statement ts := by
  refine ensures_map.2 (statement.fun_cases_unfolding (fun ts x =>
    SoundBelow ts → Sound .expression ts → Ensures x fun p => ReadsUpTo .statement ts p.pair)
    ?_ ?_ ?_ ?_ ?_ ts below here)
  · intro lexeme line us below _
    refine (below .expression us (by simp)).bindParsed ?_
    rintro e _ _ ⟨us, rfl, he⟩
    refine (ensures_expect _ _ _).bindParsed ?_
    rintro s rest _ ⟨rfl, hs⟩
    exact .ok ⟨⟨_, lexeme, line⟩ :: us ++ [s], by simp, .print rfl he hs⟩
  · intro lexeme line us mutable us₁ h₁ hm below _
    refine (ensures_expectName _ _).bindParsed ?_
    rintro x us₂ h₂ ⟨rfl, hx⟩
    refine (ensures_expect _ _ _).bindParsed ?_
    rintro q us₃ h₃ ⟨rfl, hq⟩
    have shorter : us₃.length < us.length + 1 := by simp at h₁; omega
    refine (below .expression us₃ (by simpa using shorter)).bindParsed ?_
    rintro e _ _ ⟨vs, rfl, he⟩
    refine (ensures_expect _ _ _).bindParsed ?_
    rintro s rest _ ⟨rfl, hs⟩
    rcases mutWord?_cases hm with ⟨rfl, m, rfl, hmut⟩ | ⟨rfl, rfl⟩
    · exact .ok ⟨⟨_, lexeme, line⟩ :: m :: x :: q :: vs ++ [s], by simp,
        .declareMut rfl hmut hx hq he hs⟩
    · exact .ok ⟨⟨_, lexeme, line⟩ :: x :: q :: vs ++ [s], by simp,
        .declare rfl hx hq he hs⟩
  · intro lexeme line us below _
    refine (ensures_expectName _ _).bindParsed ?_
    rintro x us₁ _ ⟨rfl, hx⟩
    refine (ensures_expect _ _ _).bindParsed ?_
    rintro p us₂ _ ⟨rfl, hp⟩
    refine (below .parameters us₂ (by simp only [List.length_cons]; omega)).bindParsed ?_
    rintro ps us₃ _ ⟨us, rfl, hps⟩
    refine (below (.block _) us₃ (by simp only [List.length_cons]; omega)).bindParsed ?_
    rintro body _ _ ⟨vs, rfl, hbody⟩
    refine (ensures_expect _ _ _).bindParsed ?_
    rintro s rest _ ⟨rfl, hs⟩
    exact .ok ⟨⟨_, lexeme, line⟩ :: x :: p :: us ++ vs ++ [s], by simp,
      .function rfl hx hp hps hbody hs⟩
  · intro lexeme line lexeme' line' us below _
    refine (below .expression us (by simp only [List.length_cons]; omega)).bindParsed ?_
    rintro e _ _ ⟨us, rfl, he⟩
    refine (ensures_expect _ _ _).bindParsed ?_
    rintro s rest _ ⟨rfl, hs⟩
    exact .ok ⟨⟨_, lexeme, line⟩ :: ⟨_, lexeme', line'⟩ :: us ++ [s], by simp,
      .assign rfl rfl he hs⟩
  · intro ts _ _ _ _ _ here
    refine here.bindParsed ?_
    rintro e _ _ ⟨us, rfl, he⟩
    refine (ensures_expect _ _ _).bindParsed ?_
    rintro s rest _ ⟨rfl, hs⟩
    exact .ok ⟨us ++ [s], by simp, .evaluate he hs⟩

theorem sound_parameters {ts : List Token} (here : Sound .parameterList ts) :
    Sound .parameters ts := by
  refine ensures_map.2 (parameters.fun_cases_unfolding (fun ts x =>
    Sound .parameterList ts → Ensures x fun p => ReadsUpTo .parameters ts p.pair)
    ?_ ?_ ts here)
  · intro lexeme line us _
    exact .ok ⟨[⟨_, lexeme, line⟩], rfl, .noParameters rfl⟩
  · intro ts _ here
    refine (ensures_map.1 here).mono ?_
    rintro ⟨ps, rest, _⟩ ⟨us, hus, hps⟩
    exact ⟨us, hus, .someParameters hps⟩

/-- A parameter is read as an expression; only a name passes. -/
theorem sound_parameterList {ts : List Token} (below : SoundBelow ts)
    (here : Sound .expression ts) : Sound .parameterList ts := by
  refine ensures_map.2 ?_
  rw [parameterList]
  refine here.bindParsed ?_
  rintro e vs h ⟨us, rfl, he⟩
  dsimp only
  split
  · next lexeme line vs p h =>
    refine (below .parameterList vs
      (by simp only [List.length_append, List.length_cons]; omega)).bindParsed ?_
    rintro ps rest _ ⟨vs, rfl, hps⟩
    exact .ok ⟨us ++ ⟨_, lexeme, line⟩ :: vs, by simp, .parameter he rfl hps⟩
  · next p _ =>
    refine (ensures_expect _ _ _).bindParsed ?_
    rintro q rest _ ⟨rfl, hq⟩
    exact .ok ⟨us ++ [q], by simp, .lastParameter he hq⟩
  · exact .error

/-- The statements of a block are read from a shorter list. -/
theorem sound_block {cause : SyntaxCause} {ts : List Token} (below : SoundBelow ts) :
    Sound (.block cause) ts := by
  refine ensures_map.2 (block.fun_cases_unfolding cause (fun ts x =>
    SoundBelow ts → Ensures x fun p => ReadsUpTo (.block cause) ts p.pair) ?_ ?_ ts below)
  · intro lexeme line us below
    refine (below .statements us (by simp)).bindParsed ?_
    rintro body rest _ ⟨us, rfl, hbody⟩
    exact .ok ⟨⟨_, lexeme, line⟩ :: us, by simp, .braces rfl hbody⟩
  · intro ts _ _
    exact .error

theorem sound_statements {ts : List Token} (below : SoundBelow ts)
    (here : Sound .statement ts) : Sound .statements ts := by
  refine ensures_map.2 (statements.fun_cases_unfolding (fun ts x =>
    SoundBelow ts → Sound .statement ts → Ensures x fun p => ReadsUpTo .statements ts p.pair)
    ?_ ?_ ?_ ts below here)
  · intro _ _
    exact .error
  · intro lexeme line us _ _
    exact .ok ⟨[⟨_, lexeme, line⟩], rfl, .noStatements rfl⟩
  · intro ts _ _ below here
    refine here.bindParsed ?_
    rintro x vs h ⟨us, rfl, hx⟩
    refine (below .statements vs h).bindParsed ?_
    rintro body rest _ ⟨vs, rfl, hbody⟩
    exact .ok ⟨us ++ vs, by simp, .statement hx hbody⟩

theorem sound_expression {ts : List Token} (below : SoundBelow ts) (here : Sound .stage ts) :
    Sound .expression ts := by
  refine ensures_map.2 ?_
  rw [expression]
  refine here.bindParsed ?_
  rintro e vs h ⟨us, rfl, he⟩
  refine (below (.pipes e) vs h).bindContinued ?_
  rintro e' rest _ ⟨vs, rfl, he'⟩
  exact .ok ⟨us ++ vs, by simp, .expression he he'⟩

/-- Each pipe leaves fewer tokens for the next. -/
theorem sound_pipes {value : Expr} {ts : List Token} (below : SoundBelow ts) :
    Sound (.pipes value) ts := by
  refine ensures_map.2 (pipes.fun_cases_unfolding value (fun ts x =>
    SoundBelow ts → Ensures x fun p => ReadsUpTo (.pipes value) ts p.pair) ?_ ?_ ts below)
  · intro lexeme line us below
    refine (below .stage us (by simp)).bindParsed ?_
    rintro e vs _ ⟨us, rfl, he⟩
    refine (below (.pipes (pipeInto value ⟨_, lexeme, line⟩ e)) vs
      (by simp only [List.length_cons]; omega)).bindContinued ?_
    rintro e' rest _ ⟨vs, rfl, he'⟩
    exact .ok ⟨⟨_, lexeme, line⟩ :: us ++ vs, by simp, .pipe rfl he he'⟩
  · intro ts _ _
    exact .ok ⟨[], rfl, .noPipes⟩

/-- A brace, `if` or neither comes first, and the stage is read accordingly. -/
theorem sound_stage {ts : List Token} (below : SoundBelow ts)
    (here : Sound (.tier .equality) ts) : Sound .stage ts := by
  refine ensures_map.2 (stage.fun_cases_unfolding (fun ts x =>
    SoundBelow ts → Sound (.tier .equality) ts →
      Ensures x fun p => ReadsUpTo .stage ts p.pair) ?_ ?_ ?_ ts below here)
  · intro lexeme line us below _
    refine (below .statements us (by simp)).bindParsed ?_
    rintro body rest _ ⟨us, rfl, hbody⟩
    exact .ok ⟨⟨_, lexeme, line⟩ :: us, by simp, .blockStage rfl hbody⟩
  · intro lexeme line us below _
    refine (below .expression us (by simp)).bindParsed ?_
    rintro e us₁ h₁ ⟨us, rfl, he⟩
    refine (below (.block .branchBlock) us₁
      (by simp only [List.length_cons]; omega)).bindParsed ?_
    rintro body us₂ h₂ ⟨vs, rfl, hbody⟩
    refine (below .branches us₂ (by simp only [List.length_cons]; omega)).bindContinued ?_
    rintro bs rest _ ⟨ws, rfl, hbs⟩
    exact .ok ⟨⟨_, lexeme, line⟩ :: us ++ vs ++ ws, by simp, .ifChain rfl he hbody hbs⟩
  · intro ts noBrace _ _ here
    refine (ensures_map.1 here).mono ?_
    rintro ⟨e, rest, _⟩ ⟨us, hus, he⟩
    refine ⟨us, hus, .operatorStage ?_ he⟩
    rintro ⟨kind, lexeme, line⟩ ht rfl
    obtain ⟨vs, rfl⟩ := List.head?_eq_some_iff.1 ht
    exact noBrace lexeme line (vs ++ rest) hus

/-- Each `else if` leaves fewer tokens, and an `else` ends the chain. -/
theorem sound_branches {ts : List Token} (below : SoundBelow ts) : Sound .branches ts := by
  refine ensures_map.2 (branches.fun_cases_unfolding (fun ts x =>
    SoundBelow ts → Ensures x fun p => ReadsUpTo .branches ts p.pair) ?_ ?_ ?_ ts below)
  · intro lexeme line lexeme' line' us below
    refine (below .expression us (by simp only [List.length_cons]; omega)).bindParsed ?_
    rintro e us₁ h₁ ⟨us, rfl, he⟩
    refine (below (.block .branchBlock) us₁
      (by simp only [List.length_cons]; omega)).bindParsed ?_
    rintro body us₂ h₂ ⟨vs, rfl, hbody⟩
    refine (below .branches us₂ (by simp only [List.length_cons]; omega)).bindContinued ?_
    rintro bs rest _ ⟨ws, rfl, hbs⟩
    exact .ok ⟨⟨_, lexeme, line⟩ :: ⟨_, lexeme', line'⟩ :: us ++ vs ++ ws, by simp,
      .elseIf rfl rfl he hbody hbs⟩
  · intro lexeme line us _ below
    refine (below (.block .branchBlock) us (by simp)).bindParsed ?_
    rintro body rest _ ⟨us, rfl, hbody⟩
    exact .ok ⟨⟨_, lexeme, line⟩ :: us, by simp, .otherwise rfl hbody⟩
  · intro ts _ _ _
    exact .ok ⟨[], rfl, .noBranches⟩

theorem sound_tier {t : Tier} {ts : List Token} (below : SoundBelow ts)
    (here : Sound (.operand t) ts) : Sound (.tier t) ts := by
  refine ensures_map.2 ?_
  rw [Parser.tier]
  refine here.bindParsed ?_
  rintro e vs h ⟨us, rfl, he⟩
  refine (below (.operators t e) vs h).bindContinued ?_
  rintro e' rest _ ⟨vs, rfl, he'⟩
  exact .ok ⟨us ++ vs, by simp, .tier he he'⟩

/-- Whatever is below the level has a smaller rank. -/
theorem sound_operand {t : Tier} {ts : List Token}
    (here : ∀ r : Rule, r.rank < (Rule.operand t).rank → Sound r ts) :
    Sound (.operand t) ts := by
  cases t with
  | equality =>
    simp only [Sound, Rule.run, operand]
    refine (here (.tier .comparison) (by decide)).mono ?_
    rintro ⟨e, rest⟩ ⟨us, hus, he⟩
    exact ⟨us, hus, .comparison he⟩
  | comparison =>
    simp only [Sound, Rule.run, operand]
    refine (here (.tier .addition) (by decide)).mono ?_
    rintro ⟨e, rest⟩ ⟨us, hus, he⟩
    exact ⟨us, hus, .addition he⟩
  | addition =>
    simp only [Sound, Rule.run, operand]
    refine (here (.tier .product) (by decide)).mono ?_
    rintro ⟨e, rest⟩ ⟨us, hus, he⟩
    exact ⟨us, hus, .product he⟩
  | product =>
    simp only [Sound, Rule.run, operand]
    refine (here .unary (by decide)).mono ?_
    rintro ⟨e, rest⟩ ⟨us, hus, he⟩
    exact ⟨us, hus, .factor he⟩

/-- Each operator leaves fewer tokens for the next. -/
theorem sound_operators {t : Tier} {left : Expr} {ts : List Token} (below : SoundBelow ts) :
    Sound (.operators t left) ts := by
  refine ensures_map.2 (operators.fun_cases_unfolding t left (fun ts x =>
    SoundBelow ts → Ensures x fun p => ReadsUpTo (.operators t left) ts p.pair)
    ?_ ?_ ?_ ts below)
  · intro _
    exact .ok ⟨[], rfl, .noOperators⟩
  · intro o us ho below
    refine (below (.operand t) us (by simp)).bindParsed ?_
    rintro e vs _ ⟨us, rfl, he⟩
    refine (below (.operators t (.binary left o e)) vs
      (by simp only [List.length_cons]; omega)).bindContinued ?_
    rintro e' rest _ ⟨vs, rfl, he'⟩
    exact .ok ⟨o :: us ++ vs, by simp, .operator ho he he'⟩
  · intro o us _ _
    exact .ok ⟨[], rfl, .noOperators⟩

theorem sound_unary {ts : List Token} (below : SoundBelow ts) (here : Sound .call ts) :
    Sound .unary ts := by
  refine ensures_map.2 (Parser.unary.fun_cases_unfolding (fun ts x =>
    SoundBelow ts → Sound .call ts → Ensures x fun p => ReadsUpTo .unary ts p.pair)
    ?_ ?_ ?_ ts below here)
  · intro _ _
    exact .error
  · intro o us ho below _
    refine (below .unary us (by simp)).bindParsed ?_
    rintro e rest _ ⟨us, rfl, he⟩
    exact .ok ⟨o :: us, by simp, .unary ho he⟩
  · intro o us _ _ here
    refine (ensures_map.1 here).mono ?_
    rintro ⟨e, rest, _⟩ ⟨us', hus, he⟩
    exact ⟨us', hus, .callee he⟩

theorem sound_call {ts : List Token} (below : SoundBelow ts) (here : Sound .primary ts) :
    Sound .call ts := by
  refine ensures_map.2 ?_
  rw [Parser.call]
  refine here.bindParsed ?_
  rintro e vs h ⟨us, rfl, he⟩
  refine (below (.calls e) vs h).bindContinued ?_
  rintro e' rest _ ⟨vs, rfl, he'⟩
  exact .ok ⟨us ++ vs, by simp, .call he he'⟩

/-- And so does each argument list. -/
theorem sound_calls {callee : Expr} {ts : List Token} (below : SoundBelow ts) :
    Sound (.calls callee) ts := by
  refine ensures_map.2 (calls.fun_cases_unfolding callee (fun ts x =>
    SoundBelow ts → Ensures x fun p => ReadsUpTo (.calls callee) ts p.pair) ?_ ?_ ts below)
  · intro lexeme line us below
    refine (below .arguments us (by simp)).bindParsed ?_
    rintro es vs _ ⟨us, rfl, hes⟩
    refine (below (.calls (.call callee ⟨_, lexeme, line⟩ es false)) vs
      (by simp only [List.length_cons]; omega)).bindContinued ?_
    rintro e rest _ ⟨vs, rfl, he⟩
    exact .ok ⟨⟨_, lexeme, line⟩ :: us ++ vs, by simp, .argumentsOf rfl hes he⟩
  · intro ts _ _
    exact .ok ⟨[], rfl, .noCalls⟩

theorem sound_arguments {ts : List Token} (here : Sound .argumentList ts) :
    Sound .arguments ts := by
  refine ensures_map.2 (arguments.fun_cases_unfolding (fun ts x =>
    Sound .argumentList ts → Ensures x fun p => ReadsUpTo .arguments ts p.pair)
    ?_ ?_ ts here)
  · intro lexeme line us _
    exact .ok ⟨[⟨_, lexeme, line⟩], rfl, .noArguments rfl⟩
  · intro ts _ here
    refine (ensures_map.1 here).mono ?_
    rintro ⟨es, rest, _⟩ ⟨us, hus, hes⟩
    exact ⟨us, hus, .someArguments hes⟩

theorem sound_argumentList {ts : List Token} (below : SoundBelow ts)
    (here : Sound .expression ts) : Sound .argumentList ts := by
  refine ensures_map.2 ?_
  rw [argumentList]
  refine here.bindParsed ?_
  rintro e vs h ⟨us, rfl, he⟩
  dsimp only
  split
  · next lexeme line vs h =>
    refine (below .argumentList vs
      (by simp only [List.length_append, List.length_cons]; omega)).bindParsed ?_
    rintro es rest _ ⟨vs, rfl, hes⟩
    exact .ok ⟨us ++ ⟨_, lexeme, line⟩ :: vs, by simp, .argument he rfl hes⟩
  · refine (ensures_expect _ _ _).bindParsed ?_
    rintro q rest _ ⟨rfl, hq⟩
    exact .ok ⟨us ++ [q], by simp, .lastArgument he hq⟩

/-- One case for each token that starts an operand. -/
theorem sound_primary {ts : List Token} (below : SoundBelow ts) : Sound .primary ts := by
  refine ensures_map.2 (primary.fun_cases_unfolding (fun ts x =>
    SoundBelow ts → Ensures x fun p => ReadsUpTo .primary ts p.pair)
    ?_ ?_ ?_ ?_ ?_ ?_ ?_ ?_ ?_ ts below)
  · intro lexeme line us _
    exact .ok ⟨[⟨_, lexeme, line⟩], rfl, .falseWord rfl⟩
  · intro lexeme line us _
    exact .ok ⟨[⟨_, lexeme, line⟩], rfl, .trueWord rfl⟩
  · intro lexeme line us _
    exact .ok ⟨[⟨_, lexeme, line⟩], rfl, .nilWord rfl⟩
  · intro s lexeme line us _
    exact .ok ⟨[⟨_, lexeme, line⟩], rfl, .string rfl⟩
  · intro x lexeme line us _
    exact .ok ⟨[⟨_, lexeme, line⟩], rfl, .number rfl⟩
  · intro lexeme line us _
    exact .ok ⟨[⟨_, lexeme, line⟩], rfl, .name rfl⟩
  · intro lexeme line us below
    refine (below .expression us (by simp)).bindParsed ?_
    rintro e _ _ ⟨us, rfl, he⟩
    refine (ensures_expect _ _ _).bindParsed ?_
    rintro q rest _ ⟨rfl, hq⟩
    exact .ok ⟨⟨_, lexeme, line⟩ :: us ++ [q], by simp, .grouping rfl he hq⟩
  · intro lexeme line us below
    refine (below .statements us (by simp)).bindParsed ?_
    rintro body rest _ ⟨us, rfl, hbody⟩
    exact .ok ⟨⟨_, lexeme, line⟩ :: us, by simp, .blockOperand rfl hbody⟩
  · intro ts _ _ _ _ _ _ _ _ _
    exact .error

theorem sound_program {ts : List Token} (below : SoundBelow ts)
    (here : Sound .statement ts) : Sound .program ts := by
  refine ensures_map.2 ?_
  cases ts with
  | nil =>
    rw [Parser.program]
    exact .ok ⟨[], rfl, .endOfProgram⟩
  | cons t us =>
    rw [Parser.program]
    refine here.bindParsed ?_
    rintro x vs h ⟨us', hus, hx⟩
    refine (ensures_map.1 (below .program vs h)).bind ?_
    rintro p ⟨ws, rfl, hp⟩
    exact .ok ⟨us' ++ ws, by simpa using hus, .program hx (by simpa using hp)⟩

/-- What a rule returns it has read from the tokens in front of the rest. -/
theorem Rule.sound : ∀ (r : Rule) (ts : List Token), Sound r ts := by
  refine Rule.induction fun r ts below here => ?_
  cases r with
  | program => exact sound_program below (here .statement (by decide))
  | statement => exact sound_statement below (here .expression (by decide))
  | parameters => exact sound_parameters (here .parameterList (by decide))
  | parameterList => exact sound_parameterList below (here .expression (by decide))
  | block cause => exact sound_block below
  | statements => exact sound_statements below (here .statement (by decide))
  | expression => exact sound_expression below (here .stage (by decide))
  | pipes value => exact sound_pipes below
  | stage => exact sound_stage below (here (.tier .equality) (by decide))
  | branches => exact sound_branches below
  | tier t => exact sound_tier below (here (.operand t) (by simp [Rule.rank]))
  | operand t => exact sound_operand here
  | operators t left => exact sound_operators below
  | unary => exact sound_unary below (here .call (by decide))
  | call => exact sound_call below (here .primary (by decide))
  | calls callee => exact sound_calls below
  | arguments => exact sound_arguments (here .argumentList (by decide))
  | argumentList => exact sound_argumentList below (here .expression (by decide))
  | primary => exact sound_primary below

end PipeLang.Parser
