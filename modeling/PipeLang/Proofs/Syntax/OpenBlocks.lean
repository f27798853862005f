import PipeLang.Proofs.Syntax.Failing

/-!
# Braces are read in pairs

Only blocks read braces. Whatever else a rule reads, it reads as many closing braces as
opening ones (`Reads.openBlocks_eq`), and the statements of a block close the brace in front
of them. So between the beginning of a rule and the place where it fails there are as many
open braces as there are blocks that the rule is inside of (`Fails.openBlocks_eq`).
-/

namespace PipeLang

/-- How many more blocks a token of this kind opens than it closes. -/
def Kind.braces : Kind → Int
  | .symbol .leftBrace => 1
  | .symbol .rightBrace => -1
  | _ => 0

/-- The count of the prompt, on a single token. -/
@[simp]
theorem Lexer.braceBalance_token (t : Token) : braceBalance (.token t) = t.kind.braces := by
  obtain ⟨kind, lexeme, line⟩ := t
  fun_cases Kind.braces kind <;> simp_all [braceBalance]

namespace Parser

/-- How many more blocks the tokens open than they close. -/
def openBlocks (ts : List Token) : Int := Lexer.openBlocks (ts.map .token)

@[simp]
theorem openBlocks_nil : openBlocks [] = 0 := rfl

@[simp]
theorem openBlocks_cons (t : Token) (ts : List Token) :
    openBlocks (t :: ts) = t.kind.braces + openBlocks ts := by
  simp [openBlocks, Lexer.openBlocks]

@[simp]
theorem openBlocks_append (us vs : List Token) :
    openBlocks (us ++ vs) = openBlocks us + openBlocks vs := by
  induction us with
  | nil => simp
  | cons t us ih => simp [ih, Int.add_assoc]

/-! ## Trees -/

/-- No binary operator is a brace. -/
theorem Tier.braces_of_admits {t : Tier} {k : Kind} (h : t.admits k) : k.braces = 0 := by
  cases k with
  | symbol s => revert h; cases t <;> cases s <;> decide
  | _ => rfl

/-- No prefix operator is one. -/
theorem braces_of_isUnaryOperator {k : Kind} (h : isUnaryOperator k) : k.braces = 0 := by
  cases k with
  | symbol s => revert h; cases s <;> decide
  | _ => rfl

/-- How many more blocks a rule opens than it closes. The statements of a block are read with
the brace behind them. -/
def Rule.surplus : Rule → Int
  | .statements => -1
  | _ => 0

/-- What a rule reads. -/
theorem Reads.openBlocks_eq {r : Rule} {x : r.Tree} {us : List Token} (h : Reads r x us) :
    openBlocks us = r.surplus := by
  induction h with
  | operator ho => simp_all [Rule.surplus, Tier.braces_of_admits ho]
  | unary ho => simp_all [Rule.surplus, braces_of_isUnaryOperator ho]
  | _ => simp_all [Rule.surplus, Kind.braces]

/-! ## Steps -/

/-- The list `vs` is behind the head of `ts`, where as many blocks are closed as opened. -/
def Level (ts vs : List Token) : Prop := ∃ us, ts = us ++ vs ∧ openBlocks us = 0

namespace Level

variable {ts us vs : List Token} {t : Token} {k : Kind}

theorem refl (ts : List Token) : Level ts ts := ⟨[], rfl, rfl⟩

theorem trans (h : Level ts us) (h' : Level us vs) : Level ts vs := by
  obtain ⟨xs, rfl, hxs⟩ := h
  obtain ⟨ys, rfl, hys⟩ := h'
  exact ⟨xs ++ ys, by simp, by simp [hxs, hys]⟩

/-- One token more in front. -/
theorem cons (ht : t.kind = k) (hk : k.braces = 0) (h : Level us vs) :
    Level (t :: us) vs := by
  obtain ⟨xs, rfl, hxs⟩ := h
  exact ⟨t :: xs, rfl, by simp [ht, hk, hxs]⟩

/-- One token less behind. -/
theorem tail (h : Level ts (t :: vs)) (ht : t.kind = k) (hk : k.braces = 0) : Level ts vs :=
  h.trans (.cons ht hk (.refl vs))

theorem mutWord? (h : (Parser.mutWord? ts).rest = us) : Level ts us := by
  subst h
  unfold Parser.mutWord?
  split
  · exact .cons rfl rfl (.refl _)
  · exact .refl _

end Level

/-- A rule that has read something has closed the blocks that it has opened. -/
theorem level_of_run {r : Rule} {x : r.Tree} {ts vs : List Token} (hr : r.surplus = 0)
    (h : r.run ts = .ok (x, vs)) : Level ts vs := by
  obtain ⟨us, hus, hreads⟩ := r.sound ts (x, vs) h
  exact ⟨us, hus, hreads.openBlocks_eq.trans hr⟩

theorem Rule.Passes.level {r : Rule} {ts vs : List Token} (h : r.Passes ts vs)
    (hr : r.surplus = 0) : Level ts vs := by
  obtain ⟨x, hx⟩ := h
  exact level_of_run hr hx

/-- No rule goes on with another one in the middle of a block. -/
theorem Calls.level {r r' : Rule} {ts vs : List Token} (h : Calls r ts r' vs) :
    Level ts vs := by
  cases h with
  | program | evaluate | parameters | parameter | statement | stage | operators | comparison
  | addition | product | factor | callee | primary | arguments | argument | operand =>
    exact .refl ts
  | programRest h | nextStatement h => exact h.level rfl
  | pipes h | behindOperand h | calls h => exact level_of_run rfl h
  | print ht | nextStage ht | condition ht | otherwise ht | argumentsOf ht | grouping ht =>
    exact .cons ht rfl (.refl vs)
  | nextOperand ho => exact .cons rfl (Tier.braces_of_admits ho) (.refl vs)
  | unary ho => exact .cons rfl (braces_of_isUnaryOperator ho) (.refl vs)
  | nextPipes ht h | nextCalls ht h => exact .cons ht rfl (level_of_run rfl h)
  | nextOperators ho h => exact .cons rfl (Tier.braces_of_admits ho) (level_of_run rfl h)
  | nextParameter h hc | nextArgument h hc => exact (h.level rfl).tail hc rfl
  | declare ht hrest hx hq =>
    exact .cons ht rfl (((Level.mutWord? hrest).tail hx rfl).tail hq rfl)
  | assign hx hq => exact .cons hx rfl (.cons hq rfl (.refl vs))
  | nextCondition hl hi => exact .cons hl rfl (.cons hi rfl (.refl vs))
  | functionParameters ht hx hp =>
    exact .cons ht rfl (.cons hx rfl (.cons hp rfl (.refl vs)))
  | functionBody ht hx hp h =>
    exact .cons ht rfl (.cons hx rfl (.cons hp rfl (h.level rfl)))
  | body hi h => exact .cons hi rfl (h.level rfl)
  | branches hi h h' => exact .cons hi rfl ((h.level rfl).trans (h'.level rfl))
  | nextBody hl hi h => exact .cons hl rfl (.cons hi rfl (h.level rfl))
  | nextBranches hl hi h h' =>
    exact .cons hl rfl (.cons hi rfl ((h.level rfl).trans (h'.level rfl)))

/-- A rule raises its failures at the level it began at. -/
theorem Raises.level {r : Rule} {ts : List Token} {f : Failure} (h : Raises r ts f) :
    Level ts f.rest := by
  cases h with
  | parameter | block | blockEnd | operand | primary => exact .refl _
  | expressionEnd h | parametersEnd h | argumentsEnd h => exact h.level rfl
  | printEnd ht h | groupingEnd ht h => exact .cons ht rfl (h.level rfl)
  | functionName ht => exact .cons ht rfl (.refl _)
  | variableName ht => exact .cons ht rfl (.mutWord? rfl)
  | variableEqual ht hrest hx => exact .cons ht rfl ((Level.mutWord? hrest).tail hx rfl)
  | declarationEnd ht hrest hx hq h =>
    have hlevel := ((Level.mutWord? hrest).tail hx rfl).tail hq rfl
    exact .cons ht rfl (hlevel.trans (h.level rfl))
  | functionParen ht hx => exact .cons ht rfl (.cons hx rfl (.refl _))
  | functionEnd ht hx hp h h' =>
    have hlevel := (h.level rfl).trans (h'.level rfl)
    exact .cons ht rfl (.cons hx rfl (.cons hp rfl hlevel))
  | assignmentEnd hx hq h => exact .cons hx rfl (.cons hq rfl (h.level rfl))

/-- A step into a block passes its opening brace. -/
theorem Opens.brace {r : Rule} {ts vs : List Token} (h : Opens r ts vs) :
    ∃ b, ts = b :: vs ∧ b.kind = .symbol .leftBrace := by
  cases h with
  | block hb | stage hb | primary hb => exact ⟨_, rfl, hb⟩

/-! ## Failures -/

/-- In front of a failure there are as many open braces as blocks that it arises inside of. -/
theorem Fails.openBlocks_eq {r : Rule} {ts : List Token} {f : Failure} {n : Nat}
    (h : Fails r ts f n) : ∃ us, ts = us ++ f.rest ∧ openBlocks us = n := by
  induction h with
  | raises _ h => exact h.level
  | calls _ h _ ih =>
    obtain ⟨us, rfl, hus⟩ := h.level
    obtain ⟨vs, rfl, hvs⟩ := ih
    exact ⟨us ++ vs, by simp, by simp [hus, hvs]⟩
  | opens _ h _ ih =>
    obtain ⟨b, rfl, hb⟩ := h.brace
    obtain ⟨vs, rfl, hvs⟩ := ih
    exact ⟨b :: vs, rfl, by simp [hb, Kind.braces, hvs, Int.add_comm]⟩

/-- A closing brace is missed by the statements of a block, and by nothing else. -/
def Rule.MissesBrace : Rule → Prop
  | .statements => True
  | .block cause => cause = .blockEnd
  | _ => False

/-- A rule that goes on with one that misses its brace misses a brace too. -/
theorem Calls.missesBrace {r r' : Rule} {ts vs : List Token} (h : Calls r ts r' vs)
    (hr' : r'.MissesBrace) : r.MissesBrace := by
  cases h with
  | nextStatement => trivial
  | _ => first | exact hr'.elim | cases hr'

/-- Where a closing brace is missed, a block is open. -/
theorem Fails.pos_of_blockEnd {r : Rule} {ts : List Token} {f : Failure} {n : Nat}
    (h : Fails r ts f n) (hf : f.cause = .blockEnd) (hr : ¬ r.MissesBrace) : 0 < n := by
  induction h with
  | raises _ h =>
    cases h with
    | blockEnd => exact absurd trivial hr
    | block => exact absurd hf hr
    | _ => cases hf
  | calls _ h _ ih => exact ih hf fun hr' => hr (h.missesBrace hr')
  | opens => exact Nat.succ_pos _

end Parser

end PipeLang
