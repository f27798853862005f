import PipeLang.Proofs.Syntax.EndMarker

/-!
# Programs in front of other tokens

A statement ends with its semicolon, whatever stands behind it : no rule looks past the token
that ends a statement (`Reads.run` with `stops_zero`). So when some tokens make up a program,
the parser comes to the end of them and then does with the tokens behind them what it does
with these alone (`Parser.Reads.program_then`). The two parses return the same statements, or
they fail with the same error (`parse_append`).
-/

namespace PipeLang

namespace Parser

/-- A program goes on behind its first statement. -/
theorem program_of_statement {x : Stmt} {ts rest : List Token}
    (hx : Rule.statement.run ts = .ok (x, rest)) :
    Parser.program ts = (Parser.program rest).map (x :: ·) := by
  cases ts with
  | nil => exact absurd (length_lt_of_pair hx) (Nat.not_lt_zero _)
  | cons t us =>
    rw [Parser.program]
    rw [Rule.run] at hx
    cases h : Parser.statement (t :: us) with
    | error f =>
      rw [h] at hx
      cases hx
    | ok y =>
      rw [h] at hx
      cases hx
      rfl

/-- Behind a program the parser goes on as at the beginning. -/
theorem Reads.program_then : ∀ {p : Program} {us : List Token}, Reads .program p us →
    ∀ vs, Parser.program (us ++ vs) = (Parser.program vs).map (p ++ ·)
  | _, _, .endOfProgram, vs => by
    change Parser.program vs = (Parser.program vs).map id
    cases Parser.program vs <;> rfl
  | _, _, @Reads.program x p us ws hx hp, vs => by
    rw [List.append_assoc, program_of_statement (hx.run (ws ++ vs) (stops_zero _)),
      program_then hp vs]
    cases Parser.program vs <;> rfl

/-- Which end marker is blamed makes no difference to what is shown. -/
theorem Failure.diagnostic_blame (f : Failure) {stop stop' : Token} (hstop : stop.kind = .eof)
    (hstop' : stop'.kind = .eof) : (f.blame stop).diagnostic = (f.blame stop').diagnostic := by
  unfold SyntaxError.diagnostic Failure.blame
  cases f.rest with
  | cons t rest => rfl
  | nil => simp [Diagnostic.blaming, hstop, hstop']

end Parser

/-- Let some tokens be a program. With other tokens behind them, they make up the statements of
the program and behind them the statements of the other tokens, if these are a program as
well. If they are none, the error is the one of the other tokens alone. -/
theorem parse_append {us vs : List Token} {stop stop₁ stop₂ : Token} {p : Program}
    (hus : ∀ t ∈ us, t.kind ≠ .eof) (hvs : ∀ t ∈ vs, t.kind ≠ .eof) (hstop : stop.kind = .eof)
    (hstop₁ : stop₁.kind = .eof) (hstop₂ : stop₂.kind = .eof)
    (hp : parse (us ++ [stop]) = .ok p) :
    (∀ q, parse (vs ++ [stop₁]) = .ok q → parse (us ++ vs ++ [stop₂]) = .ok (p ++ q)) ∧
      ∀ e, parse (vs ++ [stop₁]) = .error e →
        ∃ e', parse (us ++ vs ++ [stop₂]) = .error e' ∧ e'.diagnostic = e.diagnostic := by
  have hboth : ∀ t ∈ us ++ vs, t.kind ≠ .eof := fun t ht =>
    (List.mem_append.1 ht).elim (hus t) (hvs t)
  have hreads : Parser.Reads .program p us := (parse_concat_end_eq_ok_iff hus hstop).1 hp
  rw [parse_concat_end hvs hstop₁, parse_concat_end hboth hstop₂, hreads.program_then]
  cases Parser.program vs with
  | ok q =>
    constructor
    · rintro _ ⟨⟩
      rfl
    · rintro _ ⟨⟩
  | error f =>
    constructor
    · rintro _ ⟨⟩
    · rintro _ ⟨⟩
      exact ⟨_, rfl, f.diagnostic_blame hstop₂ hstop₁⟩

theorem parse_append_missing :
    let us : List Token := [⟨.keyword .nilWord, "nil", 1⟩, ⟨.symbol .semicolon, ";", 1⟩]
    let vs : List Token := [⟨.symbol .leftParen, "(", 2⟩, ⟨.symbol .semicolon, ";", 2⟩]
    let stop : Token := ⟨.eof, "", 2⟩
    (∃ p, parse (us ++ [stop]) = .ok p) ∧
      parse (vs ++ [stop]) = .error ⟨.expression, ⟨.symbol .semicolon, ";", 2⟩⟩ ∧
      ∃ e, parse (us ++ vs ++ [stop]) = .error e ∧
        e.diagnostic = .syntactic "Expected expression" (some ⟨2, "at token \";\""⟩) := by
  intro us vs stop
  have hstop : stop.kind = .eof := rfl
  have hprogram : Parser.program us = .ok [.expression (.literal .nil)] := by cbv
  have hp : parse (us ++ [stop]) = .ok [.expression (.literal .nil)] := by
    rw [parse_concat_end (by decide) hstop, hprogram]
    rfl
  have hfailure : Parser.program vs = .error ⟨.expression, [⟨.symbol .semicolon, ";", 2⟩]⟩ := by
    cbv
  have he : parse (vs ++ [stop]) = .error ⟨.expression, ⟨.symbol .semicolon, ";", 2⟩⟩ := by
    rw [parse_concat_end (by decide) hstop, hfailure]
    rfl
  obtain ⟨e, happend, hsame⟩ :=
    (parse_append (by decide) (by decide) hstop hstop hstop hp).2 _ he
  exact ⟨⟨_, hp⟩, he, e, happend, hsame⟩

end PipeLang
