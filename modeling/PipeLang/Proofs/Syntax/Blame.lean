import PipeLang.Proofs.Syntax.EndMarker
import PipeLang.Proofs.Syntax.Lookahead
import PipeLang.Proofs.Syntax.Viable

/-!
# The first impossible token is to blame

When tokens are no program, the error blames the first one that cannot stand where it stands :
the tokens in front of it can be completed (`Parser.Rule.viable_of_error`), and with it in
place nothing that follows can help (`Parser.program_error_of_append`). So the end of the file
is to blame exactly when the tokens are the beginning of a program (`parse_error_first`).

The parameters of functions are the exception, as they are read to their end before one of
them is blamed.
-/

namespace PipeLang

/-! ## Messages -/

/-- Texts end as their last part does. -/
theorem getLast?_toList_append (s : String) {t : String} {c : Char}
    (h : t.toList.getLast? = some c) : (s ++ t).toList.getLast? = some c := by
  rw [String.toList_append, List.getLast?_append, h]
  rfl

theorem SyntaxCause.getLast?_message_ne (cause : SyntaxCause) :
    cause.message.toList.getLast? ≠ some '.' := by
  cases cause with
  | functionBody name =>
    change ("Expected block as body of function \"" ++ name ++ "\"").toList.getLast? ≠ _
    rw [getLast?_toList_append _ (c := '\"') (by decide)]
    decide
  | _ => decide

/-- The message says that the file has ended when the end marker is to blame. -/
theorem SyntaxError.message_ends_iff (e : SyntaxError) :
    (∃ m, e.diagnostic.message = m ++ " at end of file.") ↔ e.token.kind = .eof := by
  unfold SyntaxError.diagnostic Diagnostic.blaming
  split
  · next h => exact ⟨fun _ => h, fun _ => ⟨_, rfl⟩⟩
  · next h =>
    refine ⟨?_, fun heof => absurd heof h⟩
    rintro ⟨m, hm⟩
    have hm : e.cause.message = m ++ " at end of file." := hm
    have hlast : (m ++ " at end of file.").toList.getLast? = some '.' :=
      getLast?_toList_append m (by decide)
    exact absurd (hm ▸ hlast) e.cause.getLast?_message_ne

/-! ## Programs that go on -/

section

variable {us front rest : List Token} {stop t : Token} {f : Parser.Failure}

theorem exists_parse_of_viable (hfront : ∀ t ∈ front, t.kind ≠ .eof)
    (h : Parser.Rule.program.Viable front) (hstop : stop.kind = .eof) :
    ∃ ws p, (∀ t ∈ ws, t.kind ≠ .eof) ∧ parse (front ++ ws ++ [stop]) = .ok p := by
  obtain ⟨ws, p, hws, hp⟩ := h
  have hboth : ∀ t ∈ front ++ ws, t.kind ≠ .eof := fun t ht =>
    (List.mem_append.1 ht).elim (hfront t) (hws t)
  exact ⟨ws, p, hws, (parse_concat_end_eq_ok_iff hboth hstop).2 hp⟩

/-- Whatever stands behind the token that is blamed, it is the one to blame. -/
theorem parse_error_of_prefix (hus : ∀ u ∈ front ++ t :: rest, u.kind ≠ .eof)
    {cause : SyntaxCause}
    (hf : Parser.program (front ++ t :: rest) = .error ⟨cause, t :: rest⟩)
    (hcause : cause ≠ .parameter) {ts : List Token} (hts : front ++ [t] <+: ts)
    (hend : ∃ t ∈ ts, t.kind = .eof) : parse ts = .error ⟨cause, t⟩ := by
  obtain ⟨behind, rfl⟩ := hts
  rw [List.append_cons] at hus
  have hfront : ∀ u ∈ front ++ [t], u.kind ≠ .eof := fun u hu =>
    hus u (List.mem_append_left rest hu)
  have hbehind : ∃ t ∈ behind, t.kind = .eof := by
    obtain ⟨u, hu, hkind⟩ := hend
    exact ⟨u, (List.mem_append.1 hu).resolve_left fun hmem => hfront u hmem hkind, hkind⟩
  obtain ⟨before, stop, after, rfl, hbefore, hstop⟩ := exists_eq_append_end hbehind
  have hboth : ∀ u ∈ front ++ [t] ++ before, u.kind ≠ .eof := fun u hu =>
    (List.mem_append.1 hu).elim (hfront u) (hbefore u)
  rw [← List.append_assoc, parse_append_end hboth hstop, ← List.append_cons,
    Parser.program_error_of_append hf hcause]
  rfl

end

/-- Take tokens that declare no function, with an end marker behind them, and let them be no
program. Then one of them or the end marker is blamed for the error. The tokens in front of it
can be completed to a program. If it is not the end marker, then all tokens that begin in the
same way, up to it, have the same error. So the error is at the end of the file exactly when
the tokens can be completed to a program. -/
theorem parse_error_first {us : List Token} {stop : Token} {e : SyntaxError}
    (hus : ∀ t ∈ us, t.kind ≠ .eof) (hfunction : ∀ t ∈ us, t.kind ≠ .keyword .funcWord)
    (hstop : stop.kind = .eof) (he : parse (us ++ [stop]) = .error e) :
    (∃ i t, i ≤ us.length ∧ (us ++ [stop])[i]? = some t ∧ e.token = t ∧
        e.diagnostic = .blaming t e.cause.message ∧
        (∃ ws p, (∀ t ∈ ws, t.kind ≠ .eof) ∧ parse (us.take i ++ ws ++ [stop]) = .ok p) ∧
        (i < us.length → ∀ ts, us.take (i + 1) <+: ts → (∃ t ∈ ts, t.kind = .eof) →
          parse ts = .error e)) ∧
      ((∃ m, e.diagnostic.message = m ++ " at end of file.") ↔
        ∃ ws p, (∀ t ∈ ws, t.kind ≠ .eof) ∧ parse (us ++ ws ++ [stop]) = .ok p) := by
  rw [parse_concat_end hus hstop] at he
  cases hf : Parser.program us with
  | ok p =>
    rw [hf] at he
    cases he
  | error f =>
    rw [hf] at he
    obtain rfl : f.blame stop = e := Except.error.inj he
    obtain ⟨hcause, front, hfront, hviable⟩ := Parser.Rule.program.viable_of_error us trivial
      hfunction f (Parser.run_program_eq_error_iff.2 hf)
    obtain ⟨cause, rest⟩ := f
    subst hfront
    have hbefore : ∀ t ∈ front, t.kind ≠ .eof := fun t ht => hus t (List.mem_append_left _ ht)
    have hcompleted := exists_parse_of_viable hbefore hviable hstop
    rw [SyntaxError.message_ends_iff]
    cases rest with
    | nil =>
      rw [List.append_nil] at *
      refine ⟨⟨front.length, stop, Nat.le_refl _, List.getElem?_concat_length, rfl, rfl, ?_, ?_⟩,
        fun _ => hcompleted, fun _ => hstop⟩
      · rw [List.take_length]
        exact hcompleted
      · exact fun hlt => absurd hlt (Nat.lt_irrefl _)
    | cons t rest =>
      have htake : (front ++ t :: rest).take (front.length + 1) = front ++ [t] :=
        List.take_length_add_append 1
      have hsame : ∀ ts, front ++ [t] <+: ts → (∃ t ∈ ts, t.kind = .eof) →
          parse ts = .error ⟨cause, t⟩ := fun _ => parse_error_of_prefix hus hf hcause
      refine ⟨⟨front.length, t, by simp, by simp, rfl, rfl, ?_, fun _ => htake ▸ hsame⟩, ?_, ?_⟩
      · rw [List.take_left]
        exact hcompleted
      · exact fun heof => absurd heof (hus t (by simp))
      · rintro ⟨ws, p, -, hp⟩
        have herror := hsame (front ++ t :: rest ++ ws ++ [stop]) ⟨rest ++ ws ++ [stop], by simp⟩
          ⟨stop, by simp, hstop⟩
        cases hp.symm.trans herror

/-- A semicolon where the block of a branch has to be. -/
theorem parse_error_first_branch :
    let us : List Token := [⟨.keyword .ifWord, "if", 1⟩, ⟨.identifier, "x", 1⟩,
      ⟨.symbol .semicolon, ";", 1⟩, ⟨.keyword .nilWord, "nil", 2⟩]
    let stop : Token := ⟨.eof, "", 2⟩
    let e : SyntaxError := ⟨.branchBlock, ⟨.symbol .semicolon, ";", 1⟩⟩
    parse (us ++ [stop]) = .error e ∧
      (∃ i < us.length, (us ++ [stop])[i]? = some e.token ∧
        (∃ ws p, (∀ t ∈ ws, t.kind ≠ .eof) ∧ parse (us.take i ++ ws ++ [stop]) = .ok p) ∧
        ∀ ts, us.take (i + 1) <+: ts → (∃ t ∈ ts, t.kind = .eof) → parse ts = .error e) ∧
      ¬ ∃ ws p, (∀ t ∈ ws, t.kind ≠ .eof) ∧ parse (us ++ ws ++ [stop]) = .ok p := by
  intro us stop e
  have hprogram : Parser.program us = .error ⟨.branchBlock, us.drop 2⟩ := by cbv
  have he : parse (us ++ [stop]) = .error e := by
    rw [parse_concat_end (by decide) rfl, hprogram]
    rfl
  obtain ⟨⟨i, t, hi, ht, rfl, -, hcompleted, hsame⟩, hend⟩ :=
    parse_error_first (by decide) (by decide) rfl he
  have hlt : i < us.length := by
    rcases Nat.lt_or_eq_of_le hi with hlt | rfl
    · exact hlt
    · exact absurd ht (by decide)
  refine ⟨he, ⟨i, hlt, ht, hcompleted, hsame hlt⟩, fun hprogram => ?_⟩
  exact absurd (e.message_ends_iff.1 (hend.2 hprogram)) (by decide)

end PipeLang
