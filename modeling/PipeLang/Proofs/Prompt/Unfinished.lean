import PipeLang.Proofs.Syntax.EndMarker
import PipeLang.Proofs.Syntax.OpenBlocks
import PipeLang.Proofs.Token.Joining

/-!
# Unfinished texts are those with an open block

The prompt counts braces to see whether a text is unfinished, and the parser meets them one
by one. For a text without lexical errors the two agree (`unfinished_iff_inside_block`) : a
program is never held back, and where the parser gives up at the end of the text, the text is
unfinished exactly when the parser is inside a block.
-/

namespace PipeLang

/-- The tokens are no program : the parser has the error `e`, inside so many open blocks. -/
def FailsInside (ts : List Token) (e : SyntaxError) (n : Nat) : Prop :=
  ∃ stop f, ts.find? Token.isEnd = some stop ∧ f.blame stop = e ∧
    Parser.Fails .program (ts.takeWhile (!·.isEnd)) f n

/-! ## Counting braces -/

/-- A text of tokens alone is unfinished when it opens more blocks than it closes. -/
theorem isUnfinished_iff {source : String} {ts : List Token} (h : tokens? source = .ok ts) :
    isUnfinished source = true ↔ 0 < Parser.openBlocks ts := by
  have hitems : items source = ts.map .token := Lexer.collect_eq_ok_iff.1 h
  have hstrings : (ts.map Item.token).any Lexer.isUnterminated = false := by
    simp [Lexer.isUnterminated]
  rw [isUnfinished, hitems, hstrings, Bool.false_or, decide_eq_true_iff]
  rfl

/-! ## Tokens with an end marker behind them -/

section

variable {us : List Token} {stop : Token} {e : SyntaxError} {n : Nat}

theorem failsInside_concat_end (hus : ∀ t ∈ us, t.kind ≠ .eof) (hstop : stop.kind = .eof) :
    FailsInside (us ++ [stop]) e n ↔ ∃ f, f.blame stop = e ∧ Parser.Fails .program us f n := by
  rw [FailsInside, find?_concat_end hus hstop, takeWhile_concat_end hus hstop]
  constructor
  · rintro ⟨_, f, ⟨⟩, he, hf⟩
    exact ⟨f, he, hf⟩
  · rintro ⟨f, he, hf⟩
    exact ⟨stop, f, rfl, he, hf⟩

/-- Every syntax error is found inside some number of blocks. -/
theorem parse_eq_error_iff (hus : ∀ t ∈ us, t.kind ≠ .eof) (hstop : stop.kind = .eof) :
    parse (us ++ [stop]) = .error e ↔ ∃ n, FailsInside (us ++ [stop]) e n := by
  simp only [parse_concat_end hus hstop, failsInside_concat_end hus hstop]
  cases hrun : Parser.program us with
  | ok p =>
    refine ⟨nofun, ?_⟩
    rintro ⟨n, f, -, hf⟩
    have hrun' := Parser.run_program_eq_error_iff.1 hf.run
    cases hrun.symm.trans hrun'
  | error f =>
    constructor
    · rintro ⟨⟩
      obtain ⟨n, hn⟩ := Parser.Rule.fails .program us f (Parser.run_program_eq_error_iff.2 hrun)
      exact ⟨n, f, rfl, hn⟩
    · rintro ⟨n, g, rfl, hg⟩
      have hrun' := Parser.run_program_eq_error_iff.1 hg.run
      obtain rfl := Except.error.inj (hrun.symm.trans hrun')
      rfl

/-- At the end of the tokens, all of them are in front of the failure. -/
theorem openBlocks_eq_of_failsInside (hus : ∀ t ∈ us, t.kind ≠ .eof) (hstop : stop.kind = .eof)
    (h : FailsInside (us ++ [stop]) e n) (he : e.token.kind = .eof) :
    Parser.openBlocks (us ++ [stop]) = n := by
  obtain ⟨f, rfl, hf⟩ := (failsInside_concat_end hus hstop).1 h
  obtain ⟨vs, rfl, hvs⟩ := hf.openBlocks_eq
  cases hrest : f.rest with
  | nil => simp [hvs, hstop, Kind.braces]
  | cons t rest =>
    have ht : t.kind = .eof := by simpa [Parser.Failure.blame, hrest] using he
    exact absurd ht (hus t (by simp [hrest]))

end

/-! ## Messages -/

/-- The message of a block that is not closed. -/
def openBlockMessage : String := "Expected \"\x7d\" after block at end of file."

theorem SyntaxCause.message_ne_openBlockMessage (cause : SyntaxCause) :
    cause.message ≠ openBlockMessage := by
  cases cause with
  | functionBody name =>
    show "Expected block as body of function \"" ++ name ++ "\"" ≠ openBlockMessage
    rw [String.append_assoc]
    exact append_ne_of_start _ (by decide)
  | _ => decide

theorem SyntaxCause.eq_blockEnd_of_message {cause : SyntaxCause}
    (h : cause.message ++ " at end of file." = openBlockMessage) : cause = .blockEnd := by
  cases cause with
  | blockEnd => rfl
  | functionBody name =>
    change "Expected block as body of function \"" ++ name ++ "\"" ++ " at end of file."
      = openBlockMessage at h
    rw [String.append_assoc, String.append_assoc] at h
    exact absurd h (append_ne_of_start _ (by decide))
  | _ => exact absurd h (by decide)

/-- Only a block that is not closed at the end of the text has this message. -/
theorem SyntaxError.of_message {e : SyntaxError} (h : e.diagnostic.message = openBlockMessage) :
    e.cause = .blockEnd ∧ e.token.kind = .eof := by
  unfold SyntaxError.diagnostic Diagnostic.blaming at h
  split at h
  · next htoken => exact ⟨SyntaxCause.eq_blockEnd_of_message h, htoken⟩
  · exact absurd h e.cause.message_ne_openBlockMessage

/-! ## The prompt and the parser -/

/-- Take a text that is cut without errors. If it is a program, it is not unfinished. If its
error is that a block is not closed at the end of the text, it is unfinished. And whatever is
wrong at the end of the text, it is unfinished exactly when the parser is inside a block. -/
theorem unfinished_iff_inside_block {source : String} {ts : List Token}
    (h : tokens? source = .ok ts) :
    (∀ p, parse ts = .ok p → isUnfinished source = false) ∧
      (∀ e, parse ts = .error e →
        e.diagnostic.message = "Expected \"\x7d\" after block at end of file." →
          isUnfinished source = true) ∧
      ∀ e, (parse ts = .error e ↔ ∃ n, FailsInside ts e n) ∧
        ∀ n, FailsInside ts e n → e.token.kind = .eof →
          (isUnfinished source = true ↔ 0 < n) := by
  obtain ⟨us, rfl, hus⟩ := tokens?_eq_concat h
  have hcount := isUnfinished_iff h
  have hinside : ∀ {e n}, FailsInside (us ++ [⟨.eof, "", 1 + newlines source⟩]) e n →
      e.token.kind = .eof → (isUnfinished source = true ↔ 0 < n) := by
    intro e n hn he
    rw [hcount, openBlocks_eq_of_failsInside hus rfl hn he]
    exact Int.natCast_pos
  refine ⟨fun p hp => ?_, fun e he hmessage => ?_, fun e => ⟨parse_eq_error_iff hus rfl,
    fun n => hinside⟩⟩
  · have hreads := (Parser.parse_eq_ok_iff ⟨_, List.mem_append_right us (.head _), rfl⟩).1 hp
    rw [takeWhile_concat_end hus rfl] at hreads
    have hclosed : Parser.openBlocks us = 0 := hreads.openBlocks_eq
    rw [← Bool.not_eq_true, hcount]
    simp [hclosed, Kind.braces]
  · obtain ⟨hcause, htoken⟩ := SyntaxError.of_message hmessage
    obtain ⟨n, hn⟩ := (parse_eq_error_iff hus rfl).1 he
    obtain ⟨f, rfl, hf⟩ := (failsInside_concat_end hus rfl).1 hn
    exact (hinside hn htoken).2 (hf.pos_of_blockEnd hcause id)

/-- The tokens of a function whose body is not closed, up to the end marker. -/
def openFunctionTokens : List Token :=
  [⟨.keyword .funcWord, "func", 1⟩, ⟨.identifier, "f", 1⟩, ⟨.symbol .leftParen, "(", 1⟩,
    ⟨.symbol .rightParen, ")", 1⟩, ⟨.symbol .leftBrace, "\x7b", 1⟩, ⟨.identifier, "x", 1⟩,
    ⟨.symbol .semicolon, ";", 1⟩]

theorem unfinished_iff_inside_block_function :
    tokens? "func f() \x7b x;" = .ok (openFunctionTokens ++ [⟨.eof, "", 1⟩]) ∧
      isUnfinished "func f() \x7b x;" = true ∧
      ∃ n > 0,
        FailsInside (openFunctionTokens ++ [⟨.eof, "", 1⟩]) ⟨.blockEnd, ⟨.eof, "", 1⟩⟩ n := by
  have htokens : tokens? "func f() \x7b x;" = .ok (openFunctionTokens ++ [⟨.eof, "", 1⟩]) := by
    refine Lexer.collect_eq_ok_iff.2 ?_
    decide +kernel
  have hprogram : Parser.program openFunctionTokens = .error ⟨.blockEnd, []⟩ := by cbv
  have hparse : parse (openFunctionTokens ++ [⟨.eof, "", 1⟩])
      = .error ⟨.blockEnd, ⟨.eof, "", 1⟩⟩ := by
    rw [parse_concat_end (by decide +kernel) rfl, hprogram]
    rfl
  obtain ⟨-, hmessage, hinside⟩ := unfinished_iff_inside_block htokens
  have hunfinished := hmessage _ hparse rfl
  obtain ⟨n, hn⟩ := (hinside _).1.1 hparse
  exact ⟨htokens, hunfinished, n, ((hinside _).2 n hn rfl).1 hunfinished, hn⟩

end PipeLang
