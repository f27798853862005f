import PipeLang.Proofs.Interpreter.Output
import PipeLang.Proofs.Session.Lines
import PipeLang.Proofs.Token.Joining

/-!
# Errors point into the text

The first error of a text is on a line of the text, wherever it arises. A lexical error is on
the line that the scan has come to. A syntax error blames a token of the text, or the end
marker. And a fault is at a token of the text as well, though it may arise in functions called
by functions : a program is similar to itself when tokens are related to themselves that are
tokens of the text, and faults of similar programs are at related tokens.
-/

namespace PipeLang

/-! ## Scans -/

namespace Lexer

/-- The line of an item. -/
def itemLine : Item → Nat
  | .token t => t.line
  | .error e => e.line

/-- The lines of the items are lines of the text. -/
theorem itemLine_of_mem {line : Nat} {cs : List Char} {i : Item} (h : i ∈ itemsFrom line cs) :
    line ≤ itemLine i ∧ itemLine i ≤ line + cs.count '\n' := by
  fun_induction itemsFrom line cs with
  | case1 line =>
    obtain rfl := List.mem_singleton.1 h
    exact ⟨Nat.le_refl line, Nat.le_add_right line _⟩
  | case2 line c cs k next hk ih =>
    have hnext : line ≤ next := Nat.le_add_right ..
    have hrest : next + k.rest.count '\n' = line + (c :: cs).count '\n' := lines_cut line c cs
    have hi := ih h
    omega
  | case3 line c cs k next kind hk ih =>
    have hnext : line ≤ next := Nat.le_add_right ..
    have hrest : next + k.rest.count '\n' = line + (c :: cs).count '\n' := lines_cut line c cs
    rcases List.mem_cons.1 h with rfl | h
    · exact ⟨hnext, by rw [← hrest]; exact Nat.le_add_right ..⟩
    · have hi := ih h
      omega
  | case4 line c cs k next cause hk ih =>
    have hnext : line ≤ next := Nat.le_add_right ..
    have hrest : next + k.rest.count '\n' = line + (c :: cs).count '\n' := lines_cut line c cs
    rcases List.mem_cons.1 h with rfl | h
    · exact ⟨hnext, by rw [← hrest]; exact Nat.le_add_right ..⟩
    · have hi := ih h
      omega

theorem error_mem_of_collect {is : List Item} {e : LexicalError} (h : collect is = .error e) :
    .error e ∈ is := by
  induction is with
  | nil => cases h
  | cons i is ih =>
    cases i with
    | error f =>
      cases h
      exact List.mem_cons_self ..
    | token t =>
      rw [collect] at h
      cases hrest : collect is with
      | error f =>
        rw [hrest] at h
        cases h
        exact List.mem_cons_of_mem _ (ih hrest)
      | ok ts =>
        rw [hrest] at h
        cases h

end Lexer

/-- Errors of a scan are on lines of the text. -/
theorem LexicalError.line_mem {source : String} {e : LexicalError} (h : .error e ∈ items source) :
    1 ≤ e.line ∧ e.line ≤ 1 + newlines source :=
  Lexer.itemLine_of_mem h

/-! ## Tokens of a text -/

/-- One token, which is one of `ts`. -/
def Token.SameOf (ts : List Token) (t u : Token) : Prop := u = t ∧ t ∈ ts

theorem Token.linesOnly_sameOf (ts : List Token) : LinesOnly (SameOf ts) where
  kind_eq h := congrArg Token.kind h.1
  lexeme_eq h := congrArg Token.lexeme h.1

theorem Token.forall₂_sameOf (ts : List Token) : List.Forall₂ (SameOf ts) ts ts :=
  List.forall₂_same.2 fun _ ht => ⟨rfl, ht⟩

/-! ## Syntax errors -/

/-- The error blames one of the tokens. At the end marker it has no line and says so in the
message; otherwise it is on the line of the token and quotes it. -/
structure SyntaxError.PointsInto (ts : List Token) (e : SyntaxError) : Prop where
  mem : e.token ∈ ts
  line?_eq_none_iff : e.diagnostic.line? = none ↔ e.token.kind = .eof
  atEnd : e.token.kind = .eof → ∃ start, e.diagnostic.message = start ++ " at end of file."
  atToken : e.token.kind ≠ .eof → ∃ message, e.diagnostic =
    .syntactic message (some ⟨e.token.line, "at token \"" ++ e.token.lexeme ++ "\""⟩)

theorem SyntaxError.pointsInto_of_mem {ts : List Token} {e : SyntaxError} (h : e.token ∈ ts) :
    e.PointsInto ts := by
  by_cases hend : e.token.kind = .eof
  · have hd : e.diagnostic = .syntactic (e.cause.message ++ " at end of file.") none :=
      if_pos hend
    exact ⟨h, by simp [hd, hend, Diagnostic.line?], fun _ => ⟨e.cause.message, by rw [hd]; rfl⟩,
      fun hne => absurd hend hne⟩
  · have hd : e.diagnostic = .syntactic e.cause.message
        (some ⟨e.token.line, "at token \"" ++ e.token.lexeme ++ "\""⟩) := if_neg hend
    exact ⟨h, by simp [hd, hend, Diagnostic.line?], fun heof => absurd heof hend,
      fun _ => ⟨_, hd⟩⟩

theorem pointsInto_of_parse {ts : List Token} {e : SyntaxError} (h : parse ts = .error e) :
    e.PointsInto ts := by
  have hself := parse_alike (Token.linesOnly_sameOf ts) (Token.forall₂_sameOf ts)
  rw [h] at hself
  cases hself with
  | error he => exact SyntaxError.pointsInto_of_mem he.token.2

/-! ## Faults -/

theorem Session.not_isOutput_of_execute {mode : Mode} {p : Program} {i j : Interpreter}
    (hi : i.out.Unfailing) {f : Fault} (h : execute mode p i = .error f j) : ¬ f.IsOutput := by
  cases mode with
  | batch => exact Operation.not_isOutput (.runFresh p) hi (Run.bind_error h)
  | interactive => exact Operation.not_isOutput (.runShared p) hi (Run.bind_error h)

/-- In a new session, a program faults at tokens it was read from, or the output fails. -/
theorem runtimeOn_of_execute {ts : List Token} {p : Program} (hp : parse ts = .ok p)
    {mode : Mode} {out : Sink} {f : Fault} {j : Interpreter}
    (h : Session.execute mode p (.new out) = .error f j) :
    (∃ e, f = .output e) ∨
      ∃ t ∈ ts, ∃ message context, f.diagnostic = .runtimeOn t message context := by
  have hT := Token.linesOnly_sameOf ts
  have hparse := parse_alike hT (Token.forall₂_sameOf ts)
  rw [hp] at hparse
  cases hparse with
  | ok hprogram =>
    have hnew : (Session.new mode out out).Similar (Token.SameOf ts) (.new mode out out) :=
      Session.similar_new _ mode rfl rfl out out
    have hends : EndAlike (Fault.Similar Eq (Token.SameOf ts)) _ _
        (Session.execute mode p (.new out)) (Session.execute mode p (.new out)) :=
      Session.execute_similar hT hnew.interpreter mode hprogram
    rw [h] at hends
    cases hends with
    | error hself =>
      rcases hself.diagnostic_cases hT with ⟨e, rfl, -⟩ | ⟨t, u, message, context, ht, hf, -⟩
      · exact .inl ⟨e, rfl⟩
      · exact .inr ⟨t, ht.2, message, context, hf⟩

/-! ## Runs -/

theorem Program.ofSource_of_error {source : String} {e : LexicalError}
    (h : tokens? source = .error e) : Program.ofSource source = .error e.diagnostic := by
  rw [ofSource, h]
  rfl

theorem Program.ofSource_of_ok {source : String} {ts : List Token} (h : tokens? source = .ok ts) :
    Program.ofSource source = (parse ts).mapError SyntaxError.diagnostic := by
  rw [ofSource, h]
  rfl

/-- The error is a lexical one on a line of the text, a syntax error that points to a token of
the text, or a fault of its program at a token of the text. -/
inductive Diagnostic.PointsInto (source : String) : Diagnostic → Prop where
  | scan {e : LexicalError} : tokens? source = .error e → 1 ≤ e.line →
    e.line ≤ 1 + newlines source → PointsInto source (.lexical e.cause.message e.line)
  | parse {ts : List Token} {e : SyntaxError} : tokens? source = .ok ts → parse ts = .error e →
    e.PointsInto ts → PointsInto source e.diagnostic
  | run {ts : List Token} {p : Program} {t : Token} {message context : String} :
    tokens? source = .ok ts → parse ts = .ok p → t ∈ ts →
    PointsInto source (.runtime message (some ⟨t.line, context⟩))

/-- The errors of a scan are on lines of the text. And a new batch session writes to its
diagnostics the first error of the text or nothing; that error points into the text, unless
the output has failed. -/
theorem Session.errors_point_into_source (out diagnostics : Sink) (source : String) :
    let s := Session.new .batch out diagnostics
    (∀ e, .error e ∈ items source → 1 ≤ e.line ∧ e.line ≤ 1 + newlines source) ∧
      (s.run source).2.diagnostics = diagnostics.write (reported (s.error? source)) ∧
      ∀ d, s.error? source = some d →
        d.PointsInto source ∨ ¬ out.Unfailing ∧ ∃ e : SinkError, d = .io e.text := by
  intro s
  refine ⟨fun e => LexicalError.line_mem, s.diagnostics_run source, fun d hd => ?_⟩
  cases hts : tokens? source with
  | error e =>
    have hsource := Program.ofSource_of_error hts
    obtain rfl := Option.some.inj ((s.error?_of_error hsource).symm.trans hd)
    obtain ⟨hfirst, hlast⟩ := LexicalError.line_mem (Lexer.error_mem_of_collect hts)
    exact .inl (.scan hts hfirst hlast)
  | ok ts =>
    have hsource := Program.ofSource_of_ok hts
    cases hparse : PipeLang.parse ts with
    | error e =>
      rw [hparse] at hsource
      obtain rfl := Option.some.inj ((s.error?_of_error hsource).symm.trans hd)
      exact .inl (.parse hts hparse (pointsInto_of_parse hparse))
    | ok p =>
      rw [hparse] at hsource
      have hfailure : (execute .batch p).failure? (.new out) = some d :=
        (s.error?_of_ok hsource).symm.trans hd
      unfold Run.failure? at hfailure
      cases hrun : execute .batch p (.new out) with
      | ok u j =>
        rw [hrun] at hfailure
        cases hfailure
      | error f j =>
        rw [hrun] at hfailure
        obtain rfl := Option.some.inj hfailure
        rcases runtimeOn_of_execute hparse hrun with ⟨e, rfl⟩ | ⟨t, ht, message, context, hf⟩
        · exact .inr ⟨fun hout => not_isOutput_of_execute hout hrun trivial, e, rfl⟩
        · rw [hf]
          exact .inl (.run hts hparse ht)

/-- A function that is called by a function fails on the second line. -/
theorem Session.errors_point_into_source_nested :
    let source := "func f() \x7b func g() \x7b\n x; \x7d; g(); \x7d;\nf();"
    let d : Diagnostic := .runtime "Undefined variable" (some ⟨2, "x"⟩)
    (Session.new .batch .unlimited .unlimited).error? source = some d ∧ d.PointsInto source := by
  intro source d
  have hout : Sink.unlimited.Unfailing := ⟨rfl, rfl⟩
  have herror : (Session.new .batch .unlimited .unlimited).error? source = some d := by
    decide +kernel
  obtain ⟨-, -, hpoints⟩ := errors_point_into_source .unlimited .unlimited source
  exact ⟨herror, (hpoints d herror).resolve_right fun hfailed => hfailed.1 hout⟩

end PipeLang
