import Mathlib.Algebra.Order.BigOperators.Group.List
import Mathlib.Algebra.Order.Group.Nat
import PipeLang.Proofs.Interpreter.Sequence
import PipeLang.Proofs.Session.Lines
import PipeLang.Proofs.Syntax.Completeness
import PipeLang.Proofs.Token.Joining

/-!
# Inputs one behind the other

At a prompt it makes no difference whether two texts are run one after the other or as one
text with a newline between them, except for the lines of the second (`Session.run_join`).

The joined text is the first program and behind it the second, so many lines further down
(`Program.ofSource_join`), and in the shared frame a program can be split. What remains is to
compare the second text with itself further down. Its error is on a line of the text or on
one that a function of the session came from, and which it is does not depend on how far down
the text is : far enough down, no line is of both kinds (`Session.ownError_or_earlierError`).
-/

namespace PipeLang

/-! ## Programs -/

theorem Parser.Reads.program_append : ∀ {p q : Program} {us vs : List Token},
    Reads .program p us → Reads .program q vs → Reads .program (p ++ q) (us ++ vs)
  | _, _, _, _, .endOfProgram, hq => hq
  | _, _, _, _, .program hx hp, hq => by
    rw [List.append_assoc]
    exact .program hx (program_append hp hq)

/-- A source text is a program when its tokens before the end marker are one. -/
theorem Program.ofSource_eq_ok_iff {source : String} {p : Program} :
    Program.ofSource source = .ok p ↔
      ∃ us stop, tokens? source = .ok (us ++ [stop]) ∧ (∀ t ∈ us, t.kind ≠ .eof) ∧
        stop.kind = .eof ∧ Parser.Reads .program p us := by
  have hparse : ∀ {us : List Token} {stop : Token}, tokens? source = .ok (us ++ [stop]) →
      (∀ t ∈ us, t.kind ≠ .eof) → stop.kind = .eof →
        (Program.ofSource source = .ok p ↔ Parser.Reads .program p us) := by
    intro us stop h hus hstop
    have hend : stop.isEnd = true := by simp [Token.isEnd, hstop]
    have hbefore : (us ++ [stop]).takeWhile (!·.isEnd) = us := by
      rw [List.takeWhile_append_of_pos fun t ht => by simpa [Token.isEnd] using hus t ht]
      simp [hend]
    have hreads : parse (us ++ [stop]) = .ok p ↔ Parser.Reads .program p us := by
      rw [Parser.parse_eq_ok_iff ⟨stop, by simp, hend⟩, hbefore]
    rw [← hreads, Program.ofSource, h]
    change (parse (us ++ [stop])).mapError _ = _ ↔ _
    cases parse (us ++ [stop]) <;> simp [Except.mapError]
  constructor
  · intro h
    cases hts : tokens? source with
    | error e =>
      rw [Program.ofSource, hts] at h
      cases h
    | ok ts =>
      obtain ⟨us, rfl, hus⟩ := tokens?_eq_concat hts
      exact ⟨us, _, rfl, hus, rfl, (hparse hts hus rfl).1 h⟩
  · rintro ⟨us, stop, hts, hus, hstop, hp⟩
    exact (hparse hts hus hstop).2 hp

/-- Two programs, with a newline between them. -/
theorem Program.ofSource_join {a b : String} {p q : Program} {ts : List Token}
    (hts : tokens? b = .ok ts) (ha : Program.ofSource a = .ok p)
    (hb : Program.ofSource (furtherDown (1 + newlines a) b) = .ok q) :
    Program.ofSource (a ++ "\n" ++ b) = .ok (p ++ q) := by
  obtain ⟨us, stop, hus, hnoEnd, -, hp⟩ := ofSource_eq_ok_iff.1 ha
  obtain ⟨vs, stop', hvs, hnoEnd', hstop', hq⟩ := ofSource_eq_ok_iff.1 hb
  have hmoved : ts.map (Token.down (1 + newlines a)) = vs ++ [stop'] :=
    Except.ok.inj ((tokens?_furtherDown _ hts).symm.trans hvs)
  have hjoin := tokens?_join hus hts
  rw [hmoved, ← List.append_assoc] at hjoin
  refine ofSource_eq_ok_iff.2 ⟨us ++ vs, stop', hjoin, fun t ht => ?_, hstop', hp.program_append hq⟩
  rcases List.mem_append.1 ht with ht | ht
  · exact hnoEnd t ht
  · exact hnoEnd' t ht

/-! ## Texts further down -/

theorem furtherDown_zero (source : String) : furtherDown 0 source = source := by
  simp [furtherDown]

/-- A text in two places. -/
theorem sourcesSimilar_furtherDown {T : Token → Token → Prop} {source : String}
    {ts : List Token} (hts : tokens? source = .ok ts) (m n : Nat)
    (hT : ∀ t ∈ ts, T (t.down m) (t.down n)) :
    SourcesSimilar T (furtherDown m source) (furtherDown n source) := by
  refine ⟨_, _, tokens?_furtherDown m hts, tokens?_furtherDown n hts, ?_⟩
  rw [List.forall₂_map_left_iff, List.forall₂_map_right_iff, List.forall₂_same]
  exact hT

/-- The same token, here or `n` lines further down. -/
def Token.Lowered (n : Nat) (t u : Token) : Prop := u = t ∨ u = t.down n

theorem Token.linesOnly_lowered (n : Nat) : LinesOnly (Lowered n) where
  kind_eq := by rintro t u (rfl | rfl) <;> rfl
  lexeme_eq := by rintro t u (rfl | rfl) <;> rfl

/-- A text and the text further down. -/
theorem sourcesSimilar_lowered {source : String} {ts : List Token}
    (hts : tokens? source = .ok ts) (n : Nat) :
    SourcesSimilar (Token.Lowered n) source (furtherDown n source) := by
  have h := sourcesSimilar_furtherDown (T := Token.Lowered n) hts 0 n fun _ _ => Or.inr rfl
  rwa [furtherDown_zero] at h

/-- A program is one further down as well. -/
theorem Program.ofSource_furtherDown {source : String} {p : Program}
    (h : Program.ofSource source = .ok p) (n : Nat) :
    ∃ q, Program.ofSource (furtherDown n source) = .ok q := by
  obtain ⟨us, stop, hts, -⟩ := ofSource_eq_ok_iff.1 h
  have hprograms := (sourcesSimilar_lowered hts n).ofSource (Token.linesOnly_lowered n)
  rw [h] at hprograms
  generalize Program.ofSource (furtherDown n source) = x at hprograms
  cases hprograms with
  | @ok _ q _ => exact ⟨q, rfl⟩

/-! ## Lines of errors -/

namespace Diagnostic

/-- The line of the error, if it has one, is that of a token of one of the texts. -/
def OnLineOf (sources : List String) (d : Diagnostic) : Prop :=
  ∀ line, d.line? = some line →
    ∃ source ∈ sources, ∃ ts, tokens? source = .ok ts ∧ ∃ t ∈ ts, t.line = line

end Diagnostic

namespace Session

/-- The error of the text is its own : it is on a line of the text, and it moves with it. -/
structure OwnError (s : Session) (source : String) : Prop where
  moves : ∀ n, s.error? (furtherDown n source) = (s.error? source).map (·.mapLine (· + n))
  onLine : ∀ d, s.error? source = some d → d.OnLineOf [source]

/-- The error of the text is on a line of an earlier text, and it stays there wherever the
text is. -/
structure EarlierError (s : Session) (earlier : List String) (source : String) : Prop where
  stays : ∀ n, s.error? (furtherDown n source) = s.error? source
  onLine : ∀ d, s.error? source = some d → d.OnLineOf earlier

/-- The tokens of the texts, as far as these are cut without errors. -/
def tokensOf (sources : List String) : List Token :=
  sources.flatMap fun source => (tokens? source).toOption.getD []

theorem mem_tokensOf {sources : List String} {t : Token} :
    t ∈ tokensOf sources ↔ ∃ source ∈ sources, ∃ ts, tokens? source = .ok ts ∧ t ∈ ts := by
  rw [tokensOf, List.mem_flatMap]
  refine exists_congr fun source => and_congr_right fun _ => ?_
  cases tokens? source <;> simp [Except.toOption]

/-- All tokens that the functions of a session hold are from texts that it has run. -/
theorem runAll_similar (mode : Mode) (out diagnostics : Sink) (sources : List String)
    {T : Token → Token → Prop} (hT : LinesOnly T) (hself : ∀ t ∈ tokensOf sources, T t t) :
    let s := (Session.new mode out diagnostics).runAll sources
    s.Similar T s := by
  have hnew : (new mode out diagnostics).Similar T (new mode out diagnostics) :=
    similar_new T mode rfl rfl diagnostics diagnostics
  refine hnew.runAll_self hT fun source hsource ts hts t ht => ?_
  exact hself t (mem_tokensOf.2 ⟨source, hsource, ts, hts, ht⟩)

/-- Errors of a text that is moved below line `m` and of the text `n` lines down : the same
error on a line of an earlier text, not below line `m`, or errors on one line of the text. -/
inductive InTwoPlaces (earlier : List String) (ts : List Token) (m n : Nat) :
    Diagnostic → Diagnostic → Prop where
  | earlier {d : Diagnostic} : (∀ line, d.line? = some line → line ≤ m) → d.OnLineOf earlier →
    InTwoPlaces earlier ts m n d d
  | own {d : Diagnostic} {x : Token} : x ∈ ts → d.line? = some (x.line + (m + 1)) →
    InTwoPlaces earlier ts m n d (d.mapLine fun _ => x.line + n)

section

variable {s : Session} {earlier : List String} {source : String} {ts : List Token} {m : Nat}

theorem inTwoPlaces {n : Nat} {d e : Diagnostic} (hm : ∀ t ∈ tokensOf earlier, t.line ≤ m)
    (h : d.Similar (fun t u => (t ∈ tokensOf earlier ∧ u = t) ∨
      ∃ x ∈ ts, t = x.down (m + 1) ∧ u = x.down n) e) :
    InTwoPlaces earlier ts m n d e := by
  rcases h with ⟨hline, rfl⟩ | ⟨t, u, ⟨ht, rfl⟩ | ⟨x, hx, rfl, rfl⟩, hline, rfl⟩
  · have hno : ∀ line, e.line? ≠ some line := by simp [hline]
    exact .earlier (fun line h => absurd h (hno line)) fun line h => absurd h (hno line)
  · have hthere : ∀ line, d.line? = some line → u.line = line := fun line h =>
      Option.some.inj (hline.symm.trans h)
    rw [Diagnostic.mapLine_eq_self hthere]
    refine .earlier (fun line h => hthere line h ▸ hm u ht) fun line h => ?_
    obtain ⟨source, hsource, ts, hts, hu⟩ := mem_tokensOf.1 ht
    exact ⟨source, hsource, ts, hts, u, hu, hthere line h⟩
  · exact .own hx hline

theorem error?_inTwoPlaces (hts : tokens? source = .ok ts)
    (hs : ∀ T, LinesOnly T → (∀ t ∈ tokensOf earlier, T t t) → s.Similar T s)
    (hm : ∀ t ∈ tokensOf earlier, t.line ≤ m) (n : Nat) :
    Option.Rel (InTwoPlaces earlier ts m n) (s.error? (furtherDown (m + 1) source))
      (s.error? (furtherDown n source)) := by
  -- The tokens of earlier texts are where they are; those of the text have moved.
  let T (t u : Token) : Prop :=
    (t ∈ tokensOf earlier ∧ u = t) ∨ ∃ x ∈ ts, t = x.down (m + 1) ∧ u = x.down n
  have hT : LinesOnly T :=
    { kind_eq := by rintro t u (⟨-, rfl⟩ | ⟨x, -, rfl, rfl⟩) <;> rfl
      lexeme_eq := by rintro t u (⟨-, rfl⟩ | ⟨x, -, rfl, rfl⟩) <;> rfl }
  have hself : s.Similar T s := hs T hT fun t ht => Or.inl ⟨ht, rfl⟩
  have hmoved : SourcesSimilar T (furtherDown (m + 1) source) (furtherDown n source) :=
    sourcesSimilar_furtherDown hts (m + 1) n fun t ht => Or.inr ⟨t, ht, rfl, rfl⟩
  have herror := (hself.step hT hmoved).error
  generalize s.error? (furtherDown (m + 1) source) = far at herror ⊢
  generalize s.error? (furtherDown n source) = there at herror ⊢
  cases herror with
  | none => exact .none
  | some h => exact .some (inTwoPlaces hm h)

section

variable {d : Diagnostic}
  (h : ∀ n, ∃ e, s.error? (furtherDown n source) = some e ∧ InTwoPlaces earlier ts m n d e)

include h

/-- An error that is not below line `m` does not move with the text. -/
theorem earlierError (hlines : ∀ line, d.line? = some line → line ≤ m)
    (honLine : d.OnLineOf earlier) : s.EarlierError earlier source := by
  have hstays (n : Nat) : s.error? (furtherDown n source) = some d := by
    obtain ⟨e, hthere, he⟩ := h n
    cases he with
    | earlier => exact hthere
    | own _ hline =>
      have hle := hlines _ hline
      omega
  have hhere : s.error? source = some d := furtherDown_zero source ▸ hstays 0
  exact ⟨fun n => (hstays n).trans hhere.symm, fun _ hd =>
    Option.some.inj (hhere.symm.trans hd) ▸ honLine⟩

/-- One below line `m` is on a line of the text. -/
theorem ownError (hts : tokens? source = .ok ts) {x : Token} (hx : x ∈ ts)
    (hline : d.line? = some (x.line + (m + 1))) : s.OwnError source := by
  have hmoves (n : Nat) :
      s.error? (furtherDown n source) = some (d.mapLine fun _ => x.line + n) := by
    obtain ⟨e, hthere, he⟩ := h n
    cases he with
    | earlier hlines =>
      have hle := hlines _ hline
      omega
    | own _ hline' =>
      have hlines := Nat.add_right_cancel (Option.some.inj (hline'.symm.trans hline))
      rw [hthere, hlines]
  have hhere : s.error? source = some (d.mapLine fun _ => x.line) :=
    furtherDown_zero source ▸ hmoves 0
  refine ⟨fun n => ?_, fun e he line hline' => ?_⟩
  · rw [hmoves, hhere, Option.map_some, Diagnostic.mapLine_mapLine]
    rfl
  · obtain rfl := Option.some.inj (hhere.symm.trans he)
    rw [Diagnostic.line?_mapLine, hline] at hline'
    exact ⟨source, by simp, ts, hts, x, hx, Option.some.inj hline'⟩

end

/-- The error of a text, if there is one, is its own or it is on a line of an earlier text. -/
theorem ownError_or_earlierError (hts : tokens? source = .ok ts)
    (hs : ∀ T, LinesOnly T → (∀ t ∈ tokensOf earlier, T t t) → s.Similar T s) :
    s.OwnError source ∨ s.EarlierError earlier source := by
  obtain ⟨m, hm⟩ : ∃ m, ∀ t ∈ tokensOf earlier, t.line ≤ m :=
    ⟨((tokensOf earlier).map Token.line).sum, fun t ht =>
      List.single_le_sum (fun _ _ => Nat.zero_le _) _ (List.mem_map_of_mem ht)⟩
  have herror := error?_inTwoPlaces hts hs hm
  generalize s.error? (furtherDown (m + 1) source) = far at herror
  cases far with
  | none =>
    have hnone (n : Nat) : s.error? (furtherDown n source) = none := by
      have h := herror n
      generalize s.error? (furtherDown n source) = there at h ⊢
      cases h
      rfl
    have hhere : s.error? source = none := furtherDown_zero source ▸ hnone 0
    exact Or.inl ⟨fun n => by rw [hnone, hhere]; rfl, by simp [hhere]⟩
  | some d =>
    have hsome (n : Nat) :
        ∃ e, s.error? (furtherDown n source) = some e ∧ InTwoPlaces earlier ts m n d e := by
      have h := herror n
      generalize s.error? (furtherDown n source) = there at h ⊢
      cases h with
      | some h => exact ⟨_, rfl, h⟩
    obtain ⟨e, -, he⟩ := hsome 0
    cases he with
    | earlier hlines honLine => exact Or.inr (earlierError hsome hlines honLine)
    | own hx hline => exact Or.inl (ownError hsome hts hx hline)

end

/-! ## Two runs and one -/

section

variable {s : Session} {a b : String} {p q : Program} (hmode : s.mode = .interactive)
  (hout : s.interpreter.out.Unfailing) (ha : Program.ofSource a = .ok p)
  (hb : Program.ofSource b = .ok (p ++ q))

include hmode hout ha hb

/-- A program that begins with one that fails fails like it. -/
theorem run_append_of_some {d : Diagnostic} (h : s.error? a = some d) : s.run b = s.run a := by
  rw [error?_of_ok s ha, hmode] at h
  have happend := Interpreter.runShared_append hout p q
  have hends : execute s.mode (p ++ q) s.interpreter = execute s.mode p s.interpreter := by
    rw [hmode]
    change Interpreter.runShared (p ++ q) s.interpreter = Interpreter.runShared p s.interpreter
    change (Interpreter.runShared p).failure? s.interpreter = _ at h
    cases hp : Interpreter.runShared p s.interpreter with
    | ok u j => simp [Run.failure?, hp] at h
    | error f j => rw [happend, Run.bind_error hp]
  unfold run
  rw [ha, hb]
  dsimp only
  rw [hends]

/-- A program that begins with one that does not fail goes on like the rest. -/
theorem run_append_of_none {c : String} (hc : Program.ofSource c = .ok q)
    (h : s.error? a = none) :
    s.error? b = (s.run a).2.error? c ∧
      s.interpreterAfter b = (s.run a).2.interpreterAfter c := by
  have hsecond : (s.run a).2.interpreter = (Interpreter.runShared p).after s.interpreter := by
    rw [interpreter_run, interpreterAfter_of_ok s ha, hmode]
    rfl
  have happend := Interpreter.runShared_append hout p q
  rw [error?_of_ok s ha, hmode] at h
  rw [error?_of_ok s hb, interpreterAfter_of_ok s hb, error?_of_ok _ hc,
    interpreterAfter_of_ok _ hc, mode_run, hmode, hsecond]
  change (Interpreter.runShared p).failure? s.interpreter = _ at h
  change (Interpreter.runShared (p ++ q)).failure? s.interpreter =
      (Interpreter.runShared q).failure? _ ∧
    (Interpreter.runShared (p ++ q)).after s.interpreter = (Interpreter.runShared q).after _
  unfold Run.failure? Run.after at *
  cases hp : Interpreter.runShared p s.interpreter with
  | error f j => simp [hp] at h
  | ok u j =>
    rw [happend, Run.bind_ok hp]
    exact ⟨rfl, rfl⟩

end

/-- At a prompt, two texts with a newline between them are to a session what they are when
they are run one after the other, the second only if the first has no error : the same
answer, the same output, the same error, and the same frames up to the lines of tokens. An
error on a line of the second text is on a line that is larger by the lines of the first. -/
theorem run_join {out : Sink} (diagnostics : Sink) (sources : List String) {a b : String}
    {p q : Program} (hout : out.Unfailing) (ha : Program.ofSource a = .ok p)
    (hb : Program.ofSource b = .ok q) :
    let s := (Session.new .interactive out diagnostics).runAll sources
    let s' := (s.run a).2
    let joined := a ++ "\n" ++ b
    (∀ d, s.error? a = some d → s.run joined = s.run a) ∧
      (s.error? a = none →
        (s.run joined).1 = (s'.run b).1 ∧
        (s'.run b).2.interpreter.Similar (Token.Lowered (1 + newlines a))
          (s.run joined).2.interpreter ∧
        (s.run joined).2.interpreter.out.written = (s'.run b).2.interpreter.out.written ∧
        (s'.run b).2.diagnostics = s.diagnostics.write (reported (s'.error? b)) ∧
        (s.run joined).2.diagnostics = s.diagnostics.write (reported (s.error? joined)) ∧
        (s'.OwnError b ∧
            s.error? joined = (s'.error? b).map (·.mapLine (· + (1 + newlines a))) ∨
          s'.EarlierError (sources ++ [a]) b ∧ s.error? joined = s'.error? b)) := by
  intro s s' joined
  obtain ⟨hmode, -, hunfailing⟩ : s.mode = .interactive ∧ s.interpreter.AtRest ∧
      s.interpreter.out.Unfailing := runAll_new .interactive diagnostics sources hout
  obtain ⟨us, stop, hts, -⟩ := Program.ofSource_eq_ok_iff.1 hb
  obtain ⟨q', hq'⟩ := Program.ofSource_furtherDown hb (1 + newlines a)
  have hjoined : Program.ofSource joined = .ok (p ++ q') := Program.ofSource_join hts ha hq'
  refine ⟨fun d hd => run_append_of_some hmode hunfailing ha hjoined hd, fun hnone => ?_⟩
  obtain ⟨herror, hafter⟩ := run_append_of_none hmode hunfailing ha hjoined hq' hnone
  have hs' : s' = (Session.new .interactive out diagnostics).runAll (sources ++ [a]) :=
    (runAll_append sources [a] _).symm
  have hself : ∀ T, LinesOnly T → (∀ t ∈ tokensOf (sources ++ [a]), T t t) → s'.Similar T s' :=
    fun T hT h => hs' ▸ runAll_similar .interactive out diagnostics (sources ++ [a]) hT h
  have hlines := Token.linesOnly_lowered (1 + newlines a)
  have hstep := (hself _ hlines fun _ _ => Or.inl rfl).step hlines
    (sourcesSimilar_lowered hts (1 + newlines a))
  obtain ⟨bytes, hwritten, hwritten'⟩ := hstep.written
  have hmode' : s'.mode = .interactive := (mode_run s a).trans hmode
  have hsilent : s'.diagnostics = s.diagnostics := by
    rw [diagnostics_run s a, hnone, reported, Sink.write_empty]
  refine ⟨?_, ?_, ?_, ?_, ?_, ?_⟩
  · rw [run_fst s', run_fst s, hmode, hmode', status_interactive, status_interactive]
  · rw [interpreter_run s', interpreter_run s, hafter]
    exact hstep.interpreter
  · rw [interpreter_run s', interpreter_run s, hafter, hwritten, hwritten']
  · rw [diagnostics_run s', hsilent]
  · rw [diagnostics_run s]
  · rcases ownError_or_earlierError hts hself with hown | hearlier
    · exact Or.inl ⟨hown, herror.trans (hown.moves _)⟩
    · exact Or.inr ⟨hearlier, herror.trans (hearlier.stays _)⟩

/-- A declaration, and a text that fails because of it. -/
theorem run_join_immutable :
    let s := Session.new .interactive .unlimited .unlimited
    let s' := (s.run "let x = nil;").2
    let joined := "let x = nil;" ++ "\n" ++ "x = x;"
    s.error? "let x = nil;" = none ∧ s.error? joined ≠ none ∧
      (s.run joined).2.interpreter.out.written =
        (s'.run "x = x;").2.interpreter.out.written ∧
      (s'.OwnError "x = x;" ∧
          s.error? joined =
            (s'.error? "x = x;").map (·.mapLine (· + (1 + newlines "let x = nil;"))) ∨
        s'.EarlierError ["let x = nil;"] "x = x;" ∧ s.error? joined = s'.error? "x = x;") := by
  have hout : Sink.unlimited.Unfailing := ⟨rfl, rfl⟩
  have reads : ∀ source, (Program.ofSource source).isOk → ∃ p, Program.ofSource source = .ok p := by
    intro source h
    cases hp : Program.ofSource source with
    | error d => simp [hp, Except.isOk, Except.toBool] at h
    | ok p => exact ⟨p, rfl⟩
  obtain ⟨p, ha⟩ := reads "let x = nil;" (by decide +kernel)
  obtain ⟨q, hb⟩ := reads "x = x;" (by decide +kernel)
  have hnone : (Session.new .interactive .unlimited .unlimited).error? "let x = nil;" = none := by
    decide +kernel
  have hsome : (Session.new .interactive .unlimited .unlimited).error?
      ("let x = nil;" ++ "\n" ++ "x = x;") ≠ none := by
    decide +kernel
  obtain ⟨-, hjoin⟩ := run_join .unlimited [] hout ha hb
  obtain ⟨-, -, hwritten, -, -, herror⟩ := hjoin hnone
  exact ⟨hnone, hsome, hwritten, herror⟩

end Session

end PipeLang
