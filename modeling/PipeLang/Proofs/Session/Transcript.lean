import PipeLang.Proofs.Session.Lines

/-!
# What sessions show

Of a source text, a session shows its answer, the bytes that it adds to the output, and those
that it adds to the diagnostics (`Session.shown`). Of texts that are run one after the other it
shows a transcript.

The layout of texts makes no difference to a transcript : new sessions that are fed texts of
the same tokens, on whatever lines, show the same, but for the line numbers in the
diagnostics (`Session.transcript_layout`).
-/

namespace PipeLang

/-! ## Transcripts -/

/-- What a session shows of a text : the answer, and what is added to the output and to the
diagnostics. -/
structure Shown where
  status : Status
  output : ByteArray
  diagnostics : ByteArray

namespace Session

/-- What the session shows of a text. -/
def shown (s : Session) (source : String) : Shown :=
  let (status, t) := s.run source
  ⟨status, s.interpreter.out.since t.interpreter.out, s.diagnostics.since t.diagnostics⟩

/-- What the session shows of texts that are run one after the other. -/
def transcript : List String → Session → List Shown
  | [], _ => []
  | source :: sources, s => s.shown source :: transcript sources (s.run source).2

/-- The parts of what is shown, when the diagnostics take everything. -/
theorem shown_eq {s : Session} (h : s.diagnostics.Unfailing) (source : String) :
    s.shown source = ⟨status s.mode (s.error? source),
      s.interpreter.out.since (s.interpreterAfter source).out, reported (s.error? source)⟩ := by
  unfold shown
  rw [run_eq]
  exact congrArg _ (Sink.since_eq (h.written_write _))

end Session

/-! ## Line numbers aside -/

/-- The same kind with the same value, and the same text, on whatever line. -/
structure Token.SameButLine (t u : Token) : Prop where
  kind_eq : u.kind = t.kind
  lexeme_eq : u.lexeme = t.lexeme

theorem Token.linesOnly_sameButLine : LinesOnly SameButLine where
  kind_eq h := h.kind_eq
  lexeme_eq h := h.lexeme_eq

instance : DecidableRel Token.SameButLine := fun t u =>
  decidable_of_iff (u.kind = t.kind ∧ u.lexeme = t.lexeme)
    ⟨fun h => ⟨h.1, h.2⟩, fun h => ⟨h.kind_eq, h.lexeme_eq⟩⟩

/-- Whether two texts are similar is seen by cutting them. -/
instance (T : Token → Token → Prop) [DecidableRel T] (a b : String) :
    Decidable (SourcesSimilar T a b) :=
  match ha : tokens? a, hb : tokens? b with
  | .ok ts, .ok us =>
    decidable_of_iff (List.Forall₂ T ts us)
      ⟨fun h => ⟨ts, us, ha, hb, h⟩, by
        rintro ⟨ts', us', ha', hb', h⟩
        obtain rfl := Except.ok.inj (ha.symm.trans ha')
        obtain rfl := Except.ok.inj (hb.symm.trans hb')
        exact h⟩
  | .error _, _ => isFalse fun ⟨_, _, ha', _⟩ => nomatch ha.symm.trans ha'
  | .ok _, .error _ => isFalse fun ⟨_, _, _, hb', _⟩ => nomatch hb.symm.trans hb'

/-- The same error, on whatever line if it has one. -/
def Diagnostic.SameButLine (d e : Diagnostic) : Prop := ∃ line, e = d.mapLine fun _ => line

theorem Diagnostic.Similar.sameButLine {T : Token → Token → Prop} {d e : Diagnostic}
    (h : d.Similar T e) : d.SameButLine e := by
  rcases h with ⟨hline, rfl⟩ | ⟨t, u, -, -, rfl⟩
  · exact ⟨0, (mapLine_eq_self fun line h => nomatch hline.symm.trans h).symm⟩
  · exact ⟨u.line, rfl⟩

/-- The same answer, the same output, and the same error or none, on whatever line. -/
structure Shown.SameButLine (a b : Shown) : Prop where
  status_eq : b.status = a.status
  output_eq : b.output = a.output
  diagnostics : ∃ d e : Option Diagnostic, Option.Rel Diagnostic.SameButLine d e ∧
    a.diagnostics = Session.reported d ∧ b.diagnostics = Session.reported e

namespace Session

theorem status_eq_of_rel (mode : Mode) {D : Diagnostic → Diagnostic → Prop}
    {d e : Option Diagnostic} (h : Option.Rel D d e) : status mode e = status mode d := by
  cases h <;> rfl

/-- Similar sessions show the same of similar texts. -/
theorem Similar.shown {s t : Session} {T : Token → Token → Prop} (hT : LinesOnly T)
    (h : s.Similar T t) (hs : s.diagnostics.Unfailing) (ht : t.diagnostics.Unfailing)
    {a b : String} (hab : SourcesSimilar T a b) : (s.shown a).SameButLine (t.shown b) := by
  have hstep := h.step hT hab
  obtain ⟨bytes, hleft, hright⟩ := hstep.written
  have herror : Option.Rel Diagnostic.SameButLine (s.error? a) (t.error? b) := by
    have hsimilar := hstep.error
    generalize s.error? a = d at hsimilar
    generalize t.error? b = e at hsimilar
    cases hsimilar with
    | none => exact .none
    | some hde => exact .some hde.sameButLine
  rw [shown_eq hs, shown_eq ht]
  exact
    { status_eq := h.mode_eq ▸ status_eq_of_rel s.mode herror
      output_eq := (Sink.since_eq hright).trans (Sink.since_eq hleft).symm
      diagnostics := ⟨_, _, herror, rfl, rfl⟩ }

/-- A step leaves the sessions similar, so the rest of the texts can follow. -/
theorem Similar.transcript {s t : Session} {T : Token → Token → Prop} (hT : LinesOnly T)
    (h : s.Similar T t) (hs : s.diagnostics.Unfailing) (ht : t.diagnostics.Unfailing)
    {as bs : List String} (hab : List.Forall₂ (SourcesSimilar T) as bs) :
    List.Forall₂ Shown.SameButLine (s.transcript as) (t.transcript bs) := by
  induction hab generalizing s t with
  | nil => exact .nil
  | @cons a b as bs hab _ ih =>
    have hs' : (s.run a).2.diagnostics.Unfailing := by
      rw [diagnostics_run]
      exact hs.write _
    have ht' : (t.run b).2.diagnostics.Unfailing := by
      rw [diagnostics_run]
      exact ht.write _
    exact .cons (h.shown hT hs ht hab) (ih (h.run hT hab) hs' ht')

/-- Layout makes no difference. New sessions of one mode, with sinks that cannot fail, are
fed texts that are cut without errors, one by one into tokens of the same kinds, values and
texts, on whatever lines. Then for each text they show the same answer, the same output and
the same error or none, but for the line on which the error is shown. -/
theorem transcript_layout (mode : Mode) {out out' diagnostics diagnostics' : Sink}
    (hout : out.Unfailing) (hout' : out'.Unfailing) (hdiagnostics : diagnostics.Unfailing)
    (hdiagnostics' : diagnostics'.Unfailing) {sources sources' : List String}
    (h : List.Forall₂ (SourcesSimilar Token.SameButLine) sources sources') :
    List.Forall₂ Shown.SameButLine ((new mode out diagnostics).transcript sources)
      ((new mode out' diagnostics').transcript sources') := by
  have hnew := similar_new Token.SameButLine mode (hout'.room_eq.trans hout.room_eq.symm)
    (hout'.flushes_eq.trans hout.flushes_eq.symm) diagnostics diagnostics'
  exact hnew.transcript Token.linesOnly_sameButLine hdiagnostics hdiagnostics' h

/-- A function that is called by a later text fails on another line. -/
theorem transcript_layout_closure :
    let sources := ["func f() \x7b x; \x7d;", "f();"]
    let sources' := ["func f()\n\x7b // no x here\n\tx; \x7d;", "\n f ( ) ; // f"]
    List.Forall₂ (SourcesSimilar Token.SameButLine) sources sources' ∧
      List.Forall₂ Shown.SameButLine
        ((new .interactive .unlimited .unlimited).transcript sources)
        ((new .interactive .unlimited .unlimited).transcript sources') := by
  intro sources sources'
  have hsink : Sink.unlimited.Unfailing := ⟨rfl, rfl⟩
  have hsimilar : List.Forall₂ (SourcesSimilar Token.SameButLine) sources sources' := by
    decide +kernel
  exact ⟨hsimilar, transcript_layout .interactive hsink hsink hsink hsink hsimilar⟩

end Session

end PipeLang
