import PipeLang.Proofs.Interpreter.Lines
import PipeLang.Proofs.Session.Runs
import PipeLang.Proofs.Syntax.Layout

/-!
# Sessions on texts that differ in lines only

Two texts of the same tokens on other lines are the same to a session, but for the lines of
errors (`Session.Similar.run`).
-/

namespace PipeLang

/-! ## Errors on other lines -/

namespace Diagnostic

/-- The error on another line, when it has one. -/
def mapLine (f : Nat → Nat) : Diagnostic → Diagnostic
  | lexical message line => lexical message (f line)
  | syntactic message location => syntactic message (location.map fun l => ⟨f l.line, l.context⟩)
  | runtime message location => runtime message (location.map fun l => ⟨f l.line, l.context⟩)
  | io text => io text

/-- Lines that are changed twice. -/
theorem mapLine_mapLine {d : Diagnostic} (f g : Nat → Nat) :
    (d.mapLine f).mapLine g = d.mapLine (g ∘ f) := by
  cases d <;> simp [mapLine, Function.comp_def]

/-- The line that is shown is the changed one. -/
theorem line?_mapLine {d : Diagnostic} (f : Nat → Nat) : (d.mapLine f).line? = d.line?.map f := by
  cases d <;> simp [mapLine, line?, Function.comp_def]

/-- On the line where it is. -/
theorem mapLine_eq_self {d : Diagnostic} {f : Nat → Nat}
    (hf : ∀ line, d.line? = some line → f line = line) : d.mapLine f = d := by
  cases d with
  | io text => rfl
  | lexical message line => rw [mapLine, hf line rfl]
  | syntactic message location | runtime message location =>
    cases location with
    | none => rfl
    | some l => simp [mapLine, hf l.line rfl]

/-- The same error, without a line or on the lines of related tokens. -/
def Similar (T : Token → Token → Prop) (d e : Diagnostic) : Prop :=
  (d.line? = none ∧ e = d) ∨
    ∃ t u, T t u ∧ d.line? = some t.line ∧ e = d.mapLine fun _ => u.line

variable {T : Token → Token → Prop}

/-- Errors at related tokens differ in their lines only. -/
theorem similar_runtimeOn {t u : Token} (h : T t u) (message context : String) :
    (runtimeOn t message context).Similar T (runtimeOn u message context) :=
  Or.inr ⟨t, u, h, rfl, rfl⟩

/-- The same for syntax errors, which show the lexeme and know an end marker by its kind. -/
theorem similar_blaming (hT : LinesOnly T) {t u : Token} (h : T t u) (message : String) :
    (blaming t message).Similar T (blaming u message) := by
  unfold blaming
  rw [hT.kind_eq h, hT.lexeme_eq h]
  split
  · exact Or.inl ⟨rfl, rfl⟩
  · exact Or.inr ⟨t, u, h, rfl, rfl⟩

end Diagnostic

variable {T : Token → Token → Prop}

theorem Fault.Similar.diagnostic {F : FrameId → FrameId → Prop} (hT : LinesOnly T)
    {f g : Fault} (h : f.Similar F T g) : f.diagnostic.Similar T g.diagnostic := by
  rcases h.diagnostic_cases hT with
    ⟨e, rfl, rfl⟩ | ⟨t, u, message, context, htu, hf, hg⟩
  · exact Or.inl ⟨rfl, rfl⟩
  · rw [hf, hg]
    exact Diagnostic.similar_runtimeOn htu message context

theorem SyntaxError.Similar.diagnostic (hT : LinesOnly T) {e f : SyntaxError}
    (h : e.Similar T f) : e.diagnostic.Similar T f.diagnostic := by
  unfold SyntaxError.diagnostic
  rw [h.cause_eq]
  exact Diagnostic.similar_blaming hT h.token _

/-! ## Texts -/

/-- Both texts are cut without errors, and into related tokens. -/
def SourcesSimilar (T : Token → Token → Prop) (a b : String) : Prop :=
  ∃ ts us, tokens? a = .ok ts ∧ tokens? b = .ok us ∧ List.Forall₂ T ts us

/-- Similar texts are parsed to similar programs, or both are rejected with similar errors. -/
theorem SourcesSimilar.ofSource (hT : LinesOnly T) {a b : String} (h : SourcesSimilar T a b) :
    Agree (Diagnostic.Similar T) (Stmt.AllSimilar T) (Program.ofSource a)
      (Program.ofSource b) := by
  obtain ⟨ts, us, ha, hb, htsus⟩ := h
  have hparse := parse_alike hT htsus
  unfold Program.ofSource
  rw [ha, hb]
  change Agree _ _ ((parse ts).mapError _) ((parse us).mapError _)
  generalize parse ts = x at hparse
  generalize parse us = y at hparse
  cases hparse with
  | ok hp => exact .ok hp
  | error he => exact .error (he.diagnostic hT)

/-! ## Sessions -/

namespace Session

/-- Sessions of one mode with similar interpreters. -/
structure Similar (T : Token → Token → Prop) (s t : Session) : Prop where
  mode_eq : t.mode = s.mode
  interpreter : s.interpreter.Similar T t.interpreter

/-- The mode decides where a program is executed, and it is the same for both. -/
theorem execute_similar (hT : LinesOnly T) {i j : Interpreter} (h : i.Similar T j) (mode : Mode)
    {p q : Program} (hpq : Stmt.AllSimilar T p q) :
    Interpreter.Similar.Results T i j (execute mode p) (execute mode q) := by
  cases mode with
  | batch => exact h.runFresh hT hpq
  | interactive => exact h.runShared hT hpq

/-- What two sessions make of two texts : similar errors or none, similar interpreters, and
the same output. -/
structure Step (T : Token → Token → Prop) (s t : Session) (a b : String) : Prop where
  error : Option.Rel (Diagnostic.Similar T) (s.error? a) (t.error? b)
  interpreter : (s.interpreterAfter a).Similar T (t.interpreterAfter b)
  written : ∃ bytes,
    (s.interpreterAfter a).out.written = s.interpreter.out.written ++ bytes ∧
      (t.interpreterAfter b).out.written = t.interpreter.out.written ++ bytes

namespace Similar

variable {s t : Session} {a b : String}

/-- One text in each of two similar sessions. -/
theorem step (hT : LinesOnly T) (h : s.Similar T t) (hab : SourcesSimilar T a b) :
    Step T s t a b := by
  have hprograms := hab.ofSource hT
  generalize ha : Program.ofSource a = x at hprograms
  generalize hb : Program.ofSource b = y at hprograms
  cases hprograms with
  | error hd =>
    refine ⟨?_, ?_, ?_⟩
    · rw [error?_of_error s ha, error?_of_error t hb]
      exact .some hd
    · rw [interpreterAfter_of_error s ha, interpreterAfter_of_error t hb]
      exact h.interpreter
    · rw [interpreterAfter_of_error s ha, interpreterAfter_of_error t hb]
      exact ⟨.empty, by simp, by simp⟩
  | ok hpq =>
    have hends := execute_similar hT h.interpreter s.mode hpq
    refine ⟨?_, ?_, ?_⟩
    · rw [error?_of_ok s ha, error?_of_ok t hb, h.mode_eq]
      exact hends.failure? fun f g hfg => hfg.diagnostic hT
    · rw [interpreterAfter_of_ok s ha, interpreterAfter_of_ok t hb, h.mode_eq]
      exact hends.after.1
    · rw [interpreterAfter_of_ok s ha, interpreterAfter_of_ok t hb, h.mode_eq]
      exact hends.after.2

/-- Similar texts leave similar sessions similar. -/
theorem run (hT : LinesOnly T) (h : s.Similar T t) (hab : SourcesSimilar T a b) :
    (s.run a).2.Similar T (t.run b).2 := by
  rw [run_eq, run_eq]
  exact ⟨h.mode_eq, (h.step hT hab).interpreter⟩

/-- So does a text whose tokens are related to themselves, and one that is cut with errors,
since nothing is executed of it. -/
theorem run_self (hT : LinesOnly T) (h : s.Similar T t)
    (ha : ∀ ts, tokens? a = .ok ts → ∀ x ∈ ts, T x x) : (s.run a).2.Similar T (t.run a).2 := by
  cases hts : tokens? a with
  | ok ts => exact h.run hT ⟨ts, ts, hts, hts, List.forall₂_same.2 (ha ts hts)⟩
  | error e =>
    have hsource : Program.ofSource a = .error e.diagnostic := by
      unfold Program.ofSource
      rw [hts]
      rfl
    rw [run_eq, run_eq, interpreterAfter_of_error s hsource, interpreterAfter_of_error t hsource]
    exact ⟨h.mode_eq, h.interpreter⟩

/-- By induction on the texts, where related tokens include those of the texts themselves. -/
theorem runAll_self (hT : LinesOnly T) {sources : List String} (h : s.Similar T t)
    (hsources : ∀ a ∈ sources, ∀ ts, tokens? a = .ok ts → ∀ x ∈ ts, T x x) :
    (s.runAll sources).Similar T (t.runAll sources) := by
  induction sources generalizing s t with
  | nil => exact h
  | cons a sources ih =>
    exact ih (h.run_self hT (hsources a (List.mem_cons_self ..)))
      fun b hb => hsources b (List.mem_cons_of_mem a hb)

end Similar

/-- The builtins have no tokens. -/
theorem similar_new (T : Token → Token → Prop) (mode : Mode) {out out' : Sink}
    (hroom : out'.room = out.room) (hflushes : out'.flushes = out.flushes)
    (diagnostics diagnostics' : Sink) :
    (new mode out diagnostics).Similar T (new mode out' diagnostics') where
  mode_eq := rfl
  interpreter :=
    { store := by
        rintro a _ rfl
        exact initialStore_similar a
      shared_eq := rfl
      depth_eq := rfl
      room_eq := hroom
      flushes_eq := hflushes }

end Session

end PipeLang
