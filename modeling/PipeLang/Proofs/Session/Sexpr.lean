import PipeLang.Proofs.Session.Joining
import PipeLang.Proofs.Syntax.Sexpr
import PipeLang.Proofs.Token.Spacing

/-!
# Source texts and prefix expressions

The tokens of a source text are lexemes of it, so a program that is read from one is spelled
(`Program.allSpelled_of_ofSource`). Two source texts have one text of prefix expressions
exactly when their programs are equal but for lines, call tokens and the way first arguments
were passed (`Program.sexpr_eq_iff`).
-/

namespace PipeLang

/-- The number that an item is. -/
def Item.number? : Item → Option Float
  | .token ⟨.number x, _, _⟩ => some x
  | _ => none

/-- Every number of the source text is finite. -/
def FiniteNumbers (source : String) : Prop :=
  ∀ i ∈ items source, ∀ x ∈ i.number?, Number.IsFinite x

instance (source : String) : Decidable (FiniteNumbers source) :=
  inferInstanceAs (Decidable (∀ i ∈ items source, ∀ x ∈ i.number?, Number.IsFinite x))

theorem FiniteNumbers.regular {source : String} (h : FiniteNumbers source) {t : Token}
    (ht : .token t ∈ items source) (hkind : t.kind ≠ .eof) : t.Regular where
  spelled := Lexer.lexeme_of_mem ht hkind
  finite x hx := by
    obtain ⟨kind, lexeme, line⟩ := t
    cases hx
    exact h _ ht x rfl

/-- A program that is read from a source text with finite numbers is spelled. -/
theorem Program.allSpelled_of_ofSource {source : String} {p : Program}
    (h : Program.ofSource source = .ok p) (hfinite : FiniteNumbers source) :
    Stmt.AllSpelled p := by
  obtain ⟨us, stop, hts, hus, -, hp⟩ := ofSource_eq_ok_iff.1 h
  have hitems : items source = (us ++ [stop]).map .token := Lexer.collect_eq_ok_iff.1 hts
  refine hp.spelled fun t ht => hfinite.regular ?_ (hus t ht)
  rw [hitems]
  exact List.mem_map_of_mem (List.mem_append_left _ ht)

/-- The text of prefix expressions tells everything of a program but lines, call tokens and the
way first arguments were passed, and nothing of these. -/
theorem Program.sexpr_eq_iff {source source' : String} {p q : Program}
    (hp : Program.ofSource source = .ok p) (hq : Program.ofSource source' = .ok q)
    (hfinite : FiniteNumbers source) (hfinite' : FiniteNumbers source') :
    Program.sexpr p = Program.sexpr q ↔ Program.bare p = Program.bare q :=
  Program.sexpr_eq_iff_of_spelled (allSpelled_of_ofSource hp hfinite)
    (allSpelled_of_ofSource hq hfinite')

/-- A call and a pipe into it, over lines of their own. -/
theorem Program.sexpr_eq_iff_piped :
    let source := "let mut a = -1.50; print f(\"(\n\", a);"
    let source' := "let mut a = -1.5;\n\nprint \"(\n\" -> f(a);"
    FiniteNumbers source ∧ FiniteNumbers source' ∧
      ∃ p q, Program.ofSource source = .ok p ∧ Program.ofSource source' = .ok q ∧
        Program.sexpr p = "(let mut a (- 1.5))\n(print (call f \"(\n\" a))" ∧
        Program.bare p = Program.bare q := by
  intro source source'
  have hfinite : FiniteNumbers source := by decide +kernel
  have hfinite' : FiniteNumbers source' := by decide +kernel
  have hread : ∀ s ∈ [source, source'], (Program.ofSource s).toOption.map Program.sexpr =
      some "(let mut a (- 1.5))\n(print (call f \"(\n\" a))" := by decide +kernel
  have hprogram (s : String) (hs : s ∈ [source, source']) : ∃ p, Program.ofSource s = .ok p ∧
      Program.sexpr p = "(let mut a (- 1.5))\n(print (call f \"(\n\" a))" := by
    have hs := hread s hs
    cases hp : Program.ofSource s with
    | error d => simp [hp, Except.toOption] at hs
    | ok p => exact ⟨p, rfl, by simpa [hp, Except.toOption] using hs⟩
  obtain ⟨p, hp, htext⟩ := hprogram source (by simp)
  obtain ⟨q, hq, htext'⟩ := hprogram source' (by simp)
  exact ⟨hfinite, hfinite', p, q, hp, hq, htext,
    (Program.sexpr_eq_iff hp hq hfinite hfinite').1 (htext.trans htext'.symm)⟩

end PipeLang
