import PipeLang.Proofs.Token.Lexeme

/-!
# Texts that can be read back

A text is followed by other text, so to read it back is to find out what was written and where
it ends. `Readable` says this of one thing, in front of characters that stop. Things with a
separator between them can be read back when each of them can (`Readable.intercalate`).
-/

namespace PipeLang

/-- A run of characters ends where another character follows. -/
theorem run_append_inj {p : Char → Bool} {t t' r s : List Char} (ht : ∀ c ∈ t, p c)
    (ht' : ∀ c ∈ t', p c) (hr : ∀ c ∈ r.head?, p c = false) (hs : ∀ c ∈ s.head?, p c = false)
    (h : t ++ r = t' ++ s) : t = t' ∧ r = s := by
  obtain ⟨htake, hdrop⟩ := Lexer.span_run ht hr
  obtain ⟨htake', hdrop'⟩ := Lexer.span_run ht' hs
  rw [h, htake'] at htake
  rw [h, hdrop'] at hdrop
  exact ⟨htake.symm, hdrop.symm⟩

/-- Nothing follows, or a character that stops. -/
def Stopped (stop : Char → Bool) (rest : List Char) : Prop := ∀ c ∈ rest.head?, stop c

theorem stopped_cons {stop : Char → Bool} {c : Char} (h : stop c) (rest : List Char) :
    Stopped stop (c :: rest) := by
  rintro _ ⟨⟩
  exact h

/-- Nothing follows, or a character that stops and is no separator. -/
def Closed (stop : Char → Bool) (sep : Char) (rest : List Char) : Prop :=
  ∀ c ∈ rest.head?, stop c ∧ c ≠ sep

theorem Closed.stopped {stop : Char → Bool} {sep : Char} {rest : List Char}
    (h : Closed stop sep rest) : Stopped stop rest :=
  fun c hc => (h c hc).1

theorem closed_cons {stop : Char → Bool} {sep c : Char} (h : stop c) (hne : c ≠ sep)
    (rest : List Char) : Closed stop sep (c :: rest) := by
  rintro _ ⟨⟩
  exact ⟨h, hne⟩

section

variable {α : Type} (stop : Char → Bool) (valid : α → Prop) (write : α → List Char)

/-- In front of a stop, the text of `a` is the text of nothing else that is valid, and it ends
in one place. -/
def Readable (a : α) : Prop :=
  ∀ b r s, valid b → Stopped stop r → Stopped stop s → write a ++ r = write b ++ s →
    a = b ∧ r = s

/-- What is valid is written with a first character that does not stop. -/
def Begins (a : α) : Prop := ∃ c cs, write a = c :: cs ∧ stop c = false

/-- What stands behind the first of several texts. -/
def behind (sep : Char) (as : List α) (rest : List Char) : List Char :=
  if as = [] then rest else sep :: ([sep].intercalate (as.map write) ++ rest)

variable {stop valid write} {sep : Char}

theorem intercalate_cons_append (a : α) (as : List α) (rest : List Char) :
    [sep].intercalate ((a :: as).map write) ++ rest = write a ++ behind write sep as rest := by
  cases as with
  | nil => simp [behind]
  | cons b as => simp [behind]

theorem stopped_behind (hsep : stop sep) {as : List α} {rest : List Char}
    (h : Closed stop sep rest) : Stopped stop (behind write sep as rest) := by
  unfold behind
  split
  · exact h.stopped
  · exact stopped_cons hsep _

/-- A text that closes is not the text of anything. -/
theorem Begins.ne_closed {a : α} (h : Begins stop write a) {r s : List Char}
    (hr : Stopped stop r) : r ≠ write a ++ s := by
  obtain ⟨c, cs, hwrite, hstop⟩ := h
  rintro rfl
  have hc := hr c (by rw [hwrite]; rfl)
  exact Bool.false_ne_true (hstop.symm.trans hc)

/-- Things with a separator between them can be read back, up to what closes them. -/
theorem Readable.intercalate {as bs : List α} {r s : List Char} (hsep : stop sep)
    (has : ∀ a ∈ as, Readable stop valid write a) (hvalid : ∀ b ∈ bs, valid b)
    (hbegins : ∀ a ∈ as, Begins stop write a) (hbegins' : ∀ b ∈ bs, Begins stop write b)
    (hr : Closed stop sep r) (hs : Closed stop sep s)
    (h : [sep].intercalate (as.map write) ++ r = [sep].intercalate (bs.map write) ++ s) :
    as = bs ∧ r = s := by
  induction as generalizing bs with
  | nil =>
    cases bs with
    | nil => exact ⟨rfl, h⟩
    | cons b bs =>
      rw [intercalate_cons_append] at h
      exact absurd h ((hbegins' b (List.mem_cons_self ..)).ne_closed hr.stopped)
  | cons a as ih =>
    rw [List.forall_mem_cons] at has hbegins
    rw [intercalate_cons_append] at h
    cases bs with
    | nil => exact absurd h.symm (hbegins.1.ne_closed hs.stopped)
    | cons b bs =>
      rw [List.forall_mem_cons] at hvalid hbegins'
      rw [intercalate_cons_append] at h
      obtain ⟨rfl, hbehind⟩ := has.1 b _ _ hvalid.1 (stopped_behind hsep hr)
        (stopped_behind hsep hs) h
      suffices as = bs ∧ r = s from ⟨congrArg (a :: ·) this.1, this.2⟩
      -- a separator closes nothing, so both lists go on or both end
      unfold behind at hbehind
      split_ifs at hbehind with hnil hnil' hnil'
      · exact ⟨hnil.trans hnil'.symm, hbehind⟩
      · obtain rfl := hbehind
        exact absurd rfl (hr sep rfl).2
      · obtain rfl := hbehind
        exact absurd rfl (hs sep rfl).2
      · exact ih has.2 hvalid.2 hbegins.2 hbegins'.2 (List.cons.inj hbehind).2

end

end PipeLang
