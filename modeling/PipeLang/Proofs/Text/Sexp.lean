import PipeLang.Proofs.Text.Separated

/-!
# Expressions in parentheses read back

A `Sexp` is a word, a string between quotes, or a list of such in parentheses with blanks
between them. Words and strings are written as they are. When no word has a blank, a
parenthesis or a quote in it and no string a quote (`Sexp.WellFormed`), the text can be read
back (`Sexp.readable`) : its first character tells which of the three it is.
-/

namespace PipeLang

/-- An expression in parentheses. -/
inductive Sexp where
  | word (s : String)
  | quoted (s : String)
  | list (items : List Sexp)

namespace Sexp

mutual

/-- The text of an expression. -/
def text : Sexp → List Char
  | word s => s.toList
  | quoted s => '"' :: (s.toList ++ ['"'])
  | list items => '(' :: ([' '].intercalate (texts items) ++ [')'])

/-- The texts of expressions. -/
def texts : List Sexp → List (List Char)
  | [] => []
  | t :: ts => text t :: texts ts

end

@[simp] theorem text_word (s : String) : text (word s) = s.toList := rfl

theorem texts_eq (ts : List Sexp) : texts ts = ts.map text := by
  induction ts with
  | nil => rfl
  | cons t ts ih => rw [texts, ih, List.map_cons]

/-- What can stand behind an expression in another one, or on a line of its own. -/
def stops (c : Char) : Bool := c == ' ' || c == ')' || c == '\n'

/-- A character of a word. -/
def isWordChar (c : Char) : Bool := !stops c && c != '(' && c != '"'

/-- Characters of another class are characters of words when no delimiter is in the class. -/
theorem isWordChar_of {p : Char → Bool} {c : Char}
    (hp : [' ', ')', '\n', '(', '"'].any p = false) (h : p c) : isWordChar c := by
  have hne : ∀ d ∈ [' ', ')', '\n', '(', '"'], c ≠ d := by
    rintro d hd rfl
    exact absurd h (List.any_eq_false.1 hp c hd)
  simpa [isWordChar, stops, and_assoc] using hne

/-- Words are words and strings have no quote in them. -/
inductive WellFormed : Sexp → Prop where
  | word {s : String} : s.toList ≠ [] → (∀ c ∈ s.toList, isWordChar c) → WellFormed (word s)
  | quoted {s : String} : '"' ∉ s.toList → WellFormed (quoted s)
  | list {items : List Sexp} : (∀ t ∈ items, WellFormed t) → WellFormed (list items)

/-! ## First characters -/

theorem isWordChar_iff {c : Char} :
    isWordChar c ↔ stops c = false ∧ c ≠ '(' ∧ c ≠ '"' := by
  simp [isWordChar, and_assoc]

theorem exists_text_word {s : String} (hne : s.toList ≠ []) (hs : ∀ c ∈ s.toList, isWordChar c) :
    ∃ c cs, text (word s) = c :: cs ∧ isWordChar c := by
  obtain ⟨c, cs, hcs⟩ := List.exists_cons_of_ne_nil hne
  exact ⟨c, cs, hcs, hs c (hcs ▸ List.mem_cons_self ..)⟩

theorem WellFormed.begins {t : Sexp} (h : t.WellFormed) : Begins stops text t := by
  cases h with
  | word hne hs =>
    obtain ⟨c, cs, hcs, hc⟩ := exists_text_word hne hs
    exact ⟨c, cs, hcs, (isWordChar_iff.1 hc).1⟩
  | quoted | list => exact ⟨_, _, by rw [text], rfl⟩

/-- Neither a quote nor a parenthesis is in front of a word. -/
theorem text_word_append_ne {s : String} (hne : s.toList ≠ [])
    (hs : ∀ c ∈ s.toList, isWordChar c) {r cs : List Char} {c : Char} (hc : isWordChar c = false) :
    text (word s) ++ r ≠ c :: cs := by
  obtain ⟨c', cs', htext, hc'⟩ := exists_text_word hne hs
  rw [htext]
  rintro ⟨⟩
  exact Bool.false_ne_true (hc.symm.trans hc')

/-! ## Reading back -/

theorem text_quoted_append (s : String) (r : List Char) :
    text (quoted s) ++ r = '"' :: (s.toList ++ '"' :: r) := by
  simp [text]

theorem text_list_append (items : List Sexp) (r : List Char) :
    text (list items) ++ r = '(' :: ([' '].intercalate (items.map text) ++ ')' :: r) := by
  simp [text, texts_eq]

theorem Stopped.not_isWordChar {r : List Char} (h : Stopped stops r) :
    ∀ c ∈ r.head?, isWordChar c = false := fun c hc => by
  simp [isWordChar, h c hc]

/-- An expression can be read back. -/
theorem readable {t : Sexp} (h : t.WellFormed) : Readable stops WellFormed text t := by
  induction h with
  | word hne hs =>
    intro u r r' hu hr hr' heq
    cases hu with
    | word _ hs' =>
      obtain ⟨htext, hrest⟩ := run_append_inj hs hs' (Stopped.not_isWordChar hr)
        (Stopped.not_isWordChar hr') heq
      exact ⟨congrArg word (String.toList_injective htext), hrest⟩
    | quoted =>
      rw [text_quoted_append] at heq
      exact absurd heq (text_word_append_ne hne hs rfl)
    | list =>
      rw [text_list_append] at heq
      exact absurd heq (text_word_append_ne hne hs rfl)
  | quoted hquote =>
    intro u r r' hu hr hr' heq
    rw [text_quoted_append] at heq
    cases hu with
    | word hne hs => exact absurd heq.symm (text_word_append_ne hne hs rfl)
    | quoted hquote' =>
      rw [text_quoted_append] at heq
      have hstring {s : String} (h : '"' ∉ s.toList) : ∀ c ∈ s.toList, c != '"' := by
        intro c hc
        rw [bne_iff_ne]
        rintro rfl
        exact h hc
      obtain ⟨htext, hrest⟩ := run_append_inj (hstring hquote) (hstring hquote') (by simp) (by simp)
        (List.cons.inj heq).2
      exact ⟨congrArg quoted (String.toList_injective htext), (List.cons.inj hrest).2⟩
    | list =>
      rw [text_list_append] at heq
      cases heq
  | list hitems ih =>
    intro u r r' hu hr hr' heq
    rw [text_list_append] at heq
    cases hu with
    | word hne hs => exact absurd heq.symm (text_word_append_ne hne hs rfl)
    | quoted =>
      rw [text_quoted_append] at heq
      cases heq
    | list hitems' =>
      rw [text_list_append] at heq
      obtain ⟨rfl, hrest⟩ := Readable.intercalate rfl ih hitems' (fun t ht => (hitems t ht).begins)
        (fun t ht => (hitems' t ht).begins) (closed_cons rfl (by decide) r)
        (closed_cons rfl (by decide) r') (List.cons.inj heq).2
      exact ⟨rfl, (List.cons.inj hrest).2⟩

/-- Lines of expressions are the lines of no others. -/
theorem eq_of_lines_eq {ts us : List Sexp} (hts : ∀ t ∈ ts, t.WellFormed)
    (hus : ∀ u ∈ us, u.WellFormed)
    (h : ['\n'].intercalate (ts.map text) = ['\n'].intercalate (us.map text)) : ts = us := by
  have hend : Closed stops '\n' [] := by simp [Closed]
  have hnewline : stops '\n' := rfl
  exact (Readable.intercalate hnewline (fun t ht => readable (hts t ht)) hus
    (fun t ht => (hts t ht).begins) (fun u hu => (hus u hu).begins) hend hend (by rw [h])).1

end Sexp

end PipeLang
