import PipeLang.Proofs.Number.Numeral
import PipeLang.Proofs.Text.Separated

/-!
# Documents read back

Both texts of a document whose numbers are finite are the text of no other such document
(`Json.eq_of_compact_eq`, `Json.eq_of_pretty_eq`). The compact text is read back from its
first character on, since that one tells which kind of document follows (`Json.Shape.of`). The
pretty text without the blanks outside strings is the compact text (`Json.squeeze_pretty`).
-/

namespace PipeLang

namespace Json

/-! ## Finite numbers -/

mutual

/-- The numbers of a document, in the order in which they are written. -/
@[simp] def numbers : Json → List Float
  | number x => [x]
  | array items => itemNumbers items
  | object fields => fieldNumbers fields
  | null | boolean _ | natural _ | string _ => []

/-- The numbers of the items. -/
@[simp] def itemNumbers : List Json → List Float
  | [] => []
  | j :: js => numbers j ++ itemNumbers js

/-- The numbers of the fields. -/
@[simp] def fieldNumbers : List (String × Json) → List Float
  | [] => []
  | (_, j) :: fs => numbers j ++ fieldNumbers fs

end

/-- Every number is finite. -/
def Finite (j : Json) : Prop := ∀ x ∈ j.numbers, Number.IsFinite x

/-- The numbers of a list of documents are those of its items. -/
theorem itemNumbers_eq (js : List Json) : itemNumbers js = js.flatMap numbers := by
  induction js with
  | nil => rfl
  | cons j js ih => rw [itemNumbers, ih, List.flatMap_cons]

theorem fieldNumbers_eq (fs : List (String × Json)) :
    fieldNumbers fs = fs.flatMap fun f => f.2.numbers := by
  induction fs with
  | nil => rfl
  | cons f fs ih => rw [fieldNumbers, ih, List.flatMap_cons]

theorem finite_number {x : Float} : Finite (number x) ↔ Number.IsFinite x := by
  simp [Finite, numbers]

/-- An array is finite if its items are. -/
theorem finite_array {js : List Json} : Finite (array js) ↔ ∀ j ∈ js, Finite j := by
  simp only [Finite, numbers, itemNumbers_eq, List.mem_flatMap]
  exact ⟨fun h j hj x hx => h x ⟨j, hj, hx⟩, fun h x ⟨j, hj, hx⟩ => h j hj x hx⟩

/-- An object is finite if the values of its fields are. -/
theorem finite_object {fs : List (String × Json)} :
    Finite (object fs) ↔ ∀ f ∈ fs, Finite f.2 := by
  simp only [Finite, numbers, fieldNumbers_eq, List.mem_flatMap]
  exact ⟨fun h f hf x hx => h x ⟨f, hf, hx⟩, fun h x ⟨f, hf, hx⟩ => h f hf x hx⟩

/-! ## Strings -/

/-- The value of a hexadecimal digit. -/
def hexValue (c : Char) : Nat := if c.isDigit then c.toNat - '0'.toNat else c.toNat - 'a'.toNat + 10

/-- The control character that a letter stands for. -/
def unescapedLetter : Char → Char
  | 'b' => '\x08'
  | 'f' => '\x0c'
  | 'n' => '\n'
  | 'r' => '\r'
  | 't' => '\t'
  | c => c

/-- The character that is written first, and what stands behind it. -/
def unescape? : List Char → Option (Char × List Char)
  | '\\' :: 'u' :: '0' :: '0' :: high :: low :: cs =>
    some (Char.ofNat (16 * hexValue high + hexValue low), cs)
  | '\\' :: c :: cs => some (unescapedLetter c, cs)
  | c :: cs => some (c, cs)
  | [] => none

/-- Hexadecimal digits are read back. Sixteen cases. -/
theorem hexValue_digitChar : ∀ n < 16, hexValue (Nat.digitChar n) = n := by decide

/-- A character is written in one of three ways. -/
theorem escaped_cases (c : Char) :
    (∃ l, l ≠ 'u' ∧ (escaped c).toList = ['\\', l] ∧ unescapedLetter l = c) ∨
      (∃ high < 16, ∃ low < 16, 16 * high + low = c.toNat ∧
        (escaped c).toList = ['\\', 'u', '0', '0', Nat.digitChar high, Nat.digitChar low]) ∨
      (c ≠ '"' ∧ c ≠ '\\' ∧ (escaped c).toList = [c]) := by
  unfold escaped
  split
  case h_8 hquote hbackslash _ _ _ _ _ =>
    split_ifs with hcontrol
    · refine .inr (.inl ⟨c.toNat / 16, by omega, c.toNat % 16, by omega, by omega, by simp⟩)
    · exact .inr (.inr ⟨hquote, hbackslash, by simp⟩)
  all_goals exact .inl ⟨_, by decide, rfl, by decide⟩

/-- Whichever way a character is written, it is read back, and nothing behind it. -/
theorem unescape?_escaped (c : Char) (rest : List Char) :
    unescape? ((escaped c).toList ++ rest) = some (c, rest) := by
  obtain ⟨l, hl, htext, rfl⟩ | ⟨high, hhigh, low, hlow, hc, htext⟩ | ⟨-, hc, htext⟩ :=
    escaped_cases c
  · rw [htext]
    simp [unescape?, hl]
  · rw [htext]
    simp [unescape?, hexValue_digitChar _ hhigh, hexValue_digitChar _ hlow, hc]
  · rw [htext]
    simp [unescape?, hc]

/-- So what is written for a character does not depend on what follows to be told apart. -/
theorem escaped_append_inj {c c' : Char} {r s : List Char}
    (h : (escaped c).toList ++ r = (escaped c').toList ++ s) : c = c' ∧ r = s := by
  have hread := congrArg unescape? h
  rw [unescape?_escaped, unescape?_escaped] at hread
  exact Prod.mk.inj (Option.some.inj hread)

/-- And a character of a string is never taken for its end. -/
theorem escaped_ne_quote (c : Char) (r s : List Char) :
    (escaped c).toList ++ r ≠ '"' :: s := by
  obtain ⟨l, -, htext, -⟩ | ⟨high, -, low, -, -, htext⟩ | ⟨hc, -, htext⟩ := escaped_cases c <;>
    simp_all

/-- The characters of a string between quotes. -/
def quotedChars (cs : List Char) : List Char := cs.flatMap fun c => (escaped c).toList

/-- A string is written between quotes, character by character. -/
theorem toList_quoted (s : String) :
    (quoted s).toList = '"' :: (quotedChars s.toList ++ ['"']) := by
  simp [quoted, quotedChars, String.toList_join, List.flatMap_map]

/-- The first quote that is not escaped ends a string, so the characters in front of it are known.
-/
theorem quotedChars_append_inj {cs cs' r s : List Char}
    (h : quotedChars cs ++ '"' :: r = quotedChars cs' ++ '"' :: s) : cs = cs' ∧ r = s := by
  simp only [quotedChars] at h
  induction cs generalizing cs' with
  | nil =>
    cases cs' with
    | nil => exact ⟨rfl, (List.cons.inj h).2⟩
    | cons c' cs' =>
      rw [List.flatMap_cons, List.append_assoc] at h
      exact absurd h.symm (escaped_ne_quote c' _ _)
  | cons c cs ih =>
    rw [List.flatMap_cons, List.append_assoc] at h
    cases cs' with
    | nil => exact absurd h (escaped_ne_quote c _ _)
    | cons c' cs' =>
      rw [List.flatMap_cons, List.append_assoc] at h
      obtain ⟨rfl, hrest⟩ := escaped_append_inj h
      obtain ⟨rfl, rfl⟩ := ih hrest
      exact ⟨rfl, rfl⟩

/-- A string ends where its quote does. -/
theorem quoted_append_inj {s s' : String} {r r' : List Char}
    (h : (quoted s).toList ++ r = (quoted s').toList ++ r') : s = s' ∧ r = r' := by
  rw [toList_quoted, toList_quoted] at h
  simp only [List.cons_append, List.append_assoc, List.nil_append, List.cons.injEq, true_and] at h
  obtain ⟨hs, rfl⟩ := quotedChars_append_inj h
  exact ⟨String.toList_injective hs, rfl⟩

/-! ## Compact texts -/

theorem compactItems_eq (js : List Json) : compactItems js = js.map compact := by
  induction js with
  | nil => rfl
  | cons j js ih => rw [compactItems, ih, List.map_cons]

/-- A field is its name and its contents. -/
def compactField (f : String × Json) : String := quoted f.1 ++ ":" ++ compact f.2

theorem compactFields_eq (fs : List (String × Json)) : compactFields fs = fs.map compactField := by
  induction fs with
  | nil => rfl
  | cons f fs ih => rw [compactFields, ih, List.map_cons, compactField]

/-- The characters of a document. -/
def chars (j : Json) : List Char := j.compact.toList

/-- The characters of a field. -/
def fieldChars (f : String × Json) : List Char := (compactField f).toList

/-- An array is written in brackets, with commas between its items. -/
theorem chars_array (js : List Json) :
    chars (array js) = '[' :: ([','].intercalate (js.map chars) ++ [']']) := by
  simp [chars, compact, compactItems_eq, String.toList_intercalate, Function.comp_def]
  rfl

/-- An object is written in braces, with commas between its fields. -/
theorem chars_object (fs : List (String × Json)) :
    chars (object fs) = '\x7b' :: ([','].intercalate (fs.map fieldChars) ++ ['\x7d']) := by
  simp [chars, compact, compactFields_eq, String.toList_intercalate, Function.comp_def]
  rfl

theorem chars_array_append (js : List Json) (rest : List Char) :
    chars (array js) ++ rest = '[' :: ([','].intercalate (js.map chars) ++ ']' :: rest) := by
  simp [chars_array]

theorem chars_object_append (fs : List (String × Json)) (rest : List Char) :
    chars (object fs) ++ rest =
      '\x7b' :: ([','].intercalate (fs.map fieldChars) ++ '\x7d' :: rest) := by
  simp [chars_object]

/-- A field is its name, a colon and its value. -/
theorem fieldChars_append (f : String × Json) (rest : List Char) :
    fieldChars f ++ rest = (quoted f.1).toList ++ ':' :: (chars f.2 ++ rest) := by
  simp [fieldChars, compactField, chars]

/-! ## Kinds of documents -/

/-- What the first character of a document tells. -/
inductive Shape where
  | null | boolean (b : Bool) | numeral | string | array | object

/-- The kind of a document, naturals and numbers being one. -/
def shape : Json → Shape
  | null => .null
  | boolean b => .boolean b
  | natural _ | number _ => .numeral
  | string _ => .string
  | array _ => .array
  | object _ => .object

/-- The kind of the document that begins with a character. -/
def Shape.of : Char → Shape
  | 'n' => .null
  | 't' => .boolean true
  | 'f' => .boolean false
  | '"' => .string
  | '[' => .array
  | '\x7b' => .object
  | _ => .numeral

/-- What can stand behind a document in another one. -/
def stops (c : Char) : Bool := c == ',' || c == ']' || c == '\x7d'

/-- No character of a numeral begins another kind of document or ends this one. -/
theorem of_isNumeralChar {c : Char} (h : Numeral.isNumeralChar c) :
    Shape.of c = .numeral ∧ stops c = false := by
  constructor
  · unfold Shape.of
    split <;> first | rfl | cases h
  · simp only [stops, Bool.or_eq_false_iff, beq_eq_false_iff_ne]
    refine ⟨⟨?_, ?_⟩, ?_⟩ <;> rintro rfl <;> cases h

theorem toList_natural (n : Nat) : chars (natural n) = Nat.toDigits 10 n := by
  simp [chars, compact]

/-- Line numbers are written with digits alone. -/
theorem isNumeralChar_natural (n : Nat) :
    chars (natural n) ≠ [] ∧ ∀ c ∈ chars (natural n), Numeral.isNumeralChar c := by
  rw [toList_natural]
  refine ⟨(digits_toDigits n).ne_nil, fun c hc => ?_⟩
  simp [Numeral.isNumeralChar, (digits_toDigits n).isDigit c hc]

/-- So all that counts as a numeral is made of characters of numerals, the double by its text. -/
theorem isNumeralChar_chars {j : Json} (hj : Finite j) (hshape : j.shape = .numeral) :
    chars j ≠ [] ∧ ∀ c ∈ chars j, Numeral.isNumeralChar c := by
  cases j with
  | natural n => exact isNumeralChar_natural n
  | number x =>
    obtain ⟨numeral, hdisplays, -⟩ := exists_displays_numberText (finite_number.1 hj)
    exact hdisplays.isNumeralChar
  | _ => cases hshape

/-- The first character tells the kind of a document. -/
theorem exists_chars_eq_cons {j : Json} (hj : Finite j) :
    ∃ c cs, chars j = c :: cs ∧ Shape.of c = j.shape ∧ stops c = false := by
  by_cases hshape : j.shape = .numeral
  · obtain ⟨hne, hchars⟩ := isNumeralChar_chars hj hshape
    obtain ⟨c, cs, hcs⟩ := List.exists_cons_of_ne_nil hne
    obtain ⟨hof, hstop⟩ := of_isNumeralChar (hchars c (hcs ▸ List.mem_cons_self ..))
    exact ⟨c, cs, hcs, hof.trans hshape.symm, hstop⟩
  · cases j with
    | null => exact ⟨_, _, rfl, rfl, rfl⟩
    | boolean b => cases b <;> exact ⟨_, _, rfl, rfl, rfl⟩
    | natural | number => exact absurd rfl hshape
    | string s => exact ⟨_, _, toList_quoted s, rfl, rfl⟩
    | array js => exact ⟨_, _, chars_array js, rfl, rfl⟩
    | object fs => exact ⟨_, _, chars_object fs, rfl, rfl⟩

/-- Documents with one text in front of anything are of one kind. -/
theorem shape_eq {j k : Json} {r s : List Char} (hj : Finite j) (hk : Finite k)
    (h : chars j ++ r = chars k ++ s) : k.shape = j.shape := by
  obtain ⟨c, cs, hcs, hof, -⟩ := exists_chars_eq_cons hj
  obtain ⟨c', cs', hcs', hof', -⟩ := exists_chars_eq_cons hk
  rw [hcs, hcs'] at h
  rw [← hof, ← hof', (List.cons.inj h).1]

/-! ## Numbers -/

/-- A number is not written as a natural. -/
theorem chars_natural_ne {n : Nat} {x : Float} (hx : Number.IsFinite x) :
    chars (natural n) ≠ chars (number x) := by
  obtain ⟨numeral, ⟨s, m, e, -, htext, -⟩, hmarked⟩ := exists_displays_numberText hx
  obtain ⟨c, hc, hdigit⟩ := hmarked.exists_not_isDigit
  have hmem : c ∈ chars (number x) := by
    rw [chars, compact, htext]
    exact List.mem_append_right _ hc
  intro h
  rw [← h, toList_natural] at hmem
  exact Bool.false_ne_true (hdigit.symm.trans ((digits_toDigits n).isDigit c hmem))

/-- Different numbers are written differently. -/
theorem eq_of_numeral {j k : Json} (hj : Finite j) (hk : Finite k) (hshape : j.shape = .numeral)
    (hshape' : k.shape = .numeral) (h : chars j = chars k) : j = k := by
  cases j with
  | natural n =>
    cases k with
    | natural n' =>
      rw [toList_natural, toList_natural] at h
      exact congrArg natural (by simpa using congrArg PipeLang.natural h)
    | number x => exact absurd h (chars_natural_ne (finite_number.1 hk))
    | _ => cases hshape'
  | number x =>
    cases k with
    | natural n => exact absurd h.symm (chars_natural_ne (finite_number.1 hj))
    | number y =>
      obtain ⟨_, hx, -⟩ := exists_displays_numberText (finite_number.1 hj)
      obtain ⟨_, hy, -⟩ := exists_displays_numberText (finite_number.1 hk)
      have htext : numberText x = numberText y := String.toList_injective h
      exact congrArg number (hx.eq (htext ▸ hy))
    | _ => cases hshape'
  | _ => cases hshape

/-! ## Reading back -/

/-- Documents begin with no character that ends one. -/
theorem begins_chars {j : Json} (hj : Finite j) : Begins stops chars j := by
  obtain ⟨c, cs, hcs, -, hstop⟩ := exists_chars_eq_cons hj
  exact ⟨c, cs, hcs, hstop⟩

theorem begins_fieldChars (f : String × Json) : Begins stops fieldChars f := by
  refine ⟨'"', (fieldChars f).tail, ?_, rfl⟩
  simp [fieldChars, compactField, toList_quoted]

/-- A numeral goes as far as its characters do, so it is known where it ends and which number it
is. -/
theorem readable_numeral {j : Json} (hj : Finite j) (hshape : j.shape = .numeral) :
    Readable stops Finite chars j := by
  intro k r s hk hr hs h
  have hshape' := (shape_eq hj hk h).trans hshape
  have hstop (rest : List Char) (hrest : Stopped stops rest) :
      ∀ c ∈ rest.head?, Numeral.isNumeralChar c = false := fun c hc => by
    have hstops := hrest c hc
    by_contra hnumeral
    rw [(of_isNumeralChar (eq_true_of_ne_false hnumeral)).2] at hstops
    cases hstops
  obtain ⟨htext, hrest⟩ := run_append_inj (isNumeralChar_chars hj hshape).2
    (isNumeralChar_chars hk hshape').2 (hstop r hr) (hstop s hs) h
  exact ⟨eq_of_numeral hj hk hshape hshape' htext, hrest⟩

mutual

/-- A document can be read back. -/
theorem readable : ∀ {j : Json}, Finite j → Readable stops Finite chars j
  | null, hj => by
    intro k r s hk _ _ h
    -- a document that begins so is of this kind
    have hshape := shape_eq hj hk h
    cases k <;> cases hshape
    exact ⟨rfl, List.append_cancel_left h⟩
  | boolean b, hj => by
    intro k r s hk _ _ h
    have hshape := shape_eq hj hk h
    cases k <;> cases hshape
    exact ⟨rfl, List.append_cancel_left h⟩
  | natural n, hj => readable_numeral hj rfl
  | number x, hj => readable_numeral hj rfl
  | string t, hj => by
    intro k r s hk _ _ h
    have hshape := shape_eq hj hk h
    cases k <;> cases hshape
    obtain ⟨rfl, hrest⟩ := quoted_append_inj h
    exact ⟨rfl, hrest⟩
  | array js, hj => by
    intro k r s hk _ _ h
    have hshape := shape_eq hj hk h
    cases k <;> cases hshape
    rename_i ks
    rw [chars_array_append, chars_array_append] at h
    rw [finite_array] at hj hk
    obtain ⟨rfl, hrest⟩ := Readable.intercalate rfl (readable_items hj) hk
      (fun j hj' => begins_chars (hj j hj')) (fun k hk' => begins_chars (hk k hk'))
      (closed_cons rfl (by decide) r) (closed_cons rfl (by decide) s) (List.cons.inj h).2
    exact ⟨rfl, (List.cons.inj hrest).2⟩
  | object fs, hj => by
    intro k r s hk _ _ h
    have hshape := shape_eq hj hk h
    cases k <;> cases hshape
    rename_i gs
    rw [chars_object_append, chars_object_append] at h
    rw [finite_object] at hj hk
    obtain ⟨rfl, hrest⟩ := Readable.intercalate rfl (readable_fields hj) hk
      (fun f _ => begins_fieldChars f) (fun g _ => begins_fieldChars g)
      (closed_cons rfl (by decide) r) (closed_cons rfl (by decide) s) (List.cons.inj h).2
    exact ⟨rfl, (List.cons.inj hrest).2⟩

/-- Items can be read back. -/
theorem readable_items : ∀ {js : List Json}, (∀ j ∈ js, Finite j) →
    ∀ j ∈ js, Readable stops Finite chars j
  | [], _ => by simp
  | j :: js, hjs => by
    rw [List.forall_mem_cons] at hjs ⊢
    exact ⟨readable hjs.1, readable_items hjs.2⟩

/-- Fields can be read back. -/
theorem readable_fields : ∀ {fs : List (String × Json)}, (∀ f ∈ fs, Finite f.2) →
    ∀ f ∈ fs, Readable stops (fun f => Finite f.2) fieldChars f
  | [], _ => by simp
  | (k, j) :: fs, hfs => by
    rw [List.forall_mem_cons] at hfs ⊢
    refine ⟨fun f r s hf hr hs h => ?_, readable_fields hfs.2⟩
    rw [fieldChars_append, fieldChars_append] at h
    obtain ⟨rfl, hbehind⟩ := quoted_append_inj h
    obtain ⟨rfl, hrest⟩ := readable hfs.1 f.2 r s hf hr hs (List.cons.inj hbehind).2
    exact ⟨rfl, hrest⟩

end

/-- The compact text of a document is the text of no other. -/
theorem eq_of_compact_eq {j k : Json} (hj : Finite j) (hk : Finite k)
    (h : j.compact = k.compact) : j = k :=
  (readable hj k [] [] hk (by simp [Stopped]) (by simp [Stopped]) (by simp [chars, h])).1

/-! ## Pretty texts -/

mutual

/-- The text without the blanks outside strings. -/
def squeeze : List Char → List Char
  | [] => []
  | '"' :: cs => '"' :: squeezeString cs
  | c :: cs => if c = ' ' ∨ c = '\n' then squeeze cs else c :: squeeze cs

/-- The text without the blanks outside strings, from inside one. -/
def squeezeString : List Char → List Char
  | [] => []
  | '"' :: cs => '"' :: squeeze cs
  | '\\' :: c :: cs => '\\' :: c :: squeezeString cs
  | c :: cs => c :: squeezeString cs

end

/-- In front of anything, a text is squeezed to another one. -/
def Squeezes (text squeezed : List Char) : Prop :=
  ∀ rest, squeeze (text ++ rest) = squeezed ++ squeeze rest

theorem squeezes_nil : Squeezes [] [] := fun _ => rfl

/-- One text behind the other. -/
theorem Squeezes.append {t t' u u' : List Char} (ht : Squeezes t t') (hu : Squeezes u u') :
    Squeezes (t ++ u) (t' ++ u') := by
  intro rest
  rw [List.append_assoc, ht, hu, List.append_assoc]

/-- A character that is neither blank nor quote is kept. -/
theorem Squeezes.cons {c : Char} (hc : c ≠ '"' ∧ c ≠ ' ' ∧ c ≠ '\n') {t t' : List Char}
    (h : Squeezes t t') : Squeezes (c :: t) (c :: t') := by
  intro rest
  rw [List.cons_append, squeeze, if_neg (by simp [hc]), h, List.cons_append]
  exact hc.1

/-- Without blanks and quotes a text stays as it is. -/
theorem squeezes_self {t : List Char} (h : ∀ c ∈ t, c ≠ '"' ∧ c ≠ ' ' ∧ c ≠ '\n') :
    Squeezes t t := by
  induction t with
  | nil => exact squeezes_nil
  | cons c t ih =>
    rw [List.forall_mem_cons] at h
    exact (ih h.2).cons h.1

theorem squeezes_word (s : String)
    (h : s.toList.all (fun c => c ≠ '"' ∧ c ≠ ' ' ∧ c ≠ '\n') = true) :
    Squeezes s.toList s.toList :=
  squeezes_self fun c hc => of_decide_eq_true (List.all_eq_true.1 h c hc)

/-- Blanks are squeezed away. -/
theorem squeezes_blanks (n : Nat) : Squeezes (List.replicate n ' ') [] := by
  intro rest
  induction n with
  | zero => rfl
  | succ n ih => simpa [List.replicate_succ, squeeze] using ih

/-- And so is a line break with the indentation behind it. -/
theorem squeezes_newline (level : Nat) : Squeezes (newline level).toList [] := by
  intro rest
  simpa [newline, squeeze] using squeezes_blanks (2 * level) rest

/-- Inside a string every character is kept, blanks as well. -/
theorem squeezeString_cons {c : Char} (hquote : c ≠ '"') (hbackslash : c ≠ '\\')
    (cs : List Char) : squeezeString (c :: cs) = c :: squeezeString cs := by
  rw [squeezeString]
  · exact hquote
  · simp [hbackslash]

theorem digitChar_ne : ∀ n < 16, Nat.digitChar n ≠ '"' ∧ Nat.digitChar n ≠ '\\' := by decide

/-- An escaped quote does not end the string, whose characters are kept as they are written. -/
theorem squeezeString_escaped (c : Char) (rest : List Char) :
    squeezeString ((escaped c).toList ++ rest) = (escaped c).toList ++ squeezeString rest := by
  obtain ⟨l, -, htext, -⟩ | ⟨high, hhigh, low, hlow, -, htext⟩ | ⟨hquote, hbackslash, htext⟩ :=
    escaped_cases c
  · rw [htext]
    simp [squeezeString]
  · obtain ⟨hhigh, hhigh'⟩ := digitChar_ne high hhigh
    obtain ⟨hlow, hlow'⟩ := digitChar_ne low hlow
    rw [htext]
    simp [squeezeString, squeezeString_cons hhigh hhigh', squeezeString_cons hlow hlow']
  · rw [htext]
    exact squeezeString_cons hquote hbackslash rest

/-- Blanks in strings stay. -/
theorem squeezes_quoted (s : String) : Squeezes (quoted s).toList (quoted s).toList := by
  intro rest
  have hstring (cs : List Char) : squeezeString (quotedChars cs ++ '"' :: rest) =
      quotedChars cs ++ '"' :: squeeze rest := by
    simp only [quotedChars]
    induction cs with
    | nil => simp [squeezeString]
    | cons c cs ih =>
      rw [List.flatMap_cons, List.append_assoc, squeezeString_escaped, ih, List.append_assoc]
  simp [toList_quoted, squeeze, hstring]

/-- There is no blank in the text of a double, finite or not. -/
theorem squeezes_numberText (x : Float) :
    Squeezes (numberText x).toList (numberText x).toList := by
  by_cases hx : Number.IsFinite x
  · obtain ⟨_, hdisplays, -⟩ := exists_displays_numberText hx
    refine squeezes_self fun c hc => ?_
    have hnumeral := hdisplays.isNumeralChar.2 c hc
    refine ⟨?_, ?_, ?_⟩ <;> rintro rfl <;> cases hnumeral
  · have hnull : numberText x = "null" := by
      unfold numberText
      split
      · exact absurd ⟨_, _, _, ‹_›⟩ hx
      · rfl
    rw [hnull]
    exact squeezes_word "null" (by decide)

theorem squeezes_natural (n : Nat) : Squeezes (chars (natural n)) (chars (natural n)) := by
  refine squeezes_self fun c hc => ?_
  have hnumeral := (isNumeralChar_natural n).2 c hc
  refine ⟨?_, ?_, ?_⟩ <;> rintro rfl <;> cases hnumeral

/-- Parts with separators between them are squeezed part by part. -/
theorem Squeezes.intercalate {sep sep' : List Char} (hsep : Squeezes sep sep')
    {ts ts' : List (List Char)} (h : List.Forall₂ Squeezes ts ts') :
    Squeezes (sep.intercalate ts) (sep'.intercalate ts') := by
  induction h with
  | nil => exact squeezes_nil
  | @cons t t' ts ts' ht hts ih =>
    cases hts with
    | nil => simpa using ht
    | cons hu hts =>
      rw [List.intercalate_cons_cons, List.intercalate_cons_cons]
      exact (ht.append hsep).append ih

/-- The lines between brackets are squeezed to what they say. -/
theorem squeezes_bracketed {left right : String} {l r : Char} (hleft : left.toList = [l])
    (hright : right.toList = [r]) (hl : l ≠ '"' ∧ l ≠ ' ' ∧ l ≠ '\n')
    (hr : r ≠ '"' ∧ r ≠ ' ' ∧ r ≠ '\n') (level : Nat) {parts : List String}
    {texts : List (List Char)} (h : List.Forall₂ Squeezes (parts.map String.toList) texts) :
    Squeezes (bracketed left level parts right).toList (l :: ([','].intercalate texts ++ [r])) := by
  have hend : Squeezes [r] [r] := squeezes_nil.cons hr
  have hsep : Squeezes ("," ++ newline (level + 1)).toList [','] := by
    rw [String.toList_append]
    exact (squeezes_newline _).cons (by decide)
  unfold bracketed
  split_ifs with hempty
  · obtain rfl := List.isEmpty_iff.1 hempty
    cases h
    simpa [hleft, hright] using hend.cons hl
  · have hlines := (squeezes_newline (level + 1)).append
      ((Squeezes.intercalate hsep h).append ((squeezes_newline level).append hend))
    simpa [String.toList_intercalate, hleft, hright] using hlines.cons hl

mutual

/-- At every level a document is squeezed to its compact text. -/
theorem squeezes_prettyAt (level : Nat) : ∀ j : Json, Squeezes (prettyAt level j).toList (chars j)
  | null => squeezes_word "null" (by decide)
  | boolean true => squeezes_word "true" (by decide)
  | boolean false => squeezes_word "false" (by decide)
  | natural n => squeezes_natural n
  | number x => squeezes_numberText x
  | string s => squeezes_quoted s
  | array js => by
    rw [chars_array]
    exact squeezes_bracketed rfl rfl (by decide) (by decide) level
      (squeezes_prettyItems (level + 1) js)
  | object fs => by
    rw [chars_object]
    exact squeezes_bracketed rfl rfl (by decide) (by decide) level
      (squeezes_prettyFields (level + 1) fs)

theorem squeezes_prettyItems (level : Nat) : ∀ js : List Json,
    List.Forall₂ Squeezes ((prettyItems level js).map String.toList) (js.map chars)
  | [] => .nil
  | j :: js => .cons (squeezes_prettyAt level j) (squeezes_prettyItems level js)

theorem squeezes_prettyFields (level : Nat) : ∀ fs : List (String × Json),
    List.Forall₂ Squeezes ((prettyFields level fs).map String.toList) (fs.map fieldChars)
  | [] => .nil
  | (k, j) :: fs => by
    have hcolon : Squeezes ": ".toList [':'] := (squeezes_blanks 1).cons (by decide)
    have hfield := ((squeezes_quoted k).append hcolon).append (squeezes_prettyAt level j)
    refine .cons ?_ (squeezes_prettyFields level fs)
    simpa [fieldChars, compactField, chars] using hfield

end

/-- The pretty text without the blanks outside strings is the compact text. -/
theorem squeeze_pretty (j : Json) : squeeze j.pretty.toList = j.compact.toList := by
  simpa [squeeze, pretty, chars] using squeezes_prettyAt 0 j []

/-- The pretty text of a document is the text of no other. -/
theorem eq_of_pretty_eq {j k : Json} (hj : Finite j) (hk : Finite k)
    (h : j.pretty = k.pretty) : j = k := by
  refine eq_of_compact_eq hj hk (String.toList_injective ?_)
  rw [← squeeze_pretty, ← squeeze_pretty, h]

end Json

end PipeLang
