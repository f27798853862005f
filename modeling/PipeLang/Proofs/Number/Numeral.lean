import PipeLang.Json
import PipeLang.Proofs.Number.Shortest
import PipeLang.Proofs.Token.Lexeme
import PipeLang.Syntax.Sexpr

/-!
# Numbers read back

A `Numeral` is a text of digits, perhaps with a point and an exponent, and it has a value. The
text determines the value (`Numeral.value_eq`), since `Numeral.read` finds it.

The texts of a finite double are numerals whose value rounds to it (`exists_displays_plain`,
`exists_displays_sexpr`, `exists_displays_numberText`), so different doubles have different texts
(`Displays.eq`).
-/

namespace PipeLang

open Lexer (Digits span_run)

/-! ## Numerals -/

/-- The natural that a run of digits denotes. -/
abbrev natural (ds : List Char) : Nat := Nat.ofDigitChars 10 ds 0

/-- Digits, digits behind the point, and a power of ten. -/
structure Numeral where
  whole : List Char
  fraction : List Char
  power : Option ℤ
  digits_whole : Digits whole
  isDigit_fraction : ∀ d ∈ fraction, d.isDigit

namespace Numeral

/-- A power of ten behind digits. -/
def exponent : Option ℤ → List Char
  | none => []
  | some k => 'e' :: (if k < 0 then '-' else '+') :: Nat.toDigits 10 k.natAbs

/-- The fraction behind digits, and what is behind the fraction. -/
def pointed (fraction rest : List Char) : List Char :=
  if fraction = [] then rest else '.' :: (fraction ++ rest)

/-- The text of a numeral. -/
def text (n : Numeral) : List Char := n.whole ++ pointed n.fraction (exponent n.power)

/-- The value of a numeral. -/
def value (n : Numeral) : ℚ :=
  natural (n.whole ++ n.fraction) * 10 ^ (n.power.getD 0 - n.fraction.length)

/-- A character of a numeral. -/
def isNumeralChar (c : Char) : Bool :=
  c.isDigit || c == '.' || c == 'e' || c == '+' || c == '-'

/-! ## Reading -/

/-- The power of ten that is written. -/
def readExponent : List Char → ℤ
  | 'e' :: sign :: ds => if sign = '-' then -(natural ds : ℤ) else natural ds
  | _ => 0

/-- The value that is written, when these digits stand in front. -/
def readBehind (whole : List Char) : List Char → ℚ
  | '.' :: cs =>
    let fraction := cs.takeWhile Char.isDigit
    natural (whole ++ fraction) * 10 ^ (readExponent (cs.dropWhile Char.isDigit) - fraction.length)
  | cs => natural whole * 10 ^ readExponent cs

/-- The value that is written. -/
def read (cs : List Char) : ℚ :=
  readBehind (cs.takeWhile Char.isDigit) (cs.dropWhile Char.isDigit)

/-- The exponent is read back, with its sign. -/
theorem readExponent_exponent (p : Option ℤ) : readExponent (exponent p) = p.getD 0 := by
  cases p with
  | none => rfl
  | some k =>
    have hdigits : natural (Nat.toDigits 10 k.natAbs) = k.natAbs := Nat.ofDigitChars_ten_toDigits
    have hread : readExponent (exponent (some k)) =
        if (if k < 0 then '-' else '+') = '-' then -(natural (Nat.toDigits 10 k.natAbs) : ℤ)
        else natural (Nat.toDigits 10 k.natAbs) := rfl
    rw [hread, hdigits, Option.getD_some]
    by_cases hk : k < 0
    · rw [if_pos hk, if_pos rfl]
      omega
    · rw [if_neg hk, if_neg (by decide)]
      omega

/-- An exponent ends the digits in front of it. -/
theorem not_isDigit_exponent (p : Option ℤ) : ∀ c ∈ (exponent p).head?, c.isDigit = false := by
  cases p <;> simp [exponent]

/-- The value of a numeral is what its text says. -/
theorem read_text (n : Numeral) : read n.text = n.value := by
  obtain ⟨whole, fraction, power, hwhole, hfraction⟩ := n
  have hexponent := readExponent_exponent power
  unfold text value read pointed
  dsimp only
  split_ifs with hnil
  · obtain ⟨htake, hdrop⟩ := span_run hwhole.isDigit (not_isDigit_exponent power)
    rw [htake, hdrop, hnil, List.append_nil, List.length_nil, Nat.cast_zero, sub_zero, ← hexponent]
    cases power <;> rfl
  · have hpoint : ∀ c ∈ ('.' :: (fraction ++ exponent power)).head?, c.isDigit = false := by simp
    obtain ⟨htake, hdrop⟩ := span_run hwhole.isDigit hpoint
    obtain ⟨htake', hdrop'⟩ := span_run hfraction (not_isDigit_exponent power)
    have hbehind (cs : List Char) : readBehind whole ('.' :: cs) =
        natural (whole ++ cs.takeWhile Char.isDigit)
          * 10 ^ (readExponent (cs.dropWhile Char.isDigit) - (cs.takeWhile Char.isDigit).length) :=
      rfl
    rw [htake, hdrop, hbehind, htake', hdrop', hexponent]

/-- A text is the text of one value only. -/
theorem value_eq {n n' : Numeral} (h : n.text = n'.text) : n.value = n'.value := by
  rw [← read_text, ← read_text, h]

theorem isNumeralChar_exponent (p : Option ℤ) : ∀ c ∈ exponent p, isNumeralChar c := by
  cases p with
  | none => simp [exponent]
  | some k =>
    have hdigits : ∀ c ∈ Nat.toDigits 10 k.natAbs, isNumeralChar c := fun c hc => by
      simp [isNumeralChar, Nat.isDigit_of_mem_toDigits (by decide) (by decide) hc]
    unfold exponent
    refine List.forall_mem_cons.2 ⟨by decide, List.forall_mem_cons.2 ⟨?_, hdigits⟩⟩
    split_ifs <;> decide

theorem isNumeralChar_text (n : Numeral) : ∀ c ∈ n.text, isNumeralChar c := by
  have hdigit {c : Char} (hc : c.isDigit) : isNumeralChar c := by simp [isNumeralChar, hc]
  have hexponent := isNumeralChar_exponent n.power
  have hwhole : ∀ c ∈ n.whole, isNumeralChar c := fun c hc =>
    hdigit (n.digits_whole.isDigit c hc)
  have hfraction : ∀ c ∈ n.fraction, isNumeralChar c := fun c hc =>
    hdigit (n.isDigit_fraction c hc)
  unfold text pointed
  refine List.forall_mem_append.2 ⟨hwhole, ?_⟩
  split_ifs
  · exact hexponent
  · exact List.forall_mem_cons.2 ⟨by decide, List.forall_mem_append.2 ⟨hfraction, hexponent⟩⟩

/-- There is a point or an exponent. -/
def Marked (n : Numeral) : Prop := n.fraction ≠ [] ∨ n.power ≠ none

/-- So the text is no run of digits, and no integer is written like this. -/
theorem Marked.exists_not_isDigit {n : Numeral} (h : n.Marked) :
    ∃ c ∈ n.text, c.isDigit = false := by
  unfold text pointed
  obtain hfraction | hpower := h
  · rw [if_neg hfraction]
    exact ⟨'.', by simp, rfl⟩
  · obtain ⟨k, hk⟩ := Option.ne_none_iff_exists'.1 hpower
    refine ⟨'e', ?_, rfl⟩
    rw [hk]
    split_ifs <;> simp [exponent]

end Numeral

/-! ## Layouts of decimals -/

/-- A natural is written with digits. -/
theorem digits_toDigits (n : Nat) : Digits (Nat.toDigits 10 n) where
  ne_nil := Nat.toDigits_ne_nil
  isDigit _ hd := Nat.isDigit_of_mem_toDigits (by decide) (by decide) hd

theorem isDigit_of_mem_zeros {n : Nat} : ∀ d ∈ List.replicate n '0', d.isDigit := by
  intro d hd
  rw [List.eq_of_mem_replicate hd]
  rfl

/-- Zeros behind digits are powers of ten. -/
theorem natural_append_zeros (ds : List Char) (n : Nat) :
    natural (ds ++ List.replicate n '0') = 10 ^ n * natural ds := by
  rw [natural, Nat.ofDigitChars_append, Nat.ofDigitChars_replicate_zero]

/-- Zeros in front change nothing. -/
theorem natural_zeros_append (n : Nat) (ds : List Char) :
    natural (List.replicate n '0' ++ ds) = natural ds := by
  rw [natural, Nat.ofDigitChars_append, Nat.ofDigitChars_replicate_zero, Nat.mul_zero]

namespace Decimal

variable (d : Decimal)

theorem natural_digitChars : natural d.digitChars = d.digits := Nat.ofDigitChars_ten_toDigits

theorem digits_digitChars : Digits d.digitChars := digits_toDigits _

theorem toList_zeros (n : Nat) : (zeros n).toList = List.replicate n '0' := String.toList_ofList

theorem isWhole_iff : d.isWhole ↔ 0 ≤ d.power := decide_eq_true_iff

/-- All the digits of an integer. -/
def wholeChars : List Char := d.digitChars ++ List.replicate d.power.toNat '0'

theorem digits_wholeChars : Digits d.wholeChars where
  ne_nil := List.append_ne_nil_of_left_ne_nil d.digits_digitChars.ne_nil _
  isDigit := List.forall_mem_append.2 ⟨d.digits_digitChars.isDigit, isDigit_of_mem_zeros⟩

variable {d} in
/-- The zeros that are left out of an integer's digits are those of its power. -/
theorem natural_wholeChars (h : d.isWhole) : (natural d.wholeChars : ℚ) = d.value := by
  obtain ⟨k, hk⟩ := Int.eq_ofNat_of_zero_le (d.isWhole_iff.1 h)
  rw [wholeChars, natural_append_zeros, natural_digitChars, value, hk, Int.toNat_natCast,
    zpow_natCast]
  push_cast
  ring

variable {d} in
theorem positional_of_isWhole (h : d.isWhole) : d.positional.toList = d.wholeChars := by
  rw [positional, if_pos h, String.toList_append, String.toList_ofList, toList_zeros, wholeChars]

variable {d} in
/-- An integer with all its digits. -/
theorem exists_wholeNumeral (h : d.isWhole) :
    ∃ n : Numeral, n.text = d.positional.toList ∧ n.value = d.value := by
  refine ⟨⟨d.wholeChars, [], none, d.digits_wholeChars, by simp⟩, ?_, ?_⟩
  · rw [positional_of_isWhole h]
    simp [Numeral.text, Numeral.pointed, Numeral.exponent]
  · simp [Numeral.value, natural_wholeChars h]

variable {d} in
/-- An integer with a zero behind the point. -/
theorem exists_pointedNumeral (h : d.isWhole) :
    ∃ n : Numeral, n.text = (d.positional ++ ".0").toList ∧ n.value = d.value ∧ n.Marked := by
  refine ⟨⟨d.wholeChars, ['0'], none, d.digits_wholeChars, List.forall_mem_singleton.2 rfl⟩, ?_,
    ?_, .inl (by simp)⟩
  · rw [String.toList_append, positional_of_isWhole h]
    rfl
  · have htenfold := natural_append_zeros d.wholeChars 1
    rw [List.replicate_one] at htenfold
    simp only [Numeral.value, htenfold, ← natural_wholeChars h, Option.getD_none,
      List.length_singleton, zero_sub, zpow_neg]
    push_cast
    ring

variable {d} in
/-- Digits with a point among them, where as many are behind it as the power says. -/
theorem exists_numeral_of_digits {whole fraction : List Char} (hwhole : Digits whole)
    (hfraction : Digits fraction) (hall : natural (whole ++ fraction) = d.digits)
    (hlength : d.power = -(fraction.length : ℤ)) :
    ∃ n : Numeral, n.text = whole ++ '.' :: fraction ∧ n.value = d.value ∧ n.Marked := by
  refine ⟨⟨whole, fraction, none, hwhole, hfraction.isDigit⟩, ?_, ?_, .inl hfraction.ne_nil⟩
  · simp [Numeral.text, Numeral.pointed, hfraction.ne_nil, Numeral.exponent]
  · simp only [Numeral.value, hall, Option.getD_none, zero_sub, ← hlength, value]

variable {d} in
/-- Digits on both sides of the point. -/
theorem exists_fractionNumeral (h : ¬ d.isWhole) :
    ∃ n : Numeral, n.text = d.positional.toList ∧ n.value = d.value ∧ n.Marked := by
  have hdigits := d.digits_digitChars
  have hnatural := d.natural_digitChars
  rw [isWhole_iff] at h
  have hpower : d.power = -((-d.power).toNat : ℤ) := by omega
  have hplaces : (-d.power).toNat ≠ 0 := by omega
  unfold positional
  rw [if_neg (mt d.isWhole_iff.1 h)]
  generalize (-d.power).toNat = places at hpower hplaces
  generalize d.digitChars = cs at hdigits hnatural
  split_ifs with hshort
  · have hlength : (cs.drop (cs.length - places)).length = places := by
      rw [List.length_drop]
      omega
    have hwhole : Digits (cs.take (cs.length - places)) := by
      refine ⟨List.ne_nil_of_length_pos ?_, fun c hc => hdigits.isDigit c (List.mem_of_mem_take hc)⟩
      rw [List.length_take]
      omega
    have hfraction : Digits (cs.drop (cs.length - places)) :=
      ⟨List.ne_nil_of_length_pos (by omega),
        fun c hc => hdigits.isDigit c (List.mem_of_mem_drop hc)⟩
    have hnumeral := exists_numeral_of_digits (d := d) hwhole hfraction
      (by rw [List.take_append_drop, hnatural]) (by rw [hlength, hpower])
    simpa using hnumeral
  · have hlength : (List.replicate (places - cs.length) '0' ++ cs).length = places := by
      rw [List.length_append, List.length_replicate]
      omega
    have hfraction : Digits (List.replicate (places - cs.length) '0' ++ cs) :=
      ⟨List.append_ne_nil_of_right_ne_nil _ hdigits.ne_nil,
        List.forall_mem_append.2 ⟨isDigit_of_mem_zeros, hdigits.isDigit⟩⟩
    have hall : natural (['0'] ++ (List.replicate (places - cs.length) '0' ++ cs)) = d.digits :=
      (natural_zeros_append (places - cs.length + 1) cs).trans hnatural
    have hnumeral := exists_numeral_of_digits (digits_toDigits 0) hfraction hall
      (by rw [hlength, hpower])
    simpa [toList_zeros] using hnumeral

/-- One digit in front of the point, and an exponent. -/
theorem exists_scientificNumeral :
    ∃ n : Numeral, n.text = d.scientific.toList ∧ n.value = d.value ∧ n.Marked := by
  have hdigits := d.digits_digitChars
  have hnatural := d.natural_digitChars
  have hexponent : d.exponent = d.digitChars.length - 1 + d.power := rfl
  unfold scientific
  rw [value]
  generalize d.digitChars = cs at hdigits hnatural hexponent
  obtain ⟨c, tail, rfl⟩ := List.exists_cons_of_ne_nil hdigits.ne_nil
  have hfirst : Digits [c] := ⟨by simp, by simpa using hdigits.leads⟩
  refine ⟨⟨[c], tail, some d.exponent, hfirst, fun e he => hdigits.isDigit e (.tail _ he)⟩, ?_, ?_,
    .inr (by simp)⟩
  · simp only [Numeral.text, Numeral.pointed, Numeral.exponent]
    split_ifs <;> simp_all
  · have hpower : d.exponent - tail.length = d.power := by
      rw [hexponent, List.length_cons]
      push_cast
      ring
    simp only [Numeral.value, List.singleton_append, hnatural, Option.getD_some, hpower]

end Decimal

/-! ## Texts of doubles -/

/-- What stands in front of the digits. -/
def sign (negative : Bool) : List Char := if negative then ['-'] else []

/-- The text of a finite double is its sign and a numeral that rounds to it. -/
def Displays (x : Float) (text : String) (numeral : Numeral) : Prop :=
  ∃ negative m e, Binary.ofFloat x = .finite negative m e ∧
    text.toList = sign negative ++ numeral.text ∧
    (Rounding.ofFinite m e).Includes numeral.value

/-- A minus sign stands in front of the text of a negative number. -/
theorem toList_signed (negative : Bool) (text : String) :
    (Number.signed negative text).toList = sign negative ++ text.toList := by
  cases negative <;> simp [Number.signed, sign]

/-- A numeral begins with a digit, so a minus sign is no part of it. -/
theorem Numeral.exists_text_eq_cons (n : Numeral) : ∃ c cs, n.text = c :: cs ∧ c.isDigit := by
  obtain ⟨c, cs, hcs⟩ := List.exists_cons_of_ne_nil n.digits_whole.ne_nil
  exact ⟨c, _, by rw [Numeral.text, hcs, List.cons_append], (hcs ▸ n.digits_whole).leads⟩

/-- The sign is read off the first character. -/
theorem sign_append_inj {s s' : Bool} {n n' : Numeral} (h : sign s ++ n.text = sign s' ++ n'.text) :
    s = s' ∧ n.text = n'.text := by
  have hdigit (n : Numeral) (cs : List Char) : n.text ≠ '-' :: cs := by
    obtain ⟨d, ds, hds, hd⟩ := n.exists_text_eq_cons
    rw [hds]
    rintro ⟨⟩
    cases hd
  cases s <;> cases s' <;> simp [sign] at h
  · exact ⟨rfl, h⟩
  · exact absurd h (hdigit n _)
  · exact absurd h.symm (hdigit n' _)
  · exact ⟨rfl, h⟩

/-- No text is the text of two doubles. -/
theorem Displays.eq {x y : Float} {text : String} {n n' : Numeral} (hx : Displays x text n)
    (hy : Displays y text n') : x = y := by
  obtain ⟨s, m, e, hxf, htext, hincludes⟩ := hx
  obtain ⟨s', m', e', hyf, htext', hincludes'⟩ := hy
  obtain ⟨rfl, hnumeral⟩ := sign_append_inj (htext.symm.trans htext')
  rw [← Numeral.value_eq hnumeral] at hincludes'
  obtain ⟨rfl, rfl⟩ := Rounding.eq_of_includes (Binary.canonical_ofFloat hxf)
    (Binary.canonical_ofFloat hyf) hincludes hincludes'
  exact Binary.eq_of_ofFloat hxf hyf

/-- The text of a double begins with a minus or a digit. -/
theorem Displays.leads {x : Float} {text : String} {n : Numeral} (h : Displays x text n) :
    ∃ c cs, text.toList = c :: cs ∧ (c = '-' ∨ c.isDigit) := by
  obtain ⟨s, m, e, -, htext, -⟩ := h
  obtain ⟨c, cs, hcs, hc⟩ := n.exists_text_eq_cons
  cases s
  · exact ⟨c, cs, htext.trans hcs, .inr hc⟩
  · exact ⟨'-', n.text, htext, .inl rfl⟩

theorem isNumeralChar_sign (negative : Bool) : ∀ c ∈ sign negative, Numeral.isNumeralChar c := by
  cases negative with
  | false => exact List.forall_mem_nil _
  | true => exact List.forall_mem_singleton.2 rfl

/-- The text of a double is not empty and has no other characters than those of numerals. -/
theorem Displays.isNumeralChar {x : Float} {text : String} {n : Numeral} (h : Displays x text n) :
    text.toList ≠ [] ∧ ∀ c ∈ text.toList, Numeral.isNumeralChar c := by
  obtain ⟨s, m, e, -, htext, -⟩ := h
  rw [htext]
  refine ⟨List.append_ne_nil_of_right_ne_nil _ ?_,
    List.forall_mem_append.2 ⟨isNumeralChar_sign s, n.isNumeralChar_text⟩⟩
  exact List.append_ne_nil_of_left_ne_nil n.digits_whole.ne_nil _

/-- A numeral whose value rounds to the double displays it, with the sign in front. -/
theorem Displays.of_finite {x : Float} {negative : Bool} {m : Nat} {e : ℤ} {text : String}
    {n : Numeral} (hx : Binary.ofFloat x = .finite negative m e) (htext : n.text = text.toList)
    (hvalue : (Rounding.ofFinite m e).Includes n.value) :
    Displays x (Number.signed negative text) n :=
  ⟨negative, m, e, hx, by rw [toList_signed, htext], hvalue⟩

/-- The plain text of a finite double. -/
theorem exists_displays_plain {x : Float} (hx : Number.IsFinite x) :
    ∃ n, Displays x (Number.plain x) n := by
  obtain ⟨negative, m, e, hx⟩ := hx
  have hvalue := Decimal.includes_shortest (Binary.canonical_ofFloat hx) .greater
  have hnumeral : ∃ n : Numeral, n.text = (Decimal.shortest .greater m e).positional.toList ∧
      n.value = (Decimal.shortest .greater m e).value := by
    by_cases hwhole : (Decimal.shortest .greater m e).isWhole
    · exact Decimal.exists_wholeNumeral hwhole
    · obtain ⟨n, htext, hn, -⟩ := Decimal.exists_fractionNumeral hwhole
      exact ⟨n, htext, hn⟩
  obtain ⟨n, htext, hn⟩ := hnumeral
  have hplain : Number.plain x =
      Number.signed negative (Decimal.shortest .greater m e).positional := by
    rw [Number.plain, hx]
  exact ⟨n, hplain ▸ .of_finite hx htext (hn ▸ hvalue)⟩

/-- An integer that is found is the value of the double. -/
theorem scaled?_eq_some {m k : Nat} {e : ℤ} (h : Binary.scaled? m e = some k) :
    (k : ℚ) = m * 2 ^ e := by
  rw [← pow2_toNat_div, ← mul_div_assoc, eq_div_iff (by exact_mod_cast (pow2_pos _).ne')]
  unfold Binary.scaled? at h
  split_ifs at h with he hdvd
  · obtain rfl := Option.some.inj h
    have hone : (-e).toNat = 0 := by omega
    rw [hone]
    exact_mod_cast Nat.mul_one _
  · obtain rfl := Option.some.inj h
    have hone : e.toNat = 0 := by omega
    rw [hone]
    have := Nat.div_mul_cancel (Nat.dvd_of_mod_eq_zero hdvd)
    exact_mod_cast this.trans (Nat.mul_one m).symm

/-- The text of a finite constant. -/
theorem exists_displays_sexpr {x : Float} (hx : Number.IsFinite x) :
    ∃ n, Displays x (Number.sexpr x) n := by
  obtain ⟨negative, m, e, hfinite⟩ := id hx
  have hsexpr : Number.sexpr x = match Binary.scaled? m e with
      | some k => Number.signed negative (toString k ++ ".0")
      | none => Number.plain x := by
    unfold Number.sexpr
    rw [hfinite]
    cases hscaled : Binary.scaled? m e with
    | none => simp [Binary.integer?, hscaled]
    | some k => cases negative <;> simp [Binary.integer?, hscaled, Binary.negative]
  rw [hsexpr]
  cases hscaled : Binary.scaled? m e with
  | none => exact exists_displays_plain hx
  | some k =>
    have hwhole : (⟨k, 0⟩ : Decimal).isWhole := rfl
    obtain ⟨n, htext, hn, -⟩ := Decimal.exists_pointedNumeral hwhole
    have hk : (⟨k, 0⟩ : Decimal).value = m * 2 ^ e := by
      rw [← scaled?_eq_some hscaled]
      simp [Decimal.value]
    refine ⟨n, .of_finite hfinite ?_ ?_⟩
    · rw [htext]
      simp [Decimal.positional, Decimal.isWhole, Decimal.digitChars, Decimal.zeros]
    · rw [hn, hk]
      exact Rounding.includes_self m e

/-- The text of a finite number in a document. -/
theorem exists_displays_numberText {x : Float} (hx : Number.IsFinite x) :
    ∃ n, Displays x (Json.numberText x) n ∧ n.Marked := by
  obtain ⟨negative, m, e, hx⟩ := hx
  have hvalue := Decimal.includes_shortest (Binary.canonical_ofFloat hx) .even
  have hnumber (text : String) (htext : ∃ n : Numeral, n.text = text.toList ∧
      n.value = (Decimal.shortest .even m e).value ∧ n.Marked) :
      ∃ n, Displays x (Number.signed negative text) n ∧ n.Marked := by
    obtain ⟨n, htext, hn, hmarked⟩ := htext
    exact ⟨n, .of_finite hx htext (hn ▸ hvalue), hmarked⟩
  unfold Json.numberText
  rw [hx]
  dsimp only
  refine hnumber _ ?_
  split_ifs with _ hwhole
  · exact Decimal.exists_pointedNumeral hwhole
  · exact Decimal.exists_fractionNumeral hwhole
  · exact Decimal.exists_scientificNumeral _

end PipeLang
