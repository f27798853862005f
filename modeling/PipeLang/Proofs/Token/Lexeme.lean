import Mathlib.Data.List.TakeWhile
import PipeLang.Token.Lexer

/-!
# Lexemes

`Lexeme` is the lexical grammar : which texts are tokens, and of which kind. `Head` says what
may stand at the head of a text by that grammar : a blank, a comment, the longest lexeme
there is, a character that no lexeme starts with, or a string that is never closed. `cut`
finds what stands there (`head_cut`), and nothing else does (`Head.eq_cut`).
-/

namespace PipeLang

/-! ## Spellings -/

/-- The characters of a symbol. -/
def Symbol.spelling : Symbol → List Char
  | leftParen => ['(']
  | rightParen => [')']
  | leftBrace => ['\x7b']
  | rightBrace => ['\x7d']
  | comma => [',']
  | dot => ['.']
  | semicolon => [';']
  | minus => ['-']
  | plus => ['+']
  | slash => ['/']
  | star => ['*']
  | bang => ['!']
  | bangEqual => ['!', '=']
  | equal => ['=']
  | equalEqual => ['=', '=']
  | greater => ['>']
  | greaterEqual => ['>', '=']
  | less => ['<']
  | lessEqual => ['<', '=']
  | pipe => ['-', '>']

/-- The table of symbols of one character is that of their spellings. -/
theorem Symbol.single?_eq_some_iff {c : Char} {s : Symbol} :
    single? c = some s ↔ s.spelling = [c] := by
  constructor
  · intro h
    unfold single? at h
    split at h <;> cases h <;> rfl
  · intro h
    cases s <;> cases h <;> rfl

/-- And so is that of symbols of two. -/
theorem Symbol.double?_eq_some_iff {c d : Char} {s : Symbol} :
    double? c d = some s ↔ s.spelling = [c, d] := by
  constructor
  · intro h
    unfold double? at h
    split at h <;> cases h <;> rfl
  · intro h
    cases s <;> cases h <;> rfl

theorem Symbol.length_spelling (s : Symbol) :
    s.spelling.length = 1 ∨ s.spelling.length = 2 := by
  cases s <;> decide

/-- The word of a keyword. -/
def Keyword.spelling : Keyword → String
  | andWord => "and"
  | classWord => "class"
  | elseWord => "else"
  | falseWord => "false"
  | funcWord => "func"
  | forWord => "for"
  | ifWord => "if"
  | letWord => "let"
  | mutWord => "mut"
  | nilWord => "nil"
  | orWord => "or"
  | printWord => "print"
  | returnWord => "return"
  | superWord => "super"
  | thisWord => "this"
  | trueWord => "true"
  | whileWord => "while"

/-- The words of the table are the spellings of the keywords. -/
theorem Keyword.ofSpelling?_eq_some_iff {word : String} {k : Keyword} :
    ofSpelling? word = some k ↔ word = k.spelling := by
  constructor
  · intro h
    unfold ofSpelling? at h
    split at h <;> cases h <;> rfl
  · rintro rfl
    cases k <;> rfl

namespace Lexer

/-! ## The lexical grammar -/

/-- A run of digits, one at least. -/
structure Digits (ds : List Char) : Prop where
  ne_nil : ds ≠ []
  isDigit : ∀ d ∈ ds, d.isDigit

/-- The texts that are tokens, with their kinds. -/
inductive Lexeme : List Char → Kind → Prop where
  | symbol (s : Symbol) : Lexeme s.spelling (.symbol s)
  | keyword (k : Keyword) : Lexeme k.spelling.toList (.keyword k)
  /-- A word that is not in the table of keywords. -/
  | name {c : Char} {cs : List Char} : isNameStart c → (∀ d ∈ cs, isNameChar d) →
    (∀ k : Keyword, k.spelling.toList ≠ c :: cs) → Lexeme (c :: cs) .identifier
  | string {contents : List Char} : '"' ∉ contents →
    Lexeme ('"' :: (contents ++ ['"'])) (.string (String.ofList contents))
  | integer {ds : List Char} : Digits ds → Lexeme ds (.number (numberValue ds []))
  | decimal {ds fs : List Char} : Digits ds → Digits fs →
    Lexeme (ds ++ '.' :: fs) (.number (numberValue ds fs))

/-- No lexeme at the head of `text ++ rest` is longer than `text`. -/
def Longest (text rest : List Char) : Prop :=
  ∀ other kind, Lexeme other kind → other <+: text ++ rest → other.length ≤ text.length

/-- Two slashes are at the head of the text. -/
def StartsComment (cs : List Char) : Prop := ['/', '/'] <+: cs

/-- What may stand at the head of a text. -/
inductive Head : Cut → Prop where
  | blank {c : Char} {rest : List Char} : isBlank c → Head ⟨.skipped, [c], rest⟩
  /-- A comment stops at a newline or at the end. -/
  | comment {body rest : List Char} : '\n' ∉ body → (∀ c ∈ rest.head?, c = '\n') →
    Head ⟨.skipped, '/' :: '/' :: body, rest⟩
  | token {text rest : List Char} {kind : Kind} : Lexeme text kind → Longest text rest →
    ¬ StartsComment (text ++ rest) → Head ⟨.token kind, text, rest⟩
  | unexpected {c : Char} {rest : List Char} : isBlank c = false → c ≠ '"' →
    (∀ text kind, Lexeme text kind → ¬ text <+: c :: rest) →
    Head ⟨.error (.unexpected c), [c], rest⟩
  | unterminated {body : List Char} : '"' ∉ body →
    Head ⟨.error .unterminatedString, '"' :: body, []⟩

/-! ## How lexemes start -/

/-- Neither a blank nor the start of a string, a number or a word. -/
structure Punctuation (c : Char) : Prop where
  not_blank : isBlank c = false
  ne_quote : c ≠ '"'
  not_digit : c.isDigit = false
  not_nameStart : isNameStart c = false

/-- A lexeme of this kind may start with the character. -/
def Leads (c : Char) : Kind → Prop
  | .symbol _ => Punctuation c
  | .keyword _ | .identifier => isNameStart c
  | .string _ => c = '"'
  | .number _ => c.isDigit
  | .eof => False

theorem isNameChar_of_isNameStart {c : Char} (h : isNameStart c) : isNameChar c := by
  simp only [isNameStart, isNameChar, Char.isAlphanum] at *
  grind

theorem ne_quote_of_isNameStart {c : Char} (h : isNameStart c) : c ≠ '"' := by
  rintro rfl
  cases h

theorem ne_quote_of_isDigit {c : Char} (h : c.isDigit) : c ≠ '"' := by
  rintro rfl
  cases h

/-- A word does not begin with a digit, so the first character tells numbers and words apart. -/
theorem not_isNameStart_of_isDigit {c : Char} (h : c.isDigit) : isNameStart c = false := by
  have hunderscore : c ≠ '_' := by
    rintro rfl
    cases h
  delta isNameStart Char.isAlpha Char.isUpper Char.isLower
  delta Char.isDigit at h
  grind

theorem not_isDigit_of_isNameStart {c : Char} (h : isNameStart c) : c.isDigit = false := by
  refine Bool.eq_false_iff.2 fun hdigit => ?_
  exact Bool.false_ne_true ((not_isNameStart_of_isDigit hdigit).symm.trans h)

/-- Two slashes start with a slash. -/
theorem not_startsComment {c : Char} {cs : List Char} (h : c ≠ '/') :
    ¬ StartsComment (c :: cs) :=
  fun hcomment => h (List.cons_prefix_cons.1 hcomment).1.symm

/-- A symbol begins with a character that begins nothing else. -/
theorem punctuation_symbol {s : Symbol} {c : Char} {cs : List Char}
    (h : s.spelling = c :: cs) : Punctuation c := by
  cases s <;> cases h <;> exact ⟨by decide, by decide, by decide, by decide⟩

/-- Keywords are words. -/
theorem isNameStart_keyword (k : Keyword) : ∀ c ∈ k.spelling.toList, isNameStart c := by
  have hall : k.spelling.toList.all isNameStart = true := by cases k <;> decide
  exact List.all_eq_true.1 hall

/-- The first digit of a run. -/
theorem Digits.leads {c : Char} {cs : List Char} (h : Digits (c :: cs)) : c.isDigit :=
  h.isDigit c (List.mem_cons_self ..)

/-- A lexeme has a first character, by which it is found. -/
theorem Lexeme.ne_nil {text : List Char} {kind : Kind} (h : Lexeme text kind) : text ≠ [] := by
  cases h with
  | symbol s => cases s <;> exact List.cons_ne_nil _ _
  | keyword k => cases k <;> decide
  | integer hds => exact hds.ne_nil
  | decimal hds hfs => simp
  | _ => exact List.cons_ne_nil _ _

/-- No text is an end marker. -/
theorem Lexeme.kind_ne_eof {text : List Char} {kind : Kind} (h : Lexeme text kind) :
    kind ≠ .eof := by
  rintro rfl
  cases h

/-- And that character may start a lexeme of its kind. -/
theorem Lexeme.leads {c : Char} {cs : List Char} {kind : Kind} (h : Lexeme (c :: cs) kind) :
    Leads c kind := by
  generalize htext : c :: cs = text at h
  cases h with
  | symbol s => exact punctuation_symbol htext.symm
  | keyword k => exact isNameStart_keyword k c (htext ▸ List.mem_cons_self ..)
  | name hc => cases htext; exact hc
  | string => cases htext; rfl
  | integer hds => exact (htext ▸ hds).leads
  | @decimal ds fs hds hfs =>
    obtain ⟨d, ds, rfl⟩ := List.exists_cons_of_ne_nil hds.ne_nil
    cases htext
    exact hds.leads

/-! ## Lexemes by their first character -/

section

variable {c : Char} {cs : List Char} {kind : Kind}

/-- No lexeme starts with a blank, so blanks in front of one can be skipped. -/
theorem Leads.not_blank (h : Leads c kind) : isBlank c = false := by
  refine Bool.eq_false_iff.2 fun hblank => ?_
  simp only [isBlank, Bool.or_eq_true, beq_iff_eq] at hblank
  obtain ((rfl | rfl) | rfl) | rfl := hblank <;> cases kind <;>
    first | exact absurd h.not_blank (by decide) | simp +decide [Leads] at h

theorem Leads.of_quote (h : Leads '"' kind) : ∃ contents, kind = .string contents := by
  cases kind with
  | string contents => exact ⟨contents, rfl⟩
  | symbol => exact absurd rfl h.ne_quote
  | _ => simp +decide [Leads] at h

/-- A digit only starts numbers. -/
theorem Leads.of_digit (hc : c.isDigit) (h : Leads c kind) : ∃ x, kind = .number x := by
  have hstart := not_isNameStart_of_isDigit hc
  have hquote := ne_quote_of_isDigit hc
  cases kind with
  | number x => exact ⟨x, rfl⟩
  | symbol => exact absurd (h.not_digit.symm.trans hc) Bool.false_ne_true
  | _ => simp_all [Leads]

/-- A letter or an underscore only starts words. -/
theorem Leads.of_nameStart (hc : isNameStart c) (h : Leads c kind) :
    kind = .identifier ∨ ∃ k, kind = .keyword k := by
  have hdigit := not_isDigit_of_isNameStart hc
  have hquote := ne_quote_of_isNameStart hc
  cases kind with
  | symbol => exact absurd (h.not_nameStart.symm.trans hc) Bool.false_ne_true
  | _ => simp_all [Leads]

/-- Any other character only starts symbols. -/
theorem Leads.of_punctuation (hc : Punctuation c) (h : Leads c kind) :
    ∃ s, kind = .symbol s := by
  obtain ⟨hblank, hquote, hdigit, hstart⟩ := hc
  cases kind with
  | symbol s => exact ⟨s, rfl⟩
  | _ => simp_all [Leads]

/-- What starts with a quote ends with the next one. -/
theorem Lexeme.of_quote (h : Lexeme ('"' :: cs) kind) :
    ∃ contents, '"' ∉ contents ∧ cs = contents ++ ['"'] := by
  obtain ⟨s, rfl⟩ := h.leads.of_quote
  generalize htext : '"' :: cs = text at h
  cases h with
  | string hcontents => exact ⟨_, hcontents, (List.cons.inj htext).2⟩

/-- What starts with a digit is a run of digits, or two with a point between them. -/
theorem Lexeme.of_digit (hc : c.isDigit) (h : Lexeme (c :: cs) kind) :
    Digits (c :: cs) ∨ ∃ ds fs, c :: cs = ds ++ '.' :: fs ∧ Digits ds ∧ Digits fs := by
  obtain ⟨x, rfl⟩ := h.leads.of_digit hc
  generalize c :: cs = text at h
  cases h with
  | integer hds => exact .inl hds
  | decimal hds hfs => exact .inr ⟨_, _, rfl, hds, hfs⟩

/-- What starts like a word has characters of words only. -/
theorem Lexeme.of_nameStart (hc : isNameStart c) (h : Lexeme (c :: cs) kind) :
    ∀ d ∈ c :: cs, isNameChar d := by
  obtain rfl | ⟨k, rfl⟩ := h.leads.of_nameStart hc
  · generalize c :: cs = text at h ⊢
    cases h with
    | name hstart hrest =>
      exact List.forall_mem_cons.2 ⟨isNameChar_of_isNameStart hstart, hrest⟩
  · generalize c :: cs = text at h ⊢
    cases h with
    | keyword => exact fun d hd => isNameChar_of_isNameStart (isNameStart_keyword k d hd)

theorem Lexeme.of_punctuation (hc : Punctuation c) (h : Lexeme (c :: cs) kind) :
    ∃ s : Symbol, s.spelling = c :: cs := by
  obtain ⟨s, rfl⟩ := h.leads.of_punctuation hc
  generalize c :: cs = text at h ⊢
  cases h with
  | symbol => exact ⟨s, rfl⟩

end

/-! ## Runs of characters -/

section

variable {p : Char → Bool} {run rest cs : List Char}

/-- Where a run of characters ends. -/
theorem span_run (hrun : ∀ d ∈ run, p d) (hrest : ∀ d ∈ rest.head?, p d = false) :
    (run ++ rest).takeWhile p = run ∧ (run ++ rest).dropWhile p = rest := by
  rw [List.takeWhile_append_of_pos hrun, List.dropWhile_append_of_pos hrun]
  cases rest with
  | nil => simp
  | cons d rest => simp [hrest d rfl]

/-- A run of characters at the head of a text is no longer than the whole run. -/
theorem length_run_le (hrun : ∀ d ∈ run, p d) (h : run <+: cs) :
    run.length ≤ (cs.takeWhile p).length := by
  obtain ⟨rest, rfl⟩ := h
  rw [List.takeWhile_append_of_pos hrun, List.length_append]
  exact Nat.le_add_right _ _

end

/-! ## The head that is cut -/

section

variable {c : Char} {cs : List Char}

/-- A word is cut as far as its characters go. Its kind is looked up in the table, and a longer
lexeme would have to be a word too. -/
theorem head_cutWord (hc : isNameStart c) : Head (cutWord (c :: cs)) := by
  have hsplit := List.takeWhile_append_dropWhile (p := isNameChar) (l := c :: cs)
  have hword : (c :: cs).takeWhile isNameChar = c :: cs.takeWhile isNameChar :=
    List.takeWhile_cons_of_pos (isNameChar_of_isNameStart hc)
  refine .token ?_ ?_ ?_
  · rw [hword, wordKind]
    cases hk : Keyword.ofSpelling? (String.ofList (c :: cs.takeWhile isNameChar)) with
    | some k =>
      rw [← String.toList_ofList (l := c :: cs.takeWhile isNameChar),
        Keyword.ofSpelling?_eq_some_iff.1 hk]
      exact .keyword k
    | none =>
      refine .name hc (fun d hd => List.mem_takeWhile_imp hd) fun k hspelled => ?_
      rw [← hspelled, String.ofList_toList, Keyword.ofSpelling?_eq_some_iff.2 rfl] at hk
      cases hk
  · intro other kind hother hleft
    rw [hsplit] at hleft
    obtain ⟨d, ds, rfl⟩ := List.exists_cons_of_ne_nil hother.ne_nil
    obtain rfl := (List.cons_prefix_cons.1 hleft).1
    exact length_run_le (hother.of_nameStart hc) hleft
  · rw [hsplit]
    refine not_startsComment ?_
    rintro rfl
    cases hc

theorem digits_takeWhile (hc : c.isDigit) : Digits ((c :: cs).takeWhile Char.isDigit) :=
  ⟨by simp [hc], fun d hd => List.mem_takeWhile_imp hd⟩

theorem ne_slash_of_isDigit (hc : c.isDigit) : c ≠ '/' := by
  rintro rfl
  cases hc

/-- A number at the head of a text is within the digits there, or it has them, a point and
some of the digits behind. -/
theorem Lexeme.of_digit_at {other : List Char} {kind : Kind} (hc : c.isDigit)
    (h : Lexeme other kind) (hleft : other <+: c :: cs) :
    other.length ≤ ((c :: cs).takeWhile Char.isDigit).length ∨
      ∃ fs after, Digits fs ∧ (c :: cs).dropWhile Char.isDigit = '.' :: after ∧
        fs <+: after ∧
        other.length = ((c :: cs).takeWhile Char.isDigit).length + 1 + fs.length := by
  obtain ⟨d, ds, rfl⟩ := List.exists_cons_of_ne_nil h.ne_nil
  obtain rfl := (List.cons_prefix_cons.1 hleft).1
  obtain hds | ⟨ds, fs, htext, hds, hfs⟩ := h.of_digit hc
  · exact .inl (length_run_le hds.isDigit hleft)
  · rw [htext] at hleft ⊢
    obtain ⟨rest, hrest⟩ := hleft
    rw [List.append_assoc, List.cons_append] at hrest
    have hpoint : ∀ d ∈ ('.' :: (fs ++ rest)).head?, d.isDigit = false := by simp +decide
    obtain ⟨htake, hdrop⟩ := span_run hds.isDigit hpoint
    rw [hrest] at htake hdrop
    refine .inr ⟨fs, fs ++ rest, hfs, hdrop, List.prefix_append _ _, ?_⟩
    rw [htake, List.length_append, List.length_cons]
    omega

/-- A run of digits, when no point and digit are behind it. -/
theorem head_integer (hc : c.isDigit)
    (hpoint : ∀ after, (c :: cs).dropWhile Char.isDigit = '.' :: after →
      after.takeWhile Char.isDigit = []) :
    Head ⟨.token (.number (numberValue ((c :: cs).takeWhile Char.isDigit) [])),
      (c :: cs).takeWhile Char.isDigit, (c :: cs).dropWhile Char.isDigit⟩ := by
  have hsplit := List.takeWhile_append_dropWhile (p := Char.isDigit) (l := c :: cs)
  refine .token (.integer (digits_takeWhile hc)) (fun other kind hother hleft => ?_) ?_
  · rw [hsplit] at hleft
    obtain hle | ⟨fs, after, hfs, hdrop, hafter, -⟩ := hother.of_digit_at hc hleft
    · exact hle
    · have hlength := length_run_le hfs.isDigit hafter
      rw [hpoint after hdrop] at hlength
      exact absurd (List.eq_nil_of_length_eq_zero (Nat.le_zero.1 hlength)) hfs.ne_nil
  · rw [hsplit]
    exact not_startsComment (ne_slash_of_isDigit hc)

/-- A run of digits, a point and another run of digits. -/
theorem head_decimal {after : List Char} (hc : c.isDigit)
    (hrest : (c :: cs).dropWhile Char.isDigit = '.' :: after)
    (hfraction : after.takeWhile Char.isDigit ≠ []) :
    Head ⟨.token (.number (numberValue ((c :: cs).takeWhile Char.isDigit)
        (after.takeWhile Char.isDigit))),
      (c :: cs).takeWhile Char.isDigit ++ '.' :: after.takeWhile Char.isDigit,
      after.dropWhile Char.isDigit⟩ := by
  have hfs : Digits (after.takeWhile Char.isDigit) :=
    ⟨hfraction, fun d hd => List.mem_takeWhile_imp hd⟩
  have hall : (c :: cs).takeWhile Char.isDigit ++ '.' :: after.takeWhile Char.isDigit ++
      after.dropWhile Char.isDigit = c :: cs := by
    rw [List.append_assoc, List.cons_append, List.takeWhile_append_dropWhile, ← hrest,
      List.takeWhile_append_dropWhile]
  refine .token (.decimal (digits_takeWhile hc) hfs) (fun other kind hother hleft => ?_) ?_
  · rw [hall] at hleft
    rw [List.length_append, List.length_cons]
    obtain hle | ⟨fs, after', hfs', hdrop, hafter, hlength⟩ := hother.of_digit_at hc hleft
    · omega
    · obtain rfl := (List.cons.inj (hrest.symm.trans hdrop)).2
      have hfraction := length_run_le hfs'.isDigit hafter
      omega
  · rw [hall]
    exact not_startsComment (ne_slash_of_isDigit hc)

/-- A point belongs to the number only when a digit is behind it. -/
theorem head_cutNumber (hc : c.isDigit) : Head (cutNumber (c :: cs)) := by
  unfold cutNumber
  dsimp only
  split
  · next after hrest =>
    split
    · next hempty =>
      refine head_integer hc fun after' hrest' => ?_
      obtain rfl := (List.cons.inj (hrest.symm.trans hrest')).2
      exact List.isEmpty_iff.1 hempty
    · next hfraction =>
      exact head_decimal hc hrest fun hnil => hfraction (List.isEmpty_iff.2 hnil)
  · next hpoint => exact head_integer hc fun after hafter => absurd hafter (hpoint after)

/-- A string is cut up to the next quote, or to the end if there is none. -/
theorem head_cutString : Head (cutString '"' cs) := by
  have hsplit := List.takeWhile_append_dropWhile (p := fun c => decide (c ≠ '"')) (l := cs)
  have hcontents : '"' ∉ cs.takeWhile (· ≠ '"') := fun hmem => by
    simpa using List.mem_takeWhile_imp hmem
  unfold cutString
  cases hrest : cs.dropWhile (· ≠ '"') with
  | nil =>
    rw [hrest, List.append_nil] at hsplit
    exact .unterminated (hsplit ▸ hcontents)
  | cons q rest =>
    have hhead := List.head?_dropWhile_not (fun c => decide (c ≠ '"')) cs
    rw [hrest] at hhead hsplit
    obtain rfl : q = '"' := by simpa using hhead
    have hall : '"' :: (cs.takeWhile (· ≠ '"') ++ ['"']) ++ rest = '"' :: cs := by
      simpa using hsplit
    refine .token (.string hcontents) (fun other kind hother hleft => ?_) ?_
    · rw [hall] at hleft
      obtain ⟨d, ds, rfl⟩ := List.exists_cons_of_ne_nil hother.ne_nil
      obtain rfl := (List.cons_prefix_cons.1 hleft).1
      obtain ⟨contents, hno, rfl⟩ := hother.of_quote
      have hrun : ∀ d ∈ contents, decide (d ≠ '"') := fun d hd =>
        decide_eq_true fun heq => hno (heq ▸ hd)
      have hlength := length_run_le hrun
        ((List.prefix_append contents _).trans (List.cons_prefix_cons.1 hleft).2)
      simpa using hlength
    · rw [hall]
      exact not_startsComment (by decide)

/-- A symbol at the head of a text is one character or two. -/
theorem Lexeme.of_punctuation_at {other : List Char} {kind : Kind} (hc : Punctuation c)
    (h : Lexeme other kind) (hleft : other <+: c :: cs) :
    ∃ s : Symbol, s.spelling = other ∧
      (Symbol.single? c = some s ∨ ∃ d ds, cs = d :: ds ∧ Symbol.double? c d = some s) := by
  obtain ⟨d, ds, rfl⟩ := List.exists_cons_of_ne_nil h.ne_nil
  obtain ⟨rfl, hrest⟩ := List.cons_prefix_cons.1 hleft
  obtain ⟨s, hs⟩ := h.of_punctuation hc
  refine ⟨s, hs, ?_⟩
  have hlength := s.length_spelling
  rw [hs] at hlength
  cases ds with
  | nil => exact .inl (Symbol.single?_eq_some_iff.2 hs)
  | cons e es =>
    obtain rfl : es = [] := by simpa using hlength
    obtain ⟨ds, rfl⟩ := hrest
    exact .inr ⟨e, ds, rfl, Symbol.double?_eq_some_iff.2 hs⟩

/-- One character, when the first two do not make a symbol. -/
theorem head_cutSingle (hc : Punctuation c) (hcomment : ¬ StartsComment (c :: cs))
    (hdouble : ∀ d ds, cs = d :: ds → Symbol.double? c d = none) : Head (cutSingle c cs) := by
  have honly {other : List Char} {kind : Kind} (h : Lexeme other kind)
      (hleft : other <+: c :: cs) :
      ∃ s : Symbol, s.spelling = other ∧ Symbol.single? c = some s := by
    obtain ⟨s, hs, hsingle | ⟨d, ds, hcs, hs'⟩⟩ := h.of_punctuation_at hc hleft
    · exact ⟨s, hs, hsingle⟩
    · cases (hdouble d ds hcs).symm.trans hs'
  unfold cutSingle
  cases hs : Symbol.single? c with
  | some s =>
    have hspelled := Symbol.single?_eq_some_iff.1 hs
    refine .token (hspelled ▸ .symbol s) (fun other kind hother hleft => ?_) hcomment
    obtain ⟨s', rfl, hs'⟩ := honly hother hleft
    rw [Symbol.single?_eq_some_iff.1 hs']
  | none =>
    refine .unexpected hc.not_blank hc.ne_quote fun other kind hother hleft => ?_
    obtain ⟨s', -, hs'⟩ := honly hother hleft
    cases hs.symm.trans hs'

/-- Two slashes start a comment; else two characters make a symbol if they can, and one does if
not. -/
theorem head_cutSymbol (hc : Punctuation c) : Head (cutSymbol c cs) := by
  unfold cutSymbol
  split
  · refine head_cutSingle hc (fun hcomment => absurd hcomment.length_le (by simp)) ?_
    intro d ds hcs
    cases hcs
  · next d ds =>
    split
    · next hslashes =>
      obtain ⟨rfl, rfl⟩ := hslashes
      refine .comment (fun hmem => ?_) fun e he => ?_
      · simpa using List.mem_takeWhile_imp hmem
      · have hhead := List.head?_dropWhile_not (fun c => decide (c ≠ '\n')) ds
        rw [he] at hhead
        simpa using hhead
    · next hslashes =>
      have hcomment : ¬ StartsComment (c :: d :: ds) := by
        rintro ⟨rest, hrest⟩
        cases hrest
        exact hslashes ⟨rfl, rfl⟩
      split
      · next s hs =>
        have hspelled := Symbol.double?_eq_some_iff.1 hs
        refine .token (hspelled ▸ .symbol s) (fun other kind hother hleft => ?_) hcomment
        obtain ⟨s', rfl, -⟩ := hother.of_punctuation_at hc hleft
        have hlength := s'.length_spelling
        simp only [List.length_cons, List.length_nil]
        omega
      · next hnone =>
        refine head_cutSingle hc hcomment fun e es hcs => ?_
        obtain rfl := (List.cons.inj hcs).1
        exact hnone

/-- What is cut from a text is what stands at its head. -/
theorem head_cut (c : Char) (cs : List Char) : Head (cut c cs) := by
  unfold cut
  split
  · next hblank => exact .blank hblank
  next hblank =>
  split
  · next hquote =>
    subst hquote
    exact head_cutString
  next hquote =>
  split
  · next hdigit => exact head_cutNumber hdigit
  next hdigit =>
  split
  · next hstart => exact head_cutWord hstart
  · next hstart =>
    exact head_cutSymbol ⟨by simpa using hblank, hquote, by simpa using hdigit,
      by simpa using hstart⟩

end

/-! ## Nothing else stands there -/

section

variable {c : Char} {cs : List Char} {kind : Kind}

/-- Among the branches of `cut`, a digit takes that of numbers. -/
theorem cut_of_digit (hc : c.isDigit) : cut c cs = cutNumber (c :: cs) := by
  have hleads : Leads c (.number 0) := hc
  unfold cut
  rw [hleads.not_blank, if_neg Bool.false_ne_true, if_neg (ne_quote_of_isDigit hc), if_pos hc]

/-- And a letter that of words. -/
theorem cut_of_nameStart (hc : isNameStart c) : cut c cs = cutWord (c :: cs) := by
  have hleads : Leads c .identifier := hc
  unfold cut
  rw [hleads.not_blank, if_neg Bool.false_ne_true, if_neg (ne_quote_of_isNameStart hc),
    not_isDigit_of_isNameStart hc, if_neg Bool.false_ne_true, if_pos hc]

theorem cutWord_run {run : List Char} (hrun : ∀ d ∈ run, isNameChar d) :
    cutWord run = ⟨.token (wordKind (String.ofList run)), run, []⟩ := by
  rw [cutWord, List.takeWhile_eq_self_iff.2 hrun, List.dropWhile_eq_nil_iff.2 hrun]

theorem cutNumber_integer {ds : List Char} (hds : Digits ds) :
    cutNumber ds = ⟨.token (.number (numberValue ds [])), ds, []⟩ := by
  rw [cutNumber, List.takeWhile_eq_self_iff.2 hds.isDigit,
    List.dropWhile_eq_nil_iff.2 hds.isDigit]

/-- The point ends the first run of digits, and the second goes up to the end. -/
theorem cutNumber_decimal {ds fs : List Char} (hds : Digits ds) (hfs : Digits fs) :
    cutNumber (ds ++ '.' :: fs) =
      ⟨.token (.number (numberValue ds fs)), ds ++ '.' :: fs, []⟩ := by
  have hpoint : ∀ d ∈ ('.' :: fs).head?, d.isDigit = false := by simp +decide
  have hspan := span_run hds.isDigit hpoint
  have hsome : ¬ fs.isEmpty := fun hempty => hfs.ne_nil (List.isEmpty_iff.1 hempty)
  rw [cutNumber, hspan.1, hspan.2]
  simp only [List.takeWhile_eq_self_iff.2 hfs.isDigit, List.dropWhile_eq_nil_iff.2 hfs.isDigit,
    if_neg hsome]

/-- A lexeme on its own is cut as what it is. -/
theorem Lexeme.cut_eq (h : Lexeme (c :: cs) kind) : cut c cs = ⟨.token kind, c :: cs, []⟩ := by
  generalize htext : c :: cs = text at h
  cases h with
  | symbol s => cases s <;> cases htext <;> rfl
  | keyword k =>
    have hstart := isNameStart_keyword k
    rw [cut_of_nameStart (hstart c (htext ▸ List.mem_cons_self ..)), htext,
      cutWord_run fun d hd => isNameChar_of_isNameStart (hstart d hd), wordKind,
      String.ofList_toList, Keyword.ofSpelling?_eq_some_iff.2 rfl]
  | @name c' cs' hc hcs hno =>
    obtain ⟨rfl, rfl⟩ := List.cons.inj htext
    have hrun : ∀ d ∈ c :: cs, isNameChar d :=
      List.forall_mem_cons.2 ⟨isNameChar_of_isNameStart hc, hcs⟩
    rw [cut_of_nameStart hc, cutWord_run hrun, wordKind]
    cases hk : Keyword.ofSpelling? (String.ofList (c :: cs)) with
    | none => rfl
    | some k =>
      have hspelled := Keyword.ofSpelling?_eq_some_iff.1 hk
      exact absurd (hspelled ▸ String.toList_ofList) (hno k)
  | @string contents hno =>
    obtain ⟨rfl, rfl⟩ := List.cons.inj htext
    have hrun : ∀ d ∈ contents, decide (d ≠ '"') := fun d hd =>
      decide_eq_true fun heq => hno (heq ▸ hd)
    have hquote : ∀ d ∈ ['"'].head?, decide (d ≠ '"') = false := by simp
    have hspan := span_run hrun hquote
    show cutString '"' (contents ++ ['"']) = _
    rw [cutString, hspan.1, hspan.2]
  | integer hds =>
    obtain rfl := htext
    rw [cut_of_digit hds.leads, cutNumber_integer hds]
  | @decimal ds fs hds hfs =>
    obtain ⟨d, ds, rfl⟩ := List.exists_cons_of_ne_nil hds.ne_nil
    obtain ⟨rfl, rfl⟩ := List.cons.inj htext
    rw [cut_of_digit hds.leads]
    exact cutNumber_decimal hds hfs

/-- The text of a lexeme says of which kind it is. -/
theorem Lexeme.kind_unique {text : List Char} {kind' : Kind} (h : Lexeme text kind)
    (h' : Lexeme text kind') : kind = kind' := by
  obtain ⟨c, cs, rfl⟩ := List.exists_cons_of_ne_nil h.ne_nil
  have hcut := h.cut_eq.symm.trans h'.cut_eq
  exact Piece.token.inj (Cut.mk.inj hcut).1

/-- A blank is skipped on its own. -/
theorem cut_blank (hblank : isBlank c) : cut c cs = ⟨.skipped, [c], cs⟩ := by
  rw [cut, if_pos hblank]

/-- A comment is skipped up to its newline, which is a blank of its own. -/
theorem cut_comment {body rest : List Char} (hbody : '\n' ∉ body)
    (hrest : ∀ c ∈ rest.head?, c = '\n') :
    cut '/' ('/' :: (body ++ rest)) = ⟨.skipped, '/' :: '/' :: body, rest⟩ := by
  have hrun : ∀ d ∈ body, decide (d ≠ '\n') := fun d hd =>
    decide_eq_true fun heq => hbody (heq ▸ hd)
  have hspan := span_run hrun fun d hd => decide_eq_false (not_not.2 (hrest d hd))
  show cutSymbol '/' ('/' :: (body ++ rest)) = _
  rw [cutSymbol, if_pos ⟨rfl, rfl⟩, hspan.1, hspan.2]

/-- Without another quote, all that is behind one is an open string. -/
theorem cut_unterminated {body : List Char} (hbody : '"' ∉ body) :
    cut '"' body = ⟨.error .unterminatedString, '"' :: body, []⟩ := by
  have hrun : ∀ d ∈ body, decide (d ≠ '"') := fun d hd =>
    decide_eq_true fun heq => hbody (heq ▸ hd)
  show cutString '"' body = _
  rw [cutString, List.dropWhile_eq_nil_iff.2 hrun]

/-- Where a lexeme stands and no comment, a token is cut. -/
theorem Lexeme.cut_isToken {text rest : List Char} (h : Lexeme text kind)
    (hcomment : ¬ StartsComment (text ++ rest)) (htext : text ++ rest = c :: cs) :
    ∃ kind', (cut c cs).piece = .token kind' := by
  have hcut := head_cut c cs
  have hwhole := (text_append_rest_cut c cs).trans htext.symm
  obtain ⟨d, ds, rfl⟩ := List.exists_cons_of_ne_nil h.ne_nil
  generalize cut c cs = k at hcut hwhole ⊢
  cases hcut with
  | blank hblank =>
    obtain ⟨rfl, -⟩ := List.cons.inj hwhole
    exact absurd (h.leads.not_blank.symm.trans hblank) Bool.false_ne_true
  | comment => exact absurd (hwhole ▸ List.prefix_append ['/', '/'] _) hcomment
  | token => exact ⟨_, rfl⟩
  | unexpected hblank hquote hno =>
    have hleft := List.prefix_append (d :: ds) rest
    rw [← hwhole] at hleft
    exact absurd hleft (hno _ _ h)
  | @unterminated body hno =>
    obtain ⟨rfl, hbody⟩ := List.cons.inj hwhole
    obtain ⟨contents, -, rfl⟩ := h.of_quote
    have hclosed : body = contents ++ ['"'] ++ rest := (List.append_nil body).symm.trans hbody
    exact absurd (by simp [hclosed]) hno

/-- Of the pieces that may stand at the head of a text, `cut` finds the one that does. -/
theorem Head.eq_cut {k : Cut} (h : Head k) (htext : k.text ++ k.rest = c :: cs) :
    k = cut c cs := by
  have hwhole := (text_append_rest_cut c cs).trans htext.symm
  have hcut := head_cut c cs
  cases h with
  | blank hblank =>
    cases htext
    exact (cut_blank hblank).symm
  | comment hbody hrest =>
    cases htext
    exact (cut_comment hbody hrest).symm
  | @unterminated body hbody =>
    rw [List.append_nil] at htext
    cases htext
    exact (cut_unterminated hbody).symm
  | @unexpected d rest hblank hquote hno =>
    generalize cut c cs = k at hcut hwhole ⊢
    cases hcut with
    | blank hblank' =>
      obtain ⟨rfl, -⟩ := List.cons.inj hwhole
      exact absurd (hblank.symm.trans hblank') Bool.false_ne_true
    | comment =>
      have hslash : ['/'] <+: d :: rest := ⟨_, hwhole⟩
      exact absurd hslash (hno _ _ (.symbol .slash))
    | token hlexeme => exact absurd ⟨_, hwhole⟩ (hno _ _ hlexeme)
    | unexpected =>
      obtain ⟨rfl, rfl⟩ := List.cons.inj hwhole
      rfl
    | unterminated =>
      obtain ⟨rfl, -⟩ := List.cons.inj hwhole
      exact absurd rfl hquote
  | @token text rest kind hlexeme hlongest hcomment =>
    obtain ⟨kind', hkind'⟩ := hlexeme.cut_isToken hcomment htext
    generalize cut c cs = k at hcut hwhole hkind' ⊢
    cases hcut with
    | @token text' rest' _ hlexeme' hlongest' _ =>
      have hle := hlongest' _ _ hlexeme ⟨_, hwhole.symm⟩
      have hge := hlongest _ _ hlexeme' ⟨_, hwhole⟩
      obtain ⟨rfl, rfl⟩ := List.append_inj hwhole (Nat.le_antisymm hge hle)
      rw [hlexeme.kind_unique hlexeme']
    | _ => cases hkind'

end

end Lexer

end PipeLang
