import PipeLang.Token.Lexer

/-!
# Texts one behind the other

A blank ends every token but a string, and a newline ends a comment too (`Lexer.cut_append`).
So when nothing in a text is an open string, the text with a newline and another text behind
it yields what the two yield, the second on later lines (`Lexer.itemsFrom_append`,
`items_parted`). Two texts that are cut without errors are cut so one behind the other as well
(`tokens?_join`).
-/

namespace PipeLang

/-- The token on a later line. -/
def Token.down (n : Nat) (t : Token) : Token := { t with line := t.line + n }

/-- How many newlines a text has. -/
def newlines (source : String) : Nat := source.toList.count '\n'

/-- The text with `n` empty lines in front. -/
def furtherDown (n : Nat) (source : String) : String :=
  String.ofList (List.replicate n '\n') ++ source

namespace Lexer

/-! ## One cut -/

/-- The cut with more text behind the rest. -/
def Cut.extend (k : Cut) (ds : List Char) : Cut := { k with rest := k.rest ++ ds }

section

variable {p : Char → Bool} {c : Char} (cs ds : List Char)

/-- A run of characters ends where it ended, if it ended before the end of the text. -/
theorem dropWhile_append_of_ne_nil (h : cs.dropWhile p ≠ []) :
    (cs ++ ds).takeWhile p = cs.takeWhile p ∧
      (cs ++ ds).dropWhile p = cs.dropWhile p ++ ds := by
  induction cs with
  | nil => exact absurd rfl h
  | cons c cs ih =>
    cases hc : p c with
    | false => simp [hc]
    | true =>
      rw [List.dropWhile_cons_of_pos hc] at h
      simpa [hc] using ih h

/-- A run of characters does not go beyond one that is not of the kind. -/
theorem dropWhile_append_barrier (hc : p c = false) :
    (cs ++ c :: ds).takeWhile p = cs.takeWhile p ∧
      (cs ++ c :: ds).dropWhile p = cs.dropWhile p ++ c :: ds := by
  induction cs with
  | nil => simp [hc]
  | cons d cs ih =>
    cases hd : p d with
    | false => simp [hd]
    | true => simpa [hd] using ih

end

section

variable (c : Char) (cs ds : List Char)

theorem cutString_append
    (h : (cutString c cs).piece ≠ .error .unterminatedString) :
    cutString c (cs ++ ds) = (cutString c cs).extend ds := by
  have hclosed : cs.dropWhile (· ≠ '"') ≠ [] := by
    intro hopen
    refine h ?_
    unfold cutString
    rw [hopen]
  obtain ⟨htake, hdrop⟩ := dropWhile_append_of_ne_nil cs ds hclosed
  unfold cutString
  rw [htake, hdrop]
  cases hrest : cs.dropWhile (· ≠ '"') with
  | nil => exact absurd hrest hclosed
  | cons q rest => rfl

theorem cutNumber_append {d : Char} (hdigit : d.isDigit = false) (hpoint : d ≠ '.') :
    cutNumber (cs ++ d :: ds) = (cutNumber cs).extend (d :: ds) := by
  obtain ⟨htake, hdrop⟩ := dropWhile_append_barrier (p := Char.isDigit) cs ds hdigit
  unfold cutNumber
  rw [htake, hdrop]
  dsimp only
  cases hrest : cs.dropWhile Char.isDigit with
  | nil =>
    rw [List.nil_append]
    split
    · next heq => exact absurd (List.cons.inj heq).1 hpoint
    · rfl
  | cons e after =>
    obtain ⟨htake', hdrop'⟩ := dropWhile_append_barrier (p := Char.isDigit) after ds hdigit
    by_cases he : e = '.'
    · subst he
      simp only [List.cons_append, htake', hdrop']
      split <;> rfl
    · rw [List.cons_append]
      split
      · next heq => exact absurd (List.cons.inj heq).1 he
      · split
        · next heq => exact absurd (List.cons.inj heq).1 he
        · rfl

theorem cutWord_append {d : Char} (hd : isNameChar d = false) :
    cutWord (cs ++ d :: ds) = (cutWord cs).extend (d :: ds) := by
  obtain ⟨htake, hdrop⟩ := dropWhile_append_barrier (p := isNameChar) cs ds hd
  unfold cutWord
  rw [htake, hdrop]
  rfl

theorem cutSingle_append : cutSingle c (cs ++ ds) = (cutSingle c cs).extend ds := by
  unfold cutSingle
  cases Symbol.single? c <;> rfl

/-- What holds of the four blanks holds of every blank. -/
theorem forall_blank {p : Char → Prop} (h : p ' ' ∧ p '\r' ∧ p '\t' ∧ p '\n') {d : Char}
    (hd : isBlank d) : p d := by
  obtain ⟨hspace, hreturn, htab, hnewline⟩ := h
  simp only [isBlank, Bool.or_eq_true, beq_iff_eq] at hd
  obtain ((rfl | rfl) | rfl) | rfl := hd
  · exact hspace
  · exact hreturn
  · exact htab
  · exact hnewline

theorem double?_blank {d : Char} (hd : isBlank d) : Symbol.double? c d = none := by
  unfold Symbol.double?
  split <;> first | rfl | exact absurd hd (by decide)

theorem cutSymbol_append {d : Char} (hd : isBlank d)
    (hcomment : d = '\n' ∨ (cutSymbol c cs).piece ≠ .skipped) :
    cutSymbol c (cs ++ d :: ds) = (cutSymbol c cs).extend (d :: ds) := by
  cases cs with
  | nil =>
    have hslash : ¬(c = '/' ∧ d = '/') := fun h =>
      forall_blank (p := (· ≠ '/')) (by decide) hd h.2
    simp only [List.nil_append, cutSymbol, if_neg hslash, double?_blank c hd]
    exact cutSingle_append c [] (d :: ds)
  | cons e cs =>
    rw [List.cons_append, cutSymbol]
    rw [cutSymbol] at hcomment ⊢
    split at hcomment
    · next hslashes =>
      obtain rfl := hcomment.resolve_right fun hskipped => hskipped rfl
      obtain ⟨htake, hdrop⟩ := dropWhile_append_barrier (p := fun c => decide (c ≠ '\n'))
        (c := '\n') cs ds (by decide)
      rw [if_pos hslashes, if_pos hslashes, htake, hdrop]
      rfl
    · next hslashes =>
      rw [if_neg hslashes, if_neg hslashes]
      cases Symbol.double? c e with
      | some s => rfl
      | none => exact cutSingle_append c (e :: cs) (d :: ds)

/-- The head of a text stays the same when a blank and more text come behind. But a string
must be closed, and a comment ends at a newline only. -/
theorem cut_append {d : Char} (hd : isBlank d)
    (hclosed : (cut c cs).piece ≠ .error .unterminatedString)
    (hcomment : d = '\n' ∨ (cut c cs).piece ≠ .skipped) :
    cut c (cs ++ d :: ds) = (cut c cs).extend (d :: ds) := by
  unfold cut at hclosed hcomment ⊢
  by_cases hblank : isBlank c
  · rw [if_pos hblank, if_pos hblank]
    rfl
  rw [if_neg hblank] at hclosed hcomment
  rw [if_neg hblank, if_neg hblank]
  by_cases hquote : c = '"'
  · rw [if_pos hquote] at hclosed
    rw [if_pos hquote, if_pos hquote]
    exact cutString_append c cs _ hclosed
  rw [if_neg hquote] at hcomment
  rw [if_neg hquote, if_neg hquote]
  by_cases hdigit : c.isDigit
  · rw [if_pos hdigit, if_pos hdigit]
    exact cutNumber_append (c :: cs) ds (forall_blank (p := (·.isDigit = false)) (by decide) hd)
      (forall_blank (p := (· ≠ '.')) (by decide) hd)
  rw [if_neg hdigit] at hcomment
  rw [if_neg hdigit, if_neg hdigit]
  by_cases hstart : isNameStart c
  · rw [if_pos hstart, if_pos hstart]
    exact cutWord_append (c :: cs) ds
      (forall_blank (p := (isNameChar · = false)) (by decide) hd)
  rw [if_neg hstart] at hcomment
  rw [if_neg hstart, if_neg hstart]
  exact cutSymbol_append c cs ds hd hcomment

end

theorem wordKind_ne_eof (word : String) : wordKind word ≠ .eof := by
  unfold wordKind
  split <;> simp

/-- No piece of a text is an end marker. -/
theorem cut_ne_eof (c : Char) (cs : List Char) : (cut c cs).piece ≠ .token .eof := by
  unfold cut
  split
  · simp
  split
  · unfold cutString
    split <;> simp
  split
  · unfold cutNumber
    dsimp only
    split
    · split <;> simp
    · simp
  split
  · simp [cutWord, wordKind_ne_eof]
  · unfold cutSymbol cutSingle
    split
    · split <;> simp
    · split
      · simp
      · split
        · simp
        · split <;> simp

/-! ## The whole text -/

/-- The item on a later line. -/
def down (n : Nat) : Item → Item
  | .token t => .token (t.down n)
  | .error e => .error { e with line := e.line + n }

/-- The newlines of a text are those of its head and of the rest. -/
theorem lines_cut (line : Nat) (c : Char) (cs : List Char) :
    line + (cut c cs).text.count '\n' + (cut c cs).rest.count '\n' =
      line + (c :: cs).count '\n' := by
  rw [Nat.add_assoc, ← List.count_append, text_append_rest_cut]

theorem itemsFrom_add (line n : Nat) (cs : List Char) :
    itemsFrom (line + n) cs = (itemsFrom line cs).map (down n) := by
  fun_induction itemsFrom line cs with
  | case1 line => rw [itemsFrom]; rfl
  | case2 line c cs k next hk ih =>
    rw [itemsFrom]
    simp only [hk, k, next] at ih ⊢
    rw [← ih, Nat.add_right_comm]
  | case3 line c cs k next kind hk ih =>
    rw [itemsFrom]
    simp only [hk, k, next] at ih ⊢
    rw [List.map_cons, ← ih, Nat.add_right_comm]
    rfl
  | case4 line c cs k next cause hk ih =>
    rw [itemsFrom]
    simp only [hk, k, next] at ih ⊢
    rw [List.map_cons, ← ih, Nat.add_right_comm]
    rfl

/-- The end marker comes last and nowhere else, on the last line. -/
theorem itemsFrom_eq_concat (line : Nat) (cs : List Char) :
    ∃ is, itemsFrom line cs = is ++ [.token ⟨.eof, "", line + cs.count '\n'⟩] ∧
      ∀ t, .token t ∈ is → t.kind ≠ .eof := by
  fun_induction itemsFrom line cs with
  | case1 line => exact ⟨[], rfl, nofun⟩
  | case2 line c cs k next hk ih =>
    obtain ⟨is, his, hnoEnd⟩ := ih
    exact ⟨is, by rw [his, lines_cut], hnoEnd⟩
  | case3 line c cs k next kind hk ih =>
    obtain ⟨is, his, hnoEnd⟩ := ih
    refine ⟨_ :: is, by rw [his, lines_cut]; rfl, fun t ht => ?_⟩
    rcases List.mem_cons.1 ht with ⟨⟨⟩⟩ | ht
    · exact fun heof => cut_ne_eof c cs (heof ▸ hk)
    · exact hnoEnd t ht
  | case4 line c cs k next cause hk ih =>
    obtain ⟨is, his, hnoEnd⟩ := ih
    refine ⟨_ :: is, by rw [his, lines_cut]; rfl, fun t ht => ?_⟩
    rcases List.mem_cons.1 ht with ⟨⟨⟩⟩ | ht
    exact hnoEnd t ht

theorem itemsFrom_ne_nil (line : Nat) (cs : List Char) : itemsFrom line cs ≠ [] := by
  obtain ⟨is, his, -⟩ := itemsFrom_eq_concat line cs
  rw [his]
  exact List.concat_ne_nil _ _

/-- A text, a newline and another text. Unless a string is open at the end of the first, its
items come first, without the end marker, and then those of the second. -/
theorem itemsFrom_append (line : Nat) (cs ds : List Char)
    (hclosed : ∀ i ∈ itemsFrom line cs, isUnterminated i = false) :
    itemsFrom line (cs ++ '\n' :: ds) =
      (itemsFrom line cs).dropLast ++ itemsFrom (line + cs.count '\n' + 1) ds := by
  fun_induction itemsFrom line cs with
  | case1 line =>
    rw [List.nil_append, itemsFrom]
    rfl
  | case2 line c cs k next hk ih =>
    have hcut : cut c (cs ++ '\n' :: ds) = k.extend ('\n' :: ds) :=
      cut_append c cs ds rfl (fun hopen => nomatch hk.symm.trans hopen) (.inl rfl)
    rw [List.cons_append, itemsFrom, hcut]
    simp only [Cut.extend, hk]
    rw [ih hclosed, lines_cut]
  | case3 line c cs k next kind hk ih =>
    have hcut : cut c (cs ++ '\n' :: ds) = k.extend ('\n' :: ds) :=
      cut_append c cs ds rfl (fun hopen => nomatch hk.symm.trans hopen) (.inl rfl)
    rw [List.cons_append, itemsFrom, hcut]
    simp only [Cut.extend, hk]
    rw [ih fun i hi => hclosed i (List.mem_cons_of_mem _ hi), lines_cut,
      List.dropLast_cons_of_ne_nil (itemsFrom_ne_nil _ _), List.cons_append]
  | case4 line c cs k next cause hk ih =>
    have hcause : cause ≠ .unterminatedString := by
      rintro rfl
      have hopen := hclosed _ (List.mem_cons_self ..)
      rw [isUnterminated] at hopen
      cases hopen
    have hcut : cut c (cs ++ '\n' :: ds) = k.extend ('\n' :: ds) :=
      cut_append c cs ds rfl (fun hopen => hcause (Piece.error.inj (hk.symm.trans hopen)))
        (.inl rfl)
    rw [List.cons_append, itemsFrom, hcut]
    simp only [Cut.extend, hk]
    rw [ih fun i hi => hclosed i (List.mem_cons_of_mem _ hi), lines_cut,
      List.dropLast_cons_of_ne_nil (itemsFrom_ne_nil _ _), List.cons_append]

/-! ## Tokens -/

theorem collect_map_token (ts : List Token) : collect (ts.map .token) = .ok ts := by
  induction ts with
  | nil => rfl
  | cons t ts ih =>
    rw [List.map_cons, collect, ih]
    rfl

/-- A text without errors yields tokens alone. -/
theorem collect_eq_ok_iff {is : List Item} {ts : List Token} :
    collect is = .ok ts ↔ is = ts.map .token := by
  refine ⟨fun h => ?_, fun h => h ▸ collect_map_token ts⟩
  induction is generalizing ts with
  | nil =>
    cases h
    rfl
  | cons i is ih =>
    cases i with
    | error e => cases h
    | token t =>
      rw [collect] at h
      cases hus : collect is with
      | error e =>
        rw [hus] at h
        cases h
      | ok us =>
        rw [hus] at h
        obtain rfl := Except.ok.inj h
        rw [ih hus, List.map_cons]

end Lexer

/-- The end marker of a text without errors stands behind its tokens, on its last line. -/
theorem tokens?_eq_concat {source : String} {ts : List Token} (h : tokens? source = .ok ts) :
    ∃ us, ts = us ++ [⟨.eof, "", 1 + newlines source⟩] ∧ ∀ t ∈ us, t.kind ≠ .eof := by
  have hitems := Lexer.collect_eq_ok_iff.1 h
  obtain ⟨is, his, hnoEnd⟩ := Lexer.itemsFrom_eq_concat 1 source.toList
  obtain ⟨us, vs, rfl, rfl, hvs⟩ := List.map_eq_append_iff.1 (hitems.symm.trans his)
  obtain ⟨stop, rfl, hstop⟩ := List.map_eq_singleton_iff.1 hvs
  obtain rfl := Item.token.inj hstop
  exact ⟨us, rfl, fun t ht => hnoEnd t (List.mem_map_of_mem ht)⟩

theorem map_down_token (n : Nat) (ts : List Token) :
    (ts.map Item.token).map (Lexer.down n) = (ts.map (Token.down n)).map .token := by
  rw [List.map_map, List.map_map]
  rfl

/-- Two texts with a newline between them : the items of the first, without the end marker, and
those of the second, as many lines further down as it takes. -/
theorem items_append {a : String} (b : String)
    (hclosed : ∀ i ∈ items a, Lexer.isUnterminated i = false) :
    items (a ++ "\n" ++ b) = (items a).dropLast ++ (items b).map (Lexer.down (1 + newlines a)) := by
  have hlines : 1 + a.toList.count '\n' + 1 = 1 + (1 + newlines a) := by
    rw [newlines]
    omega
  unfold items
  rw [String.toList_append, String.toList_append, List.append_assoc]
  rw [show "\n".toList ++ b.toList = '\n' :: b.toList from rfl]
  rw [Lexer.itemsFrom_append 1 _ _ hclosed, hlines, Lexer.itemsFrom_add]

/-- A newline parts the items of a text from those of the text behind it, whatever that is. The
first text must not end inside a string. -/
theorem items_parted {a : String} (b : String)
    (hclosed : ∀ i ∈ items a, Lexer.isUnterminated i = false) :
    ∃ is, items a = is ++ [.token ⟨.eof, "", 1 + newlines a⟩] ∧
      (∀ t, .token t ∈ is → t.kind ≠ .eof) ∧
      items (a ++ "\n" ++ b) = is ++ (items b).map (Lexer.down (1 + newlines a)) := by
  obtain ⟨is, his, hnoEnd⟩ := Lexer.itemsFrom_eq_concat 1 a.toList
  have hitems : items a = is ++ [.token ⟨.eof, "", 1 + newlines a⟩] := his
  refine ⟨is, hitems, hnoEnd, ?_⟩
  rw [items_append b hclosed, hitems, List.dropLast_concat]

/-- A minus sign at the end of one line and a greater sign on the next are no arrow. -/
theorem items_parted_arrow :
    let a := "\"1\n2\" -"
    (∀ i ∈ items a, Lexer.isUnterminated i = false) ∧
      items (a ++ "\n" ++ "> é \"open") =
        [.token ⟨.string "1\n2", "\"1\n2\"", 2⟩, .token ⟨.symbol .minus, "-", 2⟩,
          .token ⟨.symbol .greater, ">", 3⟩, .error ⟨.unexpected 'é', 3⟩,
          .error ⟨.unterminatedString, 3⟩, .token ⟨.eof, "", 3⟩] := by
  intro a
  have ha : items a = [.token ⟨.string "1\n2", "\"1\n2\"", 2⟩, .token ⟨.symbol .minus, "-", 2⟩] ++
      [.token ⟨.eof, "", 1 + newlines a⟩] := by decide +kernel
  have hclosed : ∀ i ∈ items a, Lexer.isUnterminated i = false := by
    rw [ha]
    decide
  obtain ⟨is, his, -, hjoin⟩ := items_parted "> é \"open" hclosed
  obtain rfl := List.append_cancel_right (ha.symm.trans his)
  refine ⟨hclosed, hjoin.trans ?_⟩
  decide +kernel

/-- Two texts without errors, with a newline between them : the tokens of the first, without
the end marker, and those of the second, as many lines further down as it takes. -/
theorem tokens?_join {a b : String} {us ts : List Token} {stop : Token}
    (ha : tokens? a = .ok (us ++ [stop])) (hb : tokens? b = .ok ts) :
    tokens? (a ++ "\n" ++ b) = .ok (us ++ ts.map (Token.down (1 + newlines a))) := by
  have hia : items a = (us ++ [stop]).map .token := Lexer.collect_eq_ok_iff.1 ha
  have hib : items b = ts.map .token := Lexer.collect_eq_ok_iff.1 hb
  have hclosed : ∀ i ∈ items a, Lexer.isUnterminated i = false := by
    intro i hi
    rw [hia] at hi
    obtain ⟨t, -, rfl⟩ := List.mem_map.1 hi
    rfl
  refine Lexer.collect_eq_ok_iff.2 ?_
  rw [items_append b hclosed, hia, hib, map_down_token]
  simp

/-- Empty lines in front of a text move its tokens down. -/
theorem tokens?_furtherDown {source : String} {ts : List Token} (n : Nat)
    (h : tokens? source = .ok ts) :
    tokens? (furtherDown n source) = .ok (ts.map (Token.down n)) := by
  have hitems : Lexer.itemsFrom 1 source.toList = ts.map .token := Lexer.collect_eq_ok_iff.1 h
  have hskip : ∀ line, Lexer.itemsFrom line (List.replicate n '\n' ++ source.toList) =
      Lexer.itemsFrom (line + n) source.toList := by
    induction n with
    | zero => exact fun _ => rfl
    | succ n ih =>
      intro line
      rw [List.replicate_succ, List.cons_append, Lexer.itemsFrom]
      exact (ih (line + 1)).trans (by rw [Nat.add_right_comm, Nat.add_assoc])
  refine Lexer.collect_eq_ok_iff.2 ?_
  unfold items furtherDown
  rw [String.toList_append, String.toList_ofList, hskip, Lexer.itemsFrom_add, hitems,
    map_down_token]

end PipeLang
