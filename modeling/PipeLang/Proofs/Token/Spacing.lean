import PipeLang.Proofs.Token.Tiling

/-!
# Lexemes with other blanks around them

A text that is written from the lexemes of tokens, with blanks and comments between them, is
cut into those tokens again (`tokens?_respaced`). What stands behind a lexeme must begin with a
blank : a blank ends every lexeme, and what is in front of it is still the longest one
(`Lexer.Lexeme.head`). A slash may not, since a comment or a division would be read with what
is in front.
-/

namespace PipeLang

namespace Lexer

/-! ## Separators -/

/-- Blanks, and comments that end with a newline. -/
inductive Separator : List Char → Prop where
  | nil : Separator []
  | blank {c : Char} {gap : List Char} : isBlank c → Separator gap → Separator (c :: gap)
  | comment {body gap : List Char} : '\n' ∉ body → Separator gap →
    Separator ('/' :: '/' :: (body ++ '\n' :: gap))

/-- A blank comes first, or nothing. -/
def Parted (rest : List Char) : Prop := ∀ c ∈ rest.head?, isBlank c

/-- A separator is skipped, whatever is behind it. -/
theorem Separator.skipped {gap : List Char} (h : Separator gap) (rest : List Char) :
    Gap gap rest := by
  induction h with
  | nil => exact .none
  | @blank c gap hblank _ ih =>
    change Gap ([c] ++ gap) rest
    exact .skip (.blank hblank) ih
  | @comment body gap hbody _ ih =>
    have hnewline : Gap (['\n'] ++ gap) rest := .skip (.blank rfl) ih
    change Gap ('/' :: '/' :: body ++ (['\n'] ++ gap)) rest
    exact .skip (.comment hbody (by simp)) hnewline

/-! ## Lexemes in front of a blank -/

/-- In front of a blank, a lexeme is the longest one there is. -/
theorem Lexeme.head {text rest : List Char} {kind : Kind} (h : Lexeme text kind)
    (hrest : Parted rest) : Head ⟨.token kind, text, rest⟩ := by
  obtain ⟨c, cs, rfl⟩ := List.exists_cons_of_ne_nil h.ne_nil
  have hcut : cut c (cs ++ rest) = ⟨.token kind, c :: cs, rest⟩ := by
    cases rest with
    | nil => rw [List.append_nil, h.cut_eq]
    | cons d ds =>
      have htoken : (cut c cs).piece = .token kind := congrArg Cut.piece h.cut_eq
      have happend := cut_append c cs ds (hrest d rfl)
        (fun hopen => nomatch htoken.symm.trans hopen)
        (.inr fun hskipped => nomatch htoken.symm.trans hskipped)
      rw [happend, h.cut_eq]
      rfl
  exact hcut ▸ head_cut c (cs ++ rest)

/-- A token of a text is a lexeme of its kind, the end marker apart. -/
theorem lexeme_of_mem {line : Nat} {cs : List Char} {t : Token}
    (h : .token t ∈ itemsFrom line cs) (hkind : t.kind ≠ .eof) :
    Lexeme t.lexeme.toList t.kind := by
  obtain ⟨tiles, htiles, hitems⟩ := exists_tiling line cs
  rw [← hitems] at h
  obtain ⟨tile, hmem, htile⟩ := List.mem_map.1 h
  obtain ⟨before, after, rfl⟩ := List.append_of_mem hmem
  obtain ⟨-, hcovers | ⟨-, -, _, hend⟩⟩ := htiles.of_mem
  · rw [htile] at hcovers
    exact hcovers.of_token.1
  · obtain rfl := Item.token.inj (htile.symm.trans hend)
    exact absurd rfl hkind

/-! ## Lexemes and separators by turns -/

/-- Each lexeme with the separator behind it. -/
def spell : List Token → List (List Char) → List Char
  | t :: ts, gap :: gaps => t.lexeme.toList ++ (gap ++ spell ts gaps)
  | _, _ => []

@[simp] theorem spell_nil (gaps : List (List Char)) : spell [] gaps = [] := rfl

/-- What may stand behind lexemes : separators that begin with a blank. Only behind the last
lexeme there may be nothing. -/
structure Spaces (gaps : List (List Char)) : Prop where
  separator : ∀ gap ∈ gaps, Separator gap
  parted : ∀ gap ∈ gaps, Parted gap
  between : ∀ gap ∈ gaps.dropLast, gap ≠ []

theorem Spaces.tail {gap : List Char} {gaps : List (List Char)} (h : Spaces (gap :: gaps)) :
    Spaces gaps where
  separator other hother := h.separator other (List.mem_cons_of_mem _ hother)
  parted other hother := h.parted other (List.mem_cons_of_mem _ hother)
  between other hother := by
    refine h.between other ?_
    have hmem := List.dropLast_subset gaps hother
    rw [List.dropLast_cons_of_ne_nil (List.ne_nil_of_mem hmem)]
    exact List.mem_cons_of_mem _ hother

/-- Behind the first lexeme there is a blank, or the text is at its end. -/
theorem Spaces.parted_spell {gap : List Char} {gaps : List (List Char)} {ts : List Token}
    (h : Spaces (gap :: gaps)) (hlength : gaps.length = ts.length) :
    Parted (gap ++ spell ts gaps) := by
  have hgap := h.parted gap (List.mem_cons_self ..)
  cases gaps with
  | nil =>
    obtain rfl := List.eq_nil_of_length_eq_zero hlength.symm
    rwa [spell_nil, List.append_nil]
  | cons next gaps =>
    have hne : gap ≠ [] := h.between gap (List.mem_cons_self ..)
    obtain ⟨c, cs, rfl⟩ := List.exists_cons_of_ne_nil hne
    exact hgap

/-- The items of lexemes with separators behind them are tokens of the same kinds and lexemes. -/
theorem itemsFrom_spell {ts : List Token} {gaps : List (List Char)}
    (hts : ∀ t ∈ ts, Lexeme t.lexeme.toList t.kind) (hgaps : Spaces gaps)
    (hlength : gaps.length = ts.length) (line : Nat) :
    ∃ us : List Token, itemsFrom line (spell ts gaps) = us.map .token ∧
      us.map Token.kind = ts.map Token.kind ++ [.eof] ∧
      us.map Token.lexeme = ts.map Token.lexeme ++ [""] := by
  induction ts generalizing gaps line with
  | nil =>
    refine ⟨[⟨.eof, "", line⟩], ?_, rfl, rfl⟩
    rw [spell_nil, itemsFrom]
    rfl
  | cons t ts ih =>
    cases gaps with
    | nil => cases hlength
    | cons gap gaps =>
      have hlength : gaps.length = ts.length := Nat.succ.inj hlength
      have hhead := (hts t (List.mem_cons_self ..)).head (hgaps.parted_spell hlength)
      have hgap := (hgaps.separator gap (List.mem_cons_self ..)).skipped (spell ts gaps)
      obtain ⟨us, hus, hkinds, hlexemes⟩ :=
        ih (fun u hu => hts u (List.mem_cons_of_mem _ hu)) hgaps.tail hlength
          (line + t.lexeme.toList.count '\n' + gap.count '\n')
      refine ⟨⟨t.kind, t.lexeme, line + t.lexeme.toList.count '\n'⟩ :: us, ?_, ?_, ?_⟩
      · rw [spell, itemsFrom_token line hhead, hgap.itemsFrom_eq, hus, String.ofList_toList]
        rfl
      · rw [List.map_cons, hkinds]
        rfl
      · rw [List.map_cons, hlexemes]
        rfl

end Lexer

/-! ## Texts -/

/-- What is written around `n` lexemes : a separator in front of the first, and one behind each. -/
structure Spacing (n : Nat) where
  front : List Char
  behind : List (List Char)
  length_behind : behind.length = n
  front_separator : Lexer.Separator front
  behind_spaces : Lexer.Spaces behind

/-- The lexemes of tokens with separators around them. -/
def Spacing.write {n : Nat} (spacing : Spacing n) (ts : List Token) : String :=
  String.ofList (spacing.front ++ Lexer.spell ts spacing.behind)

/-- The lexemes of a text without errors, with other separators around them, are cut into the
same tokens, but for their lines, and one end marker. -/
theorem tokens?_respaced {source : String} {ts : List Token} {stop : Token}
    (h : tokens? source = .ok (ts ++ [stop])) (spacing : Spacing ts.length) :
    ∃ us, tokens? (spacing.write ts) =
        .ok (us ++ [⟨.eof, "", 1 + newlines (spacing.write ts)⟩]) ∧
      us.map Token.kind = ts.map Token.kind ∧ us.map Token.lexeme = ts.map Token.lexeme ∧
      ∀ t ∈ us, t.kind ≠ .eof := by
  obtain ⟨ts', hts', hnoEnd⟩ := tokens?_eq_concat h
  obtain ⟨rfl, -⟩ := List.append_inj' hts' rfl
  have hlexeme : ∀ t ∈ ts, Lexer.Lexeme t.lexeme.toList t.kind := by
    intro t ht
    have hitems : items source = (ts ++ [stop]).map .token := Lexer.collect_eq_ok_iff.1 h
    have hmem : .token t ∈ items source := by
      rw [hitems]
      exact List.mem_map_of_mem (List.mem_append_left _ ht)
    exact Lexer.lexeme_of_mem hmem (hnoEnd t ht)
  obtain ⟨us, hus, hkinds, hlexemes⟩ := Lexer.itemsFrom_spell hlexeme spacing.behind_spaces
    spacing.length_behind (1 + spacing.front.count '\n')
  have hwritten : tokens? (spacing.write ts) = .ok us := by
    refine Lexer.collect_eq_ok_iff.2 ?_
    rw [items, Spacing.write, String.toList_ofList,
      (spacing.front_separator.skipped _).itemsFrom_eq, hus]
  obtain ⟨vs, rfl, hvs⟩ := tokens?_eq_concat hwritten
  rw [List.map_append] at hkinds hlexemes
  exact ⟨vs, hwritten, (List.append_inj' hkinds rfl).1, (List.append_inj' hlexemes rfl).1, hvs⟩

/-- A slash and a string with slashes, in front of which comments are written. -/
theorem tokens?_respaced_slash :
    let ts : List Token := [⟨.identifier, "x", 1⟩, ⟨.symbol .slash, "/", 1⟩,
      ⟨.string "\n//", "\"\n//\"", 2⟩]
    tokens? "x/\"\n//\"" = .ok (ts ++ [⟨.eof, "", 2⟩]) ∧
      ∃ us, tokens? "// \"\nx // é\n/\t\"\n//\"" = .ok (us ++ [⟨.eof, "", 4⟩]) ∧
        us.map Token.kind = ts.map Token.kind ∧ us.map Token.lexeme = ts.map Token.lexeme := by
  intro ts
  have hts : tokens? "x/\"\n//\"" = .ok (ts ++ [⟨.eof, "", 2⟩]) :=
    Lexer.collect_eq_ok_iff.2 (by decide +kernel)
  have hcomment : Lexer.Separator "// \"\n".toList :=
    .comment (by decide : '\n' ∉ [' ', '"']) .nil
  have hbehind : Lexer.Spaces [" // é\n".toList, "\t".toList, []] := by
    refine ⟨?_, ?_, by decide⟩
    · have hfirst : Lexer.Separator " // é\n".toList :=
        .blank rfl (.comment (by decide : '\n' ∉ [' ', 'é']) .nil)
      have hsecond : Lexer.Separator "\t".toList := .blank rfl .nil
      simp only [List.forall_mem_cons]
      exact ⟨hfirst, hsecond, .nil, List.forall_mem_nil _⟩
    · simp [Lexer.Parted, Lexer.isBlank]
  let spacing : Spacing ts.length := ⟨_, _, rfl, hcomment, hbehind⟩
  have hwritten : spacing.write ts = "// \"\nx // é\n/\t\"\n//\"" := rfl
  obtain ⟨us, hus, hkinds, hlexemes, -⟩ := tokens?_respaced hts spacing
  rw [hwritten] at hus
  exact ⟨hts, us, hus, hkinds, hlexemes⟩

end PipeLang
