import PipeLang.Proofs.Token.Tiling

/-!
# The lines of the items

The line of an item can be read off its place in the source text (`Tile.lineIn`). A token is
on the line on which its lexeme ends, so a string of several lines is on that of its closing
quote. A character that no lexeme starts with is on its own line. A string that is never closed
and the end marker are on the last line of the text.

A scan counts newlines as it goes along. What it has counted at a tile is what is in front of
the end of the tile (`Lexer.Tiling.line_eq`), which comes to the same thing
(`Tile.LiesIn.lineIn_eq`), and so the lines of the items never fall (`Lexer.Tiling.pairwise_le`).
-/

namespace PipeLang

/-- The line of the item of a tile, by the place of the tile in the source text, when the tiles
`before` are in front of it. -/
def Tile.lineIn (source : String) (before : List Tile) (t : Tile) : Nat :=
  match t.item with
  | .token u =>
    if u.kind = .eof then 1 + newlines source
    else 1 + (textOf before ++ t.gap ++ u.lexeme.toList).count '\n'
  | .error ⟨.unexpected _, _⟩ => 1 + (textOf before ++ t.gap).count '\n'
  | .error ⟨.unterminatedString, _⟩ => 1 + newlines source

namespace Lexer

section

variable {slice rest : List Char} {line : Nat}

theorem Covers.of_unexpected {c : Char} (h : Covers (.error ⟨.unexpected c, line⟩) slice rest) :
    slice = [c] ∧ c ≠ '\n' := by
  cases h with
  | error hhead =>
    cases hhead with
    | unexpected hblank =>
      refine ⟨rfl, ?_⟩
      rintro rfl
      cases hblank

/-- A string that is never closed runs to the end of the text. -/
theorem Covers.of_unterminated (h : Covers (.error ⟨.unterminatedString, line⟩) slice rest) :
    rest = [] := by
  cases h with
  | error hhead =>
    cases hhead with
    | unterminated => rfl

end

/-! ## What a scan counts -/

namespace Tiling

variable {line : Nat} {cs : List Char} {tiles : List Tile}

/-- Behind a tile the newlines up to its end are counted. -/
theorem line_eq {t : Tile} {before after : List Tile} (h : Tiling line cs (before ++ t :: after)) :
    t.item.line = line + (Tile.textOf before ++ (t.gap ++ t.slice)).count '\n' := by
  induction before generalizing line cs with
  | nil =>
    cases h with
    | stop => simp [Tile.textOf, Item.line]
    | cover _ _ hline => exact hline
  | cons b before ih =>
    generalize hall : b :: before ++ t :: after = tiles at h
    cases h with
    | stop => simp at hall
    | @cover _ gap slice _ item _ _ _ hline htiles =>
      obtain ⟨rfl, rfl⟩ := List.cons.inj hall
      have hb : Tile.textOf (⟨gap, slice, item⟩ :: before) = gap ++ slice ++ Tile.textOf before :=
        List.flatMap_cons
      have hcount : (gap ++ slice ++ (Tile.textOf before ++ (t.gap ++ t.slice))).count '\n' =
          (gap ++ slice).count '\n' + (Tile.textOf before ++ (t.gap ++ t.slice)).count '\n' :=
        List.count_append
      rw [ih htiles, hline, hb, List.append_assoc (gap ++ slice), hcount, Nat.add_assoc]

/-- And the count never falls. -/
theorem pairwise_le (h : Tiling line cs tiles) :
    (∀ t ∈ tiles, line ≤ t.item.line) ∧ tiles.Pairwise fun t u => t.item.line ≤ u.item.line := by
  induction h with
  | stop =>
    exact ⟨List.forall_mem_singleton.2 (Nat.le_add_right ..), List.pairwise_singleton ..⟩
  | @cover line _ _ _ item _ _ _ hline _ ih =>
    obtain ⟨hbehind, hpairs⟩ := ih
    have hfirst : line ≤ item.line := hline ▸ Nat.le_add_right ..
    refine ⟨List.forall_mem_cons.2 ⟨hfirst, fun t ht => ?_⟩, List.pairwise_cons.2 ⟨hbehind, hpairs⟩⟩
    exact Nat.le_trans hfirst (hbehind t ht)

end Tiling

end Lexer

/-! ## What is read off the text -/

namespace Tile.LiesIn

variable {source : String} {t : Tile} {before after : List Tile}

/-- The text ends where the last of its tiles does. -/
theorem newlines_eq (h : t.LiesIn source before after) (hlast : textOf after = []) :
    newlines source = (textOf before ++ (t.gap ++ t.slice)).count '\n' := by
  rw [newlines, h.toList_eq, hlast, List.append_nil]

/-- The line of a tile says how many newlines there are up to its end. -/
theorem lineIn_eq (h : t.LiesIn source before after) :
    t.lineIn source before = 1 + (textOf before ++ (t.gap ++ t.slice)).count '\n' := by
  have hcovers := h.covers
  unfold lineIn
  split
  · next u hitem =>
    rw [hitem] at hcovers
    obtain ⟨-, hcovers⟩ | ⟨-, hafter, line, hend⟩ := hcovers
    · obtain ⟨hlexeme, hslice⟩ := hcovers.of_token
      rw [if_neg hlexeme.kind_ne_eof, hslice, List.append_assoc]
    · obtain rfl := Item.token.inj hend
      rw [if_pos rfl, h.newlines_eq (by rw [hafter]; rfl)]
  · next c line hitem =>
    rw [hitem] at hcovers
    obtain ⟨-, hcovers⟩ | ⟨-, -, _, hend⟩ := hcovers
    · obtain ⟨hslice, hc⟩ := hcovers.of_unexpected
      have hnone : [c].count '\n' = 0 := List.count_eq_zero.2 (by simpa using hc.symm)
      have hcount : (textOf before ++ t.gap ++ [c]).count '\n' =
          (textOf before ++ t.gap).count '\n' + [c].count '\n' := List.count_append
      rw [hslice, ← List.append_assoc, hcount, hnone, Nat.add_zero]
    · cases hend
  · next line hitem =>
    rw [hitem] at hcovers
    obtain ⟨-, hcovers⟩ | ⟨-, -, _, hend⟩ := hcovers
    · rw [h.newlines_eq hcovers.of_unterminated]
    · cases hend

end Tile.LiesIn

/-- Every item of a source text is on the line that its place in the text gives it, and the
lines of the items never fall. One end marker comes last, on the last line of the text. -/
theorem items_on_their_lines (source : String) :
    (∃ tiles, items source = tiles.map Tile.item ∧
      ∀ before t after, tiles = before ++ t :: after →
        t.LiesIn source before after ∧ t.item.line = t.lineIn source before) ∧
      ((items source).Pairwise fun i j => i.line ≤ j.line) ∧
      ∃ is, items source = is ++ [.token ⟨.eof, "", 1 + newlines source⟩] ∧
        ∀ t, .token t ∈ is → t.kind ≠ .eof := by
  obtain ⟨tiles, htiles, hitems⟩ := Lexer.exists_tiling 1 source.toList
  have hitems : items source = tiles.map Tile.item := hitems.symm
  refine ⟨⟨tiles, hitems, ?_⟩, ?_, Lexer.itemsFrom_eq_concat 1 source.toList⟩
  · rintro before t after rfl
    have hlies := htiles.liesIn
    exact ⟨hlies, htiles.line_eq.trans hlies.lineIn_eq.symm⟩
  · rw [hitems, List.pairwise_map]
    exact htiles.pairwise_le.2

/-- A string that runs over a newline, a character out of place, a comment and an open string. -/
example : (items "\"a\nb\" # // c\n\"d\n").map Item.line = [2, 2, 4, 4] := by decide +kernel

end PipeLang
