import PipeLang.Proofs.Token.Joining
import PipeLang.Proofs.Token.Lexeme

/-!
# The items of a text lie side by side

`Tiling` says what it is to read a text by the lexical grammar : skip blanks and comments,
take the longest lexeme, or report what is no lexeme, and go on behind it until nothing is
left. Every text has a tiling (`exists_tiling`), and the items of a text are those of any
tiling of it (`Tiling.map_item`), so nothing is lost and nothing is read twice.

`Scanner` yields the items one at a time, as often as it is asked.
-/

namespace PipeLang

/-- An item, the text skipped in front of it and the text it covers. -/
structure Tile where
  gap : List Char
  slice : List Char
  item : Item

/-- The text of tiles side by side. -/
def Tile.textOf (tiles : List Tile) : List Char := tiles.flatMap fun t => t.gap ++ t.slice

/-- The byte at which the text of a tile starts, when the others are in front of it. -/
def Tile.start (before : List Tile) (t : Tile) : String.Pos.Raw :=
  (String.ofList (textOf before ++ t.gap)).rawEndPos

/-- The byte behind the text of a tile, when the others are in front of it. -/
def Tile.stop (before : List Tile) (t : Tile) : String.Pos.Raw :=
  (String.ofList (textOf before ++ (t.gap ++ t.slice))).rawEndPos

/-- The line an item is on. -/
def Item.line : Item → Nat
  | .token t => t.line
  | .error e => e.line

namespace Lexer

/-! ## Tilings -/

/-- Text that is skipped in front of `rest` : blanks and comments. -/
inductive Gap : List Char → List Char → Prop where
  | none {rest : List Char} : Gap [] rest
  | skip {text gap rest : List Char} : Head ⟨.skipped, text, gap ++ rest⟩ → Gap gap rest →
    Gap (text ++ gap) rest

/-- The item is what stands at the head of `slice ++ rest`, and `slice` is its text. -/
inductive Covers : Item → List Char → List Char → Prop where
  | token {kind : Kind} {slice rest : List Char} {line : Nat} :
    Head ⟨.token kind, slice, rest⟩ →
    Covers (.token ⟨kind, String.ofList slice, line⟩) slice rest
  | error {cause : LexicalCause} {slice rest : List Char} {line : Nat} :
    Head ⟨.error cause, slice, rest⟩ → Covers (.error ⟨cause, line⟩) slice rest

/-- The tiles make up the text, whose first line is `line`, and the last one is its end. -/
inductive Tiling : Nat → List Char → List Tile → Prop where
  | stop {line : Nat} {gap : List Char} : Gap gap [] →
    Tiling line gap [⟨gap, [], .token ⟨.eof, "", line + gap.count '\n'⟩⟩]
  | cover {line : Nat} {gap slice rest : List Char} {item : Item} {tiles : List Tile} :
    Gap gap (slice ++ rest) → Covers item slice rest →
    item.line = line + (gap ++ slice).count '\n' → Tiling item.line rest tiles →
    Tiling line (gap ++ (slice ++ rest)) (⟨gap, slice, item⟩ :: tiles)

/-! ## Every text has one -/

theorem Tiling.skip {line : Nat} {text rest : List Char} {tiles : List Tile}
    (hhead : Head ⟨.skipped, text, rest⟩) (h : Tiling (line + text.count '\n') rest tiles) :
    ∃ tiles', Tiling line (text ++ rest) tiles' ∧
      tiles'.map Tile.item = tiles.map Tile.item := by
  cases h with
  | stop hgap =>
    rw [← List.append_nil rest] at hhead
    refine ⟨_, .stop (.skip hhead hgap), ?_⟩
    rw [List.count_append, ← Nat.add_assoc]
    rfl
  | @cover _ gap slice rest item tiles hgap hcovers hline htiles =>
    refine ⟨⟨text ++ gap, slice, item⟩ :: tiles, ?_, rfl⟩
    rw [← List.append_assoc]
    refine .cover (.skip hhead hgap) hcovers ?_ htiles
    have hcount : (text ++ (gap ++ slice)).count '\n' =
        text.count '\n' + (gap ++ slice).count '\n' := List.count_append
    rw [hline, List.append_assoc, hcount, Nat.add_assoc]

theorem exists_tiling (line : Nat) (cs : List Char) :
    ∃ tiles, Tiling line cs tiles ∧ tiles.map Tile.item = itemsFrom line cs := by
  fun_induction itemsFrom line cs with
  | case1 line => exact ⟨_, .stop .none, rfl⟩
  | case2 line c cs k next hk ih =>
    obtain ⟨tiles, htiles, hitems⟩ := ih
    have hhead : Head ⟨.skipped, k.text, k.rest⟩ := hk ▸ head_cut c cs
    obtain ⟨tiles', htiles', hitems'⟩ := Tiling.skip hhead htiles
    rw [text_append_rest_cut] at htiles'
    exact ⟨tiles', htiles', hitems'.trans hitems⟩
  | case3 line c cs k next kind hk ih =>
    obtain ⟨tiles, htiles, hitems⟩ := ih
    have hhead : Head ⟨.token kind, k.text, k.rest⟩ := hk ▸ head_cut c cs
    have htiling := Tiling.cover .none (.token hhead) rfl htiles
    rw [List.nil_append, text_append_rest_cut] at htiling
    refine ⟨_, htiling, ?_⟩
    rw [List.map_cons, hitems]
    rfl
  | case4 line c cs k next cause hk ih =>
    obtain ⟨tiles, htiles, hitems⟩ := ih
    have hhead : Head ⟨.error cause, k.text, k.rest⟩ := hk ▸ head_cut c cs
    have htiling := Tiling.cover .none (.error hhead) rfl htiles
    rw [List.nil_append, text_append_rest_cut] at htiling
    refine ⟨_, htiling, ?_⟩
    rw [List.map_cons, hitems]
    rfl

/-! ## No text has another one -/

theorem Head.text_ne_nil {k : Cut} (h : Head k) : k.text ≠ [] := by
  cases h with
  | token hlexeme => exact hlexeme.ne_nil
  | _ => exact List.cons_ne_nil _ _

/-- What stands at the head of a text is cut from it. -/
theorem Head.exists_cut {piece : Piece} {text rest : List Char} (h : Head ⟨piece, text, rest⟩) :
    ∃ c cs, text ++ rest = c :: cs ∧ cut c cs = ⟨piece, text, rest⟩ := by
  obtain ⟨c, cs, htext⟩ := List.exists_cons_of_ne_nil
    (List.append_ne_nil_of_left_ne_nil h.text_ne_nil rest)
  exact ⟨c, cs, htext, (h.eq_cut htext).symm⟩

section

variable {text rest : List Char} {kind : Kind} {cause : LexicalCause} (line : Nat)

theorem itemsFrom_skipped (h : Head ⟨.skipped, text, rest⟩) :
    itemsFrom line (text ++ rest) = itemsFrom (line + text.count '\n') rest := by
  obtain ⟨c, cs, htext, hcut⟩ := h.exists_cut
  rw [htext, itemsFrom]
  simp only [hcut]

/-- A token that stands at the head of a text comes first among its items. -/
theorem itemsFrom_token (h : Head ⟨.token kind, text, rest⟩) :
    itemsFrom line (text ++ rest) =
      .token ⟨kind, String.ofList text, line + text.count '\n'⟩ ::
        itemsFrom (line + text.count '\n') rest := by
  obtain ⟨c, cs, htext, hcut⟩ := h.exists_cut
  rw [htext, itemsFrom]
  simp only [hcut]

/-- And so does an error. -/
theorem itemsFrom_error (h : Head ⟨.error cause, text, rest⟩) :
    itemsFrom line (text ++ rest) =
      .error ⟨cause, line + text.count '\n'⟩ :: itemsFrom (line + text.count '\n') rest := by
  obtain ⟨c, cs, htext, hcut⟩ := h.exists_cut
  rw [htext, itemsFrom]
  simp only [hcut]

end

theorem Gap.itemsFrom_eq {gap rest : List Char} (h : Gap gap rest) (line : Nat) :
    itemsFrom line (gap ++ rest) = itemsFrom (line + gap.count '\n') rest := by
  induction h generalizing line with
  | none => rfl
  | skip hhead _ ih =>
    rw [List.append_assoc, itemsFrom_skipped line hhead, ih, List.count_append, Nat.add_assoc]

/-- The items of a text are those of its tiling. -/
theorem Tiling.map_item {line : Nat} {cs : List Char} {tiles : List Tile}
    (h : Tiling line cs tiles) : tiles.map Tile.item = itemsFrom line cs := by
  induction h with
  | @stop line gap hgap =>
    rw [← List.append_nil gap, hgap.itemsFrom_eq, itemsFrom]
    simp
  | @cover line gap slice rest item tiles hgap hcovers hline _ ih =>
    rw [hgap.itemsFrom_eq, List.map_cons, ih]
    rw [List.count_append, ← Nat.add_assoc] at hline
    cases hcovers with
    | token hhead =>
      rw [itemsFrom_token _ hhead]
      cases hline
      rfl
    | error hhead =>
      rw [itemsFrom_error _ hhead]
      cases hline
      rfl

/-! ## Tiles in their places -/

theorem Tiling.textOf_eq {line : Nat} {cs : List Char} {tiles : List Tile}
    (h : Tiling line cs tiles) : Tile.textOf tiles = cs := by
  induction h with
  | stop => simp [Tile.textOf]
  | cover _ _ _ _ ih => simpa [Tile.textOf] using ih

/-- A tile is behind a gap, and it covers its slice or is the end. -/
theorem Tiling.of_mem {line : Nat} {cs : List Char} {t : Tile} {before after : List Tile}
    (h : Tiling line cs (before ++ t :: after)) :
    Gap t.gap (t.slice ++ Tile.textOf after) ∧
      (Covers t.item t.slice (Tile.textOf after) ∨
        t.slice = [] ∧ after = [] ∧ ∃ line, t.item = .token ⟨.eof, "", line⟩) := by
  induction before generalizing line cs with
  | nil =>
    cases h with
    | stop hgap => exact ⟨by simpa [Tile.textOf] using hgap, .inr ⟨rfl, rfl, _, rfl⟩⟩
    | cover hgap hcovers _ htiles =>
      rw [← htiles.textOf_eq] at hgap hcovers
      exact ⟨hgap, .inl hcovers⟩
  | cons b before ih =>
    generalize hall : b :: before ++ t :: after = tiles at h
    cases h with
    | stop => simp at hall
    | cover _ _ _ htiles =>
      obtain ⟨-, rfl⟩ := List.cons.inj hall
      exact ih htiles

end Lexer

/-- How a tile lies in a source text, with the tiles `before` in front of it and the tiles
`after` behind. -/
structure Tile.LiesIn (source : String) (before : List Tile) (t : Tile) (after : List Tile) :
    Prop where
  toList_eq : source.toList = textOf before ++ (t.gap ++ t.slice) ++ textOf after
  start_isValid : (t.start before).IsValid source
  stop_isValid : (t.stop before).IsValid source
  bytes_eq : source.toByteArray.extract (t.start before).byteIdx (t.stop before).byteIdx =
    (String.ofList t.slice).toByteArray
  gap : Lexer.Gap t.gap (t.slice ++ textOf after)
  /-- Only the end marker covers nothing. -/
  covers : t.slice ≠ [] ∧ Lexer.Covers t.item t.slice (textOf after) ∨
    t.slice = [] ∧ after = [] ∧ ∃ line, t.item = .token ⟨.eof, "", line⟩

/-- A part of a text begins and ends on boundaries of its characters, and its bytes are the
bytes between. -/
theorem bytes_between {source : String} (front part behind : List Char)
    (h : source.toList = front ++ part ++ behind) :
    (String.ofList front).rawEndPos.IsValid source ∧
      (String.ofList (front ++ part)).rawEndPos.IsValid source ∧
      source.toByteArray.extract (String.ofList front).rawEndPos.byteIdx
        (String.ofList (front ++ part)).rawEndPos.byteIdx =
          (String.ofList part).toByteArray := by
  obtain rfl : source = String.ofList front ++ String.ofList part ++ String.ofList behind := by
    rw [← String.ofList_append, ← String.ofList_append, ← h, String.ofList_toList]
  rw [String.ofList_append]
  refine ⟨String.Pos.Raw.isValid_iff_exists_append.2 ⟨_, _, String.append_assoc, rfl⟩,
    String.Pos.Raw.isValid_iff_exists_append.2 ⟨_, _, rfl, rfl⟩, ?_⟩
  rw [String.toByteArray_append, String.toByteArray_append]
  show ByteArray.extract _ (String.ofList front).toByteArray.size
    (String.ofList front ++ String.ofList part).toByteArray.size = _
  rw [String.toByteArray_append]
  generalize (String.ofList front).toByteArray = a, (String.ofList part).toByteArray = b,
    (String.ofList behind).toByteArray = c
  have hsize : (a ++ b).size = a.size + b.size := ByteArray.size_append
  have hbehind : c.extract (a.size - (a ++ b).size) 0 = .empty := by
    rw [← ByteArray.size_eq_zero_iff]
    simp
  rw [ByteArray.extract_append, Nat.sub_self, hbehind, ByteArray.append_empty]
  exact ByteArray.extract_append_eq_right rfl hsize

/-- The text that a token covers is its lexeme. -/
theorem Lexer.Covers.of_token {t : Token} {slice rest : List Char}
    (h : Covers (.token t) slice rest) :
    Lexeme t.lexeme.toList t.kind ∧ t.lexeme.toList = slice := by
  cases h with
  | token hhead =>
    cases hhead with
    | token hlexeme => exact ⟨String.toList_ofList ▸ hlexeme, String.toList_ofList⟩

theorem Lexer.Covers.slice_ne_nil {item : Item} {slice rest : List Char}
    (h : Covers item slice rest) : slice ≠ [] := by
  cases h with
  | token hhead => exact hhead.text_ne_nil
  | error hhead => exact hhead.text_ne_nil

theorem Lexer.Tiling.liesIn {source : String} {line : Nat} {t : Tile} {before after : List Tile}
    (h : Tiling line source.toList (before ++ t :: after)) : t.LiesIn source before after := by
  have htext : source.toList = Tile.textOf before ++ (t.gap ++ t.slice) ++ Tile.textOf after := by
    rw [← h.textOf_eq]
    simp [Tile.textOf]
  obtain ⟨hstart, hstop, hbytes⟩ := bytes_between (Tile.textOf before ++ t.gap) t.slice
    (Tile.textOf after) (by simpa using htext)
  obtain ⟨hgap, hcovers⟩ := h.of_mem
  rw [List.append_assoc] at hstop hbytes
  exact ⟨htext, hstart, hstop, hbytes, hgap, hcovers.imp_left fun h => ⟨h.slice_ne_nil, h⟩⟩

/-! ## Item by item -/

/-- The text that is left, the line of its head, and whether the end was reported. -/
structure Scanner where
  rest : List Char
  line : Nat
  finished : Bool

namespace Scanner

/-- A scanner at the head of a source text. -/
def new (source : String) : Scanner := ⟨source.toList, 1, false⟩

/-- The next item of a text whose first line is `line`, and the scanner behind it. -/
def read (line : Nat) : List Char → Item × Scanner
  | [] => (.token ⟨.eof, "", line⟩, ⟨[], line, true⟩)
  | c :: cs =>
    let k := Lexer.cut c cs
    let next := line + k.text.count '\n'
    match k.piece with
    | .skipped => read next k.rest
    | .token kind => (.token ⟨kind, String.ofList k.text, next⟩, ⟨k.rest, next, false⟩)
    | .error cause => (.error ⟨cause, next⟩, ⟨k.rest, next, false⟩)
termination_by cs => cs.length
decreasing_by exact Lexer.length_rest_cut_lt c cs

/-- The next item, if there is one. -/
def next (s : Scanner) : Option Item × Scanner :=
  if s.finished then (none, s)
  else
    let (item, s') := read s.line s.rest
    (some item, s')

/-- What the scanner answers when it is asked once more after `n` times. -/
def answer (s : Scanner) : Nat → Option Item
  | 0 => s.next.1
  | n + 1 => s.next.2.answer n

/-- The items that are to come. -/
def ahead (s : Scanner) : List Item :=
  if s.finished then [] else Lexer.itemsFrom s.line s.rest

theorem ahead_read (line : Nat) (cs : List Char) :
    Lexer.itemsFrom line cs = (read line cs).1 :: (read line cs).2.ahead := by
  fun_induction read line cs with
  | case1 line => rw [Lexer.itemsFrom]; rfl
  | case2 line c cs k next hk ih =>
    rw [Lexer.itemsFrom]
    simp only [hk, k, next] at ih ⊢
    exact ih
  | case3 line c cs k next kind hk =>
    rw [Lexer.itemsFrom]
    simp only [hk, k, next]
    rfl
  | case4 line c cs k next cause hk =>
    rw [Lexer.itemsFrom]
    simp only [hk, k, next]
    rfl

/-- One answer is the first of the items to come, and leaves the others. -/
theorem next_eq (s : Scanner) : s.next.1 = s.ahead.head? ∧ s.next.2.ahead = s.ahead.tail := by
  unfold next
  cases hfinished : s.finished with
  | true => simp [ahead, hfinished]
  | false =>
    have hahead : s.ahead = _ := (if_neg (by simp [hfinished])).trans (ahead_read s.line s.rest)
    rw [hahead]
    exact ⟨rfl, rfl⟩

theorem answer_eq (s : Scanner) (n : Nat) : s.answer n = s.ahead[n]? := by
  induction n generalizing s with
  | zero => rw [answer, s.next_eq.1, List.head?_eq_getElem?]
  | succ n ih => rw [answer, ih, s.next_eq.2, List.getElem?_tail]

end Scanner

/-! ## The first error -/

theorem Lexer.collect_eq_error_iff {is : List Item} {e : LexicalError} :
    collect is = .error e ↔
      ∃ (ts : List Token) (rest : List Item), is = ts.map .token ++ .error e :: rest := by
  constructor
  · intro h
    induction is with
    | nil => cases h
    | cons i is ih =>
      cases i with
      | error e' =>
        cases h
        exact ⟨[], is, rfl⟩
      | token t =>
        rw [collect] at h
        cases hrest : collect is with
        | ok ts => rw [hrest] at h; cases h
        | error e' =>
          rw [hrest] at h
          cases h
          obtain ⟨ts, rest, rfl⟩ := ih hrest
          exact ⟨t :: ts, rest, rfl⟩
  · rintro ⟨ts, rest, rfl⟩
    induction ts with
    | nil => rfl
    | cons t ts ih =>
      rw [List.map_cons, List.cons_append, collect, ih]
      rfl

/-- The items of a source text, laid side by side with what is skipped between them, make up
the text, each in its place, and a text is read so in one way only. The kind of a token, with
its value, is that of its lexeme. One end marker comes last, and a scanner that is asked
again and again yields the items and then nothing. All the tokens are the tokens of the text
if no item is an error, and the first error is its error if one is. -/
theorem items_tile (source : String) :
    (∃ tiles, Lexer.Tiling 1 source.toList tiles ∧ items source = tiles.map Tile.item ∧
      ∀ before t after, tiles = before ++ t :: after → t.LiesIn source before after) ∧
    (∀ tiles, Lexer.Tiling 1 source.toList tiles → items source = tiles.map Tile.item) ∧
    (∀ text kind kind', Lexer.Lexeme text kind → Lexer.Lexeme text kind' → kind = kind') ∧
    (∃ is line, items source = is ++ [.token ⟨.eof, "", line⟩] ∧
      ∀ t, .token t ∈ is → t.kind ≠ .eof) ∧
    (∀ n, (Scanner.new source).answer n = (items source)[n]?) ∧
    (∀ ts, tokens? source = .ok ts ↔ items source = ts.map .token) ∧
    ∀ e, tokens? source = .error e ↔
      ∃ (ts : List Token) (is : List Item), items source = ts.map .token ++ .error e :: is := by
  obtain ⟨tiles, htiles, hitems⟩ := Lexer.exists_tiling 1 source.toList
  refine ⟨⟨tiles, htiles, hitems.symm, ?_⟩, fun _ h => h.map_item.symm,
    fun _ _ _ h h' => h.kind_unique h', ?_, fun n => Scanner.answer_eq _ n,
    fun _ => Lexer.collect_eq_ok_iff, fun _ => Lexer.collect_eq_error_iff⟩
  · rintro before t after rfl
    exact htiles.liesIn
  · obtain ⟨is, his, hnoEnd⟩ := Lexer.itemsFrom_eq_concat 1 source.toList
    exact ⟨is, _, his, hnoEnd⟩

end PipeLang
