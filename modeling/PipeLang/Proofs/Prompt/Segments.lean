import Mathlib.Data.List.Induction
import PipeLang.Command.Outcome
import PipeLang.Proofs.Session.Runs

/-!
# How the prompt divides its lines

The lines at a prompt fall into pieces, one behind the other (`Division`) : blank lines between
two inputs, and the segments of lines that make up one input each. What is left behind the
last piece begins with the line `exit`, or is an input that is still unfinished when the lines
end. `sources_divide_lines` says that the inputs of the segments are what the prompt runs. So
no line is lost, run twice or moved.

The step lemma is `sources_append` : after lines that begin an input, the prompt holds the text
of these lines and nothing else.
-/

namespace PipeLang.Prompt

/-! ## Pieces of the lines -/

/-- The text that some lines make up. -/
def joined (lines : List String) : String := "\n".intercalate lines

/-- The line leaves the prompt. -/
def IsExit (line : String) : Prop := Text.trim line.toList = ['e', 'x', 'i', 't']

instance (line : String) : Decidable (IsExit line) := inferInstanceAs (Decidable (_ = _))

/-- There is nothing on the line. -/
def IsBlank (line : String) : Prop := Text.trim line.toList = []

instance (line : String) : Decidable (IsBlank line) := inferInstanceAs (Decidable (_ = _))

/-- The lines begin an input, and it is not complete before the last of them. -/
structure Begins (segment : List String) : Prop where
  first : ∃ line lines, segment = line :: lines ∧ ¬ IsBlank line ∧ ¬ IsExit line
  unfinished : ∀ lines, lines <+: segment → lines ≠ [] → lines ≠ segment →
    isUnfinished (joined lines) = true

/-- The lines are one complete input. -/
def Complete (segment : List String) : Prop :=
  Begins segment ∧ isUnfinished (joined segment) = false

/-- The lines begin an input, and more are to follow. -/
def Unfinished (segment : List String) : Prop :=
  Begins segment ∧ isUnfinished (joined segment) = true

/-- A blank line between two inputs, or the lines of an input. -/
inductive Piece where
  | blank (line : String)
  | input (segment : List String)

/-- The lines of a piece. -/
def Piece.lines : Piece → List String
  | blank line => [line]
  | input segment => segment

/-- The text that is run for a piece. -/
def Piece.source? : Piece → Option String
  | blank _ => none
  | input segment => some (joined segment)

/-- The piece is what it is called. -/
def Piece.Proper : Piece → Prop
  | blank line => IsBlank line
  | input segment => Complete segment

/-- What may be left behind the pieces : nothing, or the line `exit` and whatever follows it,
or an unfinished input. -/
inductive Leftover : List String → Prop
  | nothing : Leftover []
  | leave {line : String} {lines : List String} : IsExit line → Leftover (line :: lines)
  | unfinished {segment : List String} : Unfinished segment → Leftover segment

/-- A division of the lines into pieces and what is left. -/
structure Division (lines : List String) where
  pieces : List Piece
  left : List String
  proper : ∀ piece ∈ pieces, piece.Proper
  leftover : Leftover left
  lines_eq : lines = pieces.flatMap Piece.lines ++ left

/-- The texts that are run for a division. -/
def Division.sources {lines : List String} (d : Division lines) : List String :=
  d.pieces.filterMap Piece.source?

/-! ## Segments -/

@[simp]
theorem joined_singleton (line : String) : joined [line] = line := by
  simp [joined]

/-- The next line comes behind a line break. -/
theorem joined_concat {segment : List String} (h : segment ≠ []) (line : String) :
    joined (segment ++ [line]) = joined segment ++ "\n" ++ line := by
  rw [joined, String.intercalate_append_of_ne_nil h (List.cons_ne_nil _ _)]
  simp [joined]

section

variable {segment : List String} {line : String}

/-- An input that has begun has a line. -/
theorem Begins.ne_nil (h : Begins segment) : segment ≠ [] := by
  obtain ⟨line, lines, rfl, -, -⟩ := h.first
  exact List.cons_ne_nil _ _

/-- Any line that is neither blank nor an `exit` begins one. -/
theorem Begins.singleton (hblank : ¬ IsBlank line) (hexit : ¬ IsExit line) : Begins [line] where
  first := ⟨line, [], rfl, hblank, hexit⟩
  unfinished lines hlines hne hproper := by
    rcases List.prefix_cons_iff.1 hlines with rfl | ⟨t, rfl, ht⟩
    · exact absurd rfl hne
    · exact absurd (by rw [List.prefix_nil.1 ht]) hproper

/-- Whatever the next line is, it belongs to the same input. -/
theorem Unfinished.concat (h : Unfinished segment) (line : String) :
    Begins (segment ++ [line]) where
  first := by
    obtain ⟨first, lines, rfl, hfirst⟩ := h.1.first
    exact ⟨first, lines ++ [line], rfl, hfirst⟩
  unfinished lines hlines hne hproper := by
    obtain rfl | hshorter := List.prefix_concat_iff.1 hlines
    · exact absurd rfl hproper
    · by_cases hwhole : lines = segment
      · rw [hwhole]
        exact h.2
      · exact h.1.unfinished lines hshorter hne hwhole

/-- Without its last line, an input is unfinished or not begun. -/
theorem Begins.of_concat (h : Begins (segment ++ [line])) :
    (segment = [] ∧ ¬ IsBlank line ∧ ¬ IsExit line) ∨ Unfinished segment := by
  obtain ⟨first, lines, heq, hfirst⟩ := h.first
  cases segment with
  | nil =>
    obtain ⟨rfl, -⟩ := List.cons.inj heq
    exact .inl ⟨rfl, hfirst⟩
  | cons a segment =>
    obtain ⟨rfl, -⟩ := List.cons.inj heq
    refine .inr ⟨⟨⟨a, segment, rfl, hfirst⟩, fun lines hlines hne _ => ?_⟩, ?_⟩
    · refine h.unfinished lines (hlines.trans (List.prefix_append _ _)) hne ?_
      rintro rfl
      exact absurd hlines.length_le (by simp)
    · exact h.unfinished _ (List.prefix_append _ _) (List.cons_ne_nil _ _) (by simp)

end

/-! ## One line -/

section

variable {segment : List String} {line : String} (lines : List String)

/-- Blank lines between inputs are passed over. -/
theorem sources_blank (h : IsBlank line) : sources (line :: lines) = sources lines := by
  have hreact : react none line = .skip := by
    unfold IsBlank at h
    simp [react, h]
  rw [sources, sourcesFrom, hreact]
  rfl

/-- What stands behind an `exit` between inputs is not read. -/
theorem sources_exit (h : IsExit line) : sources (line :: lines) = [] := by
  have hreact : react none line = .leave := if_pos h
  rw [sources, sourcesFrom, hreact]

/-- What the prompt runs when it has come to the text `input`, and the lines go on. -/
def sourcesAfter (input : String) (lines : List String) : List String :=
  if isUnfinished input then sourcesFrom (some input) lines else input :: sources lines

theorem sourcesFrom_of_react {pending : Option String} {input : String}
    (h : react pending line = settle input) :
    sourcesFrom pending (line :: lines) = sourcesAfter input lines := by
  rw [sourcesFrom, h, settle, sourcesAfter]
  cases isUnfinished input <;> rfl

/-- A first line is settled by itself. -/
theorem sourcesFrom_first (hblank : ¬ IsBlank line) (hexit : ¬ IsExit line) :
    sourcesFrom none (line :: lines) = sourcesAfter (joined [line]) lines := by
  refine sourcesFrom_of_react lines ?_
  unfold IsBlank IsExit at *
  simp [react, hblank, hexit]

/-- In an unfinished input every line counts, also a blank one and an `exit`. -/
theorem sourcesFrom_next (h : Unfinished segment) :
    sourcesFrom (some (joined segment)) (line :: lines)
      = sourcesAfter (joined (segment ++ [line])) lines := by
  refine sourcesFrom_of_react lines ?_
  rw [joined_concat h.1.ne_nil]
  rfl

end

/-- The prompt behind the lines of an input. -/
theorem sources_append {segment : List String} (h : Begins segment) (lines : List String) :
    sources (segment ++ lines) = sourcesAfter (joined segment) lines := by
  -- from the last line back : what is in front of it is unfinished
  induction segment using List.reverseRecOn generalizing lines with
  | nil => exact absurd rfl h.ne_nil
  | append_singleton segment line ih =>
    rw [List.append_assoc]
    rcases h.of_concat with ⟨rfl, hblank, hexit⟩ | hopen
    · exact sourcesFrom_first lines hblank hexit
    · rw [ih hopen.1, sourcesAfter, if_pos hopen.2]
      exact sourcesFrom_next lines hopen

/-- The lines of a complete input give one source. -/
theorem sources_append_complete {segment : List String} (h : Complete segment)
    (lines : List String) : sources (segment ++ lines) = joined segment :: sources lines := by
  rw [sources_append h.1, sourcesAfter, h.2]
  rfl

/-- The lines of an unfinished input are kept, and the next ones go on with it. -/
theorem sources_append_unfinished {segment : List String} (h : Unfinished segment)
    (lines : List String) :
    sources (segment ++ lines) = sourcesFrom (some (joined segment)) lines := by
  rw [sources_append h.1, sourcesAfter, if_pos h.2]

/-! ## All lines -/

/-- What is left at the end is no source. -/
theorem Leftover.sources_eq {left : List String} (h : Leftover left) : sources left = [] := by
  cases h with
  | nothing => rfl
  | leave h => exact sources_exit _ h
  | unfinished h =>
    rw [← List.append_nil left, sources_append_unfinished h]
    rfl

/-- The prompt runs the texts of every division. -/
theorem Division.sources_eq {lines : List String} (d : Division lines) :
    d.sources = Prompt.sources lines := by
  obtain ⟨pieces, left, hproper, hleft, rfl⟩ := d
  show pieces.filterMap Piece.source? = Prompt.sources (pieces.flatMap Piece.lines ++ left)
  induction pieces with
  | nil => exact hleft.sources_eq.symm
  | cons piece pieces ih =>
    have htail := ih fun piece h => hproper piece (.tail _ h)
    have hpiece := hproper piece (.head _)
    rw [List.flatMap_cons, List.append_assoc]
    cases piece with
    | blank line => exact htail.trans (sources_blank _ hpiece).symm
    | input segment =>
      rw [Piece.lines, sources_append_complete hpiece, ← htail]
      rfl

/-- A piece in front of a division. -/
def Division.cons {lines : List String} (piece : Piece) (h : piece.Proper) (d : Division lines) :
    Division (piece.lines ++ lines) where
  pieces := piece :: d.pieces
  left := d.left
  proper := by
    rintro p (_ | ⟨_, hp⟩)
    · exact h
    · exact d.proper p hp
  leftover := d.leftover
  lines_eq := by rw [List.flatMap_cons, List.append_assoc, ← d.lines_eq]

/-- Lines that are left as they are. -/
def Division.ofLeftover {lines : List String} (h : Leftover lines) : Division lines :=
  ⟨[], lines, nofun, h, rfl⟩

/-- Lines can be divided, also behind an unfinished input. -/
theorem exists_division (lines : List String) :
    Nonempty (Division lines) ∧
      ∀ segment, Unfinished segment → Nonempty (Division (segment ++ lines)) := by
  induction lines with
  | nil =>
    refine ⟨⟨.ofLeftover .nothing⟩, fun segment h => ⟨.ofLeftover ?_⟩⟩
    rw [List.append_nil]
    exact .unfinished h
  | cons line lines ih =>
    -- the segment with this line is unfinished again, or it is a piece
    have hbegins : ∀ segment, Begins (segment ++ [line]) →
        Nonempty (Division (segment ++ line :: lines)) := by
      intro segment h
      rw [show segment ++ line :: lines = (segment ++ [line]) ++ lines by simp]
      cases hunfinished : isUnfinished (joined (segment ++ [line])) with
      | true => exact ih.2 _ ⟨h, hunfinished⟩
      | false => exact ih.1.map (.cons (.input _) ⟨h, hunfinished⟩)
    refine ⟨?_, fun segment h => hbegins segment (h.concat line)⟩
    by_cases hblank : IsBlank line
    · exact ih.1.map (.cons (.blank line) hblank)
    by_cases hexit : IsExit line
    · exact ⟨.ofLeftover (.leave hexit)⟩
    exact hbegins [] (.singleton hblank hexit)

/-! ## The running prompt -/

/-- Every line can come in : a carriage return and a newline end it. -/
theorem lineText?_ended (line : String) :
    lineText? (line.toUTF8.data.toList ++ [13, 10]) = some line := by
  have hchomp : chomp (line.toUTF8.data.toList ++ [13, 10]) = line.toUTF8.data.toList := by
    simp [chomp]
  rw [lineText?, hchomp, Array.toArray_toList, String.fromUTF8?]
  exact dif_pos line.isValidUTF8

/-- A line is skipped between two inputs only. -/
theorem pending_eq_none_of_skip {pending : Option String} {line : String}
    (h : react pending line = .skip) : pending = none := by
  cases pending with
  | none => rfl
  | some input =>
    rw [react, settle] at h
    split at h <;> cases h

/-- A prompt runs the sources one after the other in its session. -/
theorem feedAll_eq {raw : List (List UInt8)} {lines : List String}
    (h : raw.map lineText? = lines.map some) (p : Prompt) :
    (p.feedAll raw).1 = 0 ∧
      (p.feedAll raw).2.session = p.session.runAll (sourcesFrom p.pending lines) := by
  induction lines generalizing raw p with
  | nil =>
    obtain rfl := List.map_eq_nil_iff.1 h
    exact ⟨rfl, rfl⟩
  | cons line lines ih =>
    obtain ⟨bytes, raw, rfl, hline, hlines⟩ := List.map_eq_cons_iff.1 h
    simp only [feedAll, feedBytes, hline, feed, sourcesFrom]
    cases hreact : react p.pending line with
    | leave => exact ⟨rfl, rfl⟩
    | skip =>
      rw [← pending_eq_none_of_skip hreact]
      exact ih hlines p
    | await input => exact ih hlines _
    | run input => exact ih hlines _

/-- The prompt waits for more if the text so far is unfinished. -/
theorem settle_eq_await_iff {text input : String} :
    settle text = .await input ↔ text = input ∧ isUnfinished input = true := by
  unfold settle
  split
  · next h =>
    rw [Reaction.await.injEq]
    exact ⟨fun heq => ⟨heq, heq ▸ h⟩, And.left⟩
  · next h =>
    refine ⟨nofun, ?_⟩
    rintro ⟨rfl, hinput⟩
    exact absurd hinput h

/-- Only what is unfinished is kept. -/
theorem isUnfinished_of_await {pending : Option String} {line input : String}
    (h : react pending line = .await input) : isUnfinished input = true := by
  cases pending with
  | some text => exact (settle_eq_await_iff.1 h).2
  | none =>
    rw [react] at h
    split at h
    · cases h
    · split at h
      · cases h
      · exact (settle_eq_await_iff.1 h).2

/-- What is pending is unfinished. So it is not empty, and a prompt could keep the empty text
when nothing is pending. -/
theorem isUnfinished_pending_feedAll {p : Prompt}
    (h : ∀ input ∈ p.pending, isUnfinished input = true) (raw : List (List UInt8)) :
    ∀ input ∈ (p.feedAll raw).2.pending, isUnfinished input = true := by
  induction raw generalizing p with
  | nil => exact h
  | cons bytes raw ih =>
    unfold feedAll feedBytes feed
    cases lineText? bytes with
    | none => exact h
    | some line =>
      dsimp only
      cases hreact : react p.pending line with
      | leave => exact h
      | skip => exact ih h
      | run input => exact ih nofun
      | await input =>
        refine ih ?_
        rintro _ ⟨⟩
        exact isUnfinished_of_await hreact

/-- The lines at a prompt can be divided, and the texts of every division are the sources of
the prompt. Inside an unfinished input every line is text, a blank line and `exit` among them.
And however the lines come in as bytes, the session of the prompt runs these sources, one after
the other, and what is kept back is never the empty text. -/
theorem sources_divide_lines (lines : List String) :
    (Nonempty (Division lines) ∧ ∀ d : Division lines, d.sources = sources lines) ∧
      (∀ segment line, Unfinished segment →
        sources (segment ++ line :: lines)
          = sourcesAfter (joined segment ++ "\n" ++ line) lines) ∧
      (∃ raw : List (List UInt8), raw.map lineText? = lines.map some) ∧
      ∀ raw : List (List UInt8), raw.map lineText? = lines.map some →
        ∀ out diagnostics : Sink,
          let p := (new out diagnostics).feedAll raw
          p.1 = 0 ∧
            p.2.session = (Session.new .interactive out diagnostics).runAll (sources lines) ∧
            p.2.pending ≠ some "" := by
  refine ⟨⟨(exists_division lines).1, Division.sources_eq⟩, fun segment line h => ?_,
    ⟨lines.map fun line => line.toUTF8.data.toList ++ [13, 10], ?_⟩,
    fun raw hraw out diagnostics => ?_⟩
  · rw [sources_append_unfinished h, sourcesFrom_next lines h, joined_concat h.1.ne_nil]
  · rw [List.map_map]
    exact List.map_congr_left fun line _ => lineText?_ended line
  · obtain ⟨hcode, hsession⟩ := feedAll_eq hraw (new out diagnostics)
    refine ⟨hcode, hsession, fun hpending => ?_⟩
    have hnew : ∀ input ∈ (new out diagnostics).pending, isUnfinished input = true := nofun
    have hunfinished := isUnfinished_pending_feedAll hnew raw "" hpending
    exact absurd hunfinished (by decide +kernel)

/-- A function with the word `exit` on a line of its body, and lines around it. -/
def functionLines : List String := ["", "func f() \x7b", "exit", "\x7d", "exit", "f();"]

/-- These lines as they come in. -/
def functionInput : List (List UInt8) :=
  functionLines.map fun line => (line ++ "\n").toUTF8.data.toList

/-- An `exit` inside of a function is a line of it. -/
theorem sources_divide_lines_function :
    Unfinished ["func f() \x7b"] ∧
      sources ["func f() \x7b", "exit", "\x7d"]
        = sourcesAfter "func f() \x7b\nexit" ["\x7d"] ∧
      functionInput.map lineText? = functionLines.map some ∧
      ((new .unlimited .unlimited).feedAll functionInput).2.session
        = (Session.new .interactive .unlimited .unlimited).runAll
            ["func f() \x7b\nexit\n\x7d"] := by
  have hopen : Unfinished ["func f() \x7b"] :=
    ⟨.singleton (by decide +kernel) (by decide +kernel), by decide +kernel⟩
  have hraw : functionInput.map lineText? = functionLines.map some := by decide +kernel
  have hsources : sources functionLines = ["func f() \x7b\nexit\n\x7d"] := by decide +kernel
  refine ⟨hopen, (sources_divide_lines ["\x7d"]).2.1 _ "exit" hopen, hraw, ?_⟩
  rw [← hsources]
  exact ((sources_divide_lines functionLines).2.2.2 _ hraw _ _).2.1

end PipeLang.Prompt
