import PipeLang.Token.Basic

/-!
# Cutting a text into tokens

`cut` says what stands at the head of a non-empty text : blanks, a comment, a token, a
character no token starts with, or a string that is never closed. It splits the text into
the covered part and the rest (`text_append_rest_cut`), and covers at least one character.

`itemsFrom` cuts until the text is used up. It goes on after an error, so one text can show
several, and ends with exactly one end marker. Every item carries the line on which its
covered text ends. `tokens?` keeps the first error only, and `isUnfinished` says whether a
text stops inside a block or a string.
-/

namespace PipeLang

/-! ## Errors and items -/

/-- Why no token could be read. -/
inductive LexicalCause where
  | unexpected (c : Char)
  | unterminatedString
deriving DecidableEq

/-- A cause and the line it is reported on. -/
structure LexicalError where
  cause : LexicalCause
  line : Nat
deriving DecidableEq

/-- What the text yields, one after the other. -/
inductive Item where
  | token (t : Token)
  | error (e : LexicalError)
deriving DecidableEq

/-! ## The head of a text -/

namespace Lexer

/-- What stands at the head of a text. -/
inductive Piece where
  | skipped
  | token (kind : Kind)
  | error (cause : LexicalCause)
deriving DecidableEq

/-- A piece, the text it covers and the text behind it. -/
structure Cut where
  piece : Piece
  text : List Char
  rest : List Char
deriving DecidableEq

/-- Space, tab, carriage return and newline separate tokens. -/
def isBlank (c : Char) : Bool := c == ' ' || c == '\r' || c == '\t' || c == '\n'

/-- ASCII letters and the underscore start a name. -/
def isNameStart (c : Char) : Bool := c.isAlpha || c == '_'

/-- ASCII letters, digits and the underscore continue a name. -/
def isNameChar (c : Char) : Bool := c.isAlphanum || c == '_'

/-- A string runs to the next quote, over newlines too. -/
def cutString (quote : Char) (cs : List Char) : Cut :=
  let contents := cs.takeWhile (· ≠ '"')
  match cs.dropWhile (· ≠ '"') with
  | [] => ⟨.error .unterminatedString, quote :: cs, []⟩
  | q :: rest => ⟨.token (.string (String.ofList contents)), quote :: (contents ++ [q]), rest⟩

/-- The natural a run of digits denotes. -/
def digitsValue (cs : List Char) : Nat :=
  cs.foldl (fun n c => 10 * n + (c.toNat - '0'.toNat)) 0

/-- The double nearest to the decimal `whole.fraction`. -/
def numberValue (whole fraction : List Char) : Float :=
  Float.ofScientific (digitsValue (whole ++ fraction)) true fraction.length

/-- A number is a run of digits, and a point with a run of digits if a digit follows the
point. -/
def cutNumber (cs : List Char) : Cut :=
  let whole := cs.takeWhile Char.isDigit
  let rest := cs.dropWhile Char.isDigit
  let integral : Cut := ⟨.token (.number (numberValue whole [])), whole, rest⟩
  match rest with
  | '.' :: after =>
    let fraction := after.takeWhile Char.isDigit
    if fraction.isEmpty then integral
    else ⟨.token (.number (numberValue whole fraction)), whole ++ '.' :: fraction,
      after.dropWhile Char.isDigit⟩
  | _ => integral

/-- A word is a keyword or a name. -/
def wordKind (word : String) : Kind :=
  match Keyword.ofSpelling? word with
  | some k => .keyword k
  | none => .identifier

/-- A word runs over letters, digits and underscores. -/
def cutWord (cs : List Char) : Cut :=
  let word := cs.takeWhile isNameChar
  ⟨.token (wordKind (String.ofList word)), word, cs.dropWhile isNameChar⟩

/-- A single character that is a symbol, or that no token starts with. -/
def cutSingle (c : Char) (cs : List Char) : Cut :=
  match Symbol.single? c with
  | some s => ⟨.token (.symbol s), [c], cs⟩
  | none => ⟨.error (.unexpected c), [c], cs⟩

/-- Two slashes start a comment, which stops before the newline. Other pairs are symbols of
two characters, where there is one. -/
def cutSymbol (c : Char) : List Char → Cut
  | [] => cutSingle c []
  | d :: cs =>
    if c = '/' ∧ d = '/' then
      ⟨.skipped, c :: d :: cs.takeWhile (· ≠ '\n'), cs.dropWhile (· ≠ '\n')⟩
    else
      match Symbol.double? c d with
      | some s => ⟨.token (.symbol s), [c, d], cs⟩
      | none => cutSingle c (d :: cs)

/-- The piece at the head of the text `c :: cs`. -/
def cut (c : Char) (cs : List Char) : Cut :=
  if isBlank c then ⟨.skipped, [c], cs⟩
  else if c = '"' then cutString c cs
  else if c.isDigit then cutNumber (c :: cs)
  else if isNameStart c then cutWord (c :: cs)
  else cutSymbol c cs

/-! ## Nothing is lost -/

theorem text_append_rest_cutString (q : Char) (cs : List Char) :
    (cutString q cs).text ++ (cutString q cs).rest = q :: cs := by
  have h := List.takeWhile_append_dropWhile (p := fun c => decide (c ≠ '"')) (l := cs)
  unfold cutString
  split
  · simp
  · next e =>
    rw [e] at h
    simpa using h

theorem text_append_rest_cutNumber (cs : List Char) :
    (cutNumber cs).text ++ (cutNumber cs).rest = cs := by
  have h := List.takeWhile_append_dropWhile (p := Char.isDigit) (l := cs)
  unfold cutNumber
  dsimp only
  split
  · next after e =>
    split
    · simpa [e] using h
    · rw [e] at h
      simpa [List.append_assoc] using h
  · exact h

theorem text_append_rest_cutSymbol (c : Char) (cs : List Char) :
    (cutSymbol c cs).text ++ (cutSymbol c cs).rest = c :: cs := by
  unfold cutSymbol cutSingle
  split
  · split <;> rfl
  · split
    · simp
    · split
      · simp
      · split <;> simp

/-- The covered text and the rest make up the whole. -/
theorem text_append_rest_cut (c : Char) (cs : List Char) :
    (cut c cs).text ++ (cut c cs).rest = c :: cs := by
  unfold cut
  split
  · rfl
  split
  · exact text_append_rest_cutString c cs
  split
  · exact text_append_rest_cutNumber (c :: cs)
  split
  · simp [cutWord]
  · exact text_append_rest_cutSymbol c cs

theorem text_cutNumber_ne_nil {c : Char} (cs : List Char) (h : c.isDigit) :
    (cutNumber (c :: cs)).text ≠ [] := by
  unfold cutNumber
  dsimp only
  split
  · split <;> simp [h]
  · simp [h]

theorem text_cutSymbol_ne_nil (c : Char) (cs : List Char) : (cutSymbol c cs).text ≠ [] := by
  unfold cutSymbol cutSingle
  split
  · split <;> simp
  · split
    · simp
    · split
      · simp
      · split <;> simp

/-- A cut covers at least one character. -/
theorem text_cut_ne_nil (c : Char) (cs : List Char) : (cut c cs).text ≠ [] := by
  unfold cut
  split
  · simp
  split
  · unfold cutString
    split <;> simp
  split
  · next h => exact text_cutNumber_ne_nil cs h
  split
  · next h =>
    have : isNameChar c = true := by
      simp only [isNameStart, isNameChar, Char.isAlphanum] at *
      grind
    simp [cutWord, this]
  · exact text_cutSymbol_ne_nil c cs

/-- So the rest is shorter than the text. -/
theorem length_rest_cut_lt (c : Char) (cs : List Char) :
    (cut c cs).rest.length < (c :: cs).length := by
  have h := congrArg List.length (text_append_rest_cut c cs)
  have pos := List.length_pos_iff.2 (text_cut_ne_nil c cs)
  rw [List.length_append] at h
  omega

/-! ## The whole text -/

/-- The items of a text whose first line is `line`. -/
def itemsFrom (line : Nat) : List Char → List Item
  | [] => [.token ⟨.eof, "", line⟩]
  | c :: cs =>
    let k := cut c cs
    let next := line + k.text.count '\n'
    match k.piece with
    | .skipped => itemsFrom next k.rest
    | .token kind => .token ⟨kind, String.ofList k.text, next⟩ :: itemsFrom next k.rest
    | .error cause => .error ⟨cause, next⟩ :: itemsFrom next k.rest
termination_by cs => cs.length
decreasing_by all_goals exact length_rest_cut_lt c cs

/-- The tokens before the first error, or that error. -/
def collect : List Item → Except LexicalError (List Token)
  | [] => .ok []
  | .token t :: items => (collect items).map (t :: ·)
  | .error e :: _ => .error e

/-- How many more blocks an item opens than it closes. -/
def braceBalance : Item → Int
  | .token ⟨.symbol .leftBrace, _, _⟩ => 1
  | .token ⟨.symbol .rightBrace, _, _⟩ => -1
  | _ => 0

/-- How many more blocks the items open than they close. -/
def openBlocks : List Item → Int
  | [] => 0
  | i :: is => braceBalance i + openBlocks is

/-- The item is a string that is never closed. -/
def isUnterminated : Item → Bool
  | .error ⟨.unterminatedString, _⟩ => true
  | _ => false

end Lexer

/-- What a source text yields. -/
def items (source : String) : List Item := Lexer.itemsFrom 1 source.toList

/-- The tokens of a source text, the end marker last, or its first error. -/
def tokens? (source : String) : Except LexicalError (List Token) :=
  Lexer.collect (items source)

/-- The text stops inside a string or with blocks still open. -/
def isUnfinished (source : String) : Bool :=
  (items source).any Lexer.isUnterminated
    || Lexer.openBlocks (items source) > 0

end PipeLang
