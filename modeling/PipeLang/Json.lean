import PipeLang.Number.Layout

/-!
# JSON documents

A document has two texts : `Json.compact` without blanks and `Json.pretty` with one item a
line and two blanks of indentation a level. Fields are written in the order in which they
are given. Naturals are written as they are, and numbers with the shortest digits, always
with a point or an exponent; a number that is not finite is written as `null`.
-/

namespace PipeLang

/-- A JSON document. -/
inductive Json where
  | null
  | boolean (b : Bool)
  | natural (n : Nat)
  | number (x : Float)
  | string (s : String)
  | array (items : List Json)
  | object (fields : List (String × Json))

namespace Json

/-! ## Atoms -/

/-- A finite number is written with the shortest digits, of two as near those that end in an
even one. It is written positionally from `10 ^ -5` up to `10 ^ 16`, with `.0` behind
an integer, and with an exponent outside. -/
def numberText (x : Float) : String :=
  match Binary.ofFloat x with
  | .finite negative m e =>
    let d := Decimal.shortest .even m e
    Number.signed negative <|
      if -5 ≤ d.exponent ∧ d.exponent ≤ 15 then
        if d.isWhole then d.positional ++ ".0" else d.positional
      else d.scientific
  | _ => "null"

/-- Quotes, backslashes and control characters are escaped, five of the controls by a
letter. -/
def escaped (c : Char) : String :=
  match c with
  | '"' => "\\\""
  | '\\' => "\\\\"
  | '\x08' => "\\b"
  | '\x0c' => "\\f"
  | '\n' => "\\n"
  | '\r' => "\\r"
  | '\t' => "\\t"
  | c =>
    if c.toNat < 0x20 then
      "\\u00" ++ String.ofList [Nat.digitChar (c.toNat / 16), Nat.digitChar (c.toNat % 16)]
    else c.toString

/-- A string between quotes. -/
def quoted (s : String) : String :=
  "\"" ++ String.join (s.toList.map escaped) ++ "\""

/-! ## Compact text -/

mutual

/-- The document without blanks. -/
def compact : Json → String
  | null => "null"
  | boolean true => "true"
  | boolean false => "false"
  | natural n => toString n
  | number x => numberText x
  | string s => quoted s
  | array items => "[" ++ ",".intercalate (compactItems items) ++ "]"
  | object fields => "\x7b" ++ ",".intercalate (compactFields fields) ++ "\x7d"

/-- The items without blanks. -/
def compactItems : List Json → List String
  | [] => []
  | j :: js => compact j :: compactItems js

/-- The fields without blanks. -/
def compactFields : List (String × Json) → List String
  | [] => []
  | (k, j) :: fs => (quoted k ++ ":" ++ compact j) :: compactFields fs

end

/-! ## Pretty text -/

/-- A new line, indented by `level` steps. -/
def newline (level : Nat) : String := "\n" ++ String.ofList (List.replicate (2 * level) ' ')

/-- The parts on lines of their own between two brackets, which stay together when there
are no parts. -/
def bracketed (left : String) (level : Nat) (parts : List String) (right : String) : String :=
  if parts.isEmpty then left ++ right
  else left ++ newline (level + 1) ++ ("," ++ newline (level + 1)).intercalate parts
    ++ newline level ++ right

mutual

/-- The document with one item a line, its first line indented by `level` steps. -/
def prettyAt (level : Nat) : Json → String
  | null => "null"
  | boolean true => "true"
  | boolean false => "false"
  | natural n => toString n
  | number x => numberText x
  | string s => quoted s
  | array items => bracketed "[" level (prettyItems (level + 1) items) "]"
  | object fields => bracketed "\x7b" level (prettyFields (level + 1) fields) "\x7d"

/-- The items, each indented by `level` steps. -/
def prettyItems (level : Nat) : List Json → List String
  | [] => []
  | j :: js => prettyAt level j :: prettyItems level js

/-- The fields, each indented by `level` steps. -/
def prettyFields (level : Nat) : List (String × Json) → List String
  | [] => []
  | (k, j) :: fs => (quoted k ++ ": " ++ prettyAt level j) :: prettyFields level fs

end

/-- The document with one item a line. -/
def pretty (j : Json) : String := prettyAt 0 j

end Json

end PipeLang
