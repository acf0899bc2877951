import Quorum.Text.Decimal

/-!
# JSON values

* `Json` : the values, with the fields of an object in the order in which they are written;
* `Json.compact` : the text without blanks;
* `Json.pretty` : the text on lines of their own, two blanks a level.
-/

namespace Quorum

/-- A JSON value. -/
inductive Json where
  | null
  | bool (b : Bool)
  | int (n : Int)
  | float (x : Float)
  | string (s : String)
  | array (items : List Json)
  | object (fields : List (String × Json))
  deriving Inhabited

namespace Json

/-- The hexadecimal digit of a number below 16. -/
def hexDigit (n : Nat) : Char := Char.ofNat (if n < 10 then 48 + n else 87 + n)

/-- A character inside quotes: only quotes, backslashes and control characters are escaped. -/
def escapeChar (c : Char) : String :=
  if c = '"' then "\\\""
  else if c = '\\' then "\\\\"
  else if c = '\n' then "\\n"
  else if c = '\r' then "\\r"
  else if c = '\t' then "\\t"
  else if c = '\x08' then "\\b"
  else if c = '\x0c' then "\\f"
  else if c.toNat < 32 then
    "\\u00" ++ String.ofList [hexDigit (c.toNat / 16), hexDigit (c.toNat % 16)]
  else c.toString

/-- A text in quotes. -/
def quote (s : String) : String :=
  "\"" ++ s.foldl (fun acc c => acc ++ escapeChar c) "" ++ "\""

mutual

/-- The text of a value without blanks. -/
def compact : Json → String
  | null => "null"
  | bool b => if b then "true" else "false"
  | int n => toString n
  | float x => Decimal.ofFloat x
  | string s => quote s
  | array items => "[" ++ compactItems items ++ "]"
  | object fields => "\x7b" ++ compactFields fields ++ "\x7d"

/-- The texts of the items of an array, with commas between them. -/
def compactItems : List Json → String
  | [] => ""
  | [j] => j.compact
  | j :: js => j.compact ++ "," ++ compactItems js

/-- The texts of the fields of an object, with commas between them. -/
def compactFields : List (String × Json) → String
  | [] => ""
  | [(k, j)] => quote k ++ ":" ++ j.compact
  | (k, j) :: fs => quote k ++ ":" ++ j.compact ++ "," ++ compactFields fs

end

/-- The start of a line at a level. -/
def indent (level : Nat) : String := "\n".pushn ' ' (2 * level)

mutual

/-- The text of a value whose lines are at a level; only empty arrays and objects stay on one. -/
def prettyAt (level : Nat) : Json → String
  | array [] => "[]"
  | array items => "[" ++ prettyItems (level + 1) items ++ indent level ++ "]"
  | object [] => "\x7b\x7d"
  | object fields => "\x7b" ++ prettyFields (level + 1) fields ++ indent level ++ "\x7d"
  | j => j.compact

/-- The items of an array, a line each. -/
def prettyItems (level : Nat) : List Json → String
  | [] => ""
  | [j] => indent level ++ prettyAt level j
  | j :: js => indent level ++ prettyAt level j ++ "," ++ prettyItems level js

/-- The fields of an object, a line each. -/
def prettyFields (level : Nat) : List (String × Json) → String
  | [] => ""
  | [(k, j)] => indent level ++ quote k ++ ": " ++ prettyAt level j
  | (k, j) :: fs => indent level ++ quote k ++ ": " ++ prettyAt level j ++ "," ++ prettyFields level fs

end

/-- The text of a value on lines of their own. -/
def pretty (j : Json) : String := j.prettyAt 0

/-- The value of a field of an object; the last field of a name counts. -/
def field? (j : Json) (name : String) : Option Json :=
  match j with
  | object fields => (fields.reverse.find? fun f => f.1 == name).map (·.2)
  | _ => none

end Json

end Quorum
