import Quorum.Text.Json

/-!
# Reading JSON

`Json.parse?` reads the text of one value. A number is an integer if it is written as one and fits
64 bits, signed or not; any other number is a float.
-/

namespace Quorum.Json

/-- Reads something off the front of a text. -/
abbrev Reader := StateT (List Char) Option

namespace Reader

/-- Whether a character may stand between tokens. -/
def isBlank (c : Char) : Bool := c = ' ' || c = '\t' || c = '\n' || c = '\r'

/-- Skip the blanks. -/
def skipBlanks : Reader Unit := modify (·.dropWhile isBlank)

/-- The next character. -/
def next : Reader Char
  | [] => none
  | c :: cs => some (c, cs)

/-- The next character, which is not consumed. -/
def peek : Reader Char
  | [] => none
  | c :: cs => some (c, c :: cs)

/-- A fixed text. -/
def word (w : String) : Reader Unit := fun cs =>
  if cs.take w.length = w.toList then some ((), cs.drop w.length) else none

/-- The longest run of digits. -/
def digits : Reader (List Char) := fun cs => some (cs.span Char.isDigit)

/-- Whether the next character is one of some, which is then consumed. -/
def accept (chars : List Char) : Reader Bool
  | [] => some (false, [])
  | c :: cs => if chars.contains c then some (true, cs) else some (false, c :: cs)

/-- The number that decimal digits stand for. -/
def natOfDigits (cs : List Char) : Nat := cs.foldl (fun n c => 10 * n + (c.toNat - 48)) 0

/-- The value of a hexadecimal digit. -/
def hexValue? (c : Char) : Option Nat :=
  if c.isDigit then some (c.toNat - 48)
  else if 'a' ≤ c ∧ c ≤ 'f' then some (c.toNat - 87)
  else if 'A' ≤ c ∧ c ≤ 'F' then some (c.toNat - 55)
  else none

/-- `n` hexadecimal digits that continue the number `acc`. -/
def hex : Nat → Nat → Reader Nat
  | 0, acc => pure acc
  | n + 1, acc => do
    let v ← hexValue? (← next)
    hex n (16 * acc + v)

/-- The character of a `\u` escape; beyond the first plane it is written as two of them. -/
def unicode : Reader Char := do
  let n ← hex 4 0
  if 0xd800 ≤ n ∧ n < 0xdc00 then
    word "\\u"
    let m ← hex 4 0
    pure (Char.ofNat (0x10000 + (n - 0xd800) * 0x400 + (m - 0xdc00)))
  else pure (Char.ofNat n)

/-- The character of an escape. -/
def escape : Reader Char := do
  match ← next with
  | 'n' => pure '\n'
  | 't' => pure '\t'
  | 'r' => pure '\r'
  | 'b' => pure '\x08'
  | 'f' => pure '\x0c'
  | 'u' => unicode
  | c => pure c

/-- The rest of a quoted text, in at most `fuel` characters. -/
def quoted : Nat → String → Reader String
  | 0, _ => failure
  | fuel + 1, acc => do
    match ← next with
    | '"' => pure acc
    | '\\' => quoted fuel (acc.push (← escape))
    | c => quoted fuel (acc.push c)

/-- The exponent of a number, if it is written. -/
def exponent : Reader (Option Int) := do
  if ← accept ['e', 'E'] then
    let negative ← accept ['-']
    discard (accept ['+'])
    let n := natOfDigits (← digits)
    pure (some (if negative then -n else n))
  else pure none

/-- A number. -/
def number : Reader Json := do
  let negative ← accept ['-']
  let whole ← digits
  if whole.isEmpty then failure
  let places ← if ← accept ['.'] then digits else pure []
  let e ← exponent
  let n := natOfDigits whole
  let fits : Bool := if negative then 0 < n ∧ n ≤ 0x8000000000000000 else n < UInt64.size
  if places.isEmpty ∧ e.isNone ∧ fits then pure (.int (if negative then -n else n))
  else
    let scale := e.getD 0 - places.length
    let x := Float.ofScientific (natOfDigits (whole ++ places)) (scale < 0) scale.natAbs
    pure (.float (if negative then -x else x))

mutual

/-- A value, in at most `fuel` nested steps. -/
def value : Nat → Reader Json
  | 0 => failure
  | fuel + 1 => do
    skipBlanks
    match ← peek with
    | '"' =>
      discard next
      .string <$> quoted fuel ""
    | '[' =>
      discard next
      skipBlanks
      if ← accept [']'] then pure (.array []) else .array <$> items fuel
    | '\x7b' =>
      discard next
      skipBlanks
      if ← accept ['\x7d'] then pure (.object []) else .object <$> fields fuel
    | 't' =>
      word "true"
      pure (.bool true)
    | 'f' =>
      word "false"
      pure (.bool false)
    | 'n' =>
      word "null"
      pure .null
    | _ => number

/-- The items of an array and its end. -/
def items : Nat → Reader (List Json)
  | 0 => failure
  | fuel + 1 => do
    let v ← value fuel
    skipBlanks
    if ← accept [','] then return v :: (← items fuel)
    word "]"
    pure [v]

/-- The fields of an object and its end. -/
def fields : Nat → Reader (List (String × Json))
  | 0 => failure
  | fuel + 1 => do
    skipBlanks
    word "\""
    let k ← quoted fuel ""
    skipBlanks
    word ":"
    let v ← value fuel
    skipBlanks
    if ← accept [','] then return (k, v) :: (← fields fuel)
    word "\x7d"
    pure [(k, v)]

end

end Reader

/-- The value of a text, if it is the text of one value. -/
def parse? (text : String) : Option Json :=
  match (Reader.value (2 * text.length + 2)).run text.toList with
  | some (j, rest) => if rest.all Reader.isBlank then some j else none
  | none => none

end Quorum.Json
