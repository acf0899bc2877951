/-!
# Durations in messages

`Text.duration` is the text of a number of milliseconds in its greatest unit, with as many decimal
places as it needs.
-/

namespace Quorum.Text

/-- The digits after the decimal point, without the zeros at the end. -/
def places (millis : Nat) : List Char :=
  let digits := [millis / 100 % 10, millis / 10 % 10, millis % 10]
  ((digits.reverse.dropWhile (· == 0)).reverse).map fun d => Char.ofNat (48 + d)

/-- A number of milliseconds in seconds, or in milliseconds if it is less than a second. -/
def duration (millis : Nat) : String :=
  if millis = 0 then "0ns"
  else if millis < 1000 then toString millis ++ "ms"
  else
    let rest := places (millis % 1000)
    toString (millis / 1000) ++ (if rest.isEmpty then "" else "." ++ String.ofList rest) ++ "s"

end Quorum.Text
