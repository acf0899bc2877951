/-!
# Texts in columns

* `Text.orDash` : a value that may be missing;
* `Text.alignRight` : a text against the right edge of its column.
-/

namespace Quorum.Text

/-- The text of a value, a dash if there is none. -/
def orDash {α : Type} [ToString α] : Option α → String
  | some a => toString a
  | none => "-"

/-- A text against the right edge of a column of `width` characters; a longer text is not cut. -/
def alignRight (width : Nat) (s : String) : String := "".pushn ' ' (width - s.length) ++ s

end Quorum.Text
