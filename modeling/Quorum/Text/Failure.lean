/-!
# Failures and their causes

* `Failure` : what went wrong, with what it was caused by;
* `Failure.line` : all of it on one line, for records;
* `Failure.report` : all of it for a person to read, a line for each cause.
-/

namespace Quorum

/-- What went wrong. -/
structure Failure where
  message : String
  /-- What it was caused by, the nearest cause first. -/
  causes : List String := []
  deriving DecidableEq, Inhabited

namespace Failure

/-- The failure of which `f` is the nearest cause. -/
def wrap (f : Failure) (message : String) : Failure := ⟨message, f.message :: f.causes⟩

/-- The failure of which each message is caused by the one before it. -/
def ofInnermost (message : String) (outer : List String) : Failure := outer.foldl wrap ⟨message, []⟩

/-- The failure and its causes, separated by colons. -/
def line (f : Failure) : String := ": ".intercalate (f.message :: f.causes)

/-- The numbered lines of the causes. -/
def causeLines : Nat → List String → String
  | _, [] => ""
  | n, c :: cs =>
    let number := toString n
    "".pushn ' ' (3 - number.length) ++ number ++ ": " ++ c ++ "\n" ++ causeLines (n + 1) cs

/-- The heading of the lines of the causes. -/
def heading : List String → String
  | [] => ""
  | [_] => "\nCaused by this error:\n"
  | _ => "\nCaused by these errors (recent errors listed first):\n"

/-- The failure and its causes on lines of their own. -/
def report (f : Failure) : String :=
  "Error: " ++ f.message ++ "\n" ++ heading f.causes ++ causeLines 1 f.causes ++ "\n"

end Failure

end Quorum
