/-!
# Reading the words of a command line

A command is described by its options. `Scan.words` reads words from left to right: an option that
takes a value keeps waiting for it until the next word, and its value is checked only when the next
option begins or the words are over. A word that names a command of its own ends the scan.

* `UsageError` : why words are not understood, and the requests for help;
* `OptionSpec`, `CommandSpec` : what words a command understands;
* `Scan.words` : reads words;
* `Scan.fillFrom` : fills in from the environment what was not given.
-/

namespace Quorum.Console

/-- Why the words of a command line do not say what to do. -/
inductive UsageError where
  | help
  | version
  /-- No words at all where a command must be named. -/
  | nothingGiven
  | missingCommand
  | unknownCommand
  | unknownArgument
  /-- A value is missing or is not one of those that are possible. -/
  | invalidValue
  /-- A value cannot be read. -/
  | unreadableValue
  | tooManyValues
  /-- An option is given twice. -/
  | repeated
  deriving DecidableEq, Repr

/-- An option, written with two hyphens. -/
structure OptionSpec (σ : Type) where
  name : String
  /-- The environment variable that can stand in for the option. -/
  envName : String
  /-- An option without a value is a switch: to be there means `true`. -/
  takesValue : Bool
  set : String → Except UsageError (σ → σ)

/-- The words that a command understands. -/
structure CommandSpec (σ : Type) where
  options : List (OptionSpec σ)
  /-- The commands that can follow; if there are none, no other word can. -/
  commands : List String := []
  hasVersion : Bool := false

/-- An option whose value has not been checked. -/
structure Unsettled (σ : Type) where
  option : OptionSpec σ
  value : Option String

/-- What was read so far. -/
structure Scan (σ : Type) where
  values : σ
  /-- The names of the options that were given. -/
  given : List String := []
  unsettled : Option (Unsettled σ) := none

namespace Scan

variable {σ : Type}

/-- Take the value of an option. -/
def put (s : Scan σ) (o : OptionSpec σ) (value : String) : Except UsageError (Scan σ) := do
  if s.given.contains o.name then throw .repeated
  let f ← o.set value
  pure { s with values := f s.values, given := o.name :: s.given }

/-- Check the value of the last option. -/
def settle (s : Scan σ) : Except UsageError (Scan σ) :=
  match s.unsettled with
  | none => .ok s
  | some ⟨_, none⟩ => .error .invalidValue
  | some ⟨o, some value⟩ => { s with unsettled := none }.put o value

/-- Whether the last option lacks its value. -/
def awaitsValue (s : Scan σ) : Bool := s.unsettled.any fun u => u.value.isNone

/-- Settle, then fail. -/
def stop (s : Scan σ) (e : UsageError) : Except UsageError (Scan σ) :=
  s.settle.bind fun _ => .error e

/-- A word of two hyphens and a name, and maybe a value after an equals sign. -/
def long (c : CommandSpec σ) (s : Scan σ) (word : List Char) : Except UsageError (Scan σ) :=
  let name := String.ofList (word.takeWhile (· ≠ '='))
  let value := match word.dropWhile (· ≠ '=') with
    | [] => none
    | _ :: v => some (String.ofList v)
  match c.options.find? (·.name = name) with
  | some o =>
    match o.takesValue, value with
    | true, some v => s.settle.bind (·.put o v)
    | true, none => s.settle.map ({ · with unsettled := some ⟨o, none⟩ })
    | false, some _ => .error .tooManyValues
    | false, none => s.settle.bind (·.put o "true")
  | none =>
    if name = "help" ∨ name = "version" ∧ c.hasVersion then
      if value.isSome then .error .tooManyValues
      else s.stop (if name = "help" then .help else .version)
    else .error .unknownArgument

/-- A word of one hyphen and a letter. -/
def short (c : CommandSpec σ) (s : Scan σ) (letter : Char) : Except UsageError (Scan σ) :=
  if letter = 'h' then s.stop .help
  else if letter = 'V' ∧ c.hasVersion then s.stop .version
  else .error .unknownArgument

/-- A word that is neither an option nor a value. -/
def stray (c : CommandSpec σ) : UsageError :=
  if c.commands.isEmpty then .unknownArgument else .unknownCommand

/-- The words after two hyphens alone, none of which a command can have. -/
def afterHyphens (c : CommandSpec σ) (s : Scan σ) : List String → Except UsageError (Scan σ)
  | [] => .ok s
  | word :: _ => .error (if c.commands.contains word then .unknownArgument else stray c)

/-- Read words up to the name of a command, which comes back with the words after it. -/
def words (c : CommandSpec σ) (s : Scan σ) :
    List String → Except UsageError (Scan σ × Option (String × List String))
  | [] => .ok (s, none)
  | word :: rest =>
    if !s.awaitsValue && c.commands.contains word then .ok (s, some (word, rest))
    else
      match word.toList, s.unsettled with
      | ['-', '-'], _ => (afterHyphens c s rest).map (·, none)
      | '-' :: '-' :: name, _ => (s.long c name).bind fun s => words c s rest
      | '-' :: letter :: _, _ => (s.short c letter).bind fun s => words c s rest
      | _, some ⟨o, none⟩ => words c { s with unsettled := some ⟨o, some word⟩ } rest
      | _, _ => .error (stray c)

/-- Fill in from the environment what was not given. -/
def fillFrom (env : String → Option String) (s : Scan σ) :
    List (OptionSpec σ) → Except UsageError (Scan σ)
  | [] => .ok s
  | o :: os =>
    match env o.envName with
    | some v => if s.given.contains o.name then fillFrom env s os
      else (s.put o v).bind fun s => fillFrom env s os
    | none => fillFrom env s os

end Scan

end Quorum.Console
