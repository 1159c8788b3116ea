import BuildPlan.Text.Split

/-!
# Command-line arguments

Options with a value, written `--name value` or `--name=value`, and words between and behind them.
Behind `--` there are only words. Anything else that starts with a dash is refused.
-/

namespace BuildPlan.Console

/-- The arguments of a command. -/
structure Arguments where
  /-- Names with their values, in order. -/
  options : List (String × String) := []
  words : List String := []
  deriving DecidableEq, Repr

namespace Arguments

/-- The arguments with an option in front. -/
def withOption (a : Arguments) (name value : String) : Arguments :=
  { a with options := (name, value) :: a.options }

def withWord (a : Arguments) (word : String) : Arguments :=
  { a with words := word :: a.words }

/-- The value of an option; of several the last counts. -/
def option? (a : Arguments) (name : String) : Option String :=
  (a.options.reverse.find? (·.1 == name)).map (·.2)

/-- The name of an option and the value that is written behind an equals sign. -/
def splitOption (name : List Char) : String × Option String :=
  match name.dropWhile (· != '=') with
  | _ :: value => (String.ofList (name.takeWhile (· != '=')), some (String.ofList value))
  | [] => (String.ofList name, none)

/-- Reads arguments, where the options have the given names. -/
def parse? (names : List String) : List String → Option Arguments
  | [] => some {}
  | arg :: rest =>
    match arg.toList with
    | ['-', '-'] => some { words := rest }
    | '-' :: '-' :: chars =>
      let (name, value?) := splitOption chars
      if !names.contains name then none
      else
        match value?, rest with
        | some value, rest => (parse? names rest).map (·.withOption name value)
        | none, value :: rest => (parse? names rest).map (·.withOption name value)
        | none, [] => none
    | '-' :: _ => none
    | _ => (parse? names rest).map (·.withWord arg)

end Arguments

end BuildPlan.Console
