/-!
# Command-line arguments

How one argument reads: as a plain text, as a long option with or without its value attached, as a
request for help or for the version, or as the mark after which no options come.
-/

namespace QueryForecast

/-- One argument of a command line. -/
inductive Argument where
  /-- A text that does not start with a dash, or the dash alone. -/
  | plain (text : String)
  /-- `--name`. -/
  | option (name : String)
  /-- `--name=value`. -/
  | assignment (name value : String)
  | help
  | version
  /-- `--`. -/
  | endOfOptions
  | unknown
  deriving DecidableEq, Repr

namespace Argument

/-- A long option, given what follows its dashes: the name ends at the first equals sign. -/
def long (text : List Char) : Argument :=
  match text.span (· ≠ '=') with
  | (name, '=' :: text) => .assignment (String.ofList name) (String.ofList text)
  | (name, _) =>
    if name = "help".toList then .help
    else if name = "version".toList then .version
    else .option (String.ofList name)

/-- A short option, given the letter after its dash. -/
def short (letter : Char) : Argument :=
  if letter = 'h' then .help else if letter = 'V' then .version else .unknown

/-- How an argument reads. -/
def ofText (text : String) : Argument :=
  match text.toList with
  | ['-', '-'] => .endOfOptions
  | '-' :: '-' :: rest => long rest
  | '-' :: letter :: _ => short letter
  | _ => .plain text

end Argument

end QueryForecast
