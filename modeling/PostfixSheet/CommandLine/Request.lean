import PostfixSheet.CommandLine.Switch
import PostfixSheet.Csv.Dialect
import PostfixSheet.Evaluation.State

/-!
# Requests

Model of `Cli` and `Commands`, the commands of the program with their switches, aliases, defaults
and conflicts, up to what `main` makes of them: the marker and the policy.

The arguments of the program ask for one thing: to evaluate a sheet, to describe one, or to tell the
version or the usage. They are taken from left to right, and the first mistake, or the first switch
that asks for the version or the usage, settles what they ask for; what may only be known in the
end, which is a missing input or two switches that exclude each other, comes last.

* `Request.parse` is the request that arguments make.

`Cli` and `Commands` only declare what there is. What arguments come to by these declarations is the
library `clap`'s, which is not part of the source. Taken as given of it are

* `beforeCommand`: switches may stand before the command, and any other word there is unknown;
* `ofHelp`: the word `help` is a command, too;
* `giveSwitch`: no switch but `verbose` may be given twice, a path is not empty, and a character is
  exactly one;
* `giveOperand`: an operand too many is a mistake, and the input is not empty;
* `ofArguments`, `request`: the order in which mistakes and requests are met.
-/

namespace PostfixSheet

/-- The two commands that work on a sheet. -/
inductive Command where
  | evaluate
  | describe
  deriving Repr, DecidableEq

namespace Command

/-- The command of the given name. -/
def ofName? (name : String) : Option Command :=
  if name = "eval" || name = "e" then some .evaluate
  else if name = "info" then some .describe
  else none

/-- The switches that a command knows. -/
def switches : Command → List Switch
  | .evaluate => [.verbose, .help, .output, .delimiter, .detailedErrors, .errorMarker, .cache]
  | .describe => [.verbose, .help, .delimiter]

end Command

/-- What is asked for. -/
inductive Request where
  | help
  | version
  /-- The results of a sheet, written to a file or else to the standard output. -/
  | evaluate (input : String) (output : Option String) (delimiter : Option Char)
      (marker : Csv.Marker) (policy : Policy)
  /-- The size of a sheet, and how many cells of each kind it has. -/
  | describe (input : String) (delimiter : Option Char)
  deriving Repr, DecidableEq

/-- The arguments of a command that were taken so far. -/
structure Request.Taken where
  input : Option String
  /-- The switches with their values, the last one first. -/
  switches : List (Switch × String)
  deriving Repr, DecidableEq

namespace Request

/-- The character that a text is. -/
def singleChar? (text : String) : Option Char :=
  match text.toList with
  | [c] => some c
  | _ => none

/-- Whether a text may be the value of a switch. -/
def accepts (switch : Switch) (value : String) : Bool :=
  match switch with
  | .output => value != ""
  | .delimiter => (singleChar? value).isSome
  | _ => true

namespace Taken

/-- Nothing was taken yet. -/
def nothing : Taken := ⟨none, []⟩

/-- The value of a switch, if it was given. -/
def value? (taken : Taken) (switch : Switch) : Option String := taken.switches.lookup switch

/-- Whether a switch was given. -/
def has (taken : Taken) (switch : Switch) : Bool := (taken.value? switch).isSome

/-- Takes a switch. -/
def giveSwitch (taken : Taken) (switch : Switch) (value : String) : Except Misuse Taken :=
  if !accepts switch value then .error (.badValue switch value)
  else if taken.has switch && !switch.mayRepeat then .error (.repeatedSwitch switch)
  else .ok { taken with switches := (switch, value) :: taken.switches }

/-- Takes an operand, of which there is only the input. -/
def giveOperand (taken : Taken) (text : String) : Except Misuse Taken :=
  if taken.input.isSome then .error (.extraOperand text)
  else if text = "" then .error .emptyInput
  else .ok { taken with input := some text }

/-- The request that a command makes with all its arguments taken. -/
def request (taken : Taken) (command : Command) : Except Misuse Request :=
  if taken.has .detailedErrors && taken.has .errorMarker then
    .error (.conflict .detailedErrors .errorMarker)
  else
    match taken.input with
    | none => .error .missingInput
    | some input =>
      let delimiter := (taken.value? .delimiter).bind singleChar?
      match command with
      | .describe => .ok (.describe input delimiter)
      | .evaluate =>
        let marker : Csv.Marker :=
          if taken.has .detailedErrors then .detailed
          else
            match taken.value? .errorMarker with
            | some text => .uniform text
            | none => .default
        let policy : Policy := if taken.has .cache then .cache else .default
        .ok (.evaluate input (taken.value? .output) delimiter marker policy)

end Taken

/-- The request that a command makes with the arguments that are left. -/
def ofArguments (command : Command) : Taken → List Argument → Except Misuse Request
  | taken, [] => taken.request command
  | _, .mistake misuse :: _ => .error misuse
  | _, .given .help _ :: _ => .ok .help
  | _, .given .version _ :: _ => .ok .version
  | taken, .given switch value :: rest =>
    match taken.giveSwitch switch value with
    | .error misuse => .error misuse
    | .ok next => ofArguments command next rest
  | taken, .operand text :: rest =>
    match taken.giveOperand text with
    | .error misuse => .error misuse
    | .ok next => ofArguments command next rest

/-- What the arguments before a command come to: a request, a mistake, or nothing as yet. -/
def beforeCommand : List Argument → Option (Except Misuse Request)
  | [] => none
  | .mistake misuse :: _ => some (.error misuse)
  | .operand text :: _ => some (.error (.unknownCommand text))
  | .given .help _ :: _ => some (.ok .help)
  | .given .version _ :: _ => some (.ok .version)
  | .given _ _ :: rest => beforeCommand rest

/-- The switches that may stand before a command. -/
def generalSwitches : List Switch := [.verbose, .help, .version]

/-- The request for the usage of what follows the word `help`. -/
def ofHelp : List String → Except Misuse Request
  | [] => .ok .help
  | [name] =>
    if (Command.ofName? name).isSome || name = "help" then .ok .help
    else .error (.unknownCommand name)
  | _ :: name :: _ => .error (.unknownCommand name)

/-- The request that arguments make. -/
def parse : List String → Except Misuse Request
  | [] => .error .missingCommand
  | text :: rest =>
    match Command.ofName? text with
    | some command =>
      ofArguments command .nothing (Argument.read command.switches none rest)
    | none =>
      if text = "help" then ofHelp rest
      else if text = "--" then
        match rest with
        | [] => .error .missingCommand
        | next :: _ => .error (.unknownCommand next)
      else
        match beforeCommand (Argument.read generalSwitches none [text]) with
        | some settled => settled
        | none => parse rest

end Request

end PostfixSheet
