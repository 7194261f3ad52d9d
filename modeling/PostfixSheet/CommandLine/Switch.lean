/-!
# Switches

Model of the switches that `Cli` and `Commands` declare: their long and short names, which of them
take a value, and which may repeat.

A switch is an argument that begins with `-`. Its long name follows two dashes and its short name, a
single character, follows one; some switches take a value. Short names may be written together, and
the last one of them may take a value.

* `Argument.read` is the list of switches, operands and mistakes that the arguments are made of.

`Argument.read` stands for the library `clap`, which is not part of the source. Taken as given of it
are

* `readLong`: a value follows the long name after `=` or is the next argument, names are not
  shortened, and a switch without a value has none after `=` either;
* `readCluster`: short names together are read one by one; the value of one is the rest, without a
  `=` in front, or else the next argument;
* `isPlain`: a single `-` is no switch, and only a plain argument may be a value;
* `read`: behind `--` all arguments are operands.

The wordings of `Misuse.message` are the module's own.

Results:
* `read_operand`: an argument that does not begin with `-` is an operand.
-/

namespace PostfixSheet

/-- The switches of all commands. -/
inductive Switch where
  /-- Asks for more messages on the way; it is accepted, and there are none. -/
  | verbose
  | help
  | version
  /-- The file that results are written to. -/
  | output
  /-- The character between fields. -/
  | delimiter
  /-- Errors are written as their codes. -/
  | detailedErrors
  /-- The text that errors are written as. -/
  | errorMarker
  /-- Values of completed cells are kept. -/
  | cache
  deriving Repr, DecidableEq

namespace Switch

/-- The long name of a switch. -/
def longName : Switch → String
  | .verbose => "verbose"
  | .help => "help"
  | .version => "version"
  | .output => "output"
  | .delimiter => "delimiter"
  | .detailedErrors => "detailed-errors"
  | .errorMarker => "error-marker"
  | .cache => "cache"

/-- The short name of a switch, if it has one. -/
def shortName? : Switch → Option Char
  | .verbose => some 'v'
  | .help => some 'h'
  | .version => some 'V'
  | .output => some 'o'
  | .delimiter => some 'd'
  | .detailedErrors => none
  | .errorMarker => none
  | .cache => none

/-- Whether a switch takes a value. -/
def takesValue : Switch → Bool
  | .output => true
  | .delimiter => true
  | .errorMarker => true
  | _ => false

/-- Whether a switch may be given any number of times. -/
def mayRepeat (switch : Switch) : Bool := switch = .verbose

end Switch

/-- Why the arguments make no request. -/
inductive Misuse where
  | missingCommand
  | unknownCommand (text : String)
  | unknownSwitch (text : String)
  | missingValue (switch : Switch)
  | unexpectedValue (switch : Switch)
  | badValue (switch : Switch) (value : String)
  | repeatedSwitch (switch : Switch)
  | conflict (first second : Switch)
  | missingInput
  | emptyInput
  | extraOperand (text : String)
  deriving Repr, DecidableEq

/-- The wording of a mistake. -/
def Misuse.message : Misuse → String
  | .missingCommand => "a command is missing"
  | .unknownCommand text => "there is no command '" ++ text ++ "'"
  | .unknownSwitch text => "there is no option '" ++ text ++ "'"
  | .missingValue switch => "the option '--" ++ switch.longName ++ "' needs a value"
  | .unexpectedValue switch => "the option '--" ++ switch.longName ++ "' takes no value"
  | .badValue switch value =>
    "'" ++ value ++ "' is no value for the option '--" ++ switch.longName ++ "'"
  | .repeatedSwitch switch => "the option '--" ++ switch.longName ++ "' is given twice"
  | .conflict first second =>
    "the options '--" ++ first.longName ++ "' and '--" ++ second.longName ++ "' exclude each other"
  | .missingInput => "the input file is missing"
  | .emptyInput => "the name of the input file is empty"
  | .extraOperand text => "there is one argument too many: '" ++ text ++ "'"

/-- What arguments are made of. -/
inductive Argument where
  /-- A switch with its value, which is empty if it takes none. -/
  | given (switch : Switch) (value : String)
  | operand (text : String)
  | mistake (misuse : Misuse)
  deriving Repr, DecidableEq

namespace Argument

/-- The switches that short names written together stand for, and the one of them that still waits
for its value. A value may follow its switch directly or after `=`. -/
def readCluster (known : List Switch) : List Char → List Argument × Option Switch
  | [] => ([], none)
  | c :: rest =>
    match known.find? fun switch => switch.shortName? == some c with
    | none => ([.mistake (.unknownSwitch (String.ofList ['-', c]))], none)
    | some switch =>
      if switch.takesValue then
        match rest with
        | [] => ([], some switch)
        | '=' :: value => ([.given switch (String.ofList value)], none)
        | value => ([.given switch (String.ofList value)], none)
      else
        let (others, waiting) := readCluster known rest
        (.given switch "" :: others, waiting)

/-- The switch of a long name, which a value may follow after `=`, or the switch that still waits
for its value. -/
def readLong (known : List Switch) (text : List Char) : List Argument × Option Switch :=
  let name := text.takeWhile (· != '=')
  let value? := match text.dropWhile (· != '=') with
    | [] => none
    | _ :: value => some (String.ofList value)
  match known.find? fun switch => switch.longName.toList == name with
  | none => ([.mistake (.unknownSwitch (String.ofList ('-' :: '-' :: name)))], none)
  | some switch =>
    match value? with
    | none => if switch.takesValue then ([], some switch) else ([.given switch ""], none)
    | some value =>
      if switch.takesValue then ([.given switch value], none)
      else ([.mistake (.unexpectedValue switch)], none)

/-- Whether an argument stands for itself: it does not begin with `-`, or is no more than that. -/
def isPlain (text : String) : Bool :=
  match text.toList with
  | '-' :: _ :: _ => false
  | _ => true

/-- Reads arguments of a command that knows the given switches; `waiting` is the switch whose value
comes next. -/
def read (known : List Switch) : (waiting : Option Switch) → List String → List Argument
  | none, [] => []
  | some switch, [] => [.mistake (.missingValue switch)]
  | some switch, text :: rest =>
    if isPlain text then .given switch text :: read known none rest
    else [.mistake (.missingValue switch)]
  | none, text :: rest =>
    if isPlain text then .operand text :: read known none rest
    else if text = "--" then rest.map .operand
    else
      let (found, waiting) := match text.toList with
        | '-' :: '-' :: long => readLong known long
        | _ :: cluster => readCluster known cluster
        | [] => ([], none)
      found ++ read known waiting rest

theorem read_operand {known : List Switch} {text : String} {rest : List String}
    (h : isPlain text = true) :
    read known none (text :: rest) = .operand text :: read known none rest := by
  simp [read, h]

end Argument

end PostfixSheet
