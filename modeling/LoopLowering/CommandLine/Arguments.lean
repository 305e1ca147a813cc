namespace LoopLowering

/-!
# Command line arguments

A command is named first and takes one file. The file of options can be given
before the name of the command or after it, and what is given after it counts.
Arguments are looked at from left to right, and the first thing wrong is
reported.
-/

/-- What to do with a unit. -/
inductive Command where
  /-- Print the code of every method, or only of those of a name. -/
  | lower (only : Option String)
  | check
  | print
  deriving Repr, DecidableEq

/-- A command with the files it works on. -/
structure Invocation where
  command : Command
  file : String
  /-- The file of options, if it was given. -/
  config : Option String
  deriving Repr, DecidableEq

/-- What a text of help is about. -/
inductive HelpTopic where
  | program
  | lower
  | check
  | print
  | help
  deriving Repr, DecidableEq

/-- The topic of a command's name. -/
def HelpTopic.ofName? :
    String → Option HelpTopic
  | "lower" => some .lower
  | "check" => some .check
  | "print" => some .print
  | "help" => some .help
  | _ => none

/-- What the arguments ask for. -/
inductive Request where
  | run (invocation : Invocation)
  | help (topic : HelpTopic)
  | version
  deriving Repr, DecidableEq

/-- What is wrong with the arguments. -/
inductive ArgumentError where
  | commandMissing
  | commandUnknown (name : String)
  | unexpected (argument : String)
  | valueMissing (option : String)
  | valueEmpty (option : String)
  | valueUnwanted (option : String)
  | repeated (option : String)
  | fileMissing
  deriving Repr, DecidableEq

namespace ArgumentError

/-- The text of an argument error. -/
def message :
    ArgumentError → String
  | .commandMissing => "a command is required"
  | .commandUnknown name => "unrecognized command '" ++ name ++ "'"
  | .unexpected argument => "unexpected argument '" ++ argument ++ "'"
  | .valueMissing option => "'" ++ option ++ "' requires a value"
  | .valueEmpty option => "'" ++ option ++ "' requires a value that is not empty"
  | .valueUnwanted option => "'" ++ option ++ "' takes no value"
  | .repeated option => "'" ++ option ++ "' is given more than once"
  | .fileMissing => "a file is required"

end ArgumentError

/-- An argument by its form. -/
inductive ArgumentForm where
  /-- Two dashes and a name, with a value after an equals sign. -/
  | long (name : String) (value : Option String)
  /-- One dash and letters. -/
  | short (letters : List Char)
  /-- Two dashes, after which nothing is an option. -/
  | escape
  | word
  deriving Repr, DecidableEq

namespace ArgumentForm

/-- The form of a long option, given what follows its dashes. -/
def ofLong
    (text : List Char) :
    ArgumentForm :=
  match text.span (fun c => c != '=') with
  | (name, _ :: value) => .long (String.ofList name) (some (String.ofList value))
  | (name, []) => .long (String.ofList name) none

/-- The form of an argument. -/
def of
    (argument : String) :
    ArgumentForm :=
  match argument.toList with
  | ['-', '-'] => .escape
  | '-' :: '-' :: text => ofLong text
  | '-' :: c :: text => .short (c :: text)
  | _ => .word

end ArgumentForm

/-- The values that a command takes. -/
structure CommandValues where
  config : Option String
  only : Option String
  file : Option String

namespace CommandValues

/-- Before the first argument of a command. -/
def none :
    CommandValues :=
  ⟨Option.none, Option.none, Option.none⟩

/-- Set the file of options, which has to have a name and is given once. -/
def setConfig
    (value : String)
    (values : CommandValues) :
    Except ArgumentError CommandValues :=
  if values.config.isSome then .error (.repeated "--config")
  else if value.isEmpty then .error (.valueEmpty "--config")
  else .ok { values with config := some value }

/-- Set the name of the method to lower, which is given once. -/
def setOnly
    (value : String)
    (values : CommandValues) :
    Except ArgumentError CommandValues :=
  if values.only.isSome then .error (.repeated "--method")
  else .ok { values with only := some value }

/-- Set the file to work on, which has to have a name and is the only one. -/
def setFile
    (value : String)
    (values : CommandValues) :
    Except ArgumentError CommandValues :=
  if values.file.isSome then .error (.unexpected value)
  else if value.isEmpty then .error (.valueEmpty "<FILE>")
  else .ok { values with file := some value }

end CommandValues

/-- A command by its name, before its options are known. -/
inductive CommandName where
  | lower
  | check
  | print
  deriving Repr, DecidableEq

namespace CommandName

/-- The command of a name. -/
def ofName? :
    String → Option CommandName
  | "lower" => some lower
  | "check" => some check
  | "print" => some print
  | _ => none

/-- The help about a command. -/
def topic :
    CommandName → HelpTopic
  | lower => .lower
  | check => .check
  | print => .print

/-- How a command takes the value of an option, if it has that option. -/
def setter?
    (command : CommandName) :
    String → Option (String → CommandValues → Except ArgumentError CommandValues)
  | "config" => some CommandValues.setConfig
  | "method" => if command = lower then some CommandValues.setOnly else none
  | _ => none

/-- The invocation of a command with its values, given the file of options from
before the name of the command. -/
def invoke
    (command : CommandName)
    (outerConfig : Option String)
    (values : CommandValues) :
    Except ArgumentError Request :=
  match values.file with
  | none => .error .fileMissing
  | some file =>
      let action :=
        match command with
        | lower => Command.lower values.only
        | check => Command.check
        | print => Command.print
      .ok (.run ⟨action, file, values.config.or outerConfig⟩)

end CommandName

namespace Request

/-- The value of an option that stands in an argument of its own, and the
arguments after it. -/
def detachedValue
    (option : String) :
    List String → Except ArgumentError (String × List String)
  | [] => .error (.valueMissing option)
  | value :: rest =>
      match ArgumentForm.of value with
      | .word => .ok (value, rest)
      | _ => .error (.valueMissing option)

/-- What the arguments of a command ask for. Each step takes an argument, which
bounds the fuel. -/
def ofCommandArguments
    (command : CommandName)
    (outerConfig : Option String) :
    (fuel : Nat) → (escaped : Bool) → CommandValues → List String → Except ArgumentError Request
  | 0, _, values, _ | _, _, values, [] => command.invoke outerConfig values
  | fuel + 1, escaped, values, argument :: rest =>
      match if escaped then .word else ArgumentForm.of argument with
      | .word => do
          let next ← values.setFile argument
          ofCommandArguments command outerConfig fuel escaped next rest
      | .escape => ofCommandArguments command outerConfig fuel true values rest
      | .long "help" none => .ok (.help command.topic)
      | .long "help" (some _) => .error (.valueUnwanted "--help")
      | .long name value =>
          match command.setter? name with
          | none => .error (.unexpected argument)
          | some set => do
              let (given, rest) ←
                match value with
                | some attached => pure (attached, rest)
                | none => detachedValue argument rest
              let next ← set given values
              ofCommandArguments command outerConfig fuel escaped next rest
      | .short ('h' :: _) => .ok (.help command.topic)
      | .short _ => .error (.unexpected argument)

/-- What the help command is asked about. -/
def ofHelpArguments :
    List String → Except ArgumentError Request
  | [] => .ok (.help .program)
  | name :: rest =>
      match HelpTopic.ofName? name, rest with
      | none, _ => .error (.commandUnknown name)
      | some _, other :: _ => .error (.commandUnknown other)
      | some topic, [] => .ok (.help topic)

/-- What arguments ask for, given the file of options from the ones before. -/
def ofArgumentsWith
    (config : Option String) :
    (fuel : Nat) → List String → Except ArgumentError Request
  | 0, _ | _, [] => .error .commandMissing
  | fuel + 1, argument :: rest =>
      match ArgumentForm.of argument with
      | .word =>
          match CommandName.ofName? argument with
          | some command =>
              ofCommandArguments command config rest.length.succ false .none rest
          | none =>
              if argument = "help" then
                ofHelpArguments rest
              else
                .error (.commandUnknown argument)
      | .escape =>
          match rest with
          | [] => .error .commandMissing
          | other :: _ => .error (.unexpected other)
      | .long "help" none => .ok (.help .program)
      | .long "version" none => .ok .version
      | .long "config" value => do
          let (given, rest) ←
            match value with
            | some attached => pure (attached, rest)
            | none => detachedValue argument rest
          let values ← CommandValues.setConfig given { CommandValues.none with config := config }
          ofArgumentsWith values.config fuel rest
      | .short ('h' :: _) => .ok (.help .program)
      | .short ('V' :: _) => .ok .version
      | .long .. | .short _ => .error (.unexpected argument)

/-- What the arguments of the program ask for. -/
def ofArguments
    (arguments : List String) :
    Except ArgumentError Request :=
  ofArgumentsWith none arguments.length.succ arguments

end Request

/-!
## Help

The texts that explain the program and each of its commands.
-/

namespace HelpTopic

/-- The line about the file of options. -/
def configLine :
    String :=
  "      --config <CONFIG>  " ++
    "Compiler options file (defaults to javelin.toml next to the input)\n"

/-- The help about a command that only takes a file. -/
def fileCommand
    (about name : String) :
    String :=
  about ++ "\n\nUsage: javelinc " ++ name ++ " [OPTIONS] <FILE>\n\n" ++
    "Arguments:\n  <FILE>  Compilation unit (JSON)\n\n" ++
    "Options:\n" ++ configLine ++
    "  -h, --help             Print help\n"

/-- What the lower command does. -/
def aboutLower :
    String :=
  "Print the code listing and diagnostics of each method"

/-- What the check command does. -/
def aboutCheck :
    String :=
  "Report diagnostics only; exits with 1 when there are errors"

/-- What the print command does. -/
def aboutPrint :
    String :=
  "Pretty-print the methods of a unit"

/-- What the help command does. -/
def aboutHelp :
    String :=
  "Print this message or the help of the given subcommand(s)"

/-- The text of help about a topic. -/
def text :
    HelpTopic → String
  | .program =>
      "Lower for-each loops to stack-machine code\n\n" ++
        "Usage: javelinc [OPTIONS] <COMMAND>\n\n" ++
        "Commands:\n" ++
        "  lower  " ++ aboutLower ++ "\n" ++
        "  check  " ++ aboutCheck ++ "\n" ++
        "  print  " ++ aboutPrint ++ "\n" ++
        "  help   " ++ aboutHelp ++ "\n\n" ++
        "Options:\n" ++ configLine ++
        "  -h, --help             Print help\n" ++
        "  -V, --version          Print version\n"
  | .lower =>
      aboutLower ++ "\n\nUsage: javelinc lower [OPTIONS] <FILE>\n\n" ++
        "Arguments:\n  <FILE>  Compilation unit (JSON)\n\n" ++
        "Options:\n" ++ configLine ++
        "      --method <METHOD>  Only lower the method with this name\n" ++
        "  -h, --help             Print help\n"
  | .check => fileCommand aboutCheck "check"
  | .print => fileCommand aboutPrint "print"
  | .help =>
      aboutHelp ++ "\n\nUsage: javelinc help [COMMAND]...\n\n" ++
        "Arguments:\n  [COMMAND]...  Print help for the subcommand(s)\n"

end HelpTopic

/-- The name and version of the program. -/
def versionText :
    String :=
  "javelinc 0.1.0\n"

end LoopLowering
