import LoopLowering.CommandLine.Arguments
import LoopLowering.Json.Reader
import LoopLowering.Lowering
import LoopLowering.Options.TomlForm
import LoopLowering.Syntax.JsonForm
import LoopLowering.Syntax.Printer

namespace LoopLowering

/-!
# Running commands

What a command prints is decided from the contents of its files alone. A file
of options is read before the unit, and a failure of either is all that is
reported.

## Paths

The options of a unit are looked for beside it, in the directory that its path
names.
-/

namespace Path

/-- Whether a part of a path, other than the first, names nothing. -/
def isSilent
    (part : String) :
    Bool :=
  part == "" || part == "."

/-- The parts of a path in reverse, without those at the end that name nothing.
The first part stays. -/
def trimmedParts :
    List String → List String
  | [] => []
  | [first] => [first]
  | part :: rest => if isSilent part then trimmedParts rest else part :: rest

/-- A path of a file in a directory, given the parts of the directory in
reverse. No parts name the directory the program runs in, and one empty part
names the root. -/
def inDirectory
    (reversedParts : List String)
    (file : String) :
    String :=
  match reversedParts with
  | [] => file
  | parts => String.intercalate "/" parts.reverse ++ "/" ++ file

/-- The path of a file beside another. The root has nothing beside it. -/
def beside?
    (path file : String) :
    Option String :=
  match trimmedParts (path.splitOn "/").reverse with
  | [] | [""] => none
  | _ :: directory => some (inDirectory (trimmedParts directory) file)

end Path

/-!
## Files and commands
-/

/-- What is known of a file. -/
inductive FileState where
  | missing
  | directory
  /-- The file is there, but its text cannot be had, for a reason. -/
  | unreadable (reason : String)
  | text (content : String)
  deriving Repr, DecidableEq

namespace FileState

/-- The text of a file, or the reason why it cannot be had. -/
def content :
    FileState → Except String String
  | .missing => .error "No such file or directory"
  | .directory => .error "Is a directory"
  | .unreadable reason => .error reason
  | .text content => .ok content

end FileState

/-- The files that a command may read, by their paths. -/
abbrev FileView := String → FileState

/-- What a command prints, and the exit code it ends with. -/
structure Outcome where
  code : UInt32
  output : String
  errors : String
  deriving Repr, DecidableEq

/-- The name of the file of options beside a unit. -/
def configName :
    String :=
  "javelin.toml"

/-- The containers of a unit that are read may nest this deep. -/
def unitDepth :
    Nat :=
  127

/-- Read a file of options. -/
def loadOptions
    (files : FileView)
    (path : String) :
    Except Failure CompilerOptions :=
  match (files path).content with
  | .error reason => .error (.config ("cannot read config: " ++ reason) path)
  | .ok text =>
      match CompilerOptions.ofToml? text with
      | some options => .ok options
      | none => .error (.config "the options are not valid" path)

/-- The options for a unit: those of the given file, else those of the file
beside the unit, else the standard ones. -/
def optionsFor
    (files : FileView)
    (invocation : Invocation) :
    Except Failure CompilerOptions :=
  match invocation.config, Path.beside? invocation.file configName with
  | some path, _ => loadOptions files path
  | none, none => .ok .standard
  | none, some path =>
      match files path with
      | .missing | .directory => .ok .standard
      | _ => loadOptions files path

/-- Read a unit. -/
def loadUnit
    (files : FileView)
    (path : String) :
    Except Failure CompilationUnit :=
  match (files path).content with
  | .error reason => .error (.input ("cannot read unit: " ++ reason) path)
  | .ok text =>
      match Json.ofText? unitDepth text with
      | none => .error (.input "invalid unit: the text is not JSON" path)
      | some json =>
          match CompilationUnit.ofJson json with
          | .ok unit => .ok unit
          | .error cause => .error (.input ("invalid unit: " ++ cause.message) path)

/-- Keep only the methods of a name, if one is given. -/
def CompilationUnit.keepOnly
    (only : Option String)
    (unit : CompilationUnit) :
    CompilationUnit :=
  match only with
  | none => unit
  | some name =>
      { unit with methods := unit.methods.filter (fun method => method.node.name.node == name) }

/-- What is printed of a method that was lowered. -/
def LoweredMethod.codeText
    (lowered : LoweredMethod) :
    String :=
  match lowered.code with
  | some code => code.listing
  | none => lowered.name ++ ": not lowered\n"

/-- The reports of what is wrong with a method. -/
def LoweredMethod.reports
    (file : String)
    (lowered : LoweredMethod) :
    String :=
  String.join (lowered.diagnostics.toList.map (Diagnostic.report file))

/-- Lower the methods of a unit file. -/
def lowerFile
    (files : FileView)
    (invocation : Invocation)
    (only : Option String) :
    Except Failure Outcome := do
  let options ← optionsFor files invocation
  let unit := (← loadUnit files invocation.file).keepOnly only
  match only, unit.methods with
  | some name, [] =>
      return ⟨1, "", "error: no method named '" ++ name ++ "' in " ++ invocation.file ++ "\n"⟩
  | _, _ =>
      let lowered ← (lowerUnit options unit).mapError LoweringError.failure
      return ⟨0, String.intercalate "\n" (lowered.map LoweredMethod.codeText),
        String.join (lowered.map (LoweredMethod.reports invocation.file))⟩

/-- Report what is wrong with the methods of a unit file. -/
def checkFile
    (files : FileView)
    (invocation : Invocation) :
    Except Failure Outcome := do
  let options ← optionsFor files invocation
  let unit ← loadUnit files invocation.file
  let lowered ← (lowerUnit options unit).mapError LoweringError.failure
  let reports := String.join (lowered.map (LoweredMethod.reports invocation.file))
  let wrong := lowered.countP LoweredMethod.hasErrors
  return (
    if wrong = 0 then ⟨0, reports, ""⟩
    else ⟨1, reports, toString wrong ++ " method(s) with errors\n"⟩)

/-- Print the methods of a unit file. -/
def printFile
    (files : FileView)
    (invocation : Invocation) :
    Except Failure Outcome := do
  let unit ← loadUnit files invocation.file
  return ⟨0, unit.text ++ "\n", ""⟩

/-- Run a command. -/
def Invocation.run
    (files : FileView)
    (invocation : Invocation) :
    Outcome :=
  let done :=
    match invocation.command with
    | .lower only => lowerFile files invocation only
    | .check => checkFile files invocation
    | .print => printFile files invocation
  match done with
  | .ok outcome => outcome
  | .error failure => ⟨1, "", failure.report invocation.file⟩

/-- Do what the arguments of the program ask for. -/
def runArguments
    (files : FileView)
    (arguments : List String) :
    Outcome :=
  match Request.ofArguments arguments with
  | .ok (.run invocation) => invocation.run files
  | .ok (.help topic) => ⟨0, topic.text, ""⟩
  | .ok .version => ⟨0, versionText, ""⟩
  | .error cause => ⟨2, "", "error: " ++ cause.message ++ "\n"⟩

/-- The files that the arguments of the program may make it read. -/
def filesOfArguments
    (arguments : List String) :
    List String :=
  match Request.ofArguments arguments with
  | .ok (.run invocation) =>
      invocation.file :: invocation.config.toList ++
        (Path.beside? invocation.file configName).toList
  | _ => []

end LoopLowering
