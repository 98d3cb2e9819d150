import ResourceStubs.Command
import ResourceStubs.CommandLine.Arguments
import ResourceStubs.Discovery.Resources
import ResourceStubs.Settings.Load

/-!
# The program

The program takes its settings from a settings file, lets the command line go before
them, finds the resources, and runs.  What it says at its end is an `Outcome`: the text
for the terminal, the text about what went wrong, and the exit code, which is one for a
run that fails and two for a command line that cannot be read.

A list on the command line takes the place of the one in the settings, except for the
exclude patterns, which are added to it.
-/

namespace ResourceStubs
namespace CommandLine

/-- What the program leaves behind besides files. -/
structure Outcome where
  exitCode : Nat
  output : String := ""
  errors : String := ""
  deriving DecidableEq, Repr

/-- Why there is no run, or why it stops. -/
inductive ProgramError where
  | settings (e : SettingsError)
  | noPackage
  | run (e : Failure)
  deriving DecidableEq, Repr

/-- What the user is told. -/
def ProgramError.message : ProgramError → String
  | settings e => e.message
  | noPackage => "No package given: pass --package or set `package` in the config file"
  | run e => e.message

/-- A list from the command line, or the one from the settings if that is empty. -/
def listOr (given settings : List α) : List α :=
  if given.isEmpty then settings else given

/-- The settings under a command line. -/
def overrideSettings (a : Arguments) (s : Settings) : Settings :=
  { package := a.package <|> s.package
    resourceFiles := listOr a.resourceFiles s.resourceFiles
    resourceDirs := listOr a.resourceDirs s.resourceDirs
    exclude := s.exclude ++ a.exclude
    classInfos := listOr a.classInfos s.classInfos
    symbolLists := listOr a.symbolLists s.symbolLists
    nonTransitive := a.nonTransitive || s.nonTransitive
    output :=
      { rClass := a.rClassOutput.getD s.output.rClass
        stubs := a.stubsOutput.getD s.output.stubs } }

/-- The settings of a run: from the file that the command line names, or from the
project in the working directory. -/
def loadSettings (a : Arguments) (t : Tree) : Except SettingsError Settings :=
  (match a.settingsFile with
    | some file => Settings.ofFile t file
    | none => Settings.ofProject t ⟨"."⟩).map (overrideSettings a)

/-- The resource files of a run: those that are named, and then those that are
found. -/
def resourceFiles (s : Settings) (t : Tree) : List Path :=
  s.resourceFiles ++ Discovery.resources t s s.resourceDirs

/-- The run that the settings ask for. -/
def command (s : Settings) (t : Tree) : Except ProgramError Command :=
  match s.package with
  | none => .error .noPackage
  | some package =>
      let files := resourceFiles s t
      .ok { package
            resourceFiles := files
            layoutFiles := partitionLayouts files
            classInfos := s.classInfos
            symbolLists := s.symbolLists
            nonTransitive := s.nonTransitive
            rClassOutput := s.output.rClass
            stubsOutput := s.output.stubs }

/-- What the program says after a run. -/
def report (package : String) (s : Summary) : String :=
  "✓ Generated " ++ toString s.symbols ++ " symbols, " ++ toString s.layouts ++
    " layouts, " ++ toString s.stubs ++ " binding stubs for " ++ package ++ "\n"

/-- The command of a command line. -/
def prepare (a : Arguments) (t : Tree) : Except ProgramError Command :=
  match loadSettings a t with
  | .error e => .error (.settings e)
  | .ok s => command s t

/-- Does what the arguments ask for. -/
def execute (a : Arguments) (t : Tree) : Except ProgramError String × Tree :=
  match prepare a t with
  | .error e => (.error e, t)
  | .ok c =>
      match c.run t with
      | (.error e, t) => (.error (.run e), t)
      | (.ok summary, t) => (.ok (report c.package summary), t)

/-- The name and the version of the program. -/
def versionText : String :=
  "aapt-lite 0.1.0\n"

/-- What the program says about its options. -/
def helpText : String :=
  "Usage: aapt-lite [OPTIONS]\n\nOptions:\n" ++
    String.join (flagNames.map fun names =>
      "  " ++ (match names.short with
        | some c => String.ofList ['-', c] ++ ", "
        | none => "    ") ++ "--" ++ names.long ++
      (match names.flag with
        | .value _ => " <VALUE>"
        | .switch _ => "") ++ "\n")

/-- Runs the program with a command line on a file tree. -/
def run (arguments : List String) (t : Tree) : Outcome × Tree :=
  match Arguments.read arguments with
  | .error .version => ({ exitCode := 0, output := versionText }, t)
  | .error .help => ({ exitCode := 0, output := helpText }, t)
  | .error (.usage e) => ({ exitCode := 2, errors := "error: " ++ e.message ++ "\n" }, t)
  | .ok a =>
      match execute a t with
      | (.error e, t) => ({ exitCode := 1, errors := "Error: " ++ e.message ++ "\n" }, t)
      | (.ok text, t) => ({ exitCode := 0, output := if a.quiet then "" else text }, t)

end CommandLine
end ResourceStubs
