import ResourceStubs.File.Path
import ResourceStubs.Text.Search

/-!
# Command line arguments

Arguments are read in two steps.  First they are cut into items: an option with its
value, a switch, or a fault.  A value stands in the next argument, after an equals sign,
or right after a short name; switches with short names may share one dash.  Then the
items are applied one after the other, and the first that asks for something else than
a run, or that cannot be applied, ends it.

An argument that begins with a dash is never the value of the one before it, except for
the dash alone.  A path is never empty.  Options that hold one value, and switches, may
be given once; options that hold a list may be repeated.
-/

namespace ResourceStubs
namespace CommandLine

/-- Options that take a value. -/
inductive ValueOption where
  | package
  | resourceFiles
  | resourceDir
  | classInfos
  | symbolLists
  | rClassOutput
  | stubsOutput
  | exclude
  | settingsFile
  deriving DecidableEq, Repr

/-- Options without a value. -/
inductive Switch where
  | nonTransitive
  | verbose
  | quiet
  | help
  | version
  deriving DecidableEq, Repr

/-- An option of either kind. -/
inductive Flag where
  | value (o : ValueOption)
  | switch (s : Switch)
  deriving DecidableEq, Repr

/-- An option with its names. -/
structure FlagNames where
  flag : Flag
  long : String
  short : Option Char
  deriving DecidableEq, Repr

/-- All options, with their names. -/
def flagNames : List FlagNames :=
  [⟨.value .package, "package", some 'p'⟩,
   ⟨.value .resourceFiles, "resource-files", none⟩,
   ⟨.value .resourceDir, "res-dir", none⟩,
   ⟨.value .classInfos, "class-infos", none⟩,
   ⟨.value .symbolLists, "r-txts", none⟩,
   ⟨.switch .nonTransitive, "non-transitive-r-class", none⟩,
   ⟨.value .rClassOutput, "r-class-output", some 'r'⟩,
   ⟨.value .stubsOutput, "stubs-output", some 's'⟩,
   ⟨.value .exclude, "exclude", some 'e'⟩,
   ⟨.value .settingsFile, "config", some 'c'⟩,
   ⟨.switch .verbose, "verbose", some 'v'⟩,
   ⟨.switch .quiet, "quiet", some 'q'⟩,
   ⟨.switch .help, "help", some 'h'⟩,
   ⟨.switch .version, "version", some 'V'⟩]

/-- The option with a long name. -/
def Flag.ofLong? (name : String) : Option Flag :=
  (flagNames.find? (·.long == name)).map FlagNames.flag

/-- The option with a short name. -/
def Flag.ofShort? (c : Char) : Option Flag :=
  (flagNames.find? (·.short == some c)).map FlagNames.flag

/-- The long name of an option, with its dashes. -/
def Flag.text (f : Flag) : String :=
  "--" ++ ((flagNames.find? (·.flag == f)).map FlagNames.long).getD ""

/-- Why arguments are refused. -/
inductive UsageError where
  | unexpected (argument : String)
  | missingValue (o : ValueOption)
  | emptyValue (o : ValueOption)
  | unneededValue (s : Switch)
  | repeated (f : Flag)
  deriving DecidableEq, Repr

/-- What the user is told. -/
def UsageError.message : UsageError → String
  | unexpected argument => "unexpected argument `" ++ argument ++ "`"
  | missingValue o | emptyValue o =>
      "a value is required for `" ++ (Flag.value o).text ++ "` but none was supplied"
  | unneededValue s => "`" ++ (Flag.switch s).text ++ "` takes no value"
  | repeated f => "`" ++ f.text ++ "` cannot be used multiple times"

/-! ## Items -/

/-- A part of the command line. -/
inductive Item where
  | value (o : ValueOption) (text : String)
  | switch (s : Switch)
  | fault (e : UsageError)
  deriving DecidableEq, Repr

/-- Does an argument begin like an option?  The dash alone does not. -/
def looksLikeOption (argument : String) : Bool :=
  match argument.toList with
  | '-' :: _ :: _ => true
  | _ => false

/-- The items of an option whose value stands in the next argument, before the items of
what follows.  `next` makes items of arguments that are fewer than `rest`. -/
def valueItems (o : ValueOption) (rest : List String)
    (next : (after : List String) → after.length < rest.length → List Item) : List Item :=
  match rest with
  | [] => [.fault (.missingValue o)]
  | text :: after =>
      if looksLikeOption text then [.fault (.missingValue o)]
      else .value o text :: next after (by simp)

/-- What short names after one dash say: items, and the option at their end that still
lacks its value, if there is one. -/
def shortItems : List Char → List Item × Option ValueOption
  | [] => ([], none)
  | c :: cs =>
      match Flag.ofShort? c with
      | none => ([.fault (.unexpected (String.ofList ['-', c]))], none)
      | some (.switch s) =>
          let (items, open?) := shortItems cs
          (.switch s :: items, open?)
      | some (.value o) =>
          match cs with
          | [] => ([], some o)
          | '=' :: text => ([.value o (String.ofList text)], none)
          | text => ([.value o (String.ofList text)], none)

/-- The parts of a long option around its first equals sign. -/
def cutLong (text : List Char) : String × Option String :=
  match Text.cutFirst? ['='] text with
  | some (name, value) => (String.ofList name, some (String.ofList value))
  | none => (String.ofList text, none)

/-- The items of a command line. -/
def items (arguments : List String) : List Item :=
  match arguments with
  | [] => []
  | argument :: rest =>
      match argument.toList with
      | ['-', '-'] => rest.head?.toList.map fun argument => .fault (.unexpected argument)
      | '-' :: '-' :: text =>
          let (name, value?) := cutLong text
          match Flag.ofLong? name, value? with
          | none, _ => [.fault (.unexpected argument)]
          | some (.switch s), none => .switch s :: items rest
          | some (.switch s), some _ => [.fault (.unneededValue s)]
          | some (.value o), some value => .value o value :: items rest
          | some (.value o), none => valueItems o rest fun after _h => items after
      | '-' :: c :: cs =>
          let (found, open?) := shortItems (c :: cs)
          found ++ match open? with
            | none => items rest
            | some o => valueItems o rest fun after _h => items after
      | _ => [.fault (.unexpected argument)]
termination_by arguments.length
decreasing_by all_goals simp only [List.length_cons]; omega

/-! ## Arguments -/

/-- What a command line says about a run. -/
structure Arguments where
  package : Option String := none
  resourceFiles : List Path := []
  resourceDirs : List Path := []
  classInfos : List Path := []
  symbolLists : List Path := []
  nonTransitive : Bool := false
  rClassOutput : Option Path := none
  stubsOutput : Option Path := none
  exclude : List String := []
  settingsFile : Option Path := none
  verbose : Bool := false
  quiet : Bool := false
  deriving DecidableEq, Repr

/-- Why a command line does not lead to a run. -/
inductive Halt where
  | usage (e : UsageError)
  | help
  | version
  deriving DecidableEq, Repr

namespace Arguments

/-- The path in a value. -/
def path (o : ValueOption) (text : String) : Except Halt Path :=
  if text.isEmpty then .error (.usage (.emptyValue o)) else .ok ⟨text⟩

/-- The paths in a value, with commas between them. -/
def pathList (o : ValueOption) (text : String) : Except Halt (List Path) :=
  ((Text.pieces ',' text.toList).map String.ofList).mapM (path o)

/-- The value of an option that may be given once. -/
def once (f : Flag) (known : Bool) (value : α) : Except Halt α :=
  if known then .error (.usage (.repeated f)) else .ok value

/-- Applies an option with its value. -/
def setValue (a : Arguments) (o : ValueOption) (text : String) : Except Halt Arguments :=
  match o with
  | .package => return { a with package := ← once (.value o) a.package.isSome (some text) }
  | .resourceFiles => return { a with resourceFiles := a.resourceFiles ++ (← pathList o text) }
  | .resourceDir => return { a with resourceDirs := a.resourceDirs ++ [← path o text] }
  | .classInfos => return { a with classInfos := a.classInfos ++ (← pathList o text) }
  | .symbolLists => return { a with symbolLists := a.symbolLists ++ (← pathList o text) }
  | .rClassOutput => do
      let p ← path o text
      return { a with rClassOutput := ← once (.value o) a.rClassOutput.isSome (some p) }
  | .stubsOutput => do
      let p ← path o text
      return { a with stubsOutput := ← once (.value o) a.stubsOutput.isSome (some p) }
  | .exclude => return { a with exclude := a.exclude ++ [text] }
  | .settingsFile => do
      let p ← path o text
      return { a with settingsFile := ← once (.value o) a.settingsFile.isSome (some p) }

/-- Applies a switch. -/
def turnOn (a : Arguments) (s : Switch) : Except Halt Arguments :=
  match s with
  | .nonTransitive => return { a with nonTransitive := ← once (.switch s) a.nonTransitive true }
  | .verbose => return { a with verbose := ← once (.switch s) a.verbose true }
  | .quiet => return { a with quiet := ← once (.switch s) a.quiet true }
  | .help => .error .help
  | .version => .error .version

/-- Applies an item. -/
def apply (a : Arguments) : Item → Except Halt Arguments
  | .value o text => a.setValue o text
  | .switch s => a.turnOn s
  | .fault e => .error (.usage e)

/-- The arguments of a command line. -/
def read (arguments : List String) : Except Halt Arguments :=
  (items arguments).foldlM apply {}

end Arguments
end CommandLine
end ResourceStubs
