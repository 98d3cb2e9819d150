import ResourceStubs.Settings.Exclude

/-!
# Settings

What a settings file may say, and what holds where it says nothing.
-/

namespace ResourceStubs

/-- Where the generated files go. -/
structure OutputSettings where
  rClass : Path := ⟨"r-classes"⟩
  stubs : Path := ⟨"binding-stubs"⟩
  deriving DecidableEq, Repr

/-- The settings of an invocation. -/
structure Settings where
  package : Option String := none
  resourceFiles : List Path := []
  resourceDirs : List Path := []
  exclude : List String := ["**/build/**", "**/.gradle/**", "**/.idea/**"]
  classInfos : List Path := []
  symbolLists : List Path := []
  nonTransitive : Bool := false
  output : OutputSettings := {}
  deriving DecidableEq, Repr

/-- Do the settings keep a path out of discovery? -/
def Settings.excludes (s : Settings) (p : Path) : Bool :=
  Exclude.excludes s.exclude p

/-- The value of one setting in a group of them: what is read from what its name
stands for, or the default if the name is not there.  A name that is there twice has
no value. -/
def Settings.fromPairs? (pairs : List (String × β)) (name : String) (default : α)
    (read : β → Option α) : Option α :=
  match pairs.filter fun p => p.1 == name with
  | [] => some default
  | [(_, v)] => read v
  | _ => none

end ResourceStubs
