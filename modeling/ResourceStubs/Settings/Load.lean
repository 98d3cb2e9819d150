import ResourceStubs.File.Tree
import ResourceStubs.Settings.FromToml
import ResourceStubs.Settings.FromYaml

/-!
# Settings files

The name of a settings file says which language it is in: YAML, TOML, or for any
other name whichever of the two can be read, YAML first.  A project may have its
settings at one of a few default places; the first place where anything stands is
the one that is read, and a project with nothing there has the default settings.
-/

namespace ResourceStubs

/-- Why there are no settings. -/
inductive SettingsError where
  | unreadable (file : Path)
  | malformedYaml
  | malformedToml
  | malformed
  deriving DecidableEq, Repr

/-- What the user is told. -/
def SettingsError.message : SettingsError → String
  | unreadable file => "Failed to read config file: " ++ file.text
  | malformedYaml => "Failed to parse YAML config"
  | malformedToml => "Failed to parse TOML config"
  | malformed => "Failed to parse config file"

/-- The languages of settings files. -/
inductive SettingsLanguage where
  | yaml
  | toml
  | either
  deriving DecidableEq, Repr

namespace Settings

/-- The language that the name of a file says. -/
def languageOf (file : Path) : SettingsLanguage :=
  match file.extension? with
  | some "yml" | some "yaml" => .yaml
  | some "toml" => .toml
  | _ => .either

/-- The settings of a text in a language. -/
def read (language : SettingsLanguage) (text : String) : Except SettingsError Settings :=
  match language with
  | .yaml => (ofYaml? text).elim (.error .malformedYaml) .ok
  | .toml => (ofToml? text).elim (.error .malformedToml) .ok
  | .either => (ofYaml? text <|> ofToml? text).elim (.error .malformed) .ok

/-- The settings of a file. -/
def ofFile (t : Tree) (file : Path) : Except SettingsError Settings :=
  match t.readText? file with
  | some text => read (languageOf file) text
  | none => .error (.unreadable file)

/-- The names under which a project may have its settings. -/
def defaultNames : List Path :=
  [⟨".aapt-lite.yml"⟩, ⟨".aapt-lite.yaml"⟩, ⟨".aapt-lite.toml"⟩]

/-- The settings of the project in a directory. -/
def ofProject (t : Tree) (root : Path) : Except SettingsError Settings :=
  match (defaultNames.map root.join).find? t.isPresent with
  | some file => ofFile t file
  | none => .ok {}

end Settings
end ResourceStubs
