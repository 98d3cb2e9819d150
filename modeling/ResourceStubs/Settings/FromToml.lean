import ResourceStubs.Settings.Basic
import ResourceStubs.Toml.Read

/-!
# Settings in TOML

The document is a table from the names of settings to their values; names that are
not known are passed over.  A text is a string, a list is an array of strings, and
yes or no is a boolean: nothing is taken for anything else.

The output settings are a table, however it is written, or an array of their values
in the order of the fields, where those at the end may be left out.  A day or a time
in their place says nothing about them.
-/

namespace ResourceStubs
namespace Settings

open Toml

/-- The text of a string. -/
def tomlText? : Value → Option String
  | .string text => some text
  | _ => none

/-- The path that a string writes. -/
def tomlPath? (v : Value) : Option Path :=
  (tomlText? v).map Path.mk

/-- Yes or no. -/
def tomlBoolean? : Value → Option Bool
  | .boolean b => some b
  | _ => none

/-- The texts of an array of strings. -/
def tomlTexts? : Value → Option (List String)
  | .array items => items.mapM tomlText?
  | _ => none

/-- The paths of an array of strings. -/
def tomlPaths? (v : Value) : Option (List Path) :=
  (tomlTexts? v).map (·.map Path.mk)

/-- The output settings of a table or an array. -/
def tomlOutput? : Value → Option OutputSettings
  | .table _ entries => ofPairs? entries
  | .array items => ofPairs? (["r_class", "stubs"].zip items)
  | .date => some {}
  | _ => none
where
  ofPairs? (pairs : List (String × Value)) : Option OutputSettings := do
    let defaults : OutputSettings := {}
    let rClass ← fromPairs? pairs "r_class" defaults.rClass tomlPath?
    let stubs ← fromPairs? pairs "stubs" defaults.stubs tomlPath?
    return { rClass, stubs }

/-- The settings of a table. -/
def ofTomlEntries? (entries : Entries) : Option Settings := do
  let defaults : Settings := {}
  let package ← fromPairs? entries "package" defaults.package fun v => (tomlText? v).map some
  let resourceFiles ← fromPairs? entries "resource_files" defaults.resourceFiles tomlPaths?
  let resourceDirs ← fromPairs? entries "resource_dirs" defaults.resourceDirs tomlPaths?
  let exclude ← fromPairs? entries "exclude" defaults.exclude tomlTexts?
  let classInfos ← fromPairs? entries "class_infos" defaults.classInfos tomlPaths?
  let symbolLists ← fromPairs? entries "r_txts" defaults.symbolLists tomlPaths?
  let nonTransitive ←
    fromPairs? entries "non_transitive_r_class" defaults.nonTransitive tomlBoolean?
  let output ← fromPairs? entries "output" defaults.output tomlOutput?
  return { package, resourceFiles, resourceDirs, exclude, classInfos, symbolLists,
           nonTransitive, output }

/-- The settings of a TOML text. -/
def ofToml? (text : String) : Option Settings := do
  ofTomlEntries? (← Toml.read? text)

end Settings
end ResourceStubs
