import ResourceStubs.Settings.Basic
import ResourceStubs.Yaml.Node

/-!
# Settings in YAML

The document is a mapping from the names of settings to their values.  A name may
come once; names that are not known are passed over.  A text is any scalar, as it
is written.  Where a list or a group of settings is expected and nothing is
written, the list is empty and the group has its defaults; the word `null` is not
nothing.  The package alone may be `null`.
-/

namespace ResourceStubs
namespace Settings

open Yaml

/-- The text of a scalar. -/
def yamlText? : Node → Option String
  | .scalar text _ _ => some text
  | _ => none

/-- Is nothing written here? -/
def isVoid : Node → Bool
  | .scalar text style _ => text.isEmpty && style == .plain
  | _ => false

/-- The words for no value. -/
def isNullWord (text : String) : Bool :=
  text == "null" || text == "Null" || text == "NULL" || text == "~"

/-- A text, or nothing.  A tag on a plain scalar says which it is. -/
def yamlOptionalText? : Node → Option (Option String)
  | .scalar text .plain none =>
      if text.isEmpty || isNullWord text then some none else some (some text)
  | .scalar text .plain (some tag) =>
      if tag = "tag:yaml.org,2002:null" then if isNullWord text then some none else none
      else some (some text)
  | .scalar text _ _ => some (some text)
  | _ => none

/-- The words for true and false. -/
def booleanWord? (text : String) : Option Bool :=
  if text ∈ ["true", "True", "TRUE"] then some true
  else if text ∈ ["false", "False", "FALSE"] then some false
  else none

/-- Yes or no.  A quoted word does not count. -/
def yamlBoolean? : Node → Option Bool
  | .scalar text .plain _ => booleanWord? text
  | .scalar text .literal (some tag) =>
      if tag = "tag:yaml.org,2002:bool" then booleanWord? text else none
  | _ => none

/-- A list of texts. -/
def yamlTexts? : Node → Option (List String)
  | .sequence items => items.mapM yamlText?
  | n => if isVoid n then some [] else none

/-- A list of paths. -/
def yamlPaths? (n : Node) : Option (List Path) :=
  (yamlTexts? n).map (·.map Path.mk)

/-- The pairs of a group of settings, by name. -/
def yamlPairs? : Node → Option (List (String × Node))
  | .mapping pairs => pairs.mapM fun (k, v) => (yamlText? k).map (·, v)
  | n => if isVoid n then some [] else none

/-- The output settings of a node. -/
def yamlOutput? (n : Node) : Option OutputSettings := do
  let pairs ← yamlPairs? n
  let defaults : OutputSettings := {}
  let rClass ← fromPairs? pairs "r_class" defaults.rClass fun n => (yamlText? n).map Path.mk
  let stubs ← fromPairs? pairs "stubs" defaults.stubs fun n => (yamlText? n).map Path.mk
  return { rClass, stubs }

/-- The settings of a node. -/
def ofYamlNode? (n : Node) : Option Settings := do
  let pairs ← yamlPairs? n
  let defaults : Settings := {}
  let package ← fromPairs? pairs "package" defaults.package yamlOptionalText?
  let resourceFiles ← fromPairs? pairs "resource_files" defaults.resourceFiles yamlPaths?
  let resourceDirs ← fromPairs? pairs "resource_dirs" defaults.resourceDirs yamlPaths?
  let exclude ← fromPairs? pairs "exclude" defaults.exclude yamlTexts?
  let classInfos ← fromPairs? pairs "class_infos" defaults.classInfos yamlPaths?
  let symbolLists ← fromPairs? pairs "r_txts" defaults.symbolLists yamlPaths?
  let nonTransitive ←
    fromPairs? pairs "non_transitive_r_class" defaults.nonTransitive yamlBoolean?
  let output ← fromPairs? pairs "output" defaults.output yamlOutput?
  return { package, resourceFiles, resourceDirs, exclude, classInfos, symbolLists,
           nonTransitive, output }

/-- The settings of a YAML text. -/
def ofYaml? (text : String) : Option Settings := do
  match ← Yaml.read? text with
  | none => return {}
  | some n => ofYamlNode? n

end Settings
end ResourceStubs
