import ResourceStubs.File.Path
import ResourceStubs.Resource.Kind

/-!
# Where resources are

The directory that a file is in says what the file is: a file of values, a layout,
or a resource of some other kind.  A file in any other directory is no resource.
-/

namespace ResourceStubs

/-- What a file is, by its directory. -/
inductive ResourceLocation where
  | values
  | layout
  | resource (kind : ResourceKind)
  deriving DecidableEq, Repr

namespace ResourceLocation

/-- What the files in a directory are. -/
def ofDirectory? (directory : String) : Option ResourceLocation :=
  if Text.startsWith "values".toList directory.toList then some .values
  else match ResourceKind.ofDirectoryName? directory with
    | some .layout => some .layout
    | some kind => some (.resource kind)
    | none => none

/-- What a file is. -/
def ofPath? (p : Path) : Option ResourceLocation :=
  p.directoryName?.bind ofDirectory?

end ResourceLocation
end ResourceStubs
