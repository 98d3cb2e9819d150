import ResourceStubs.Discovery.Walk
import ResourceStubs.Resource.Location
import ResourceStubs.Settings.Basic

/-!
# Discovering resources

The resources of a project are the files in its resource directories whose own
directory says what they are and that no exclude pattern matches.  They come in the
order of paths, and once each, however often and from wherever the walks find them.
-/

namespace ResourceStubs
namespace Discovery

/-- Is a file that a walk has found one of the resources? -/
def admits (s : Settings) (p : Path) : Bool :=
  !s.excludes p && (ResourceLocation.ofPath? p).isSome

/-- The resources among the files that walks have found, in order and once each. -/
def collect (s : Settings) (found : List Path) : List Path :=
  Path.dropRepeats (Path.sort (found.filter (admits s)))

/-- The resources below some directories, where `walk` gives the files below one. -/
def resourcesBy (walk : Path → List Path) (s : Settings) (dirs : List Path) : List Path :=
  collect s (dirs.flatMap walk)

/-- The resources below some directories. -/
def resources (t : Tree) (s : Settings) (dirs : List Path) : List Path :=
  resourcesBy t.walk s dirs

end Discovery
end ResourceStubs
