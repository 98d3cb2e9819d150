import ResourceStubs.Markup.Event

/-!
# View ids of a document

A view is given an id by the attribute `android:id`.  Its value is a reference
such as `@+id/title` or `@id/title`, and the id is what follows the first `id/`.
References to ids of the platform, with `@android:` in them, declare nothing.
-/

namespace ResourceStubs
namespace ViewId

open Markup

/-- The attribute that gives a view its id. -/
def key : String := "android:id"

/-- The id that a reference declares, if it declares one. -/
def declared? (reference : String) : Option String :=
  if Text.occursIn "@android:".toList reference.toList then none
  else match Text.cutFirst? "id/".toList reference.toList with
    | some (_, c :: cs) => some (String.ofList (c :: cs))
    | _ => none

/-- The id that a tag declares, if it declares one. -/
def ofTag? (tag : Tag) : Option String :=
  (tag.attributes.get? key).bind declared?

/-- The ids that the tags of a document declare, in order, unless the document is
broken. -/
def ofTags? (sequence : TagSequence) : Option (List String) :=
  if sequence.whole then some (sequence.tags.filterMap ofTag?) else none

/-- The ids that a document declares, unless it is broken. -/
def readAll? (document : String) : Option (List String) :=
  ofTags? (tagsOf (Markup.read document))

end ViewId
end ResourceStubs
