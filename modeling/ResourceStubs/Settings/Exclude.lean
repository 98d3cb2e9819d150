import ResourceStubs.File.Path
import ResourceStubs.Text.Blank

/-!
# Exclude patterns

A pattern is compared with the text of a path, and it takes one of a few shapes.
A pattern without slashes that begins with a star fixes how the text ends, and one
that ends with a star fixes how it begins.  The pattern `**/name/**` asks for a
directory of that name somewhere below the start of the path.  A pattern with one
pair of stars elsewhere fixes what is before them and what is behind them.  Any
other pattern is the path itself.
-/

namespace ResourceStubs
namespace Exclude

open Text

/-- Two stars: any number of directories. -/
def anyDirectories : List Char := ['*', '*']

/-- Does a text contain a directory named by the pattern `**/name/**`, where
`pattern` is that pattern? -/
def matchesDirectory (pattern text : List Char) : Bool :=
  let named := replaceAll "/**".toList [] (replaceAll "**/".toList [] pattern)
  let name := dropEndWhile (· == '/') (named.dropWhile (· == '/'))
  occursIn ('/' :: name ++ ['/']) text

/-- Does a text begin with what stands before two stars and end with what stands
behind them?  Both may also stand inside the text, if a slash is next to them. -/
def matchesAround (before after text : List Char) : Bool :=
  let lead := dropEndWhile (· == '/') before
  let trail := after.dropWhile (· == '/')
  let trails := endsWith trail text || occursIn ('/' :: trail) text
  if lead.isEmpty then trail.isEmpty || trails
  else if trail.isEmpty then startsWith lead text || occursIn (lead ++ ['/']) text
  else (startsWith lead text || occursIn ('/' :: lead ++ ['/']) text) && trails

/-- Does the pattern match the text? -/
def matchesChars (pattern text : List Char) : Bool :=
  if pattern.head? = some '*' ∧ '/' ∉ pattern then endsWith (pattern.drop 1) text
  else if pattern.getLast? = some '*' ∧ '/' ∉ pattern then startsWith pattern.dropLast text
  else if occursIn anyDirectories pattern then
    if startsWith "**/".toList pattern ∧ endsWith "/**".toList pattern then
      matchesDirectory pattern text
    else match splitOn anyDirectories pattern with
      | [before, after] => matchesAround before after text
      | _ => pattern == text
  else pattern == text

/-- Does a pattern match the text of a path? -/
def excludes (patterns : List String) (p : Path) : Bool :=
  patterns.any fun pattern => matchesChars pattern.toList p.text.toList

end Exclude
end ResourceStubs
