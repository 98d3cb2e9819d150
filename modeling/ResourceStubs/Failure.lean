import ResourceStubs.Java.Resolve
import ResourceStubs.Resource.ValueTag
import ResourceStubs.File.Path

/-!
# Failures

A run stops at the first thing that is wrong with its inputs or with its output
directories, and says what it is.  A `Failure` is that cause.  Files that cannot
be read and files that cannot be written are told apart here although a reader of
the message is told the same.
-/

namespace ResourceStubs

/-- Why a run stops. -/
inductive Failure where
  | malformedType (file : Path) (element : String) (reason : TypeError)
  | missingAttribute (file : Path) (element attributeName : String)
  | missingReader (shape : EntryShape)
  | unknownKind (name : String)
  | malformedLine (line : String)
  | malformedMarkup (file : Path)
  | invalidClassInfo (file : Path)
  | unreadable (file : Path)
  | unwritable (file : Path)
  deriving DecidableEq, Repr

namespace Failure

/-- What the user is told. -/
def message : Failure → String
  | malformedType file element _ =>
      "Malformed type expression in <" ++ element ++ "> of " ++ file.text
  | missingAttribute file element attributeName =>
      "<" ++ element ++ "> is missing required attribute `" ++ attributeName ++ "` in " ++ file.text
  | missingReader shape => "Missing implementation: no parser registered for " ++ shape.name
  | unknownKind name => "Unknown resource type `" ++ name ++ "`"
  | malformedLine line => "Malformed symbol line `" ++ line ++ "`"
  | malformedMarkup file => "Failed to parse " ++ file.text
  | invalidClassInfo file => "Invalid class info " ++ file.text
  | unreadable file | unwritable file => "I/O error on " ++ file.text

/-- The code under which the cause is documented. -/
def code : Failure → String
  | malformedType .. => "aapt::malformed_type"
  | missingAttribute .. => "aapt::missing_attribute"
  | missingReader _ => "aapt::missing_parser"
  | unknownKind _ => "aapt::unknown_resource_type"
  | malformedLine _ => "aapt::malformed_symbol_line"
  | malformedMarkup _ => "aapt::parse_failure"
  | invalidClassInfo _ => "aapt::invalid_class_info"
  | unreadable _ | unwritable _ => "aapt::io"

/-- What the user may do about it. -/
def help? : Failure → Option String
  | missingReader _ => some "every ParserType must be registered in ParserRegistry"
  | malformedLine _ => some "expected `<int|int[]> <type> <name> <value...>`"
  | _ => none

end Failure
end ResourceStubs
