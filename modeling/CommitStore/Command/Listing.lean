import CommitStore.Command.Style
import CommitStore.Store.ObjectMeta

/-!
# Listings

Descriptions of objects and directories are shown in their order, as text with one line each or as
one JSON array.  A line has the size in ten columns, the time to the second, and the location; a
directory has `DIR` in place of the size.
-/

namespace CommitStore

/-- How results are shown. -/
inductive OutputFormat
  | text
  | json
  deriving DecidableEq

namespace OutputFormat

/-- The name of a format. -/
def name : OutputFormat → String
  | .text => "text"
  | .json => "json"

/-- The format with a name. -/
def ofName? (name : String) : Option OutputFormat :=
  if name = "text" then some .text else if name = "json" then some .json else none

end OutputFormat

namespace Listing

/-- The size column of a line. -/
def sizeCell (color : Bool) (m : ObjectMeta) : List Char :=
  if m.isDirectory then Style.cyan.paint color ['D', 'I', 'R'] else Text.decimal m.size

/-- One line of a listing.  The first column is filled up to ten characters, those that make the
colour included. -/
def line (color : Bool) (m : ObjectMeta) : List Char :=
  Text.padLeft 10 ' ' (sizeCell color m) ++ [' ', ' ']
    ++ Style.dimmed.paint color m.lastModified.writeColumns ++ [' ', ' ']
    ++ m.location.text.toList ++ ['\n']

/-- A listing in the given format. -/
def render (format : OutputFormat) (color : Bool) (entries : List ObjectMeta) : String :=
  match format with
  | .text => String.ofList (entries.flatMap (line color))
  | .json => String.ofList ((Json.array (entries.map ObjectMeta.toJson)).pretty ++ ['\n'])

/-- The descriptions that a JSON array lists, in its order. -/
def ofJson? : Json → Option (List ObjectMeta)
  | .array items => items.mapM ObjectMeta.ofJson?
  | _ => none

end Listing

end CommitStore
