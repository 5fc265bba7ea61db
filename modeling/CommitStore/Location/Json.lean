import CommitStore.Json.Record
import CommitStore.Location.Basic

/-!
# Locations in JSON

A location is one string: its canonical text when it is written, any raw text when it is read.
-/

namespace CommitStore

namespace Location

/-- The JSON string of a location. -/
def toJson (l : Location) : Json := .ofString l.text

/-- The location that a JSON string denotes. -/
def ofJson? (value : Json) : Option Location := value.text?.map ofText

end Location

end CommitStore
