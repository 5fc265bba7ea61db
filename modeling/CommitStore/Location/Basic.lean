import CommitStore.Text.Segments

/-!
# Locations

A location says where an object or a directory is kept, relative to its store: a list of names and a
mark that says whether the last one is meant as a directory.  Its canonical text `Location.text` is
written with `/` between the names and, when the mark is set, one `/` at the end; the empty text is
the store's root.

Every raw text denotes a location, `Location.ofText`: empty names and `.` are left out, and a final
`/` sets the mark.  Names are otherwise free: `..` and a backslash are names like any other, as
`IsName` says.  Locations are put together with `Location.join` and taken apart with
`Location.splitLast`.
-/

namespace CommitStore

/-- A name that stands between two separators of a location: not empty, not `.`, and free of the
separator. -/
def IsName (name : String) : Prop := name ≠ "" ∧ name ≠ "." ∧ '/' ∉ name.toList

instance (name : String) : Decidable (IsName name) := by unfold IsName; infer_instance

/-- A place in a store: names from the root down, and whether it is written as a directory.  The
root itself carries no mark. -/
@[ext]
structure Location where
  /-- The names from the root of the store down. -/
  names : List String
  /-- Whether the location is written with a separator at its end. -/
  directory : Bool
  isName_of_mem : ∀ name ∈ names, IsName name
  directory_of_nil : names = [] → directory = false
  deriving DecidableEq

namespace Location

/-! ## Building locations -/

/-- The location with the given names; what cannot be a name is left out, and the mark is dropped
when no name is left. -/
def ofNames (names : List String) (directory : Bool) : Location where
  names := names.filter (fun name => decide (IsName name))
  directory := directory && !(names.filter (fun name => decide (IsName name))).isEmpty
  isName_of_mem := by simp
  directory_of_nil := by
    intro h
    simp only [h]
    simp

/-- The root of a store. -/
def root : Location := ofNames [] false

instance : Inhabited Location := ⟨root⟩

/-- The location that a raw text denotes: its segments between separators, marked as a directory
when the text ends with a separator. -/
def ofText (raw : String) : Location :=
  ofNames ((Text.splitAt '/' raw.toList).map String.ofList) (raw.toList.getLast? == some '/')

/-! ## Reading locations -/

/-- The canonical text: the names with separators between them, and one more at the end of a
directory. -/
def text (l : Location) : String :=
  String.ofList
    (Text.joinWith '/' (l.names.map String.toList) ++ if l.directory then ['/'] else [])

/-- Whether this is the root of the store. -/
def isRoot (l : Location) : Bool := l.names.isEmpty

/-- Whether the location can name an object: it is not the root and carries no directory mark. -/
def isObject (l : Location) : Bool := !l.isRoot && !l.directory

/-- The last name, if there is one. -/
def lastName? (l : Location) : Option String := l.names.getLast?

/-- Whether one of the names is `..`, the parent of a host directory. -/
def hasParentName (l : Location) : Bool := l.names.contains ".."

/-- The order of locations is the order of their canonical texts, character by character. -/
instance : Ord Location where
  compare a b := if a.text < b.text then .lt else if a.text = b.text then .eq else .gt

/-! ## The algebra of locations -/

/-- The same names, written as a directory. -/
def asDirectory (l : Location) : Location where
  names := l.names
  directory := !l.names.isEmpty
  isName_of_mem := l.isName_of_mem
  directory_of_nil := by intro h; simp [h]

/-- The same names, written as an object. -/
def asObject (l : Location) : Location where
  names := l.names
  directory := false
  isName_of_mem := l.isName_of_mem
  directory_of_nil := fun _ => rfl

/-- The location `b` below `a`.  Below the root it is `b` itself; the root below any other location
is that location as a directory. -/
def join (a b : Location) : Location :=
  if ha : a.names = [] then b
  else
    { names := a.names ++ b.names
      directory := b.directory || b.names.isEmpty
      isName_of_mem := by
        intro name h
        rcases List.mem_append.mp h with h | h
        · exact a.isName_of_mem name h
        · exact b.isName_of_mem name h
      directory_of_nil := by
        intro h
        exact absurd (List.append_eq_nil_iff.mp h).1 ha }

/-- The location that the text `name` denotes below `l`. -/
def child (l : Location) (name : String) : Location := l.join (ofText name)

/-- The directory part and the name part: everything up to the last separator of the text, and
what follows it. -/
def splitLast (l : Location) : Location × String :=
  if l.directory then (l, "")
  else
    (⟨l.names.dropLast, !l.names.dropLast.isEmpty,
        fun name h => l.isName_of_mem name (List.dropLast_subset _ h), by intro h; simp [h]⟩,
      l.names.getLast?.getD "")

end Location

end CommitStore
