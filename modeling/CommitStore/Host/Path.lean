import CommitStore.Text.Segments

/-!
# Host paths

A host path is a text that the operating system resolves: names with separators between them, from
the working directory or, after a leading separator, from the top.  It is kept as it was given.
Resolving it leaves out empty names and `.`, and a final separator asks for a directory.
-/

namespace CommitStore

/-- A path on the host, as it was given. -/
structure HostPath where
  text : String
  deriving DecidableEq

namespace HostPath

/-- The names of a path that resolving walks through, `.` and `..` included. -/
def components (p : HostPath) : List String :=
  ((Text.splitAt '/' p.text.toList).filter (· ≠ [])).map String.ofList

/-- Whether the path starts at the top. -/
def isAbsolute (p : HostPath) : Bool := p.text.toList.head? == some '/'

/-- The path that leads along some names from the top. -/
def ofNames (names : List String) : HostPath :=
  ⟨String.ofList ('/' :: Text.joinWith '/' (names.map String.toList))⟩

/-- Whether the path ends with a separator and so asks for a directory. -/
def asksDirectory (p : HostPath) : Bool := p.text.toList.getLast? == some '/'

/-- The path of a name in the directory at `p`. -/
def push (p : HostPath) (name : String) : HostPath :=
  if p.text = "" ∨ p.asksDirectory then ⟨p.text ++ name⟩ else ⟨p.text ++ "/" ++ name⟩

/-! ## Parents -/

/-- A segment after the first that adds nothing to a path. -/
def isIdle (segment : List Char) : Bool := segment = [] || segment = ['.']

/-- The path with a given first segment and, in reverse order, the segments after it. -/
def ofSegments (first : List Char) (reversed : List (List Char)) : HostPath :=
  match reversed.dropWhile isIdle with
  | [] => if first = [] then ⟨"/"⟩ else ⟨String.ofList first⟩
  | segments => ⟨String.ofList (Text.joinWith '/' (first :: segments.reverse))⟩

/-- The paths of the directories above, from the nearest on, of the path with a given first segment
and, in reverse order, the segments after it.  The last one above a path from the working directory
is the empty path. -/
def above (first : List Char) : List (List Char) → List HostPath
  | [] => if first = [] then [] else [⟨""⟩]
  | segment :: segments =>
    if isIdle segment then above first segments
    else ofSegments first segments :: above first segments

/-- The paths of the directories above a path, from the nearest on. -/
def ancestors (p : HostPath) : List HostPath :=
  match Text.splitAt '/' p.text.toList with
  | [] => []
  | first :: segments => above first segments.reverse

/-- The path of the directory that holds what a path names. -/
def parent? (p : HostPath) : Option HostPath := p.ancestors.head?

example : (⟨"./s//t/a"⟩ : HostPath).ancestors = [⟨"./s//t"⟩, ⟨"./s"⟩, ⟨"."⟩, ⟨""⟩] := by decide

example : (⟨"/a/b/"⟩ : HostPath).ancestors = [⟨"/a"⟩, ⟨"/"⟩] := by decide

end HostPath

end CommitStore
