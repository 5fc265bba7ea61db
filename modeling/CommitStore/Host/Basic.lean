import CommitStore.Host.Directory
import CommitStore.Host.Path

/-!
# Hosts

A host is a tree of directories with one of them as the working directory.  A path that starts with
a separator is followed from the top of the tree, every other path from the working directory.
-/

namespace CommitStore

/-- A tree of directories, one of which is the working directory. -/
structure Host where
  /-- Everything from the top on. -/
  tree : Directory
  /-- The names that lead from the top to the working directory. -/
  workingDirectory : List String
  deriving DecidableEq

namespace Host

/-! ## The tree -/

/-- What some names lead to from the top. -/
def get? (h : Host) (names : List String) : Option Node := h.tree.get? names

/-- Change the directory that some names lead to from the top. -/
def alter (h : Host) (change : Directory → Directory) (names : List String) : Host :=
  { h with tree := h.tree.alter change names }

/-- What the working directory holds; nothing if there is no such directory. -/
def here (h : Host) : Directory :=
  match h.get? h.workingDirectory with
  | some (.folder entries) => entries
  | _ => .empty

/-- The tree is well-formed, and the working directory is one of its directories. -/
def WellFormed (h : Host) : Prop :=
  h.tree.WellFormed ∧ ∃ entries, h.get? h.workingDirectory = some (.folder entries)

/-- The host with a given working directory, and with nothing but the way to it. -/
def bare (workingDirectory : List String) : Host where
  tree := workingDirectory.foldr (fun name below => .folder name below .empty) .empty
  workingDirectory

/-! ## Where paths start -/

/-- A path written from the top. -/
def absolute (h : Host) (p : HostPath) : HostPath :=
  if p.isAbsolute then p else (HostPath.ofNames h.workingDirectory).push p.text

/-- The names that lead to where a path is followed from. -/
def start (h : Host) (p : HostPath) : List String :=
  if p.isAbsolute then [] else h.workingDirectory

end Host

end CommitStore
