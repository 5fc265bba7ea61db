import CommitStore.Text.Source

/-!
# Directory trees

What a directory of the host holds: files with their bytes and directories in turn, each under a
name.  A list of names leads from a directory down to one of its entries (`Directory.get?`), and a
directory reached that way can be changed in place (`Directory.alter`).
-/

namespace CommitStore

/-- The entries of a directory. -/
inductive Directory
  | empty
  /-- A file and the other entries. -/
  | file (name : String) (content : ByteArray) (others : Directory)
  /-- A directory and the other entries. -/
  | folder (name : String) (entries : Directory) (others : Directory)
  deriving DecidableEq

/-- What stands under a name. -/
inductive Node
  | file (content : ByteArray)
  | folder (entries : Directory)
  deriving DecidableEq

namespace Directory

instance : Inhabited Directory := ⟨empty⟩

/-! ## One level -/

/-- What stands under a name in a directory. -/
def find? : Directory → String → Option Node
  | empty, _ => none
  | file n content others, name => if n = name then some (.file content) else others.find? name
  | folder n entries others, name => if n = name then some (.folder entries) else others.find? name

/-- The directory with a node in front. -/
def add (name : String) : Node → Directory → Directory
  | .file content, d => file name content d
  | .folder entries, d => folder name entries d

/-- Put a node under a name, in the place of what is there or else at the end. -/
def insert (name : String) (node : Node) : Directory → Directory
  | empty => add name node empty
  | file n content others =>
    if n = name then add name node others else file n content (insert name node others)
  | folder n entries others =>
    if n = name then add name node others else folder n entries (insert name node others)

/-- Remove what stands under a name. -/
def erase (name : String) : Directory → Directory
  | empty => empty
  | file n content others => if n = name then others else file n content (erase name others)
  | folder n entries others => if n = name then others else folder n entries (erase name others)

/-! ## Along a list of names -/

/-- What a list of names leads to. -/
def get? : Directory → List String → Option Node
  | d, [] => some (.folder d)
  | d, name :: names =>
    match d.find? name with
    | none => none
    | some (.file content) => if names = [] then some (.file content) else none
    | some (.folder entries) => entries.get? names

/-- Change the directory that a list of names leads to; nothing changes if it leads to none. -/
def alter (change : Directory → Directory) : Directory → List String → Directory
  | d, [] => change d
  | empty, _ :: _ => empty
  | file n content others, name :: names =>
    if n = name then file n content others
    else file n content (alter change others (name :: names))
  | folder n entries others, name :: names =>
    if n = name then folder n (alter change entries names) others
    else folder n entries (alter change others (name :: names))

/-- Every entry at any depth with the names that lead to it, starting from `names`; a
directory comes before what it holds. -/
def walk (names : List String) : Directory → List (List String × Node)
  | empty => []
  | file n content others => (names ++ [n], .file content) :: walk names others
  | folder n entries others =>
    (names ++ [n], .folder entries) :: walk (names ++ [n]) entries ++ walk names others

/-! ## Well-formed trees -/

/-- The names of the entries of a directory. -/
def names : Directory → List String
  | empty => []
  | file n _ others => n :: others.names
  | folder n _ others => n :: others.names

/-- A name that the host can store: not empty, neither `.` nor `..`, free of the separator. -/
def IsEntryName (name : String) : Prop :=
  name ≠ "" ∧ name ≠ "." ∧ name ≠ ".." ∧ '/' ∉ name.toList

instance (name : String) : Decidable (IsEntryName name) := by unfold IsEntryName; infer_instance

/-- No two entries of a directory have the same name, at any depth, and the host can store each
name. -/
def WellFormed : Directory → Prop
  | empty => True
  | file n _ others => IsEntryName n ∧ n ∉ others.names ∧ others.WellFormed
  | folder n entries others =>
    IsEntryName n ∧ n ∉ others.names ∧ entries.WellFormed ∧ others.WellFormed

instance decidableWellFormed : (d : Directory) → Decidable d.WellFormed
  | empty => .isTrue trivial
  | file n _ others =>
    have := decidableWellFormed others
    inferInstanceAs (Decidable (IsEntryName n ∧ n ∉ others.names ∧ others.WellFormed))
  | folder n entries others =>
    have := decidableWellFormed entries
    have := decidableWellFormed others
    inferInstanceAs
      (Decidable (IsEntryName n ∧ n ∉ others.names ∧ entries.WellFormed ∧ others.WellFormed))

end Directory

end CommitStore
