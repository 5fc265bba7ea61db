import CommitStore.Host.Basic
import Mathlib.Tactic.ByContra
import Mathlib.Tactic.Lemma

/-!
# What stands where in a tree

The operations of the host replace one entry of a tree and leave the rest alone.  To say so without
carrying the subtrees along, a tree is seen as its *layout*: the function that tells for every list
of names whether a file with some bytes, a directory, or nothing stands there.

`Directory.layout_alter_insert` and `Directory.layout_alter_erase` give the layout after an entry
was put into a directory or removed from it: everything at or below the place of the entry is
planted or cleared, everything else is as it was.  Erasing removes the first entry of a name only,
so it needs a well-formed tree, which `Directory.wellFormed_alter` keeps well-formed.
-/

namespace CommitStore

/-- What stands at a place, without what lies below it. -/
inductive Entry
  | file (content : ByteArray)
  | folder
  deriving DecidableEq

/-- What stands at the end of every list of names. -/
abbrev Layout := List String → Option Entry

namespace Layout

/-- Something of the layout `sub` stands at `place`, in the place of what was there and below. -/
def plant (l : Layout) (place : List String) (sub : Layout) : Layout := fun names =>
  if place <+: names then sub (names.drop place.length) else l names

/-- Nothing stands at `place` or below. -/
def clear (l : Layout) (place : List String) : Layout := fun names =>
  if place <+: names then none else l names

/-- What lies at `place` and below, seen from there. -/
def focus (l : Layout) (place : List String) : Layout := fun names => l (place ++ names)

/-- The layout of a file. -/
def ofFile (content : ByteArray) : Layout := fun names =>
  if names = [] then some (.file content) else none

/-- The layout of an empty directory. -/
def ofFolder : Layout := fun names => if names = [] then some .folder else none

variable {l sub : Layout} {place names : List String}

lemma plant_below (rest : List String) : l.plant place sub (place ++ rest) = sub rest := by
  simp [plant]

@[simp] lemma plant_self : l.plant place sub place = sub [] := by
  simp [plant]

lemma plant_elsewhere (h : ¬ place <+: names) : l.plant place sub names = l names := by
  simp [plant, h]

/-- Of what is planted in one place the last stays. -/
lemma plant_plant (sub' : Layout) : (l.plant place sub).plant place sub' = l.plant place sub' := by
  funext names
  by_cases hplace : place <+: names
  · obtain ⟨rest, rfl⟩ := hplace
    rw [plant_below, plant_below]
  · rw [plant_elsewhere hplace, plant_elsewhere hplace, plant_elsewhere hplace]

lemma clear_below (h : place <+: names) : l.clear place names = none := by
  simp [clear, h]

lemma clear_elsewhere (h : ¬ place <+: names) : l.clear place names = l names := by
  simp [clear, h]

lemma clear_plant {other : List String} (h : ¬ place <+: other) (h' : ¬ other <+: place) :
    (l.plant place sub).clear other = (l.clear other).plant place sub := by
  funext names
  by_cases hother : other <+: names
  · have hplace : ¬ place <+: names := fun hplace =>
      (List.prefix_or_prefix_of_prefix hplace hother).elim h h'
    rw [clear_below hother, plant_elsewhere hplace, clear_below hother]
  · rw [clear_elsewhere hother]
    by_cases hplace : place <+: names
    · obtain ⟨rest, rfl⟩ := hplace
      rw [plant_below, plant_below]
    · rw [plant_elsewhere hplace, plant_elsewhere hplace, clear_elsewhere hother]

/-- What changes neither elsewhere nor further below changes the place alone. -/
lemma eq_ite_of_below {l' : Layout} (helsewhere : ∀ names, ¬ place <+: names → l' names = l names)
    (hbelow : ∀ rest ≠ [], l' (place ++ rest) = l (place ++ rest)) :
    l' names = if names = place then l' place else l names := by
  split
  · rename_i hsame
    rw [hsame]
  · rename_i hne
    by_cases hprefix : place <+: names
    · obtain ⟨rest, rfl⟩ := hprefix
      exact hbelow rest fun hnil => hne (by rw [hnil, List.append_nil])
    · exact helsewhere names hprefix

lemma ofFile_of_ne_nil (content : ByteArray) {rest : List String} (hrest : rest ≠ []) :
    ofFile content rest = none := by
  simp [ofFile, hrest]

/-- A file in a place below which nothing stands changes that place alone. -/
lemma plant_file (hbelow : ∀ rest ≠ [], l (place ++ rest) = none) (content : ByteArray) :
    l.plant place (.ofFile content) names = if names = place then some (.file content)
      else l names := by
  rw [eq_ite_of_below (fun names => plant_elsewhere) fun rest hrest => ?_, plant_self]
  · rfl
  · rw [plant_below, ofFile_of_ne_nil content hrest, hbelow rest hrest]

/-- Clearing a place below which nothing stands changes that place alone. -/
lemma clear_file (hbelow : ∀ rest ≠ [], l (place ++ rest) = none) :
    l.clear place names = if names = place then none else l names := by
  rw [eq_ite_of_below (fun names => clear_elsewhere) fun rest hrest => ?_,
    clear_below (List.prefix_refl place)]
  rw [clear_below (List.prefix_append place rest), hbelow rest hrest]

@[simp] lemma ofFile_nil (content : ByteArray) : ofFile content [] = some (.file content) := rfl

@[simp] lemma ofFolder_nil : ofFolder [] = some .folder := rfl

end Layout

/-! ## Nodes -/

namespace Node

/-- What a node is, without what lies below it. -/
def entry : Node → Entry
  | .file content => .file content
  | .folder _ => .folder

/-- What a list of names leads to from a node. -/
def get? : Node → List String → Option Node
  | node, [] => some node
  | .file _, _ :: _ => none
  | .folder entries, name :: names => entries.get? (name :: names)

/-- The layout from a node on. -/
def layout (node : Node) : Layout := fun names => (node.get? names).map entry

/-- A directory at a node is well-formed. -/
def WellFormed : Node → Prop
  | .file _ => True
  | .folder entries => entries.WellFormed

/-- Change a directory below a node. -/
def alter (change : Directory → Directory) (names : List String) : Node → Node
  | .file content => .file content
  | .folder entries => .folder (entries.alter change names)

@[simp] lemma get?_nil (node : Node) : node.get? [] = some node := by
  cases node <;> rfl

@[simp] lemma get?_file_cons (content : ByteArray) (name : String) (names : List String) :
    (Node.file content).get? (name :: names) = none := rfl

@[simp] lemma get?_folder (entries : Directory) (names : List String) :
    (Node.folder entries).get? names = entries.get? names := by
  cases names <;> simp [get?, Directory.get?]

lemma layout_file (content : ByteArray) : (Node.file content).layout = .ofFile content := by
  funext names
  cases names <;> simp [layout, Layout.ofFile, entry]

end Node

namespace Directory

/-- The layout of a directory and everything below it. -/
def layout (d : Directory) : Layout := fun names => (d.get? names).map Node.entry

/-! ## Along a list of names -/

@[simp] lemma layout_nil (d : Directory) : d.layout [] = some .folder := by
  simp [layout, get?, Node.entry]

lemma get?_cons (d : Directory) (name : String) (names : List String) :
    d.get? (name :: names) = (d.find? name).bind (·.get? names) := by
  rw [get?]
  cases d.find? name with
  | none => rfl
  | some node =>
    cases node with
    | file content => cases names <;> simp
    | folder entries => simp

lemma get?_append (d : Directory) (names rest : List String) :
    d.get? (names ++ rest) = (d.get? names).bind (·.get? rest) := by
  induction names generalizing d with
  | nil => simp [get?]
  | cons name names ih =>
    rw [List.cons_append, get?_cons, get?_cons]
    cases d.find? name with
    | none => rfl
    | some node =>
      cases node with
      | file content => cases names <;> cases rest <;> simp
      | folder entries => simpa using ih entries

lemma layout_of_append {d : Directory} {names rest : List String} (hrest : rest ≠ [])
    (h : d.layout (names ++ rest) ≠ none) : d.layout names = some .folder := by
  simp only [layout, get?_append] at h ⊢
  cases hnode : d.get? names with
  | none => simp [hnode] at h
  | some node =>
    cases node with
    | file content => cases rest <;> simp_all
    | folder entries => rfl

lemma layout_eq_folder_iff {d : Directory} {names : List String} :
    d.layout names = some .folder ↔ ∃ entries, d.get? names = some (.folder entries) := by
  simp only [layout, Option.map_eq_some_iff]
  constructor
  · rintro ⟨node, hnode, hentry⟩
    cases node with
    | file content => simp [Node.entry] at hentry
    | folder entries => exact ⟨entries, hnode⟩
  · rintro ⟨entries, hentries⟩
    exact ⟨_, hentries, rfl⟩

lemma layout_eq_file_iff {d : Directory} {names : List String} {content : ByteArray} :
    d.layout names = some (.file content) ↔ d.get? names = some (.file content) := by
  simp only [layout, Option.map_eq_some_iff]
  constructor
  · rintro ⟨node, hnode, hentry⟩
    cases node with
    | file content' => simp_all [Node.entry]
    | folder entries => simp [Node.entry] at hentry
  · intro h
    exact ⟨_, h, rfl⟩

/-! ## One level

An entry in front of the others is a file or a directory, which makes no difference to what is
looked up, put or removed beside it.  So facts about one level have one case for both. -/

/-- A directory is empty, or some entry stands in front of the others. -/
@[elab_as_elim]
theorem addInduction {motive : Directory → Prop} (empty : motive .empty)
    (add : ∀ name node others, motive others → motive (Directory.add name node others))
    (d : Directory) : motive d := by
  induction d with
  | empty => exact empty
  | file name content others ih => exact add name (.file content) others ih
  | folder name entries others _ ih => exact add name (.folder entries) others ih

lemma find?_add (name other : String) (node : Node) (d : Directory) :
    (add name node d).find? other = if name = other then some node else d.find? other := by
  cases node <;> rfl

@[simp] lemma names_add (name : String) (node : Node) (d : Directory) :
    (add name node d).names = name :: d.names := by
  cases node <;> rfl

lemma insert_add (first name : String) (front node : Node) (d : Directory) :
    (add first front d).insert name node =
      if first = name then add name node d else add first front (d.insert name node) := by
  cases front <;> rfl

lemma erase_add (first name : String) (front : Node) (d : Directory) :
    (add first front d).erase name = if first = name then d
      else add first front (d.erase name) := by
  cases front <;> rfl

lemma alter_add_cons (change : Directory → Directory) (first name : String) (front : Node)
    (d : Directory) (names : List String) :
    (add first front d).alter change (name :: names) =
      if first = name then add first (front.alter change names) d
      else add first front (d.alter change (name :: names)) := by
  cases front <;> rfl

lemma wellFormed_add_iff {name : String} {node : Node} {d : Directory} :
    (add name node d).WellFormed ↔
      IsEntryName name ∧ name ∉ d.names ∧ node.WellFormed ∧ d.WellFormed := by
  cases node <;> simp [add, WellFormed, Node.WellFormed]

lemma find?_insert (name other : String) (node : Node) (d : Directory) :
    (d.insert name node).find? other = if name = other then some node else d.find? other := by
  induction d using addInduction with
  | empty => simp [insert, find?_add, find?]
  | add n front others ih =>
    rw [insert_add]
    by_cases hn : n = name
    · subst hn
      by_cases ho : n = other <;> simp [find?_add, ho]
    · by_cases ho : n = other
      · subst ho
        simp [find?_add, hn, Ne.symm hn]
      · simp [find?_add, hn, ho, ih]

lemma find?_eq_none_iff {d : Directory} {name : String} : d.find? name = none ↔ name ∉ d.names := by
  induction d using addInduction with
  | empty => simp [find?, names]
  | add n front others ih =>
    rw [find?_add]
    by_cases hn : n = name
    · simp [hn]
    · simp [hn, Ne.symm hn, ih]

lemma find?_erase {d : Directory} (hd : d.WellFormed) (name other : String) :
    (d.erase name).find? other = if name = other then none else d.find? other := by
  induction d using addInduction with
  | empty => simp [erase, find?]
  | add n front others ih =>
    obtain ⟨-, hfresh, -, hothers⟩ := wellFormed_add_iff.mp hd
    rw [erase_add]
    by_cases hn : n = name
    · subst hn
      by_cases ho : n = other
      · subst ho
        simpa using find?_eq_none_iff.mpr hfresh
      · simp [find?_add, ho]
    · by_cases ho : n = other
      · subst ho
        simp [find?_add, hn, Ne.symm hn]
      · simp [find?_add, hn, ho, ih hothers]

lemma find?_alter_cons (change : Directory → Directory) (d : Directory) (name other : String)
    (names : List String) :
    (d.alter change (name :: names)).find? other =
      if name = other then (d.find? name).map (Node.alter change names) else d.find? other := by
  induction d using addInduction with
  | empty => simp [alter, find?]
  | add n front others ih =>
    rw [alter_add_cons]
    by_cases hn : n = name
    · subst hn
      by_cases ho : n = other <;> simp [find?_add, ho]
    · by_cases ho : n = other
      · subst ho
        simp [find?_add, hn, Ne.symm hn]
      · simp [find?_add, hn, ho, ih]

/-! ## Changes below a list of names -/

lemma layout_cons (d : Directory) (name : String) (names : List String) :
    d.layout (name :: names) = (d.find? name).bind (·.layout names) := by
  simp only [layout, get?_cons, Node.layout]
  cases d.find? name <;> rfl

lemma layout_append {d entries : Directory} {place : List String}
    (h : d.get? place = some (.folder entries)) (rest : List String) :
    d.layout (place ++ rest) = entries.layout rest := by
  simp [layout, get?_append, h]

lemma layout_alter_elsewhere (change : Directory → Directory) {d : Directory}
    {place names : List String} (h : ¬ place <+: names) :
    (d.alter change place).layout names = d.layout names := by
  induction place generalizing d names with
  | nil => exact absurd List.nil_prefix h
  | cons first place ih =>
    cases names with
    | nil => simp
    | cons name names =>
      rw [layout_cons, layout_cons, find?_alter_cons]
      by_cases hname : first = name
      · subst hname
        have hrest : ¬ place <+: names := fun hp => h (List.cons_prefix_cons.mpr ⟨rfl, hp⟩)
        cases d.find? first with
        | none => simp
        | some node =>
          cases node with
          | file content => simp [Node.alter]
          | folder entries => simpa [Node.alter, Node.layout, layout] using ih hrest
      · simp [hname]

lemma get?_alter (change : Directory → Directory) {d entries : Directory} {place : List String}
    (h : d.get? place = some (.folder entries)) :
    (d.alter change place).get? place = some (.folder (change entries)) := by
  induction place generalizing d with
  | nil =>
    obtain rfl : d = entries := by simpa [get?] using h
    simp [alter, get?]
  | cons first place ih =>
    rw [get?_cons] at h
    rw [get?_cons, find?_alter_cons, if_pos rfl]
    cases hnode : d.find? first with
    | none => simp [hnode] at h
    | some node =>
      cases node with
      | file content => cases place <;> simp [hnode] at h
      | folder entries' => simpa [Node.alter] using ih (by simpa [hnode] using h)

/-- A change of one name in a directory replaces what stands under that name and nothing else. -/
lemma layout_alter_one (change : Directory → Directory) {d entries : Directory}
    {place : List String} (hentries : d.get? place = some (.folder entries)) {name : String}
    {now : Option Node}
    (hchange : ∀ other, (change entries).find? other =
      if name = other then now else entries.find? other) (names : List String) :
    (d.alter change place).layout names =
      if place ++ [name] <+: names then
        now.bind (·.layout (names.drop (place ++ [name]).length))
      else d.layout names := by
  by_cases hplace : place <+: names
  · obtain ⟨rest, rfl⟩ := hplace
    rw [layout_append (get?_alter change hentries), layout_append hentries]
    simp only [List.prefix_append_right_inj]
    cases rest with
    | nil => simp
    | cons first rest =>
      rw [layout_cons, layout_cons, hchange]
      by_cases hname : name = first
      · subst hname
        rw [List.append_cons place name rest, List.drop_left]
        simp
      · simp [hname]
  · have hbelow : ¬ place ++ [name] <+: names := fun hp =>
      hplace ((List.prefix_append place [name]).trans hp)
    rw [layout_alter_elsewhere change hplace, if_neg hbelow]

/-- Putting an entry into a directory plants what it brings along. -/
lemma layout_alter_insert {d : Directory} {place : List String} (name : String) (node : Node)
    (h : d.layout place = some .folder) :
    (d.alter (.insert name node) place).layout = d.layout.plant (place ++ [name]) node.layout := by
  obtain ⟨entries, hentries⟩ := layout_eq_folder_iff.mp h
  funext names
  rw [layout_alter_one _ hentries fun other => find?_insert name other node entries]
  rfl

lemma wellFormed_of_find? {d : Directory} (hd : d.WellFormed) {name : String} {node : Node}
    (h : d.find? name = some node) : node.WellFormed := by
  induction d using addInduction with
  | empty => simp [find?] at h
  | add n front others ih =>
    obtain ⟨-, -, hfront, hothers⟩ := wellFormed_add_iff.mp hd
    rw [find?_add] at h
    split at h
    · exact Option.some.inj h ▸ hfront
    · exact ih hothers h

lemma wellFormed_of_get? {d : Directory} (hd : d.WellFormed) {names : List String} {node : Node}
    (h : d.get? names = some node) : node.WellFormed := by
  induction names generalizing d with
  | nil =>
    obtain rfl : Node.folder d = node := by simpa [get?] using h
    exact hd
  | cons name names ih =>
    rw [get?_cons] at h
    obtain ⟨first, hfirst, hrest⟩ := Option.bind_eq_some_iff.mp h
    have hwf := wellFormed_of_find? hd hfirst
    cases first with
    | file content =>
      cases names with
      | nil =>
        obtain rfl : Node.file content = node := by simpa using hrest
        trivial
      | cons => simp at hrest
    | folder entries => exact ih hwf (by simpa using hrest)

lemma isEntryName_of_find? {d : Directory} (hd : d.WellFormed) {name : String} {node : Node}
    (h : d.find? name = some node) : IsEntryName name := by
  induction d using addInduction with
  | empty => simp [find?] at h
  | add n front others ih =>
    obtain ⟨hname, -, -, hothers⟩ := wellFormed_add_iff.mp hd
    rw [find?_add] at h
    split at h
    · rename_i hn
      exact hn ▸ hname
    · exact ih hothers h

lemma isEntryName_of_layout {d : Directory} (hd : d.WellFormed) {names : List String}
    (h : d.layout names ≠ none) : ∀ name ∈ names, IsEntryName name := by
  induction names generalizing d with
  | nil => simp
  | cons first names ih =>
    simp only [layout, get?_cons] at h
    cases hfirst : d.find? first with
    | none => simp [hfirst] at h
    | some node =>
      have hname := isEntryName_of_find? hd hfirst
      have hwf := wellFormed_of_find? hd hfirst
      rw [hfirst, Option.bind_some] at h
      intro name hmem
      rcases List.mem_cons.mp hmem with rfl | hmem
      · exact hname
      · cases node with
        | file content =>
          cases names with
          | nil => simp at hmem
          | cons => simp at h
        | folder entries => exact ih hwf (by simpa [layout] using h) name hmem

/-- Removing an entry from a directory clears its place. -/
lemma layout_alter_erase {d : Directory} (hd : d.WellFormed) {place : List String} (name : String)
    (h : d.layout place = some .folder) :
    (d.alter (.erase name) place).layout = d.layout.clear (place ++ [name]) := by
  obtain ⟨entries, hentries⟩ := layout_eq_folder_iff.mp h
  have hwf : entries.WellFormed := wellFormed_of_get? hd hentries
  funext names
  rw [layout_alter_one _ hentries fun other => find?_erase hwf name other]
  rfl

/-! ## Staying well-formed -/

lemma mem_names_insert {d : Directory} {name other : String} {node : Node}
    (h : other ∈ (d.insert name node).names) : other = name ∨ other ∈ d.names := by
  by_contra hnot
  simp only [not_or] at hnot
  have hnone : (d.insert name node).find? other = none := by
    rw [find?_insert, if_neg (Ne.symm hnot.1), find?_eq_none_iff]
    exact hnot.2
  exact find?_eq_none_iff.mp hnone h

lemma mem_names_erase {d : Directory} {name other : String} (h : other ∈ (d.erase name).names) :
    other ∈ d.names := by
  induction d using addInduction with
  | empty => exact h
  | add n front others ih =>
    rw [erase_add] at h
    split at h
    · simp [h]
    · simp only [names_add, List.mem_cons] at h ⊢
      exact h.imp_right ih

lemma names_alter_cons (change : Directory → Directory) (d : Directory) (name : String)
    (place : List String) : (d.alter change (name :: place)).names = d.names := by
  induction d using addInduction with
  | empty => rfl
  | add n front others ih =>
    rw [alter_add_cons]
    split <;> simp [ih]

lemma wellFormed_insert {d : Directory} (hd : d.WellFormed) {name : String} {node : Node}
    (hname : IsEntryName name) (hnode : node.WellFormed) : (d.insert name node).WellFormed := by
  induction d using addInduction with
  | empty => exact wellFormed_add_iff.mpr ⟨hname, by simp [names], hnode, hd⟩
  | add n front others ih =>
    obtain ⟨hn, hfresh, hfront, hothers⟩ := wellFormed_add_iff.mp hd
    rw [insert_add]
    split
    · rename_i hsame
      subst hsame
      exact wellFormed_add_iff.mpr ⟨hname, hfresh, hnode, hothers⟩
    · rename_i hsame
      exact wellFormed_add_iff.mpr
        ⟨hn, fun hmem => (mem_names_insert hmem).elim hsame hfresh, hfront, ih hothers⟩

lemma wellFormed_erase {d : Directory} (hd : d.WellFormed) (name : String) :
    (d.erase name).WellFormed := by
  induction d using addInduction with
  | empty => trivial
  | add n front others ih =>
    obtain ⟨hn, hfresh, hfront, hothers⟩ := wellFormed_add_iff.mp hd
    rw [erase_add]
    split
    · exact hothers
    · exact wellFormed_add_iff.mpr ⟨hn, fun hmem => hfresh (mem_names_erase hmem), hfront,
        ih hothers⟩

/-- A change that keeps directories well-formed keeps the tree around them so. -/
lemma wellFormed_alter {change : Directory → Directory}
    (hchange : ∀ entries : Directory, entries.WellFormed → (change entries).WellFormed)
    {d : Directory} (hd : d.WellFormed) (place : List String) :
    (d.alter change place).WellFormed := by
  induction place generalizing d with
  | nil => simpa [alter] using hchange d hd
  | cons name place ih =>
    induction d using addInduction with
    | empty => trivial
    | add n front others ihd =>
      obtain ⟨hn, hfresh, hfront, hothers⟩ := wellFormed_add_iff.mp hd
      rw [alter_add_cons]
      split
      · refine wellFormed_add_iff.mpr ⟨hn, hfresh, ?_, hothers⟩
        cases front with
        | file content => trivial
        | folder entries => exact ih hfront
      · exact wellFormed_add_iff.mpr ⟨hn, by rwa [names_alter_cons], hfront, ihd hothers⟩

end Directory

end CommitStore
