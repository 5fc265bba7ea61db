import CommitStore.Proofs.Host.Layout

/-!
# Walking through a tree

A walk comes to every entry of a directory, at any depth, with the names that lead to it
(`Directory.mem_walk`), and in a well-formed directory it comes to each of them once
(`Directory.nodup_walk`).
-/

namespace CommitStore

namespace Directory

lemma exists_of_mem_walk {d : Directory} {before : List String} {entry : List String × Node}
    (h : entry ∈ d.walk before) :
    ∃ name more, entry.1 = before ++ name :: more ∧ name ∈ d.names := by
  induction d generalizing before with
  | empty => simp [walk] at h
  | file n content others ih =>
    rcases List.mem_cons.mp h with rfl | h
    · exact ⟨n, [], rfl, List.mem_cons_self⟩
    · obtain ⟨name, more, hnames, hname⟩ := ih h
      exact ⟨name, more, hnames, List.mem_cons_of_mem _ hname⟩
  | folder n entries others ihEntries ih =>
    rcases List.mem_append.mp h with h | h
    · rcases List.mem_cons.mp h with rfl | h
      · exact ⟨n, [], rfl, List.mem_cons_self⟩
      · obtain ⟨name, more, hnames, -⟩ := ihEntries h
        exact ⟨n, name :: more, by simpa using hnames, List.mem_cons_self⟩
    · obtain ⟨name, more, hnames, hname⟩ := ih h
      exact ⟨name, more, hnames, List.mem_cons_of_mem _ hname⟩

lemma mem_walk {d : Directory} (hd : d.WellFormed) (before : List String) {rest : List String}
    (hrest : rest ≠ []) {node : Node} :
    (before ++ rest, node) ∈ d.walk before ↔ d.get? rest = some node := by
  obtain ⟨name, more, rfl⟩ := List.exists_cons_of_ne_nil hrest
  clear hrest
  rw [get?_cons]
  induction d generalizing before name more with
  | empty => simp [walk, find?]
  | file n content others ih =>
    obtain ⟨-, hfresh, hothers⟩ := hd
    rw [walk, List.mem_cons, ih hothers, find?]
    by_cases hn : n = name
    · subst hn
      have hnone : others.find? n = none := find?_eq_none_iff.mpr hfresh
      cases more <;> simp [hnone, eq_comm]
    · simp [hn, Ne.symm hn]
  | folder n entries others ihEntries ih =>
    obtain ⟨-, hfresh, hentries, hothers⟩ := hd
    rw [walk, List.mem_append, List.mem_cons, ih hothers, find?]
    by_cases hn : n = name
    · subst hn
      have hnone : others.find? n = none := find?_eq_none_iff.mpr hfresh
      cases more with
      | nil =>
        have hnot : (before ++ [n], node) ∉ entries.walk (before ++ [n]) := by
          intro h
          obtain ⟨name, more, hnames, -⟩ := exists_of_mem_walk h
          simp at hnames
        simp [hnone, hnot, eq_comm]
      | cons next more =>
        have hstep := ihEntries hentries (before ++ [n]) next more
        rw [List.append_assoc] at hstep
        simp [hnone, ← get?_cons] at hstep ⊢
        exact hstep
    · have hnot : (before ++ name :: more, node) ∉ entries.walk (before ++ [n]) := by
        intro h
        obtain ⟨name', more', hnames, -⟩ := exists_of_mem_walk h
        simp [Ne.symm hn] at hnames
      simp [hn, Ne.symm hn, hnot]

/-- In a well-formed directory a walk gives no names twice. -/
lemma nodup_walk {d : Directory} (hd : d.WellFormed) (before : List String) :
    ((d.walk before).map (·.1)).Nodup := by
  induction d generalizing before with
  | empty => simp [walk]
  | file n content others ih =>
    obtain ⟨-, hfresh, hothers⟩ := hd
    rw [walk, List.map_cons, List.nodup_cons]
    refine ⟨fun h => ?_, ih hothers before⟩
    obtain ⟨entry, hentry, hnames⟩ := List.mem_map.mp h
    obtain ⟨name, more, hmore, hname⟩ := exists_of_mem_walk hentry
    rw [hmore] at hnames
    obtain ⟨rfl, -⟩ : name = n ∧ more = [] := by simpa using hnames
    exact hfresh hname
  | folder n entries others ihEntries ih =>
    obtain ⟨-, hfresh, hentries, hothers⟩ := hd
    rw [walk, List.map_append, List.nodup_append, List.map_cons, List.nodup_cons]
    refine ⟨⟨fun h => ?_, ihEntries hentries _⟩, ih hothers before, ?_⟩
    · obtain ⟨entry, hentry, hnames⟩ := List.mem_map.mp h
      obtain ⟨name, more, hmore, -⟩ := exists_of_mem_walk hentry
      rw [hmore] at hnames
      simp at hnames
    · -- The first name tells the entries of the directory from those of the others.
      intro first hfirst second hsecond hsame
      obtain ⟨entry, hentry, rfl⟩ := List.mem_map.mp hsecond
      obtain ⟨name, more, hmore, hname⟩ := exists_of_mem_walk hentry
      have hn : ∃ more', first = before ++ n :: more' := by
        rcases List.mem_cons.mp hfirst with rfl | hfirst
        · exact ⟨[], rfl⟩
        · obtain ⟨entry', hentry', rfl⟩ := List.mem_map.mp hfirst
          obtain ⟨name', more', hmore', -⟩ := exists_of_mem_walk hentry'
          exact ⟨name' :: more', by simpa using hmore'⟩
      obtain ⟨more', rfl⟩ := hn
      rw [hmore] at hsame
      obtain ⟨rfl, -⟩ : n = name ∧ more' = more := by simpa using hsame
      exact hfresh hname

end Directory

end CommitStore
