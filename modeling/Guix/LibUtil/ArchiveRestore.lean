import Guix.LibUtil.ArchiveParse

/-!
# Restoring a tree of files

`parseDump` with a `RestoreSink` on the archive of a tree creates the tree and reads exactly
the archive, in whatever pieces the source delivers it.
-/

namespace Guix

open FileSystem Hoare List Files RestoreSink

/-! ### The restore sink -/

variable {target : Bytes} {fd : Loc × Nat} {files : Files} {loc : Loc} {executable : Bool}

section Restore

variable {dst path : Path} {st : Restore} {dir : Loc} {name : Name} {post : Unit → Restore → Prop}
  {fails : ArchiveError → Restore → Prop}

theorem wp_createDirectory (noNul : 0 ∉ dst ++ path) (leads : st.files.LeadsTo (dst ++ path) dir name)
    (fits : st.files.Fits dir name .directory)
    (next : post ⟨⟩ { st with files := st.files.add dir name .directory fits }) :
    wp (createDirectory dst path) post fails st := by
  rw [createDirectory, wp_bind, wp, sysCall, mkdir, cstr_eq_self noNul, leads.create fits]
  exact next

theorem wp_createRegularFile (noNul : 0 ∉ dst ++ path) (leads : st.files.LeadsTo (dst ++ path) dir name)
    (fits : st.files.Fits dir name (.regular false []))
    (next : post ⟨⟩ ⟨st.files.add dir name (.regular false []) fits, some (dir ++ [name], 0)⟩) :
    wp (createRegularFile dst path) post fails st := by
  rw [createRegularFile, wp_bind, wp_modify, wp_bind, wp, sysCall]
  rw [openExclusive, cstr_eq_self noNul, leads.create fits]
  exact next

theorem wp_createSymlink (noNul : 0 ∉ dst ++ path) (leads : st.files.LeadsTo (dst ++ path) dir name)
    (fits : st.files.Fits dir name (.symlink target))
    (next : post ⟨⟩ { st with files := st.files.add dir name (.symlink target) fits }) :
    wp (createSymlink dst path target) post fails st := by
  have isTarget : IsTarget target := fits.isTarget
  rw [createSymlink, wp_bind, wp, sysCall, cstr_eq_self noNul, cstr_eq_self isTarget.2,
    symlink, if_pos isTarget, leads.create fits]
  exact next

theorem wp_fdCall {message : Bytes} {call : Files → Loc × Nat → Files × Nat} (isOpen : st.fd = some fd)
    (next : post ⟨⟩ ⟨(call st.files fd).1, some (fd.1, (call st.files fd).2)⟩) :
    wp (fdCall message call) post fails st := by
  rw [wp, fdCall, isOpen]
  exact next

/-- While a file is written: what was received is at its start, and the rest is allocated at most. -/
structure Writing (files : Files) (loc : Loc) (executable : Bool) (done left : Bytes) (st : Restore) : Prop where
  grows : Grows loc files st.files
  isOpen : st.fd = some (loc, done.length)
  written : ∃ tail, st.files.node loc = some (.regular executable (done ++ tail)) ∧ tail.length ≤ left.length

theorem wp_preallocateContents {data : Bytes} (grows : Grows loc files st.files)
    (isOpen : st.fd = some (loc, 0)) (empty : st.files.node loc = some (.regular executable [])) :
    wp (preallocateContents data.length) (fun _ => Writing files loc executable [] data) fails st := by
  rw [preallocateContents, wp_ite]
  refine ⟨fun none => ?_, fun some => ?_⟩
  · rw [wp_pure]
    exact ⟨grows, isOpen, [], empty, Nat.zero_le _⟩
  · apply wp_fdCall isOpen
    split
    next => 
      refine ⟨grows.trans (grows_change _ _ _ _), rfl, List.replicate data.length 0, ?_, by simp⟩
      simp [allocate, empty, changeNode]
    next => exact ⟨grows, rfl, [], empty, Nat.zero_le _⟩

theorem wp_receiveContents {done chunk left : Bytes}
    (writing : Writing files loc executable done (chunk ++ left) st) :
    wp (receiveContents chunk) (fun _ => Writing files loc executable (done ++ chunk) left) fails st := by
  obtain ⟨grows, isOpen, tail, there, short⟩ := writing
  apply wp_fdCall isOpen
  refine ⟨grows.trans (grows_change _ _ _ _), by simp, tail.drop chunk.length, ?_, ?_⟩
  · simp [write, overwrite, there, changeNode, drop_append]
  · rw [length_append] at short
    rw [length_drop]
    omega

end Restore

/-! ### Trees -/

variable {contents more : Bytes} {tree : FileTree}

section Trees

variable {σ : Type} {source : Source σ} {dst : Path}

/-- The stream is behind the node, and the tree is at the place. -/
structure Restored (source : Source σ) (more : Bytes) (loc : Loc) (files : Files) (tree : FileTree)
    (st : σ × Restore) : Prop where
  rest : source.rest st.1 = more
  grows : Grows loc files st.2.files
  holds : st.2.files.Holds loc tree

variable (source dst) in
/-- `parse` on the bytes of the tree creates it. -/
def Restores (tree : FileTree) : Prop :=
  ∀ (s : σ) (more : Bytes), source.rest s = nodeBytes tree ++ more →
    ∀ fuel, (nodeBytes tree).length ≤ fuel → ∀ (path : Path) (files : Files) (fd : Option (Loc × Nat)) (dir : Loc)
      (name : Name), Absent files (dst ++ path) dir name →
      wp (parse source (RestoreSink dst) fuel path) (fun _ => Restored source more (dir ++ [name]) files tree)
        (fun _ _ => False) (s, ⟨files, fd⟩)

variable {s : σ}

theorem restores_contents (small : contents.length < 2 ^ 64)
    (stream : source.rest s = writeString (ascii "contents") ++ (writeLongLong contents.length ++
      (contents ++ (writePadding contents.length ++ (writeString (ascii ")") ++ more)))))
    {fuel : Nat} {path : Path} {files : Files} {loc : Loc} {st : Restore} (grows : Grows loc files st.files)
    (isOpen : st.fd = some (loc, 0)) (empty : st.files.node loc = some (.regular executable [])) :
    wp (parseFields source (RestoreSink dst) (fuel + 2) path .tpRegular)
      (fun _ => Restored source more loc files (.regular executable contents)) (fun _ _ => False) (s, st) := by
  apply wp_parseFields_contents small stream (Writing files loc executable)
  · exact wp_preallocateContents grows isOpen empty
  · intro done chunk left w writing
    exact wp_receiveContents writing
  intro s₁ w rest₁ writing
  apply wp_parseFields_close rest₁
  intro s₂ rest₂
  obtain ⟨grows', _, tail, there, short⟩ := writing
  -- nothing is left to write, so that nothing allocated is left either
  obtain rfl : tail = [] := eq_nil_of_length_eq_zero (Nat.le_zero.mp short)
  rw [append_nil] at there
  exact ⟨rest₂, grows', holds_of_node there (fun _ => rfl) (by simp [FileTree.node])⟩

theorem restores_regular (small : contents.length < 2 ^ 64) :
    Restores source dst (.regular executable contents) := by
  intro s more stream fuel enough path files fd dir name absent
  have five : 40 ≤ (nodeBytes (.regular executable contents)).length := by
    simp only [nodeBytes, length_append, length_writeString]
    omega
  have fits : files.Fits dir name (.regular false []) := absent.fits trivial
  have grows := grows_add files dir name _ fits
  have empty := node_add files dir name _ fits
  obtain ⟨rounds, rfl⟩ : ∃ rounds, fuel = rounds + 5 := ⟨fuel - 5, by omega⟩
  simp only [nodeBytes, append_assoc] at stream
  apply wp_parse_open stream
  intro s₁ rest₁
  apply wp_parseFields_type .tpRegular (by decide) rest₁
  intro s₂ rest₂
  apply wp_createRegularFile absent.noNul absent.leads fits
  cases executable with
  | false => exact restores_contents small rest₂ grows rfl empty
  | true =>
    apply wp_parseFields_executable rest₂
    intro s₃ rest₃
    apply restores_contents small rest₃ (grows.trans (grows_change _ _ _ _)) rfl
    simp [setExecutable, changeNode]

theorem restores_symlink (isTarget : IsTarget target) (small : target.length < 2 ^ 32) :
    Restores source dst (.symlink target) := by
  intro s more stream fuel enough path files fd dir name absent
  have four : 32 ≤ (nodeBytes (.symlink target)).length := by
    simp only [nodeBytes, length_append, length_writeString]
    omega
  have fits : files.Fits dir name (.symlink target) := absent.fits isTarget
  obtain ⟨rounds, rfl⟩ : ∃ rounds, fuel = rounds + 4 := ⟨fuel - 4, by omega⟩
  simp only [nodeBytes, append_assoc] at stream
  apply wp_parse_open stream
  intro s₁ rest₁
  apply wp_parseFields_type .tpSymlink (by decide) rest₁
  intro s₂ rest₂
  apply wp_parseFields_target small rest₂
  intro s₃ rest₃
  apply wp_createSymlink absent.noNul absent.leads fits
  apply wp_parseFields_close rest₃
  intro s₄ rest₄
  exact ⟨rest₄, grows_add files dir name _ fits,
    holds_of_node (node_add files dir name _ fits) (fun _ => rfl) (by simp [FileTree.node])⟩

/-- The entries that are left, when those before them are in the directory. -/
theorem restores_entries (done : List (Name × FileTree)) {todo : List (Name × FileTree)}
    (stream : source.rest s = entriesBytes todo ++ (writeString (ascii ")") ++ more)) {fuel : Nat}
    (enough : (entriesBytes todo).length + 8 ≤ fuel) {path : Path} {files : Files} {st : Restore} {dir : Loc}
    {name : Name} (grows : Grows (dir ++ [name]) files st.files)
    (noNul : 0 ∉ dst ++ path) (leads : st.files.LeadsTo (dst ++ path) dir name) (isName : IsName name)
    (holds : st.files.Holds (dir ++ [name]) (.directory done))
    (distinct : ((done ++ todo).map (·.1)).Nodup) (isNames : ∀ entry ∈ todo, IsName entry.1)
    (small : ∀ entry ∈ todo, entry.1.length < 2 ^ 32)
    (restores : ∀ entry ∈ todo, Restores source dst entry.2) :
    wp (parseFields source (RestoreSink dst) fuel path .tpDirectory)
      (fun _ => Restored source more (dir ++ [name]) files (.directory (done ++ todo))) (fun _ _ => False)
      (s, st) := by
  induction todo generalizing s fuel st done with
  | nil =>
    obtain ⟨rounds, rfl⟩ : ∃ rounds, fuel = rounds + 1 := ⟨fuel - 1, by omega⟩
    apply wp_parseFields_close stream
    intro s₁ rest₁
    rw [append_nil]
    exact ⟨rest₁, grows, holds⟩
  | cons entry todo ih =>
    have isEntryName := isNames entry mem_cons_self
    rw [map_append, map_cons] at distinct
    have new : entry.1 ∉ done.map (·.1) := fun old =>
      disjoint_of_nodup_append distinct old mem_cons_self
    have lengths : (nodeBytes entry.2).length + (entriesBytes todo).length + 48 ≤
        (entriesBytes (entry :: todo)).length := by
      simp only [entriesBytes, length_append, length_writeString]
      omega
    obtain ⟨rounds, rfl⟩ : ∃ rounds, fuel = rounds + 4 := ⟨fuel - 4, by omega⟩
    simp only [entriesBytes, append_assoc] at stream
    apply wp_parseFields_entry stream
    intro s₁ rest₁
    apply wp_parseEntry_name isEntryName (small entry mem_cons_self) rest₁
    intro s₂ rest₂
    apply wp_parseEntry_node rest₂
    intro s₃ rest₃
    -- the entry goes to the directory that was created, where its name is not in use
    have isPath : dst ++ (path ++ ascii "/" ++ entry.1) = dst ++ path ++ slash :: entry.1 := by
      simp [slash, ascii]
    have absent : Absent st.files (dst ++ (path ++ ascii "/" ++ entry.1)) (dir ++ [name]) entry.1 := by
      rw [isPath]
      exact holds.absentEntry noNul leads isName isEntryName new
    apply wp_imp (restores entry mem_cons_self s₃ _ rest₃ (rounds + 1) (by omega) _ st.files st.fd _ _ absent)
    rintro _ ⟨s₄, st'⟩ restored
    apply wp_parseEntry_close restored.rest
    intro s₅ rest₅
    rw [show done ++ entry :: todo = done ++ [(entry.1, entry.2)] ++ todo by simp]
    apply ih (done ++ [(entry.1, entry.2)]) rest₅ (by omega) (grows.trans restored.grows.up) (leads.extends restored.grows.extended)
      (holds.addEntry restored.grows.same restored.holds new)
    · simpa using distinct
    · exact (forall_mem_cons.mp isNames).2
    · exact (forall_mem_cons.mp small).2
    · exact (forall_mem_cons.mp restores).2

theorem restores_nodeBytes (valid : ValidTree tree) : Restores source dst tree := by
  induction valid with
  | regular small => exact restores_regular small
  | symlink isTarget small => exact restores_symlink isTarget small
  | @directory entries sorted isNames small valid ih =>
    intro s more stream fuel enough path files fd dir name absent
    have lengths : (entriesBytes entries).length + 32 ≤ (nodeBytes (.directory entries)).length := by
      simp only [nodeBytes, length_append, length_writeString]
      omega
    have fits : files.Fits dir name .directory := absent.fits trivial
    have grows := grows_add files dir name _ fits
    obtain ⟨rounds, rfl⟩ : ∃ rounds, fuel = rounds + 2 := ⟨fuel - 2, by omega⟩
    simp only [nodeBytes, append_assoc] at stream
    apply wp_parse_open stream
    intro s₁ rest₁
    apply wp_parseFields_type .tpDirectory (by decide) rest₁
    intro s₂ rest₂
    apply wp_createDirectory absent.noNul absent.leads fits
    have empty := holds_emptyDirectory files dir name fits
    have distinct : (entries.map (·.1)).Nodup := sorted.imp fun less => ne_of_irrefl less
    refine restores_entries [] rest₂ ?_ grows absent.noNul (absent.leads.extends grows.extended) absent.isName empty
      distinct isNames small ih
    omega

theorem wp_restorePath (valid : ValidTree tree) (stream : source.rest s = archive tree ++ more) {fuel : Nat}
    (enough : (archive tree).length ≤ fuel) (fd : Option (Loc × Nat)) {dir : Loc} {name : Name}
    (absent : Absent files dst dir name) :
    wp (restorePath source fuel dst) (fun _ => Restored source more (dir ++ [name]) files tree) (fun _ _ => False)
      (s, ⟨files, fd⟩) := by
  rw [archive, length_append] at enough
  rw [restorePath, parseDump, wp_bind, readVersion, wp_tryCatch]
  apply wp_readString_of_eq stream (by decide)
  intro s₁ rest₁
  apply restores_nodeBytes valid s₁ more rest₁ fuel (by omega) [] files fd dir name
  rwa [append_nil]

end Trees

end Guix
