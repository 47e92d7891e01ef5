import Guix.Client.FoldArchive
import Guix.LibUtil.ArchiveRestore

/-!
# Restoring files in the client

`restore-file` on the archive of a tree creates the tree, as the daemon's `restorePath` does.
-/

namespace Guix.Client.Serialization

open FileSystem Hoare List Files MonadExcept

attribute [local irreducible] wp

/-! ### Calls on the file system -/

/-- What `restore-file` does with a file and its contents. -/
def restoreAct (file : Str) (content : Content) (contents : Bytes) (_ : Unit) : EStateM NarError Files Unit :=
  match content with
  | .directory => do
    let _ ← fileCall file mkdir
    return ⟨⟩
  | .directoryComplete => do
    let _ ← fileCall file fun files path => files.chmod path true
    return ⟨⟩
  | .symlink target => do
    let target ← ofExcept (toLocale target)
    let _ ← fileCall file fun files path => files.symlink target path
    return ⟨⟩
  | .regular executable _ => do
    let loc ← fileCall file openTruncate
    modify fun files => files.write loc 0 contents
    let _ ← fileCall file fun files path => files.chmod path executable
    return ⟨⟩

theorem wp_onWorld {ω α : Type} (x : EStateM NarError ω α) (post : α → NarPort ω → Prop)
    (fails : NarError → NarPort ω → Prop) (port : NarPort ω) :
    wp (onWorld x) post fails port ↔
      wp x (fun a w => post a { port with world := w }) (fun e w => fails e { port with world := w }) port.world := by
  rw [onWorld, wp_focus]
  rfl

theorem implements_restoreProc : Implements (restoreProc dumpFile) restoreAct := by
  rintro file content contents result ⟨rest, current, world⟩ more has rfl post fails runs
  cases content with
  | directory | directoryComplete =>
    obtain rfl : contents = [] := has
    simp only [restoreProc, restoreAct, wp_bind, wp_onWorld, wp_pure] at runs ⊢
    apply wp_mono runs
    · exact fun loc w done => done
    · exact fun e w failed => failed _ rfl
  | symlink target =>
    obtain rfl : contents = [] := has
    simp only [restoreProc, restoreAct, wp_bind, wp_onWorld, wp_pure, wp_ofExcept] at runs ⊢
    refine ⟨fun path isPath => ?_, fun e isError => runs.2 e isError _ rfl⟩
    apply wp_mono (runs.1 path isPath)
    · exact fun loc w done => done
    · exact fun e w failed => failed _ rfl
  | regular executable size =>
    obtain rfl : contents.length = size := has
    simp only [restoreProc, dumpFile, restoreAct, wp_bind, wp_onWorld, wp_pure, wp_modify, fst_dump,
      take_left, drop_left] at runs ⊢
    apply wp_mono runs
    · intro loc w done
      apply wp_mono done
      · exact fun loc w done => done
      · exact fun e w failed => failed _ rfl
    · exact fun e w failed => failed _ rfl

/-! ### Trees -/

section Trees

variable {file : Str} {path : Bytes} {files : Files} {dir : Loc} {name : Name} {post : Unit → Files → Prop}
  {fails : NarError → Files → Prop}

theorem wp_fileCall {call : Files → Bytes → Except Errno (Files × Loc)} {post : Loc → Files → Prop}
    {done : Files × Loc} (isPath : toLocale file = .ok path) (called : call files path = .ok done)
    (next : post done.2 done.1) : wp (fileCall file call) post fails files := by
  rw [fileCall, isPath]
  simp only [wp, bind, EStateM.bind, ofExcept, pure, EStateM.pure, called]
  exact next

/-- The calls for the tree create it. -/
def Creates (tree : FileTree) : Prop :=
  ∀ (file : Str) (path : Bytes) (files : Files) (dir : Loc) (name : Name), toLocale file = .ok path →
    Absent files path dir name →
    wp (runCalls restoreAct (calls file tree) ⟨⟩)
      (fun _ files' => Grows (dir ++ [name]) files files' ∧ files'.Holds (dir ++ [name]) tree)
      (fun _ _ => False) files

theorem creates_regular (executable : Bool) (contents : Bytes) : Creates (.regular executable contents) := by
  intro file path files dir name isPath absent
  have fits : files.Fits dir name (.regular false []) := absent.fits trivial
  rw [calls, wp_runCalls_singleton]
  simp only [restoreAct, wp_bind, wp_modify, wp_pure]
  apply wp_fileCall isPath (absent.leads.openTruncate fits)
  have written := node_write (node_add files dir name _ fits) 0 contents
  have grows := (grows_add files dir name _ fits).trans (grows_write _ (dir ++ [name]) 0 contents)
  apply wp_fileCall isPath ((absent.leads.extends grows.extended).chmod absent.isName written (by simp) executable)
  refine ⟨grows.trans (grows_setExecutable _ _ executable), ?_⟩
  apply holds_of_node _ (fun _ => rfl) (by simp [FileTree.node])
  rw [node_setExecutable written]
  simp [overwrite, FileTree.node]

theorem creates_symlink {target : Str} (isTarget : IsTarget (encode target)) : Creates (.symlink (encode target)) := by
  intro file path files dir name isPath absent
  have fits : files.Fits dir name (.symlink (encode target)) := absent.fits isTarget
  have isLocale : toLocale target = .ok (encode target) := toLocale_ok.mpr ⟨mt (zero_mem_encode_iff target).mpr isTarget.2, rfl⟩
  have linked : files.symlink (encode target) path = .ok (files.add dir name _ fits, dir ++ [name]) := by
    rw [symlink, if_pos isTarget, absent.leads.create fits]
  rw [calls, wp_runCalls_singleton, decoded_encode, restoreAct, isLocale]
  simp only [wp_bind, wp_ofExcept, wp_pure]
  refine ⟨fun target' same => ?_, fun e impossible => by cases impossible⟩
  cases same
  apply wp_fileCall isPath linked
  exact ⟨grows_add files dir name _ fits,
    holds_of_node (node_add files dir name _ fits) (fun _ => rfl) (by simp [FileTree.node])⟩

/-- The entries that are left and the end of the directory, when the entries before them are there. -/
theorem creates_entries (done : List (Name × FileTree)) (todo : List (Str × FileTree)) {files files' : Files} {dir : Loc}
    {name : Name} {file : Str} {path : Bytes} (isPath : toLocale file = .ok path)
    (grows : Grows (dir ++ [name]) files files') (leads : files'.LeadsTo path dir name) (isName : IsName name)
    (holds : files'.Holds (dir ++ [name]) (.directory done))
    (distinct : ((done ++ todo.map encodeEntry).map (·.1)).Nodup)
    (isNames : ∀ entry ∈ todo, IsName (encode entry.1)) (creates : ∀ entry ∈ todo, Creates entry.2) :
    wp (runCalls restoreAct (entryCalls file (todo.map encodeEntry) ++
        [⟨file, .directoryComplete, []⟩]) ⟨⟩)
      (fun _ files'' => Grows (dir ++ [name]) files files'' ∧
        files''.Holds (dir ++ [name]) (.directory (done ++ todo.map encodeEntry)))
      (fun _ _ => False) files' := by
  induction todo generalizing files' done with
  | nil =>
    rw [map_nil, append_nil, entryCalls, nil_append, wp_runCalls_singleton]
    simp only [restoreAct, wp_bind, wp_pure]
    apply wp_fileCall isPath (leads.chmod isName holds.node (by simp [FileTree.node]) true)
    exact ⟨grows.trans (grows_setExecutable files' _ true), holds.setExecutable true⟩
  | cons entry todo ih =>
    have isEntryName := isNames entry mem_cons_self
    rw [map_cons, map_append, map_cons] at distinct
    have new : encode entry.1 ∉ done.map (·.1) := fun old =>
      disjoint_of_nodup_append distinct old mem_cons_self
    obtain ⟨noNul, rfl⟩ := toLocale_ok.mp isPath
    have absent := holds.absentEntry (zero_notMem_encode file noNul) leads isName isEntryName new
    rw [map_cons, entryCalls, decoded_encode, append_assoc, wp_runCalls_append]
    apply wp_imp (creates entry mem_cons_self _ _ files' _ _ (toLocale_entry isPath isEntryName) absent)
    rintro _ after ⟨grows', holds'⟩
    rw [show done ++ (encode entry.1, entry.2) :: todo.map encodeEntry =
      done ++ [(encode entry.1, entry.2)] ++ todo.map encodeEntry by simp]
    apply ih (done ++ [(encode entry.1, entry.2)]) (grows.trans grows'.up) (leads.extends grows'.extended)
      (holds.addEntry grows'.same holds' new)
    · simpa using distinct
    · exact (forall_mem_cons.mp isNames).2
    · exact (forall_mem_cons.mp creates).2

theorem creates_tree {tree : FileTree} (isUtf8 : IsUtf8 tree) (valid : ValidTree tree) : Creates tree := by
  induction isUtf8 with
  | @regular executable contents => exact creates_regular executable contents
  | @symlink target =>
    cases valid with
    | symlink isTarget small => exact creates_symlink isTarget
  | @directory entries below ih =>
    intro file path files dir name isPath absent
    cases valid with
    | directory sorted isNames small valid =>
      have fits : files.Fits dir name .directory := absent.fits trivial
      have grows := grows_add files dir name _ fits
      have empty := holds_emptyDirectory files dir name fits
      have distinct : ((entries.map encodeEntry).map (·.1)).Nodup :=
        sorted.imp fun less => ne_of_irrefl less
      rw [calls, cons_append, wp_runCalls_cons]
      simp only [restoreAct, wp_bind, wp_pure]
      apply wp_fileCall isPath (absent.leads.create fits)
      exact creates_entries [] entries isPath grows (absent.leads.extends grows.extended) absent.isName empty distinct
        (fun entry isEntry => isNames _ (mem_encoded isEntry))
        (fun entry isEntry => ih entry isEntry (valid _ (mem_encoded isEntry)))

theorem wp_restoreFile {tree : FileTree} (isUtf8 : IsUtf8 tree) (valid : ValidTree tree) {files : Files} {file : Str}
    {path : Bytes} {dir : Loc} {name : Name} (isPath : toLocale file = .ok path)
    (absent : Absent files path dir name) {fuel : Nat} (enough : (archive tree).length ≤ fuel) (more : Bytes)
    (current : Option Str) :
    wp (restoreFile dumpFile fuel file)
      (fun _ port => port.rest = more ∧ port.currentlyRestoredFile = current ∧
        Grows (dir ++ [name]) files port.world ∧ port.world.Holds (dir ++ [name]) tree)
      (fun _ _ => False) ⟨archive tree ++ more, current, files⟩ := by
  apply wp_foldArchive implements_restoreProc isUtf8 valid file ⟨⟩ enough
  apply wp_mono (creates_tree isUtf8 valid file path files dir name isPath absent)
  · exact fun _ files' created => ⟨rfl, rfl, created⟩
  · exact fun _ _ impossible => impossible.elim

end Trees

/-- What `fold-archive` and `restore-file` do with the archive that `write-file-tree` writes. The
procedure has to read the contents of regular files from the port; `calls` lists its calls. -/
theorem foldArchive_writeFileTree {tree : FileTree} (valid : ValidTree tree) (isUtf8 : IsUtf8 tree)
    {callbacks : Callbacks} {source : Str} (describes : Describes callbacks source tree) (filePorts : Bool)
    (rounds : Nat) (deep : depth tree < rounds) :
    ∃ bytes, writeFileTree callbacks filePorts rounds source = .ok bytes ∧
      (∀ (ω α : Type) (proc : Str → Content → α → NarM ω α) (act : Str → Content → Bytes → α → EStateM NarError ω α),
        Implements proc act → ∀ (file : Str) (seed : α) (fuel : Nat), bytes.length ≤ fuel →
          ∀ (more : Bytes) (current : Option Str) (world : ω),
            (∀ a w, runCalls act (calls file tree) seed world = .ok a w →
              foldArchive proc fuel seed file ⟨bytes ++ more, current, world⟩ = .ok a ⟨more, current, w⟩) ∧
            ∀ e w, runCalls act (calls file tree) seed world = .error e w →
              ∃ port, foldArchive proc fuel seed file ⟨bytes ++ more, current, world⟩ = .error e port ∧
                port.world = w) ∧
      ∀ (files : Files) (file : Str) (path : Bytes) (dir : Loc) (name : Name), toLocale file = .ok path →
        Absent files path dir name → ∀ (fuel : Nat), bytes.length ≤ fuel →
          ∀ (more : Bytes) (current : Option Str) (σ : Type) (stream : Source σ) (s : σ) (fd : Option (Loc × Nat)),
            stream.rest s = bytes ++ more →
            ∃ restored s' restored' fd',
              restoreFile dumpFile fuel file ⟨bytes ++ more, current, files⟩ = .ok ⟨⟩ ⟨more, current, restored⟩ ∧
              restored.Holds (dir ++ [name]) tree ∧ SameOutside (dir ++ [name]) files restored ∧
              restorePath stream fuel path (s, ⟨files, fd⟩) = .ok ⟨⟩ (s', ⟨restored', fd'⟩) ∧
              ∀ loc, restored.node loc = restored'.node loc := by
  refine ⟨archive tree, writeFileTree_eq filePorts describes valid rounds deep, ?_, ?_⟩
  · intro ω α proc act implements file seed fuel enough more current world
    exact ⟨fun a w => foldArchive_ok implements isUtf8 valid enough,
      fun e w => foldArchive_error implements isUtf8 valid enough⟩
  · intro files file path dir name isPath absent fuel enough more current σ stream s fd isStream
    obtain ⟨_, ⟨rest, current', restored⟩, ran, rfl, rfl, grows, holds⟩ :=
      wp_returns (wp_restoreFile isUtf8 valid isPath absent enough more current)
    obtain ⟨_, ⟨s', st'⟩, ran', restored'⟩ := wp_returns (wp_restorePath valid isStream enough fd absent)
    exact ⟨restored, s', st'.files, st'.fd, ran, holds, grows.same, ran',
      holds.node_eq restored'.holds grows.same restored'.grows.same⟩

theorem foldArchive_writeFileTree_small :
    ∃ bytes restored, writeFileTree (writeFileCallbacks smallFiles fun _ _ => true) true 2 (str "/d") = .ok bytes ∧
      restoreFile dumpFile bytes.length (str "/g") ⟨bytes ++ [7], none, empty⟩ =
        .ok ⟨⟩ ⟨[7], none, restored⟩ ∧
      restored.Holds [ascii "g"] smallTree := by
  have describes := describes_writeFile smallTree_isUtf8 smallTree_valid (str "/d") _ (by decide) _
    smallFiles_lstat smallFiles_holds
  obtain ⟨bytes, written, _, restores⟩ :=
    foldArchive_writeFileTree smallTree_valid smallTree_isUtf8 describes true 2 (by decide)
  have absent : Absent empty (ascii "/g") [] (ascii "g") :=
    ⟨by decide, empty.leadsTo_root (by decide), by decide, rfl, rfl⟩
  obtain ⟨restored, _, _, _, ran, holds, _⟩ := restores empty (str "/g") (ascii "/g") [] (ascii "g")
    (by decide) absent bytes.length (Nat.le_refl _) [7] none Bytes stringSource (bytes ++ [7]) none rfl
  exact ⟨bytes, restored, written, ran, holds⟩

/-- A procedure that leaves the contents on the port. -/
def leaveContents (_ : Str) (_ : Content) (result : Unit) : NarM Unit Unit := pure result

/-- The padding is taken from the contents, and the marker is no string any more. -/
theorem foldArchive_leaveContents : ¬ ∃ port, foldArchive leaveContents 200 ⟨⟩ (str "f")
    ⟨archive (.regular false [1]), none, ⟨⟩⟩ = .ok ⟨⟩ port := by
  have failed : wp (foldArchive leaveContents 200 ⟨⟩ (str "f")) (fun _ _ => False) (fun _ _ => True)
      ⟨archive (.regular false [1]), none, ⟨⟩⟩ := by
    rw [foldArchive, wp_focus, readArchive, wp_bind, archive, archiveVersion1_eq.1]
    apply wp_readString_of_eq archiveVersion1_eq.2
    rw [if_pos rfl, readNode, wp_bind, wp_modify]
    simp only [nodeBytes, append_assoc]
    apply wp_readStart "regular" (by decide) (by decide)
    rw [if_pos ⟨rfl, rfl, rfl⟩, readRegular, wp_bind]
    apply @wp_readFileType false
    rw [wp_bind]
    apply wp_readLongLong_of_eq (by decide)
    have bytes : [1] ++ (Guix.writePadding ([1] : Bytes).length ++ Guix.writeString (ascii ")")) =
        [1, 0, 0, 0, 0, 0, 0] ++ ([0, 1, 0, 0, 0, 0, 0, 0] ++ [0, 41, 0, 0, 0, 0, 0, 0, 0]) := by decide
    rw [wp_bind, leaveContents, wp_pure, wp_bind, bytes]
    apply wp_getBytevectorN_of_eq (by decide)
    rw [wp_bind, readEofMarker, wp_bind, readString, wp_bind, readByteString, wp_bind, readInt, wp_bind]
    apply wp_getBytevectorN_of_eq (by decide)
    -- the length that is read is 256
    rw [wp_pure, wp_bind, wp, getBytevectorN, if_pos (by decide)]
    trivial
  rintro ⟨port, ran⟩
  exact wp_ok failed ran

end Guix.Client.Serialization
