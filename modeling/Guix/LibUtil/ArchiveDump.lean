import Guix.LibUtil.ArchiveFormat

/-!
# Dumping a tree of files

`dumpPath` writes the archive of the tree at the path, whatever the order in which the
directories are read.
-/

namespace Guix

open FileSystem List OrdMap

theorem dumpLoop_eq (left : Nat) (file : Bytes) (enough : left ≤ file.length) :
    dumpLoop left file = .ok (file.take left) := by
  induction left using Nat.strongRecOn generalizing file with
  | _ left ih =>
    rw [dumpLoop]
    split
    next none =>
      rw [none, take_zero]
    next some =>
      rw [if_neg (by omega)]
      have positive : 0 < min left bufferSize := by
        simp only [bufferSize]
        omega
      rw [ih (left - min left bufferSize) (by omega) (file.drop (min left bufferSize))
        (by rw [length_drop]; omega)]
      change Except.ok _ = _
      rw [← take_add, Nat.add_sub_of_le (Nat.min_le_left left bufferSize)]

theorem dumpContents_eq (file : Bytes) : dumpContents file.length file =
    .ok (writeString (ascii "contents") ++ writeLongLong file.length ++ file ++
      writePadding file.length) := by
  rw [dumpContents, dumpLoop_eq file.length file (Nat.le_refl _), take_length]
  rfl

/-- The names are visited in order, each once. -/
theorem unhackedNames_eq {names : List Name} {entries : List (Name × FileTree)} (distinct : names.Nodup)
    (sorted : (entries.map (·.1)).Pairwise (· < ·)) (same : ∀ name, name ∈ names ↔ name ∈ entries.map (·.1)) :
    unhackedNames names = entries.map fun entry => (entry.1, entry.1) := by
  have sorted' : (entries.map fun entry => (entry.1, entry.1)).Pairwise fun a b => a.1 < b.1 := by
    rw [pairwise_map] at sorted ⊢
    exact sorted
  have isMap : ofList (names.map fun name => (name, name)) = ⟨_, sorted'⟩ := by
    apply ext_mem
    intro pair
    have keys : (names.map fun name => (name, name)).map Prod.fst = names := by simp [Function.comp_def]
    rw [mem_ofList_of_nodup _ (by rwa [keys])]
    simp only [mem_map]
    constructor
    · rintro ⟨name, member, rfl⟩
      obtain ⟨entry, isEntry, rfl⟩ := mem_map.mp ((same name).mp member)
      exact ⟨entry, isEntry, rfl⟩
    · rintro ⟨entry, isEntry, rfl⟩
      exact ⟨entry.1, (same entry.1).mpr (mem_map_of_mem isEntry), rfl⟩
  rw [unhackedNames, isMap]

theorem dump_eq {files : Files} {tree : FileTree} (valid : ValidTree tree) (fuel : Nat)
    (enough : depth tree < fuel) (path : Path) (noNul : 0 ∉ path) (loc : Loc)
    (found : files.lstat path = .ok (loc, tree.node)) (holds : files.Holds loc tree) :
    dump files (fun _ => true) fuel path = .ok (nodeBytes tree) := by
  induction valid generalizing fuel path loc with
  | @regular executable contents small =>
    cases fuel with
    | zero => omega
    | succ fuel =>
      rw [dump, cstr_eq_self noNul, found]
      simp only [FileTree.node, dumpContents_eq, bind, Except.bind, pure, Except.pure, nodeBytes]
  | @symlink target isTarget small =>
    cases fuel with
    | zero => omega
    | succ fuel =>
      rw [dump, cstr_eq_self noNul, found]
      rfl
  | @directory entries sorted isNames small valid ih =>
    cases fuel with
    | zero => omega
    | succ fuel =>
      have distinct : (entries.map (·.1)).Nodup := sorted.imp fun less => ne_of_irrefl less
      have each : ∀ entry ∈ entries, dump files (fun _ => true) fuel (path ++ ascii "/" ++ entry.1) =
          .ok (nodeBytes entry.2) := by
        intro entry member
        have deeper := depth_lt member
        have isName := isNames entry member
        have below := holds.entry distinct member
        rw [show path ++ ascii "/" ++ entry.1 = path ++ slash :: entry.1 by simp [slash, ascii]]
        refine ih entry member fuel (by omega) _ ?_ _ (Files.lstat_entry found isName below.node) below
        have noNul' := isName.2.2.2.2
        simp [noNul, noNul', slash]
      rw [dump, cstr_eq_self noNul, found]
      dsimp only [FileTree.node]
      rw [unhackedNames_eq (files.nodup_entries _) sorted holds.mem_entries, filter_true, mapM_map,
        Fallible.mapM_eq_map (g := fun entry => writeString (ascii "entry") ++ writeString (ascii "(") ++
          writeString (ascii "name") ++ writeString entry.1 ++ writeString (ascii "node") ++
          nodeBytes entry.2 ++ writeString (ascii ")"))]
      · simp only [bind, Except.bind, pure, Except.pure]
        rw [nodeBytes, entriesBytes_eq_flatMap, flatMap_def]
      · intro entry member
        simp only [Function.comp, each entry member, bind, Except.bind, pure, Except.pure]

theorem dumpPath_eq {files : Files} {tree : FileTree} (valid : ValidTree tree) (fuel : Nat)
    (enough : depth tree < fuel) (path : Path) (noNul : 0 ∉ path) (loc : Loc)
    (found : files.lstat path = .ok (loc, tree.node)) (holds : files.Holds loc tree) :
    dumpPath files (fun _ => true) fuel path = .ok (archive tree) := by
  rw [dumpPath, dump_eq valid fuel enough path noNul loc found holds]
  rfl

/-- A directory with a symbolic link and an executable file, whose name is not ASCII. -/
def smallTree : FileTree :=
  .directory [(ascii "a", .symlink (ascii "b")), ([195, 169], .regular true [1])]

theorem smallTree_valid : ValidTree smallTree := by
  refine .directory (by decide) (by decide) (by decide) ?_
  rintro entry (_ | ⟨_, _ | ⟨_, ⟨⟩⟩⟩)
  · exact .symlink (by decide) (by decide)
  · exact .regular (by decide)

/-- The directories in which the tree is made, entry by entry. -/
def smallDirectory : Files := Files.empty.add [] (ascii "d") .directory ⟨by decide, by decide, by decide, trivial⟩

def smallLink : Files :=
  smallDirectory.add [ascii "d"] (ascii "a") (.symlink (ascii "b")) ⟨by decide, by decide, by decide, by decide⟩

def smallFiles : Files :=
  smallLink.add [ascii "d"] [195, 169] (.regular true [1]) ⟨by decide, by decide, by decide, trivial⟩

theorem smallFiles_holds : smallFiles.Holds [ascii "d"] smallTree := by
  have before : smallDirectory.Holds [ascii "d"] (.directory []) := Files.holds_emptyDirectory _ [] _ _
  have linked : smallLink.Holds [ascii "d"] (.directory [(ascii "a", .symlink (ascii "b"))]) :=
    before.addEntry (Files.sameOutside_add smallDirectory _ _ _ _)
      (Files.holds_of_node rfl (fun _ => rfl) (by decide)) (by decide)
  exact linked.addEntry (Files.sameOutside_add smallLink _ _ _ _)
    (Files.holds_of_node rfl (fun _ => rfl) (by decide)) (by decide)

theorem smallFiles_lstat : smallFiles.lstat (ascii "/d") = .ok ([ascii "d"], smallTree.node) :=
  (smallFiles.leadsTo_root (by decide)).lstat (by decide) rfl

end Guix
