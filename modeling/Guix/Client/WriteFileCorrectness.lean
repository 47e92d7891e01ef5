import Guix.Client.DerivationsCorrectness
import Guix.Client.Serialization
import Guix.LibUtil.ArchiveDump

/-!
# Archives written by the client

`write-file-tree` and `write-file` write the archive of a tree, as the daemon's `dumpPath`
does. The names of a directory are sorted as strings here and as bytes there.
-/

namespace Guix.Client.Serialization

open FileSystem List FileTree Sorting Utf8
open Sorting (sortBy)

/-! ### Strings and contents -/

theorem replicate_padding (n : Nat) : List.replicate (padding n) 0 = Guix.writePadding n := by
  rw [padding, Guix.writePadding]
  split <;> rfl

theorem writeBytevector_eq {s : Bytes} (small : s.length < 2 ^ 32) :
    writeBytevector s = .ok (Guix.writeString s) := by
  rw [writeBytevector, if_pos small, replicate_padding, Guix.writeString, writeInt, u32_of_lt _ small]

theorem writeString_eq (s : Str) (small : (encode s).length < 2 ^ 32) :
    writeString s = .ok (Guix.writeString (encode s)) := writeBytevector_eq small

@[simp] theorem writeLiteralStrings_nil : writeLiteralStrings [] = [] := rfl

theorem writeLiteralStrings_cons (s : String) (rest : List Str) (isAscii : ∀ c ∈ s.toList, c.toNat < 128)
    (small : s.toList.length < 2 ^ 32) :
    writeLiteralStrings (str s :: rest) = Guix.writeString (ascii s) ++ writeLiteralStrings rest := by
  have small' : (ascii s).length < 2 ^ 32 := by
    rw [ascii, length_map]
    exact small
  simp only [writeLiteralStrings, flatMap_cons]
  rw [encode_str s isAscii, replicate_padding, Guix.writeString, writeInt, u32_of_lt _ small']

theorem fst_dump (left : Nat) (input : Bytes) : (dump left input).1 = input.take left := by
  fun_induction dump left input with
  | case1 input => rw [take_zero]
  | case2 left input some eof =>
    have none : input = [] := by
      rw [take_eq_nil_iff] at eof
      rcases eof with zero | empty
      · simp only [bufSize] at zero
        omega
      · exact empty
    rw [none, take_nil]
  | case3 left input some more rest ih =>
    rw [ih]
    by_cases full : min left bufSize ≤ input.length
    · rw [length_take_of_le full, ← take_add, Nat.add_sub_of_le (Nat.min_le_left left bufSize)]
    · -- the input ends in this round
      rw [drop_eq_nil_of_le (by omega), take_nil, append_nil,
        take_of_length_le (by omega), take_of_length_le (by omega)]

theorem writeLongLong_eq {n : Nat} (small : n < 2 ^ 64) : writeLongLong n = .ok (Guix.writeLongLong n) := by
  rw [writeLongLong, if_pos small, Guix.writeLongLong, u64, Nat.mod_eq_of_lt small]

theorem writeContentsFromPort_eq (filePorts : Bool) (contents more : Bytes)
    (small : contents.length < 2 ^ 64) :
    writeContentsFromPort filePorts (contents ++ more) contents.length =
      .ok (Guix.writeString (ascii "contents") ++ Guix.writeLongLong contents.length ++ contents ++
        Guix.writePadding contents.length) := by
  have field : writeString (str "contents") = .ok (Guix.writeString (ascii "contents")) := by
    have isAscii := encode_str "contents" (by decide)
    exact writeString_eq _ (by rw [isAscii]; decide)
  rw [writeContentsFromPort, field, writeLongLong_eq small, fst_dump, take_left, ite_self]
  rfl

/-! ### Trees -/

abbrev encodeEntry (entry : Str × FileTree) : Name × FileTree := (encode entry.1, entry.2)

/-- The procedures given to `write-file-tree` describe a tree. The entries of a directory come in
any order and with the entries for the directory itself and its parent, unless
`postprocess-entries` is the identity. -/
inductive Describes (callbacks : Callbacks) : Str → FileTree → Prop
  | regular {file : Str} {contents more : Bytes}
      (type : callbacks.fileTypeSize file = .ok (.regular, contents.length))
      (port : callbacks.filePort file = .ok (contents ++ more)) :
      Describes callbacks file (.regular false contents)
  | executable {file : Str} {contents more : Bytes}
      (type : callbacks.fileTypeSize file = .ok (.executable, contents.length))
      (port : callbacks.filePort file = .ok (contents ++ more)) :
      Describes callbacks file (.regular true contents)
  | symlink {file target : Str} {size : Nat} (type : callbacks.fileTypeSize file = .ok (.symlink, size))
      (link : callbacks.symlinkTarget file = .ok target) : Describes callbacks file (.symlink (encode target))
  | directory {file : Str} {size : Nat} {names : List Str} {entries : List (Str × FileTree)}
      (type : callbacks.fileTypeSize file = .ok (.directory, size))
      (read : callbacks.directoryEntries file = .ok names)
      (same : ∀ name, (name ∈ names ∧ name ∉ [str ".", str ".."]) ↔ name ∈ entries.map (·.1))
      (processed : callbacks.postprocessEntries = filterSortDirectoryEntries ∨
        callbacks.postprocessEntries = id ∧ names.Pairwise (· < ·) ∧ ∀ name ∈ names, name ∉ [str ".", str ".."])
      (below : ∀ entry ∈ entries, Describes callbacks (file ++ str "/" ++ entry.1) entry.2) :
      Describes callbacks file (.directory (entries.map encodeEntry))

variable {names : List Str}

/-- Names are in the same order as strings and as bytes. -/
theorem increasing_of_encode (increasing : (names.map encode).Pairwise (· < ·)) :
    names.Pairwise (· < ·) := by
  rw [pairwise_map] at increasing
  apply increasing.imp
  intro a b less
  rcases lt_trichotomy a b with isLess | rfl | greater
  · exact isLess
  · exact absurd less (List.lt_irrefl _)
  · exact absurd (encode_lt greater) (List.lt_asymm less)

theorem mem_encoded {entries : List (Str × FileTree)} {entry : Str × FileTree} (member : entry ∈ entries) :
    encodeEntry entry ∈ entries.map encodeEntry :=
  mem_map_of_mem member

variable {callbacks : Callbacks}

theorem postprocessEntries_eq {sorted : List Str}
    (same : ∀ name, (name ∈ names ∧ name ∉ [str ".", str ".."]) ↔ name ∈ sorted)
    (increasing : sorted.Pairwise (· < ·))
    (processed : callbacks.postprocessEntries = filterSortDirectoryEntries ∨
      callbacks.postprocessEntries = id ∧ names.Pairwise (· < ·) ∧ ∀ name ∈ names, name ∉ [str ".", str ".."]) :
    callbacks.postprocessEntries names = sorted := by
  rcases processed with isSort | ⟨isId, alreadySorted, noDots⟩
  · rw [isSort, filterSortDirectoryEntries]
    apply eraseDups_sortBy_eq _ increasing
    intro name
    rw [← same, mem_filter, decide_eq_true_iff]
  · rw [isId, id]
    apply alreadySorted.eq_of_mem_iff increasing
    intro name
    rw [← same]
    exact ⟨fun member => ⟨member, noDots name member⟩, And.left⟩

variable {file : Str} {tree : FileTree}

/-- The bytes of a node do not depend on how the tree is described. -/
theorem writeNode_eq (filePorts : Bool) (describes : Describes callbacks file tree) (valid : ValidTree tree)
    (fuel : Nat)
    (enough : depth tree < fuel) : writeNode callbacks filePorts fuel file = .ok (nodeBytes tree) := by
  induction describes generalizing fuel with
  | @regular file contents more type port =>
    obtain ⟨fuel, rfl⟩ := Nat.exists_eq_succ_of_ne_zero (Nat.ne_zero_of_lt enough)
    cases valid with
    | regular small =>
      rw [writeNode, type]
      simp (disch := decide) only [bind, Except.bind, port, writeContentsFromPort_eq filePorts contents more small,
        writeLiteralStrings_cons, writeLiteralStrings_nil, pure, Except.pure, nodeBytes]
      simp
  | @executable file contents more type port =>
    obtain ⟨fuel, rfl⟩ := Nat.exists_eq_succ_of_ne_zero (Nat.ne_zero_of_lt enough)
    cases valid with
    | regular small =>
      have empty : ascii "" = [] := rfl
      rw [writeNode, type]
      simp (disch := decide) only [bind, Except.bind, port, writeContentsFromPort_eq filePorts contents more small,
        writeLiteralStrings_cons, writeLiteralStrings_nil, pure, Except.pure, nodeBytes]
      simp [empty]
  | @symlink file target size type link =>
    obtain ⟨fuel, rfl⟩ := Nat.exists_eq_succ_of_ne_zero (Nat.ne_zero_of_lt enough)
    cases valid with
    | symlink isTarget small =>
      rw [writeNode, type]
      simp (disch := decide) only [bind, Except.bind, link, writeString_eq target small,
        writeLiteralStrings_cons, writeLiteralStrings_nil, pure, Except.pure, nodeBytes]
      simp
  | @directory file size names entries type read same processed below ih =>
    obtain ⟨fuel, rfl⟩ := Nat.exists_eq_succ_of_ne_zero (Nat.ne_zero_of_lt enough)
    cases valid with
    | directory sorted isNames small valid =>
      have increasing : (entries.map (·.1)).Pairwise (· < ·) := by
        apply increasing_of_encode
        rw [map_map] at sorted ⊢
        exact sorted
      have each : ∀ entry ∈ entries, writeNode callbacks filePorts fuel (file ++ str "/" ++ entry.1) =
          .ok (nodeBytes entry.2) := by
        intro entry member
        have deeper : depth entry.2 < _ := depth_lt (mem_encoded member)
        exact ih entry member (valid _ (mem_encoded member)) fuel (by omega)
      rw [writeNode, type]
      simp only [bind, Except.bind, read]
      rw [postprocessEntries_eq same increasing processed, mapM_map,
        Fallible.mapM_eq_map (g := fun entry => Guix.writeString (ascii "entry") ++
          Guix.writeString (ascii "(") ++ Guix.writeString (ascii "name") ++
          Guix.writeString (encode entry.1) ++ Guix.writeString (ascii "node") ++ nodeBytes entry.2 ++
          Guix.writeString (ascii ")"))]
      · simp (disch := decide) only [writeLiteralStrings_cons, writeLiteralStrings_nil, pure, Except.pure, nodeBytes]
        rw [entriesBytes_eq_flatMap, flatMap_map, flatMap_def]
        simp
      · intro entry member
        simp (disch := decide) only [Function.comp, each entry member, writeString_eq entry.1 (small _ (mem_encoded member)),
          writeLiteralStrings_cons, writeLiteralStrings_nil, pure, Except.pure]
        simp

theorem writeFileTree_eq (filePorts : Bool) (describes : Describes callbacks file tree)
    (valid : ValidTree tree) (fuel : Nat)
    (enough : depth tree < fuel) : writeFileTree callbacks filePorts fuel file = .ok (archive tree) := by
  have version : writeString archiveVersion1 = .ok (Guix.writeString Guix.archiveVersion1) := by
    have isAscii : encode archiveVersion1 = Guix.archiveVersion1 := encode_str "nix-archive-1" (by decide)
    exact writeString_eq _ (by rw [isAscii]; decide)
  rw [writeFileTree, version, writeNode_eq filePorts describes valid fuel enough]
  rfl

/-! ### Files -/

/-- All names and targets are the UTF-8 encodings of strings. -/
inductive IsUtf8 : FileTree → Prop
  | regular {executable : Bool} {contents : Bytes} : IsUtf8 (.regular executable contents)
  | symlink {target : Str} : IsUtf8 (.symlink (encode target))
  | directory {entries : List (Str × FileTree)} (below : ∀ entry ∈ entries, IsUtf8 entry.2) :
      IsUtf8 (.directory (entries.map encodeEntry))

variable {path : Bytes}

theorem toLocale_ok : toLocale file = .ok path ↔ '\x00' ∉ file ∧ path = encode file := by
  rw [toLocale]
  split
  next nul => simp [nul]
  next noNul =>
    simp only [Except.ok.injEq, noNul, not_false_eq_true, true_and]
    exact eq_comm

theorem toLocale_entry {name : Str} (isPath : toLocale file = .ok path) (isName : IsName (encode name)) :
    toLocale (file ++ str "/" ++ name) = .ok (path ++ slash :: encode name) := by
  obtain ⟨noNul, rfl⟩ := toLocale_ok.mp isPath
  have noNul' := mt (zero_mem_encode_iff name).mpr isName.2.2.2.2
  have isSlash : encode (str "/") = [slash] := by decide
  rw [toLocale_ok, encode_append, encode_append, isSlash]
  constructor
  · simp only [mem_append, not_or]
    exact ⟨⟨noNul, by decide⟩, noNul'⟩
  · simp

variable {files : Files}

theorem lstat_eq {found : Loc × Node} (isPath : toLocale file = .ok path)
    (isFound : files.lstat path = .ok found) : lstat files file = .ok found := by
  rw [lstat, isPath]
  simp only [bind, Except.bind, isFound]
  rfl

theorem not_dots {name : Str} (isName : IsName (encode name)) : name ∉ [str ".", str ".."] := by
  simp only [mem_cons, not_mem_nil, or_false, not_or]
  constructor
  · rintro rfl
    exact isName.2.1 (by decide)
  · rintro rfl
    exact isName.2.2.1 (by decide)

theorem selectEntries_eq {directory : Str}
    (there : ∀ base ∈ names, ∃ found, lstat files (directory ++ str "/" ++ base) = .ok found) :
    selectEntries files (fun _ _ => true) directory names = .ok names := by
  induction names with
  | nil => rfl
  | cons base rest ih =>
    obtain ⟨found, isFound⟩ := there base mem_cons_self
    rw [selectEntries, isFound, ih (forall_mem_cons.mp there).2]
    rfl

theorem mapM_fromLocale_encode {names : List Bytes} {strings : List Str}
    (perm : names.Perm (strings.map encode)) :
    ∃ decoded, names.mapM fromLocale = .ok decoded ∧ decoded.Perm strings := by
  refine ⟨names.map fun name => (decode name).getD [], Fallible.mapM_eq_map ?_, ?_⟩
  · intro name member
    obtain ⟨s, _, rfl⟩ := mem_map.mp (perm.mem_iff.mp member)
    simp [fromLocale, encode]
  · have same := perm.map fun name => (decode name).getD []
    simpa [Function.comp_def, encode] using same

variable {loc : Loc} {entries : List (Str × FileTree)}

theorem entries_perm
    (holds : files.Holds loc (.directory (entries.map encodeEntry)))
    (increasing : (entries.map (·.1)).Pairwise (· < ·)) :
    (files.entries loc).Perm ((entries.map (·.1)).map encode) := by
  have distinct : (entries.map (·.1)).Nodup := increasing.imp fun less => ne_of_irrefl less
  have distinct' : ((entries.map (·.1)).map encode).Nodup :=
    distinct.map fun _ _ same => encode_injective same
  rw [perm_ext_iff_of_nodup (files.nodup_entries loc) distinct']
  intro name
  rw [holds.mem_entries, map_map, map_map]
  rfl

theorem scandir_eq
    (holds : files.Holds loc (.directory (entries.map encodeEntry)))
    (increasing : (entries.map (·.1)).Pairwise (· < ·))
    (noDots : ∀ name ∈ entries.map (·.1), name ∉ [str ".", str ".."]) :
    scandir files loc (fun entry => entry ∉ [str ".", str ".."]) = .ok (entries.map (·.1)) := by
  have read : ([dot, dotDot] ++ files.entries loc).Perm (([str ".", str ".."] ++ entries.map (·.1)).map encode) := by
    exact (entries_perm holds increasing).append_left _
  obtain ⟨names, isNames, perm⟩ := mapM_fromLocale_encode read
  have kept : (names.filter fun entry => entry ∉ [str ".", str ".."]).Perm (entries.map (·.1)) := by
    have all : (entries.map (·.1)).filter (fun entry => entry ∉ [str ".", str ".."]) = entries.map (·.1) :=
      filter_eq_self.mpr fun name member => decide_eq_true (noDots name member)
    have filtered := perm.filter fun entry => entry ∉ [str ".", str ".."]
    rw [filter_append, all] at filtered
    simpa using filtered
  have sorted : sortBy id (names.filter fun entry => entry ∉ [str ".", str ".."]) = entries.map (·.1) := by
    have distinct : (entries.map (·.1)).Nodup := increasing.imp fun less => ne_of_irrefl less
    rw [← eraseDups_sortBy_eq (fun _ => kept.mem_iff) increasing, eraseDups_eq_self]
    exact (sortBy_perm id _).nodup_iff.mpr (kept.nodup_iff.mpr distinct)
  rw [scandir, isNames]
  simp only [bind, Except.bind, pure, Except.pure, sorted]

theorem describes_writeFile (isUtf8 : IsUtf8 tree) (valid : ValidTree tree) (file : Str) (path : Bytes)
    (isPath : toLocale file = .ok path) (loc : Loc) (found : files.lstat path = .ok (loc, tree.node))
    (holds : files.Holds loc tree) :
    Describes (writeFileCallbacks files fun _ _ => true) file tree := by
  induction isUtf8 generalizing file path loc with
  | @regular executable contents =>
    have isFile := lstat_eq isPath found
    cases executable with
    | false =>
      apply @Describes.regular _ file contents [] <;>
        simp [writeFileCallbacks, isFile, node, bind, Except.bind, pure, Except.pure]
    | true =>
      apply @Describes.executable _ file contents [] <;>
        simp [writeFileCallbacks, isFile, node, bind, Except.bind, pure, Except.pure]
  | @symlink target =>
    have isFile := lstat_eq isPath found
    apply Describes.symlink
    · simp [writeFileCallbacks, isFile, node, bind, Except.bind, pure, Except.pure]
      rfl
    · simp [writeFileCallbacks, isFile, node, bind, Except.bind, fromLocale, encode]
  | @directory entries below ih =>
    cases valid with
    | directory sorted isNames small valid =>
      have isDirectory := lstat_eq isPath found
      have increasing : (entries.map (·.1)).Pairwise (· < ·) := by
        apply increasing_of_encode
        rw [map_map] at sorted ⊢
        exact sorted
      have isName : ∀ entry ∈ entries, IsName (encode entry.1) := fun entry member =>
        isNames _ (mem_encoded member)
      have noDots : ∀ name ∈ entries.map (·.1), name ∉ [str ".", str ".."] := by
        intro name member
        obtain ⟨entry, isEntry, rfl⟩ := mem_map.mp member
        exact not_dots (isName entry isEntry)
      have distinct := sorted.imp fun less => ne_of_irrefl less
      have at' : ∀ entry ∈ entries, files.Holds (loc ++ [encode entry.1]) entry.2 := fun entry member =>
        holds.entry distinct (mem_encoded member)
      have found' : ∀ entry ∈ entries, files.lstat (path ++ slash :: encode entry.1) =
          .ok (loc ++ [encode entry.1], entry.2.node) := fun entry member =>
        Files.lstat_entry found (isName entry member) (at' entry member).node
      apply @Describes.directory _ file 0 (entries.map (·.1)) entries
      · simp [writeFileCallbacks, isDirectory, node, bind, Except.bind, pure, Except.pure]
      · simp only [writeFileCallbacks, isDirectory, bind, Except.bind]
        rw [scandir_eq holds increasing noDots]
        apply selectEntries_eq
        intro base member
        obtain ⟨entry, isEntry, rfl⟩ := mem_map.mp member
        exact ⟨_, lstat_eq (toLocale_entry isPath (isName entry isEntry)) (found' entry isEntry)⟩
      · exact fun name => ⟨And.left, fun member => ⟨member, noDots name member⟩⟩
      · exact .inr ⟨rfl, increasing, noDots⟩
      · intro entry member
        exact ih entry member (valid _ (mem_encoded member)) _ _ (toLocale_entry isPath (isName entry member)) _
          (found' entry member) (at' entry member)

/-- The client writes what the daemon writes, from files and from any description of the tree. -/
theorem write_eq_dumpPath {tree : FileTree} (valid : ValidTree tree) (isUtf8 : IsUtf8 tree) {files : Files}
    {file : Str} {path : Bytes} {loc : Loc} (isPath : toLocale file = .ok path)
    (found : files.lstat path = .ok (loc, tree.node)) (holds : files.Holds loc tree) (fuel : Nat)
    (enough : depth tree < fuel) :
    ∃ bytes, dumpPath files (fun _ => true) fuel path = .ok bytes ∧
      (∀ filePorts, writeFile files (fun _ _ => true) filePorts fuel file = .ok bytes) ∧
      ∀ callbacks file', Describes callbacks file' tree →
        ∀ filePorts, writeFileTree callbacks filePorts fuel file' = .ok bytes := by
  obtain ⟨noNul, rfl⟩ := toLocale_ok.mp isPath
  have described := describes_writeFile isUtf8 valid file _ isPath loc found holds
  exact ⟨archive tree, dumpPath_eq valid fuel enough _ (zero_notMem_encode file noNul) loc found holds,
    fun filePorts => writeFileTree_eq filePorts described valid fuel enough,
    fun callbacks file' describes filePorts => writeFileTree_eq filePorts describes valid fuel enough⟩

theorem smallTree_isUtf8 : IsUtf8 smallTree := by
  refine @IsUtf8.directory [(str "a", .symlink (encode (str "b"))), ([Char.ofNat 233], .regular true [1])] ?_
  rintro entry (_ | ⟨_, _ | ⟨_, ⟨⟩⟩⟩)
  · exact .symlink
  · exact .regular

theorem write_eq_dumpPath_small :
    ∃ bytes, dumpPath smallFiles (fun _ => true) 2 (ascii "/d") = .ok bytes ∧
      (∀ filePorts, writeFile smallFiles (fun _ _ => true) filePorts 2 (str "/d") = .ok bytes) ∧
      ∀ callbacks file', Describes callbacks file' smallTree →
        ∀ filePorts, writeFileTree callbacks filePorts 2 file' = .ok bytes :=
  write_eq_dumpPath smallTree_valid smallTree_isUtf8 (by decide) smallFiles_lstat smallFiles_holds 2 (by decide)

end Guix.Client.Serialization
