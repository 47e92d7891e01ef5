import Guix.Build.Union
import Mathlib.Algebra.Order.BigOperators.Group.List
import Mathlib.Algebra.Order.Ring.Nat
import Mathlib.Data.List.Induction

/-!
# What a union of directories shows

The files at a path of the output are compared with those that the inputs have there. Where all
of them are files, one is linked: the first when `file=?` finds them equal, otherwise the one
that the resolver chooses. As `file=?` only compares how many bytes it reads, files of the same
size count as equal, whatever is in them.
-/

namespace Guix.Build.Union

open Client Sorting Hoare List Assoc

/-! ### Comparing files -/

section Compare

theorem getBytevectorN_fst_eq_iff {port1 port2 : Bytes} (same : port1.length = port2.length) :
    (getBytevectorN port1).1 = (getBytevectorN port2).1 := by
  have empty : port1 = [] ↔ port2 = [] := by
    rw [← length_eq_zero_iff, same, length_eq_zero_iff]
  simp only [getBytevectorN, empty, same]
  split <;> rfl

/-- The loop cannot tell files of the same length apart. -/
theorem compareLoop_of_length {fuel : Nat} {port1 port2 : Bytes} (same : port1.length = port2.length)
    (enough : port1.length < fuel) : compareLoop fuel port1 port2 = true := by
  induction fuel generalizing port1 port2 with
  | zero => omega
  | succ fuel ih =>
    have counts := getBytevectorN_fst_eq_iff same
    simp only [compareLoop, counts, decide_true, Bool.true_and, Bool.or_eq_true, decide_eq_true_eq]
    by_cases empty : port2 = []
    · left
      rw [getBytevectorN, if_pos empty]
    · right
      have positive := length_pos_iff.mpr empty
      have some := length_pos_iff.mp (same ▸ positive)
      rw [getBytevectorN, getBytevectorN, if_neg some, if_neg empty]
      apply ih
      · rw [length_drop, length_drop, same]
      · rw [length_drop]
        omega

variable (view : FileView)

/-- What `file=?` decides: two files are there, with the same inode or, as regular files, of the
same size. -/
theorem fileEqual_iff (file1 file2 : Str) :
    fileEqual view file1 file2 = true ↔ ∃ st1 st2, view.stat file1 = some st1 ∧ view.stat file2 = some st2 ∧
      (st1.ino = st2.ino ∨ (st1.type = .regular ∧ st2.type = .regular ∧ st1.size = st2.size)) := by
  rw [fileEqual]
  cases stat1 : view.stat file1 with
  | none => simp
  | some st1 =>
    cases stat2 : view.stat file2 with
    | none => simp
    | some st2 =>
      simp only [Bool.or_eq_true, decide_eq_true_eq, Bool.and_eq_true]
      constructor
      · rintro (same | ⟨⟨⟨regular1, regular2⟩, size⟩, _⟩)
        · exact ⟨st1, st2, rfl, rfl, .inl same⟩
        · exact ⟨st1, st2, rfl, rfl, .inr ⟨regular1, regular2, size⟩⟩
      · rintro ⟨_, _, ⟨⟩, ⟨⟩, same | ⟨regular1, regular2, size⟩⟩
        · exact .inl same
        · refine .inr ⟨⟨⟨regular1, regular2⟩, size⟩, compareLoop_of_length ?_ (Nat.lt_succ_self _)⟩
          rw [← view.size_eq file1 st1 stat1 regular1, ← view.size_eq file2 st2 stat2 regular2, size]

end Compare

/-! ### Tables -/

section Table

variable (view : FileView)

/-- The directories that have the file. -/
def containing (dirs : List Str) (file : Str) : List Str := dirs.filter (file ∈ filesInDirectory view ·)

theorem filesInDirectory_nodup (dir : Str) : (filesInDirectory view dir).Nodup :=
  (sortBy_perm id _).nodup_iff.mpr ((view.readdir_nodup dir).filter _)

theorem lookup_addAll (dir : Str) {names : List Str} (distinct : names.Nodup) (table : Table) (file : Str) :
    (names.foldl (addToTable dir) table).lookup file =
      if file ∈ names then some (dir :: hashRef table file) else table.lookup file := by
  induction names generalizing table with
  | nil => simp
  | cons name names ih =>
    rw [nodup_cons] at distinct
    rw [foldl_cons, ih distinct.2, addToTable, hashRef, hashSet]
    by_cases isName : file = name
    · subst isName
      simp [distinct.1, lookup_set_self]
    · rw [lookup_set_of_ne isName]
      simp [isName, hashRef]

theorem nodup_addAll (dir : Str) (names : List Str) {table : Table} (distinct : (table.map (·.1)).Nodup) :
    ((names.foldl (addToTable dir) table).map (·.1)).Nodup := by
  induction names generalizing table with
  | nil => exact distinct
  | cons name names ih => exact ih (nodup_set name _ distinct)

/-- The table has the directories of each file, the last one first. -/
theorem lookup_populate (dirs : List Str) (file : Str) :
    (populate view dirs).lookup file =
      if containing view dirs file = [] then none else some (containing view dirs file).reverse := by
  induction dirs using reverseRecOn with
  | nil => rfl
  | append_singleton dirs dir ih =>
    have last : populate view (dirs ++ [dir]) =
        (filesInDirectory view dir).foldl (addToTable dir) (populate view dirs) := by
      rw [populate, foldl_append]
      rfl
    have earlier : hashRef (populate view dirs) file = (containing view dirs file).reverse := by
      rw [hashRef, ih]
      split
      next none => rw [none]; rfl
      next => rfl
    have splits : containing view (dirs ++ [dir]) file =
        containing view dirs file ++ if file ∈ filesInDirectory view dir then [dir] else [] := by
      simp only [containing, filter_append, filter_cons, filter_nil, decide_eq_true_eq]
    rw [last, lookup_addAll dir (filesInDirectory_nodup view dir), earlier, ih, splits]
    split
    next => simp
    next => simp

theorem nodup_populate (dirs : List Str) : ((populate view dirs).map (·.1)).Nodup := by
  induction dirs using reverseRecOn with
  | nil => exact nodup_nil
  | append_singleton dirs dir ih =>
    rw [populate, foldl_append]
    exact nodup_addAll dir _ ih

theorem mem_populate_iff (dirs : List Str) (file : Str) (found : List Str) :
    (file, found) ∈ populate view dirs ↔
      containing view dirs file ≠ [] ∧ found = (containing view dirs file).reverse := by
  have iff : (file, found) ∈ populate view dirs ↔ (populate view dirs).lookup file = some found :=
    ⟨lookup_of_mem (nodup_populate view dirs), mem_of_lookup⟩
  rw [iff, lookup_populate]
  split
  next none => simp [none]
  next some => simp [some, eq_comm]

end Table

/-! ### Paths -/

variable {inputs : List Str} {file : Str}

section Paths

variable (view : FileView)

/-- A path that there is below a file. -/
def hasPath : Str → List Str → Bool
  | _, [] => true
  | file, name :: rest => fileIsDirectory view file && decide (name ∈ filesInDirectory view file) &&
      hasPath (entryName file name) rest

def below (file : Str) (path : List Str) : Str := path.foldl entryName file

/-- The files at a path, of the inputs that have it. -/
def filesAt (inputs : List Str) (path : List Str) : List Str :=
  (inputs.filter (hasPath view · path)).map (below · path)

/-- The inputs for an entry of the output. -/
def children (inputs : List Str) (file : Str) : List Str := (containing view inputs file).map (entryName · file)

abbrev Directories (inputs : List Str) : Prop := ∀ input ∈ inputs, fileIsDirectory view input = true

abbrev Plain (inputs : List Str) : Prop := ∀ input ∈ inputs, fileIsDirectory view input = false

theorem filesAt_nil (inputs : List Str) : filesAt view inputs [] = inputs := by
  simp [filesAt, hasPath, below]

theorem filesAt_singleton (input : Str) (path : List Str) :
    filesAt view [input] path = if hasPath view input path then [below input path] else [] := by
  by_cases has : hasPath view input path
  · simp [filesAt, has]
  · simp [filesAt, has]

theorem filesAt_cons {inputs : List Str} (file : Str) (rest : List Str)
    (dirs : Directories view inputs) :
    filesAt view inputs (file :: rest) = filesAt view (children view inputs file) rest := by
  have same : inputs.filter (hasPath view · (file :: rest)) =
      (containing view inputs file).filter fun input => hasPath view (entryName input file) rest := by
    rw [containing, filter_filter]
    apply filter_congr
    intro input member
    rw [hasPath, dirs input member, Bool.true_and, Bool.and_comm]
  rw [filesAt, same, filesAt, children, filter_map, map_map]
  rfl

/-- Only directories have files below them. -/
theorem filesAt_cons_of_files {inputs : List Str} (file : Str) (rest : List Str)
    (files : Plain view inputs) : filesAt view inputs (file :: rest) = [] := by
  rw [filesAt, map_eq_nil_iff, filter_eq_nil_iff]
  intro input member
  rw [hasPath, files input member]
  simp

/-- A path is a directory in one input, and not in another. -/
def Mixed (inputs : List Str) : Prop :=
  ∃ path, ∃ file1 ∈ filesAt view inputs path, ∃ file2 ∈ filesAt view inputs path,
    fileIsDirectory view file1 = true ∧ fileIsDirectory view file2 = false

variable {view}

theorem Mixed.of_child (dirs : Directories view inputs)
    (mixed : Mixed view (children view inputs file)) : Mixed view inputs := by
  obtain ⟨path, mixed⟩ := mixed
  rw [← filesAt_cons view file path dirs] at mixed
  exact ⟨file :: path, mixed⟩

theorem Mixed.child (dirs : Directories view inputs)
    (mixed : Mixed view inputs) : ∃ file, Mixed view (children view inputs file) := by
  obtain ⟨path, file1, member1, file2, member2, isDir, isFile⟩ := mixed
  cases path with
  | nil =>
    rw [filesAt_nil] at member2
    cases isFile.symm.trans (dirs file2 member2)
  | cons file rest =>
    rw [filesAt_cons view file rest dirs] at member1 member2
    exact ⟨file, rest, file1, member1, file2, member2, isDir, isFile⟩

theorem not_mixed_of_files (files : Plain view inputs) : ¬ Mixed view inputs := by
  rintro ⟨path, file1, member1, file2, member2, isDir, isFile⟩
  cases path with
  | nil =>
    rw [filesAt_nil] at member1
    cases isDir.symm.trans (files file1 member1)
  | cons file rest =>
    rw [filesAt_cons_of_files view file rest files] at member1
    cases member1

theorem not_mixed_singleton (input : Str) : ¬ Mixed view [input] := by
  rintro ⟨path, file1, member1, file2, member2, isDir, isFile⟩
  rw [filesAt_singleton] at member1 member2
  split at member1
  next has =>
    rw [if_pos has] at member2
    cases mem_singleton.mp member1
    cases mem_singleton.mp member2
    cases isDir.symm.trans isFile
  next => cases member1

/-- What a path of the output leads to: a directory of the union, or a file behind a link. -/
inductive Place
  | directory
  | file (name : Str)
  deriving DecidableEq

variable (view)

def Place.isDirectory : Place → Bool
  | .directory => true
  | .file name => fileIsDirectory view name

def Tree.resolve : List Str → Tree → Option Place
  | path, .symlink target => if hasPath view target path then some (.file (below target path)) else none
  | [], .directory _ => some .directory
  | name :: rest, .directory entries => (entries.lookup name).bind (Tree.resolve rest)

end Paths

/-! ### What is built -/

variable {entries : List (Str × Tree)}
variable {calls calls' : List (List Str)}

section Described

variable (view : FileView) (resolve : List Str → Option Str)

/-- The file that is linked where all inputs have files. -/
def choice (files : List Str) : Option Str := if allSame view files then files.head? else resolve files

/-- What there is in the output at each path, by what the inputs have there. -/
structure Described (inputs : List Str) (built : Option Tree) (calls : List (List Str)) : Prop where
  absent : ∀ path, filesAt view inputs path = [] → built.bind (Tree.resolve view path) = none
  directory : ∀ path, ∀ file ∈ filesAt view inputs path, fileIsDirectory view file = true →
    ∃ place, built.bind (Tree.resolve view path) = some place ∧ place.isDirectory view = true
  file : ∀ path, (∀ file ∈ filesAt view inputs path, fileIsDirectory view file = false) →
    filesAt view inputs path ≠ [] →
    built.bind (Tree.resolve view path) = (choice view resolve (filesAt view inputs path)).map .file ∧
      (allSame view (filesAt view inputs path) = false → filesAt view inputs path ∈ calls)

variable {view resolve}

theorem Described.later {built : Option Tree} (described : Described view resolve inputs built calls)
    (later : calls ⊆ calls') :
    Described view resolve inputs built calls' where
  absent := described.absent
  directory := described.directory
  file path files some := (described.file path files some).imp_right fun called differ => later (called differ)

theorem described_nil (calls : List (List Str)) : Described view resolve [] none calls where
  absent _ _ := rfl
  directory _ _ member := absurd member not_mem_nil
  file _ _ some := absurd rfl some

/-- A link to the only input shows all there is. -/
theorem described_link (input : Str) (calls : List (List Str)) :
    Described view resolve [input] (some (.symlink input)) calls := by
  have resolved : ∀ path, (some (Tree.symlink input)).bind (Tree.resolve view path) =
      if hasPath view input path then some (.file (below input path)) else none := by
    intro path
    cases path <;> rfl
  refine ⟨fun path none => ?_, fun path file member isDir => ?_, fun path files some => ?_⟩
  · rw [resolved]
    rw [filesAt_singleton] at none
    split at none
    next => cases none
    next has => rw [if_neg has]
  · rw [resolved]
    rw [filesAt_singleton] at member
    split at member
    next has =>
      rw [if_pos has]
      cases mem_singleton.mp member
      exact ⟨_, rfl, isDir⟩
    next => cases member
  · rw [resolved]
    rw [filesAt_singleton] at some ⊢
    split at some
    next has =>
      rw [if_pos has, if_pos has]
      exact ⟨rfl, fun differ => by cases differ⟩
    next => exact absurd rfl some

/-- Inputs are described by what there is under each name, and by what they are themselves. -/
theorem described_of_below {built : Option Tree} {inputs' : Str → List Str} {built' : Str → Option Tree}
    (sameFiles : ∀ name rest, filesAt view inputs (name :: rest) = filesAt view (inputs' name) rest)
    (sameBuilt : ∀ name rest,
      built.bind (Tree.resolve view (name :: rest)) = (built' name).bind (Tree.resolve view rest))
    (each : ∀ name, Described view resolve (inputs' name) (built' name) calls)
    (absent : inputs = [] → built.bind (Tree.resolve view []) = none)
    (directory : ∀ file ∈ inputs, fileIsDirectory view file = true →
      ∃ place, built.bind (Tree.resolve view []) = some place ∧ place.isDirectory view = true)
    (files : (∀ file ∈ inputs, fileIsDirectory view file = false) → inputs ≠ [] →
      built.bind (Tree.resolve view []) = (choice view resolve inputs).map .file ∧
        (allSame view inputs = false → inputs ∈ calls)) :
    Described view resolve inputs built calls := by
  constructor <;> intro path <;> cases path
  case absent.nil | directory.nil | file.nil => rwa [filesAt_nil]
  all_goals rw [sameFiles, sameBuilt]
  · exact (each _).absent _
  · exact (each _).directory _
  · exact (each _).file _

/-- Where all inputs are files, there is at most a link to one of them. -/
theorem described_files (files : Plain view inputs)
    (chooses : ∀ file, choice view resolve inputs = some file → file ∈ inputs)
    (called : allSame view inputs = false → inputs ∈ calls) :
    Described view resolve inputs ((choice view resolve inputs).map .symlink) calls := by
  have resolved : ((choice view resolve inputs).map Tree.symlink).bind (Tree.resolve view []) =
      (choice view resolve inputs).map .file := by
    cases choice view resolve inputs <;> rfl
  refine described_of_below ?_ (fun name rest => ?_) (fun _ => described_nil calls) (fun none => ?_)
    (fun file member isDir => ?_) fun _ _ => ⟨resolved, called⟩
  · exact (filesAt_cons_of_files view · · files)
  · -- nothing is below a file
    cases chosen : choice view resolve inputs with
    | none => rfl
    | some file =>
      have noDir := files file (chooses file chosen)
      simp [Tree.resolve, hasPath, noDir]
  · rw [resolved, Option.map_eq_none_iff, Option.eq_none_iff_forall_ne_some]
    intro file chosen
    exact not_mem_nil (none ▸ chooses file chosen)
  · cases isDir.symm.trans (files file member)

theorem described_directory (dirs : Directories view inputs)
    (nonempty : inputs ≠ [])
    (each : ∀ file, Described view resolve (children view inputs file) (entries.lookup file) calls) :
    Described view resolve inputs (some (.directory entries)) calls := by
  refine described_of_below (filesAt_cons view · · dirs) (fun _ _ => rfl) each
    (fun none => absurd none nonempty) (fun _ _ _ => ⟨.directory, rfl, rfl⟩) fun files => ?_
  obtain ⟨input, member⟩ := exists_mem_of_ne_nil inputs nonempty
  cases (files input member).symm.trans (dirs input member)

end Described

/-! ### The union -/

section Spec

variable {view : FileView} {options : Options}
variable (view) in
/-- Every call of the resolver so far was about files that differ. -/
def Differing (calls : List (List Str)) : Prop := ∀ files ∈ calls, allSame view files = false

variable (view options) in
/-- What is known after the union of some inputs. -/
structure After (inputs : List Str) (calls : List (List Str)) (built : Option Tree)
    (calls' : List (List Str)) : Prop where
  differing : Differing view calls'
  later : calls ⊆ calls'
  unmixed : ¬ Mixed view inputs
  described : Described view options.resolveCollision inputs built calls'

variable (view options) in
/-- The union of what the directories have under a name is right, or they are mixed. -/
def Unites (union : List Str → UnionM (Option Tree)) (dirs : List Str) : Prop :=
  ∀ file, children view dirs file ≠ [] → ∀ calls, Differing view calls →
    wp (union (children view dirs file)) (After view options (children view dirs file) calls)
      (fun _ _ => Mixed view (children view dirs file)) calls

theorem lookup_built {results : List (Str × Option Tree)} (distinct : (results.map (·.1)).Nodup)
    (file : Str) :
    (results.filterMap fun (file, built) => built.map ((file, ·))).lookup file = (results.lookup file).join := by
  induction results with
  | nil => rfl
  | cons result results ih =>
    obtain ⟨name, built⟩ := result
    rw [map_cons, nodup_cons] at distinct
    have rest := ih distinct.2
    by_cases same : file = name
    · subst same
      have notLater : (results.lookup file).join = none := by
        rw [lookup_eq_none_iff.mpr distinct.1]
        rfl
      cases built with
      | none => simpa [notLater] using rest
      | some tree => simp
    · cases built with
      | none => simpa [lookup_cons, beq_false_of_ne same] using rest
      | some tree => simpa [lookup_cons, beq_false_of_ne same] using rest

/-- Each entry is the union of what the directories have under its name. -/
theorem wp_unionOfDirectories {union : List Str → UnionM (Option Tree)} {dirs : List Str}
    (differing : Differing view calls) (each : Unites view options union dirs) :
    wp (unionOfDirectories view options union dirs)
      (fun tree calls' => Differing view calls' ∧ calls ⊆ calls' ∧ ∃ entries, tree = .directory entries ∧
        ∀ file, ¬ Mixed view (children view dirs file) ∧
          Described view options.resolveCollision (children view dirs file) (entries.lookup file) calls')
      (fun _ _ => ∃ file, Mixed view (children view dirs file)) calls := by
  have perm := options.hashForEach_perm (populate view dirs)
  let good (entry : Str × List Str) (result : Str × Option Tree) (calls' : List (List Str)) : Prop :=
    result.1 = entry.1 ∧ ¬ Mixed view (children view dirs entry.1) ∧
      Described view options.resolveCollision (children view dirs entry.1) result.2 calls'
  rw [unionOfDirectories, wp_bind]
  refine wp_imp (wp_mapM_forall₂ _ _ (Differing view) (· ⊆ ·) good
    (fun _ _ => ∃ file, Mixed view (children view dirs file)) calls differing
    (fun _ => List.Subset.refl _) (fun _ _ _ => List.Subset.trans)
    (fun _ _ _ _ later isGood => ⟨isGood.1, isGood.2.1, isGood.2.2.later later⟩) ?_) ?_
  · rintro ⟨file, found⟩ member calls' differing'
    obtain ⟨some, rfl⟩ := (mem_populate_iff view dirs file found).mp (perm.mem_iff.mp member)
    have nonempty : children view dirs file ≠ [] := fun none => some (map_eq_nil_iff.mp none)
    rw [wp_bind, reverse_reverse]
    apply wp_mono (each file nonempty calls' differing')
    · intro built calls'' after
      exact ⟨after.differing, after.later, rfl, after.unmixed, after.described⟩
    · exact fun _ _ mixed => ⟨file, mixed⟩
  · rintro results calls' ⟨differing', later, made⟩
    refine ⟨differing', later, _, rfl, fun file => ?_⟩
    have sameKeys := keys_of_forall₂ made fun _ _ isGood => isGood.1
    have distinct : (results.map (·.1)).Nodup := by
      rw [sameKeys]
      exact (perm.map _).nodup_iff.mpr (nodup_populate view dirs)
    rw [lookup_built distinct]
    by_cases none : containing view dirs file = []
    · -- no directory has the file
      have noChild : children view dirs file = [] := by rw [children, none]; rfl
      have notKey : file ∉ results.map (·.1) := by
        rw [sameKeys]
        intro isKey
        obtain ⟨⟨_, found⟩, member, rfl⟩ := mem_map.mp isKey
        exact ((mem_populate_iff view dirs _ found).mp (perm.mem_iff.mp member)).1 none
      rw [lookup_eq_none_iff.mpr notKey, noChild]
      refine ⟨?_, described_nil calls'⟩
      rintro ⟨path, file1, member1, _⟩
      cases member1
    · have entry : (file, (containing view dirs file).reverse) ∈ options.hashForEach (populate view dirs) :=
        perm.mem_iff.mpr ((mem_populate_iff view dirs file _).mpr ⟨none, rfl⟩)
      obtain ⟨⟨name, built⟩, member, isName, unmixed, described⟩ := made.exists_of_mem entry
      cases isName
      rw [lookup_of_mem distinct member]
      exact ⟨unmixed, described⟩

theorem depth_children {fuel : Nat} (enough : ∀ input ∈ inputs, view.depth input < fuel + 1)
    (file : Str) : ∀ child ∈ children view inputs file, view.depth child < fuel := by
  intro child member
  obtain ⟨input, isInput, rfl⟩ := mem_map.mp member
  obtain ⟨inInputs, hasFile⟩ := mem_filter.mp isInput
  rw [decide_eq_true_eq, filesInDirectory, mem_sortBy, mem_filter, decide_eq_true_eq] at hasFile
  have lower := view.depth_lt input file hasFile.1 hasFile.2.1 hasFile.2.2
  have := enough input inInputs
  omega

theorem depth_lt_unionFuel {input : Str} (member : input ∈ inputs) :
    view.depth input < unionFuel view inputs + 1 := by
  have isDepth : view.depth input ∈ inputs.map view.depth := mem_map.mpr ⟨input, member, rfl⟩
  have le := single_le_sum (fun _ _ => Nat.zero_le _) _ isDepth
  exact Nat.lt_succ_of_lt (Nat.lt_succ_of_le le)

/-- The union of directories, when the unions of the entries are right. -/
theorem wp_union_directories {union : List Str → UnionM (Option Tree)} (differing : Differing view calls)
    (nonempty : inputs ≠ []) (dirs : Directories view inputs)
    (each : Unites view options union inputs) :
    wp (do return some (← unionOfDirectories view options union inputs)) (After view options inputs calls)
      (fun _ _ => Mixed view inputs) calls := by
  rw [wp_bind]
  apply wp_mono (wp_unionOfDirectories differing each)
  · rintro tree calls' ⟨differing', later, entries, rfl, described⟩
    refine ⟨differing', later, fun mixed => ?_, described_directory dirs nonempty fun file => (described file).2⟩
    obtain ⟨file, mixed⟩ := mixed.child dirs
    exact (described file).1 mixed
  · rintro _ _ ⟨file, mixed⟩
    exact mixed.of_child dirs

variable (chooses : ∀ files file, options.resolveCollision files = some file → file ∈ files)
include chooses

theorem choice_mem {files : List Str} (chosen : choice view options.resolveCollision files = some file) :
    file ∈ files := by
  rw [choice] at chosen
  split at chosen
  next => exact mem_of_head? chosen
  next => exact chooses files file chosen

/-- Files that are the same are linked to the first of them, others to the choice of the
resolver. -/
theorem after_files (files : Plain view inputs) (differing : Differing view calls')
    (later : calls ⊆ calls') (called : allSame view inputs = false → inputs ∈ calls') :
    After view options inputs calls ((choice view options.resolveCollision inputs).map .symlink) calls' := by
  refine ⟨differing, later, not_mixed_of_files files, described_files files (fun file chosen => ?_) called⟩
  exact choice_mem chooses chosen

/-- The union of inputs that are split into directories and files. -/
theorem wp_union_many {union : List Str → UnionM (Option Tree)} (differing : Differing view calls) (nonempty : inputs ≠ [])
    (each : Unites view options union inputs) :
    wp (do
        let dirs := inputs.filter (fileIsDirectory view)
        match inputs.filter (!fileIsDirectory view ·) with
        | [] => return some (← unionOfDirectories view options union dirs)
        | file :: files =>
          if dirs = [] ∧ allSame view (file :: files) then return some (.symlink file)
          else resolveCollisions options dirs (file :: files))
      (After view options inputs calls) (fun _ _ => Mixed view inputs) calls := by
  split
  next noFiles =>
    have dirs : Directories view inputs := by
      simpa [filter_eq_nil_iff] using noFiles
    rw [filter_eq_self.mpr dirs]
    exact wp_union_directories differing nonempty dirs each
  next file files isFiles =>
    by_cases noDirs : inputs.filter (fileIsDirectory view) = []
    · have areFiles : Plain view inputs := by
        simpa [filter_eq_nil_iff] using noDirs
      have all : file :: files = inputs := by
        rw [← isFiles, filter_eq_self]
        simpa using areFiles
      rw [noDirs, all, wp_ite, resolveCollisions, if_pos rfl]
      refine ⟨fun same => ?_, fun differ => ?_⟩
      · have chosen : choice view options.resolveCollision inputs = some file := by
          rw [choice, if_pos same.2, ← all, head?_cons]
        have after := after_files chooses areFiles differing (List.Subset.refl calls) fun differ => by
          cases same.2.symm.trans differ
        rwa [chosen] at after
      · have notSame : allSame view inputs = false := by simpa using differ
        have chosen : choice view options.resolveCollision inputs = options.resolveCollision inputs := by
          rw [choice, notSame]
          rfl
        rw [wp_bind, wp_modify, wp_pure, ← chosen]
        refine after_files chooses areFiles ?_ (subset_append_left _ _) fun _ => by simp
        exact forall_mem_append.mpr ⟨differing, forall_mem_singleton.mpr notSame⟩
    · rw [if_neg fun both => noDirs both.1, resolveCollisions, if_neg noDirs, wp_throw]
      -- the inputs themselves are mixed
      obtain ⟨dir, isDir⟩ := exists_mem_of_ne_nil _ noDirs
      have isFile : file ∈ inputs.filter (!fileIsDirectory view ·) := by
        rw [isFiles]
        exact mem_cons_self
      refine ⟨[], dir, ?_, file, ?_, (mem_filter.mp isDir).2, by simpa using (mem_filter.mp isFile).2⟩
      · rw [filesAt_nil]
        exact (mem_filter.mp isDir).1
      · rw [filesAt_nil]
        exact (mem_filter.mp isFile).1

theorem union_spec (fuel : Nat) (inputs : List Str) (nonempty : inputs ≠ [])
    (enough : ∀ input ∈ inputs, view.depth input < fuel) (calls : List (List Str))
    (differing : Differing view calls) :
    wp (union view options fuel inputs) (After view options inputs calls) (fun _ _ => Mixed view inputs)
      calls := by
  induction fuel generalizing inputs calls with
  | zero =>
    obtain ⟨input, member⟩ := exists_mem_of_ne_nil inputs nonempty
    exact absurd (enough input member) (Nat.not_lt_zero _)
  | succ fuel ih =>
    have each : Unites view options (union view options fuel) inputs := fun file nonempty =>
      ih (children view inputs file) nonempty (depth_children enough file)
    match inputs, nonempty with
    | [input], nonempty =>
      rw [union, wp_ite]
      refine ⟨fun creates => ?_, fun _ => ?_⟩
      · have isDir : fileIsDirectory view input = true := (Bool.and_eq_true_iff.mp creates).2
        exact wp_union_directories differing nonempty (forall_mem_singleton.mpr isDir) each
      · rw [wp_pure]
        exact ⟨differing, List.Subset.refl _, not_mixed_singleton input, described_link input calls⟩
    | first :: second :: rest, nonempty =>
      rw [union]
      · generalize first :: second :: rest = inputs at *
        exact wp_union_many chooses differing nonempty each
      · exact fun input single => by cases single

end Spec

/-! ### The output as a whole -/

variable {path : List Str}

section Built

variable (view : FileView)

/-- What a file provides, for those that are not directories. -/
def provides (file : Str) : Option (FileType × Bytes) :=
  (view.stat file).map fun st => (st.type, if st.type = .regular then view.contents file else [])

/-- The output as a union of the inputs, and the calls of the resolver. -/
structure UnionOf (resolve : List Str → Option Str) (inputs : List Str) (output : Tree)
    (calls : List (List Str)) : Prop where
  directories : ∀ path place, output.resolve view path = some place →
    (path = [] ∨ filesAt view inputs path ≠ []) ∧
      ∀ file ∈ filesAt view inputs path, place.isDirectory view = fileIsDirectory view file
  present : ∀ path, filesAt view inputs path ≠ [] → (∃ place, output.resolve view path = some place) ∨
    (filesAt view inputs path ∈ calls ∧ resolve (filesAt view inputs path) = none)
  contents : ∀ path file, output.resolve view path = some (.file file) → fileIsDirectory view file = false →
    ∃ file' ∈ filesAt view inputs path, provides view file = provides view file'
  collisions : ∀ path, ∀ file1 ∈ filesAt view inputs path, ∀ file2 ∈ filesAt view inputs path,
    fileIsDirectory view file1 = false → fileIsDirectory view file2 = false →
    provides view file1 ≠ provides view file2 →
    filesAt view inputs path ∈ calls ∧
      output.resolve view path = (resolve (filesAt view inputs path)).map .file

/-- A union fails only for directories that collide with files. -/
def UnionBuilt (resolve : List Str → Option Str) (inputs : List Str) :
    EStateM.Result UnionError (List (List Str)) Tree → Prop
  | .ok output calls => UnionOf view resolve inputs output calls
  | .error _ _ => Mixed view inputs

/-- Two files are taken to be the same by their size. -/
def SameStat (file1 file2 : Str) : Prop :=
  ∃ st1 st2, view.stat file1 = some st1 ∧ view.stat file2 = some st2 ∧
    (st1.ino = st2.ino ∨ (st1.type = .regular ∧ st2.type = .regular ∧ st1.size = st2.size))

/-- At a path there are only files, all of them regular and of the size of the first (or the same
inode), that do not all provide the same. -/
def Confused (inputs : List Str) (path : List Str) : Prop :=
  ∃ first rest, filesAt view inputs path = first :: rest ∧
    (∀ file ∈ first :: rest, fileIsDirectory view file = false) ∧
    (∀ file ∈ rest, SameStat view file first) ∧ ∃ file ∈ rest, provides view file ≠ provides view first

variable {view}

theorem allSame_cons_iff (first : Str) (rest : List Str) :
    allSame view (first :: rest) = true ↔ ∀ file ∈ rest, SameStat view file first := by
  rw [allSame, all_eq_true]
  exact forall₂_congr fun file _ => fileEqual_iff view file first

/-- Files at one path that provide different things differ for `file=?`, unless it is confused. -/
theorem allSame_false (clear : ¬ Confused view inputs path)
    (files : Plain view (filesAt view inputs path)) {file1 file2 : Str}
    (member1 : file1 ∈ filesAt view inputs path) (member2 : file2 ∈ filesAt view inputs path)
    (differ : provides view file1 ≠ provides view file2) : allSame view (filesAt view inputs path) = false := by
  cases isFiles : filesAt view inputs path with
  | nil =>
    rw [isFiles] at member1
    cases member1
  | cons first rest =>
    rw [isFiles] at files member1 member2
    by_contra same
    have sameStat := (allSame_cons_iff first rest).mp (Bool.eq_true_of_not_eq_false same)
    -- all provide what the first provides
    have all : ∀ file ∈ first :: rest, provides view file = provides view first := by
      refine forall_mem_cons.mpr ⟨rfl, fun file inRest => ?_⟩
      by_contra other
      exact clear ⟨first, rest, isFiles, files, sameStat, file, inRest, other⟩
    exact differ ((all file1 member1).trans (all file2 member2).symm)

variable {options : Options}

/-- The files at a path are all directories or all not. -/
theorem unmixed_cases (unmixed : ¬ Mixed view inputs) (path : List Str) :
    Directories view (filesAt view inputs path) ∨ Plain view (filesAt view inputs path) := by
  by_cases dir : ∃ file ∈ filesAt view inputs path, fileIsDirectory view file = true
  · obtain ⟨file, member, isDir⟩ := dir
    left
    intro file' member'
    by_contra isFile
    exact unmixed ⟨path, file, member, file', member', isDir, Bool.eq_false_of_not_eq_true isFile⟩
  · right
    intro file member
    by_contra isDir
    exact dir ⟨file, member, Bool.eq_true_of_not_eq_false isDir⟩

section Paths

variable (chooses : ∀ files file, options.resolveCollision files = some file → file ∈ files)
  {inputs : List Str} {built : Option Tree} {calls : List (List Str)}
  (unmixed : ¬ Mixed view inputs) (described : Described view options.resolveCollision inputs built calls)

include chooses unmixed described

/-- A path of the output is one of the inputs, and of the same kind. -/
theorem Described.resolved {place : Place} (isPlace : built.bind (Tree.resolve view path) = some place) :
    filesAt view inputs path ≠ [] ∧
      (∀ file ∈ filesAt view inputs path, place.isDirectory view = fileIsDirectory view file) ∧
      ∀ file, place = .file file → fileIsDirectory view file = false → file ∈ filesAt view inputs path := by
  have nonempty : filesAt view inputs path ≠ [] := fun none => by
    cases isPlace.symm.trans (described.absent path none)
  rcases unmixed_cases unmixed path with dirs | files
  · obtain ⟨file, member⟩ := exists_mem_of_ne_nil _ nonempty
    obtain ⟨place', isPlace', isDir⟩ := described.directory path file member (dirs file member)
    cases isPlace.symm.trans isPlace'
    refine ⟨nonempty, fun file' member' => isDir.trans (dirs file' member').symm, ?_⟩
    rintro file' rfl isFile
    cases isDir.symm.trans isFile
  · have linked := (described.file path files nonempty).1
    rw [isPlace] at linked
    obtain ⟨file, chosen, rfl⟩ := Option.map_eq_some_iff.mp linked.symm
    have member := choice_mem chooses chosen
    refine ⟨nonempty, fun file' member' => (files file member).trans (files file' member').symm, ?_⟩
    rintro file' ⟨⟩ _
    exact member

omit chooses in
theorem Described.present (nonempty : filesAt view inputs path ≠ []) :
    (∃ place, built.bind (Tree.resolve view path) = some place) ∨
      (filesAt view inputs path ∈ calls ∧ options.resolveCollision (filesAt view inputs path) = none) := by
  rcases unmixed_cases unmixed path with dirs | files
  · obtain ⟨file, member⟩ := exists_mem_of_ne_nil _ nonempty
    obtain ⟨place, isPlace, _⟩ := described.directory path file member (dirs file member)
    exact .inl ⟨place, isPlace⟩
  · obtain ⟨linked, called⟩ := described.file path files nonempty
    cases chosen : choice view options.resolveCollision (filesAt view inputs path) with
    | some file => exact .inl ⟨.file file, by rw [linked, chosen]; rfl⟩
    | none =>
      rw [choice] at chosen
      split at chosen
      next => exact absurd (head?_eq_none_iff.mp chosen) nonempty
      next differ => exact .inr ⟨called (Bool.eq_false_of_not_eq_true differ), chosen⟩

omit chooses in
theorem Described.collision (differ : allSame view (filesAt view inputs path) = false)
    (member : file ∈ filesAt view inputs path) (isFile : fileIsDirectory view file = false) :
    filesAt view inputs path ∈ calls ∧
      built.bind (Tree.resolve view path) =
        (options.resolveCollision (filesAt view inputs path)).map .file := by
  have files := (unmixed_cases unmixed path).resolve_left fun dirs => by
    cases isFile.symm.trans (dirs file member)
  obtain ⟨linked, called⟩ := described.file path files (ne_nil_of_mem member)
  refine ⟨called differ, linked.trans ?_⟩
  rw [choice, differ]
  rfl

omit unmixed described in
/-- The directory that holds the entries of a union is the union, unless `file=?` is confused. -/
theorem unionOf_directory (dirs : Directories view inputs)
    (each : ∀ file, ¬ Mixed view (children view inputs file) ∧
      Described view options.resolveCollision (children view inputs file) (entries.lookup file) calls)
    (clear : ∀ path, ¬ Confused view inputs path) :
    UnionOf view options.resolveCollision inputs (.directory entries) calls := by
  by_cases none : inputs = []
  · -- the output is an empty directory
    subst none
    have nothing (path : List Str) (some : path ≠ []) : Tree.resolve view path (.directory entries) = none := by
      obtain ⟨name, rest, rfl⟩ := exists_cons_of_ne_nil some
      exact (each name).2.absent rest rfl
    refine ⟨fun path place isPlace => ⟨.inl ?_, fun _ member => absurd member not_mem_nil⟩,
      fun _ nonempty => absurd rfl nonempty, fun path file isPlace _ => ?_, fun _ _ member => absurd member not_mem_nil⟩
    · by_contra some
      cases isPlace.symm.trans (nothing path some)
    · by_cases root : path = []
      · subst root
        cases isPlace
      · cases isPlace.symm.trans (nothing path root)
  · have unmixed : ¬ Mixed view inputs := fun mixed => by
      obtain ⟨file, mixed⟩ := mixed.child dirs
      exact (each file).1 mixed
    have described := described_directory dirs none fun file => (each file).2
    refine ⟨fun path place isPlace => ?_, fun path nonempty => described.present unmixed nonempty,
      fun path file isPlace isFile => ?_, fun path file1 member1 file2 member2 isFile1 isFile2 differ => ?_⟩
    · obtain ⟨nonempty, sameKind, _⟩ := described.resolved chooses unmixed isPlace
      exact ⟨.inr nonempty, sameKind⟩
    · exact ⟨file, (described.resolved chooses unmixed isPlace).2.2 file rfl isFile, rfl⟩
    · have files := (unmixed_cases unmixed path).resolve_left fun dirs => by
        cases isFile1.symm.trans (dirs file1 member1)
      exact described.collision unmixed (allSame_false (clear path) files member1 member2 differ) member1 isFile1

end Paths

/-- The union of the inputs is built exactly when there is no path where `file=?` takes different
files for the same, or the union fails because of another path. -/
theorem unionBuild_built_iff (view : FileView) (options : Options) (inputs : List Str)
    (dirs : ∀ input ∈ inputs, fileIsDirectory view input = true)
    (chooses : ∀ files file, options.resolveCollision files = some file → file ∈ files) :
    UnionBuilt view options.resolveCollision inputs.eraseDups (unionBuild view options inputs []) ↔
      Mixed view inputs.eraseDups ∨ ∀ path, ¬ Confused view inputs.eraseDups path := by
  have dirs' : Directories view inputs.eraseDups := fun input member =>
    dirs input (mem_eraseDups.mp member)
  have enough : ∀ input ∈ inputs.eraseDups, view.depth input < unionFuel view inputs + 1 :=
    fun input member => depth_lt_unionFuel (mem_eraseDups.mp member)
  have start : Differing view [] := fun _ member => absurd member not_mem_nil
  have spec := wp_unionOfDirectories start fun file nonempty calls differing =>
    union_spec chooses (unionFuel view inputs) (children view inputs.eraseDups file) nonempty
      (depth_children enough file) calls differing
  rw [unionBuild]
  cases ran : unionOfDirectories view options (union view options (unionFuel view inputs)) inputs.eraseDups [] with
  | error e calls =>
    obtain ⟨file, mixed⟩ := wp_error spec ran
    have mixed := mixed.of_child dirs'
    exact iff_of_true mixed (.inl mixed)
  | ok output calls =>
    obtain ⟨differing, _, entries, rfl, each⟩ := wp_ok spec ran
    have unmixed : ¬ Mixed view inputs.eraseDups := fun mixed => by
      obtain ⟨file, mixed⟩ := mixed.child dirs'
      exact (each file).1 mixed
    rw [or_iff_right unmixed]
    constructor
    · rintro unionOf path ⟨first, rest, isFiles, files, sameStat, file, inRest, differ⟩
      -- the resolver is not called for files that count as the same
      have member : file ∈ first :: rest := mem_cons_of_mem first inRest
      have called := (unionOf.collisions path file (isFiles ▸ member) first
        (isFiles ▸ mem_cons_self) (files file member) (files first mem_cons_self) differ).1
      have notSame := differing _ called
      rw [isFiles, (allSame_cons_iff first rest).mpr sameStat] at notSame
      cases notSame
    · exact unionOf_directory chooses dirs' each

end Built

section Example

/-- Two directories with a file of the same name. -/
def twoFiles (contents1 contents2 : Bytes) : FileView where
  stat := fun file =>
    if file = str "/a" then some ⟨1, .directory, 0⟩
    else if file = str "/b" then some ⟨2, .directory, 0⟩
    else if file = str "/a/f" then some ⟨3, .regular, contents1.length⟩
    else if file = str "/b/f" then some ⟨4, .regular, contents2.length⟩
    else none
  contents := fun file => if file = str "/a/f" then contents1 else contents2
  size_eq := by
    intro file st isStat regular
    split at isStat
    next => cases isStat; cases regular
    next =>
      split at isStat
      next => cases isStat; cases regular
      next =>
        split at isStat
        next isFirst => cases isStat; rw [if_pos isFirst]
        next notFirst =>
          split at isStat
          next => cases isStat; rw [if_neg notFirst]
          next => cases isStat
  readdir := fun file => if file = str "/a" ∨ file = str "/b" then [str ".", str "..", str "f"] else []
  readdir_nodup := by
    intro file
    split
    · decide
    · exact nodup_nil
  depth := fun file => if file = str "/a" ∨ file = str "/b" then 1 else 0
  depth_lt := by
    intro file name member notDot notDotDot
    split at member
    next isDir =>
      have isF : name = str "f" := by simpa [notDot, notDotDot] using member
      subst isF
      rw [if_pos isDir]
      rcases isDir with rfl | rfl
      · decide
      · decide
    next => cases member

/-- The last of the files is chosen. -/
def chooseLast : Options where
  createAllDirectories := false
  resolveCollision := getLast?
  hashForEach := id
  hashForEach_perm := fun table => List.Perm.refl table

theorem twoFiles_dirs (contents1 contents2 : Bytes) :
    ∀ input ∈ [str "/a", str "/b"], fileIsDirectory (twoFiles contents1 contents2) input = true :=
  forall_mem_cons.mpr ⟨rfl, forall_mem_singleton.mpr rfl⟩

theorem twoFiles_clear {contents1 contents2 : Bytes} (differ : contents2.length ≠ contents1.length)
    (path : List Str) : ¬ Confused (twoFiles contents1 contents2) [str "/a", str "/b"] path := by
  have dirs := twoFiles_dirs contents1 contents2
  rintro ⟨first, rest, isFiles, files, sameStat, file, inRest, _⟩
  cases path with
  | nil =>
    cases isFiles
    cases (files _ mem_cons_self).symm.trans (dirs _ mem_cons_self)
  | cons name path =>
    rw [filesAt_cons _ name path dirs] at isFiles
    by_cases isF : name = str "f"
    · subst isF
      cases path with
      | nil =>
        cases isFiles
        obtain ⟨st1, st2, isStat1, isStat2, same⟩ := sameStat _ mem_cons_self
        cases isStat1
        cases isStat2
        rcases same with ino | ⟨_, _, size⟩
        · cases ino
        · exact differ size
      | cons name' path' =>
        cases isFiles
    · have noChild : children (twoFiles contents1 contents2) [str "/a", str "/b"] name = [] := by
        -- only the entries for the directory itself and its parent are left
        simp only [children, containing, filesInDirectory, mem_sortBy, twoFiles]
        simp [isF, or_iff_not_imp_left]
      rw [noChild] at isFiles
      cases isFiles

/-- Files of different sizes are reported, and the chosen one is linked. -/
theorem unionBuild_built_sizes :
    UnionBuilt (twoFiles [0] [1, 1]) getLast? [str "/a", str "/b"]
      (unionBuild (twoFiles [0] [1, 1]) chooseLast [str "/a", str "/b"] []) :=
  (unionBuild_built_iff (twoFiles [0] [1, 1]) chooseLast [str "/a", str "/b"] (twoFiles_dirs _ _)
    (fun _ _ chosen => mem_of_getLast? chosen)).mpr (.inr (twoFiles_clear (by decide)))

/-- Different files of the same size are not reported, and the first one is linked. -/
theorem unionBuild_confused :
    provides (twoFiles [0] [1]) (str "/a/f") ≠ provides (twoFiles [0] [1]) (str "/b/f") ∧
    unionBuild (twoFiles [0] [1]) chooseLast [str "/a", str "/b"] [] =
      .ok (.directory [(str "f", .symlink (str "/a/f"))]) [] := by
  refine ⟨by decide, rfl⟩

end Example

end Guix.Build.Union
