import Guix.Lib.FileSystem

/-!
# Trees of files

What a file system holds at a place and below it, as a tree.
-/

namespace FileSystem

open List Option

inductive FileTree
  | regular (executable : Bool) (contents : List UInt8)
  | symlink (target : List UInt8)
  | directory (entries : List (Name × FileTree))

variable {tree : FileTree}
variable {entries : List (Name × FileTree)} {name : Name}

namespace FileTree

/-- What is at the root of the tree. -/
def node : FileTree → Node
  | .regular executable contents => .regular executable contents
  | .symlink target => .symlink target
  | .directory _ => .directory

/-- The entry of a list of entries with a name. -/
def find (entries : List (Name × FileTree)) (name : Name) : Option FileTree :=
  (entries.find? fun entry => entry.1 = name).map (·.2)

def entry : FileTree → Name → Option FileTree
  | .directory entries, name => find entries name
  | .regular _ _, _ => none
  | .symlink _, _ => none

def subtree : FileTree → Loc → Option FileTree
  | tree, [] => some tree
  | tree, name :: rest => (tree.entry name).bind (·.subtree rest)

theorem find_append_self
    (new : name ∉ entries.map (·.1)) : find (entries ++ [(name, tree)]) name = some tree := by
  have absent : entries.find? (fun entry => entry.1 = name) = none := by
    rw [find?_eq_none]
    intro entry member same
    exact new (mem_map.mpr ⟨entry, member, of_decide_eq_true same⟩)
  rw [find, find?_append, absent]
  simp

theorem find_append_other {name' : Name}
    (other : name' ≠ name) : find (entries ++ [(name, tree)]) name' = find entries name' := by
  rw [find, find, find?_append]
  have absent : [(name, tree)].find? (fun entry => entry.1 = name') = none := by
    simp [other.symm]
  rw [absent, or_none]

theorem find_isSome_iff : (find entries name).isSome ↔ name ∈ entries.map (·.1) := by
  simp [find, List.mem_map]

theorem find_of_mem (distinct : (entries.map (·.1)).Nodup) {entry : Name × FileTree}
    (member : entry ∈ entries) : find entries entry.1 = some entry.2 := by
  induction entries with
  | nil => cases member
  | cons head tail ih =>
    rw [map_cons, nodup_cons] at distinct
    rcases mem_cons.mp member with rfl | inTail
    · simp [find]
    · have other : head.1 ≠ entry.1 := fun same => distinct.1 (same ▸ mem_map_of_mem inTail)
      have found := ih distinct.2 inTail
      rw [find] at found ⊢
      rw [find?_cons_of_neg (by simpa using other), found]

end FileTree

variable {files : Files} {loc : Loc} {a b c : Files} {dir : Loc} {files' : Files} {executable : Bool}
  {contents path : List UInt8}

namespace Files

/-- The file system has the tree at a place. -/
def Holds (files : Files) (loc : Loc) (tree : FileTree) : Prop :=
  ∀ names, files.node (loc ++ names) = (tree.subtree names).map FileTree.node

theorem Holds.node (holds : files.Holds loc tree) : files.node loc = some tree.node := by
  have root := holds []
  rwa [append_nil] at root

/-- A file or link has nothing below it. -/
theorem holds_of_node (there : files.node loc = some tree.node) (noEntries : ∀ name, tree.entry name = none)
    (notDirectory : tree.node ≠ .directory) :
    files.Holds loc tree := by
  intro names
  cases names with
  | nil => rwa [append_nil]
  | cons name rest =>
    rw [files.none_below (by rw [there]; simpa using notDirectory) (cons_ne_nil name rest),
      FileTree.subtree, noEntries name]
    rfl

/-- A directory holds its entries and nothing else. -/
theorem holds_directory_iff :
    files.Holds loc (.directory entries) ↔ files.node loc = some .directory ∧
      ∀ name, (∀ tree, FileTree.find entries name = some tree → files.Holds (loc ++ [name]) tree) ∧
        (FileTree.find entries name = none → files.node (loc ++ [name]) = none) := by
  constructor
  · intro holds
    refine ⟨holds.node, fun name => ⟨fun tree found names => ?_, fun absent => ?_⟩⟩
    · have below := holds (name :: names)
      rw [FileTree.subtree, FileTree.entry, found] at below
      rw [append_assoc]
      exact below
    · have below := holds [name]
      rw [FileTree.subtree, FileTree.entry, absent] at below
      exact below
  · rintro ⟨isDirectory, below⟩ names
    cases names with
    | nil => rwa [append_nil]
    | cons name rest =>
      rw [FileTree.subtree, FileTree.entry, show loc ++ name :: rest = loc ++ [name] ++ rest by simp]
      cases found : FileTree.find entries name with
      | some tree => exact (below name).1 tree found rest
      | none =>
        have absent := (below name).2 found
        by_cases last : rest = []
        · rw [last, append_nil, absent]
          rfl
        · rw [files.none_below (by rw [absent]; simp) last]
          rfl

theorem Holds.mem_entries (holds : files.Holds loc (.directory entries)) (name : Name) :
    name ∈ files.entries loc ↔ name ∈ entries.map (·.1) := by
  rw [files.mem_entries, ← FileTree.find_isSome_iff]
  obtain ⟨_, below⟩ := holds_directory_iff.mp holds
  cases found : FileTree.find entries name with
  | some tree => simp [((below name).1 tree found).node]
  | none => simp [(below name).2 found]

theorem Holds.entry (holds : files.Holds loc (.directory entries)) (distinct : (entries.map (·.1)).Nodup)
    {entry : Name × FileTree} (member : entry ∈ entries) : files.Holds (loc ++ [entry.1]) entry.2 :=
  ((holds_directory_iff.mp holds).2 entry.1).1 entry.2 (FileTree.find_of_mem distinct member)

/-- Everything outside of a place and what is below it stays as it is. -/
def SameOutside (loc : Loc) (files files' : Files) : Prop :=
  ∀ loc', ¬ loc <+: loc' → files'.node loc' = files.node loc'

theorem SameOutside.trans (first : SameOutside loc a b)
    (second : SameOutside loc b c) : SameOutside loc a c :=
  fun loc' outside => (second loc' outside).trans (first loc' outside)

theorem SameOutside.up (same : SameOutside (dir ++ [name]) files files') : SameOutside dir files files' :=
  fun loc' outside => same loc' fun below => outside ((prefix_append dir [name]).trans below)

/-- One file system has everything of another, and more at and below a place only. -/
structure Grows (loc : Loc) (files files' : Files) : Prop where
  same : SameOutside loc files files'
  extended : Extends files files'

theorem Grows.trans (first : Grows loc a b) (second : Grows loc b c) : Grows loc a c :=
  ⟨first.same.trans second.same, first.extended.trans second.extended⟩

section Changed

variable (files : Files) (dir loc : Loc) (name : Name) (node : Node) (fits : files.Fits dir name node)
  (change : Bool → List UInt8 → Bool × List UInt8) (entry : Change)

theorem extends_add : Extends files (files.add dir name node fits) := by
  have kept : ∀ loc node', files.node loc = some node' →
      (files.add dir name node fits).node loc = some node' := by
    intro loc node' there
    change files.addNode (dir ++ [name]) node loc = some node'
    rw [addNode, if_neg, there]
    rintro rfl
    rw [fits.free] at there
    cases there
  exact ⟨rfl, fun loc => kept loc _, fun loc target => kept loc _, fun loc x c there => ⟨x, c, kept loc _ there⟩⟩

theorem extends_change : Extends files (files.change loc change entry) := by
  refine ⟨rfl, fun loc' there => ?_, fun loc' target there => ?_, fun loc' x c there => ?_⟩
  · exact (files.changeNodes_eq_iff loc change loc' (by simp)).mpr there
  · exact (files.changeNodes_eq_iff loc change loc' (by simp)).mpr there
  · simp only [Files.change, changeNodes, there, map_some, changeNode]
    split
    next => exact ⟨_, _, rfl⟩
    next => exact ⟨_, _, rfl⟩

theorem sameOutside_add : SameOutside (dir ++ [name]) files (files.add dir name node fits) := by
  intro loc' outside
  change files.addNode (dir ++ [name]) node loc' = files.node loc'
  rw [addNode, if_neg]
  rintro rfl
  exact outside (prefix_refl _)

theorem sameOutside_change : SameOutside loc files (files.change loc change entry) := by
  intro loc' outside
  change files.changeNodes loc change loc' = files.node loc'
  rw [changeNodes, if_neg]
  rintro rfl
  exact outside (prefix_refl _)

@[simp] theorem node_add : (files.add dir name node fits).node (dir ++ [name]) = some node :=
  if_pos rfl

@[simp] theorem node_change : (files.change loc change entry).node loc = (files.node loc).map (changeNode change) :=
  if_pos rfl

theorem grows_add : Grows (dir ++ [name]) files (files.add dir name node fits) :=
  ⟨sameOutside_add files dir name node fits, extends_add files dir name node fits⟩

theorem grows_change : Grows loc files (files.change loc change entry) :=
  ⟨sameOutside_change files loc change entry, extends_change files loc change entry⟩

theorem grows_write (offset : Nat) (data : List UInt8) :
    Grows loc files (files.write loc offset data) := grows_change files loc _ _

theorem grows_setExecutable (executable : Bool) :
    Grows loc files (files.setExecutable loc executable) := grows_change files loc _ _

end Changed

theorem node_write (there : files.node loc = some (.regular executable contents)) (offset : Nat)
    (data : List UInt8) :
    (files.write loc offset data).node loc = some (.regular executable (overwrite contents data offset)) := by
  rw [write, node_change, there]
  rfl

theorem node_setExecutable (there : files.node loc = some (.regular executable contents))
    (executable' : Bool) :
    (files.setExecutable loc executable').node loc = some (.regular executable' contents) := by
  rw [setExecutable, node_change, there]
  rfl

/-- The mode of a directory is not kept. -/
theorem Holds.setExecutable (holds : files.Holds loc (.directory entries)) (executable : Bool) :
    (files.setExecutable loc executable).Holds loc (.directory entries) := by
  intro names
  rw [← holds names]
  change files.changeNodes loc _ (loc ++ names) = files.node (loc ++ names)
  rw [changeNodes]
  split
  next same =>
    rw [same, holds.node]
    rfl
  next => rfl

theorem Grows.up (grows : Grows (dir ++ [name]) files files') : Grows dir files files' := ⟨grows.same.up, grows.extended⟩

/-- A change to one entry of a directory leaves the others. -/
theorem Holds.sibling {other : Name} (holds : files.Holds (dir ++ [other]) tree)
    (same : SameOutside (dir ++ [name]) files files')
    (different : other ≠ name) : files'.Holds (dir ++ [other]) tree := by
  intro names
  rw [same, holds names]
  intro below
  rw [append_assoc, prefix_append_right_inj] at below
  exact different (cons_prefix_cons.mp below).1.symm

theorem holds_emptyDirectory (files : Files) (dir : Loc) (name : Name)
    (fits : files.Fits dir name .directory) :
    (files.add dir name .directory fits).Holds (dir ++ [name]) (.directory []) := by
  have nothing : files.node (dir ++ [name]) ≠ some .directory := by
    rw [fits.free]
    exact some_ne_none _ |>.symm
  rw [holds_directory_iff]
  refine ⟨if_pos rfl, fun name' => ⟨fun tree found => absurd found (some_ne_none tree).symm, fun _ => ?_⟩⟩
  change files.addNode (dir ++ [name]) .directory (dir ++ [name] ++ [name']) = none
  rw [addNode, if_neg (by simp), files.none_below nothing (cons_ne_nil _ _)]

theorem Holds.addEntry (before : files.Holds loc (.directory entries))
    (same : SameOutside (loc ++ [name]) files files') (entry : files'.Holds (loc ++ [name]) tree)
    (new : name ∉ entries.map (·.1)) : files'.Holds loc (.directory (entries ++ [(name, tree)])) := by
  rw [holds_directory_iff] at before ⊢
  refine ⟨?_, fun name' => ?_⟩
  · rw [same, before.1]
    intro below
    have shorter := below.length_le
    rw [length_append, length_singleton] at shorter
    omega
  · by_cases isNew : name' = name
    · subst isNew
      rw [FileTree.find_append_self new]
      refine ⟨fun tree' found => ?_, fun absent => absurd absent (some_ne_none tree)⟩
      cases found
      exact entry
    · rw [FileTree.find_append_other isNew]
      refine ⟨fun tree' found => ((before.2 name').1 tree' found).sibling same isNew, fun absent => ?_⟩
      rw [same, (before.2 name').2 absent]
      intro below
      rw [prefix_append_right_inj] at below
      exact isNew (cons_prefix_cons.mp below).1.symm

/-! ### Free places -/

/-- A place where something can be created: the entry `name` of a directory. -/
structure Absent (files : Files) (path : List UInt8) (dir : Loc) (name : Name) : Prop where
  noNul : 0 ∉ path
  leads : files.LeadsTo path dir name
  isName : IsName name
  isDirectory : files.node dir = some .directory
  free : files.node (dir ++ [name]) = none

theorem Absent.fits (absent : Absent files path dir name) {node : Node} (hasTarget : node.HasTarget) :
    files.Fits dir name node :=
  ⟨absent.isDirectory, absent.isName, absent.free, hasTarget⟩

theorem Holds.absentEntry {entry : Name} (holds : files.Holds (dir ++ [name]) (.directory entries))
    (noNul : 0 ∉ path) (leads : files.LeadsTo path dir name) (isName : IsName name)
    (isEntryName : IsName entry) (new : entry ∉ entries.map (·.1)) :
    Absent files (path ++ slash :: entry) (dir ++ [name]) entry where
  noNul := by
    rw [mem_append, mem_cons, not_or, not_or]
    exact ⟨noNul, by decide, isEntryName.2.2.2.2⟩
  leads := leads.entry isName holds.node isEntryName.2.2.2.1
  isName := isEntryName
  isDirectory := holds.node
  free := by
    apply ((holds_directory_iff.mp holds).2 entry).2
    rwa [← not_isSome_iff_eq_none, FileTree.find_isSome_iff]

/-- Two file systems that grew by the same tree at the same place. -/
theorem Holds.node_eq {before : Files} (holds : files.Holds loc tree) (holds' : files'.Holds loc tree)
    (same : SameOutside loc before files) (same' : SameOutside loc before files')
    (loc' : Loc) : files.node loc' = files'.node loc' := by
  by_cases below : loc <+: loc'
  · obtain ⟨names, rfl⟩ := below
    rw [holds names, holds' names]
  · rw [same loc' below, same' loc' below]

end Files

end FileSystem
