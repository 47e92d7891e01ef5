import Guix.Lib.Fallible
import Mathlib.Data.List.Induction
import Mathlib.Data.List.Nodup

/-!
# File systems

The part of a POSIX file system that programs creating files depend on: directories, regular
files with contents and one permission bit, symbolic links that are followed when a path goes
through them, and calls that create, open, write and change files. Every change is recorded in
a journal together with the place it happened at.
-/

namespace FileSystem

open List Fallible

abbrev Name := List UInt8

/-- A place is given by the names on the way from the root, none of them a link. -/
abbrev Loc := List Name

inductive Node
  | directory
  | regular (executable : Bool) (contents : List UInt8)
  | symlink (target : List UInt8)
  deriving DecidableEq

inductive Errno
  | noEntry
  | alreadyExists
  | notDirectory
  | isDirectory
  | tooManyLinks
  | badDescriptor
  deriving DecidableEq

inductive Change
  | created (loc : Loc)
  | written (loc : Loc)
  | modeChanged (loc : Loc)
  deriving DecidableEq

def slash : UInt8 := 47

def dot : Name := [46]

def dotDot : Name := [46, 46]

/-- A component of a path that can name an entry of a directory. -/
def IsName (name : Name) : Prop := name ≠ [] ∧ name ≠ dot ∧ name ≠ dotDot ∧ slash ∉ name ∧ 0 ∉ name
  deriving Decidable

/-- What a link can hold. -/
def IsTarget (target : List UInt8) : Prop := target ≠ [] ∧ 0 ∉ target
  deriving Decidable

/-- A link has a target. -/
def Node.HasTarget : Node → Prop
  | .symlink target => IsTarget target
  | .directory => True
  | .regular _ _ => True

instance Node.decidableHasTarget : (node : Node) → Decidable node.HasTarget
  | .symlink target => inferInstanceAs (Decidable (IsTarget target))
  | .directory => isTrue trivial
  | .regular _ _ => isTrue trivial

/-- A file system as a process sees it. What there is lies in directories, and `entries` gives
the names in each of them in the order they are read. -/
structure Files where
  node : Loc → Option Node
  entries : Loc → List Name
  root : node [] = some .directory
  closed : ∀ loc name, node (loc ++ [name]) ≠ none → node loc = some .directory
  mem_entries : ∀ loc name, name ∈ entries loc ↔ node (loc ++ [name]) ≠ none
  nodup_entries : ∀ loc, (entries loc).Nodup
  isName : ∀ loc, ∀ name ∈ entries loc, IsName name
  isTarget : ∀ loc target, node loc = some (.symlink target) → IsTarget target
  workingDirectory : Loc
  journal : List Change

namespace Files

variable (files : Files)

/-- Nothing lies below what is not a directory. -/
theorem none_below {loc : Loc} (notDirectory : files.node loc ≠ some .directory)
    {names : List Name} (some : names ≠ []) : files.node (loc ++ names) = none := by
  induction names using reverseRecOn with
  | nil => exact absurd rfl some
  | append_singleton front last ih =>
    by_contra there
    rw [← append_assoc] at there
    have isDirectory := files.closed _ _ there
    by_cases empty : front = []
    · rw [empty, append_nil] at isDirectory
      exact notDirectory isDirectory
    · rw [ih empty] at isDirectory
      cases isDirectory

/-- A file system with nothing in it. -/
def empty : Files where
  node := fun loc => if loc = [] then some .directory else none
  entries := fun _ => []
  root := rfl
  closed := by simp
  mem_entries := by simp
  nodup_entries := by simp
  isName := by simp
  isTarget := by
    intro loc target there
    split at there <;> cases there
  workingDirectory := []
  journal := []

/-! ### Changes -/

/-- The nodes after `node` was put at a free place in a directory. -/
def addNode (loc : Loc) (node : Node) : Loc → Option Node :=
  fun loc' => if loc' = loc then some node else files.node loc'

section Add

variable {dir : Loc} {name : Name} {node : Node}

theorem root_addNode : files.addNode (dir ++ [name]) node [] = some .directory := by
  rw [addNode, if_neg (by simp), files.root]

theorem closed_addNode (isDirectory : files.node dir = some .directory)
    (free : files.node (dir ++ [name]) = none) :
    ∀ loc name', files.addNode (dir ++ [name]) node (loc ++ [name']) ≠ none →
      files.addNode (dir ++ [name]) node loc = some .directory := by
  intro loc name' there
  have old : files.node loc = some .directory := by
    rw [addNode] at there
    split at there
    next same =>
      obtain ⟨rfl, _⟩ := append_inj' same rfl
      exact isDirectory
    next => exact files.closed loc name' there
  rw [addNode, if_neg, old]
  rintro rfl
  rw [free] at old
  cases old

def addEntry (dir : Loc) (name : Name) : Loc → List Name :=
  fun loc => if loc = dir then files.entries dir ++ [name] else files.entries loc

theorem mem_addEntry (loc : Loc) (name' : Name) :
    name' ∈ files.addEntry dir name loc ↔ files.addNode (dir ++ [name]) node (loc ++ [name']) ≠ none := by
  rw [addEntry, addNode]
  split
  next same =>
    subst same
    rw [mem_append, mem_singleton, files.mem_entries]
    by_cases new : name' = name
    · simp [new]
    · simp [new]
  next other =>
    rw [if_neg, files.mem_entries]
    exact fun same => other (append_inj' same rfl).1

theorem nodup_addEntry (free : files.node (dir ++ [name]) = none) (loc : Loc) :
    (files.addEntry dir name loc).Nodup := by
  rw [addEntry]
  split
  next =>
    have new : name ∉ files.entries dir := by
      rw [files.mem_entries]
      exact not_not.mpr free
    rw [nodup_append]
    exact ⟨files.nodup_entries dir, nodup_singleton name, fun a member b isName same =>
      new (mem_singleton.mp isName ▸ same ▸ member)⟩
  next => exact files.nodup_entries loc

theorem isName_addEntry (isName : IsName name) (loc : Loc) :
    ∀ name' ∈ files.addEntry dir name loc, IsName name' := by
  intro name' member
  rw [addEntry] at member
  split at member
  next =>
    rcases mem_append.mp member with old | new
    · exact files.isName dir name' old
    · rwa [mem_singleton.mp new]
  next => exact files.isName loc name' member

theorem isTarget_addNode {loc : Loc} (hasTarget : node.HasTarget) (loc' : Loc) (target : List UInt8)
    (there : files.addNode loc node loc' = some (.symlink target)) : IsTarget target := by
  rw [addNode] at there
  split at there
  next =>
    cases there
    exact hasTarget
  next => exact files.isTarget loc' target there

end Add

/-- A node that can be put at a place. -/
structure Fits (dir : Loc) (name : Name) (node : Node) : Prop where
  isDirectory : files.node dir = some .directory
  isName : IsName name
  free : files.node (dir ++ [name]) = none
  isTarget : node.HasTarget

def add (dir : Loc) (name : Name) (node : Node) (fits : files.Fits dir name node) : Files where
  node := files.addNode (dir ++ [name]) node
  entries := files.addEntry dir name
  root := files.root_addNode
  closed := files.closed_addNode fits.isDirectory fits.free
  mem_entries := files.mem_addEntry
  nodup_entries := files.nodup_addEntry fits.free
  isName := files.isName_addEntry fits.isName
  isTarget := files.isTarget_addNode fits.isTarget
  workingDirectory := files.workingDirectory
  journal := files.journal ++ [.created (dir ++ [name])]

/-- A change to a regular file; the rest of the file system stays. -/
def changeNode (change : Bool → List UInt8 → Bool × List UInt8) : Node → Node
  | .regular executable contents => .regular (change executable contents).1 (change executable contents).2
  | .directory => .directory
  | .symlink target => .symlink target

def changeNodes (loc : Loc) (change : Bool → List UInt8 → Bool × List UInt8) :
    Loc → Option Node :=
  fun loc' => if loc' = loc then (files.node loc').map (changeNode change) else files.node loc'

section Change

variable (loc : Loc) (change : Bool → List UInt8 → Bool × List UInt8)

/-- What is not a regular file stays, and nothing else becomes the same. -/
theorem changeNodes_eq_iff (loc' : Loc) {found : Option Node} (other : ∀ x c, found ≠ some (.regular x c)) :
    files.changeNodes loc change loc' = found ↔ files.node loc' = found := by
  rw [changeNodes]
  split
  next =>
    cases files.node loc' with
    | none => simp
    | some node => cases node with
      | regular x c => simp [changeNode, (other _ _).symm]
      | _ => rfl
  next => rfl

theorem closed_changeNodes (loc' : Loc) (name : Name)
    (there : files.changeNodes loc change (loc' ++ [name]) ≠ none) :
    files.changeNodes loc change loc' = some .directory := by
  rw [ne_eq, changeNodes_eq_iff _ _ _ _ (by nofun)] at there
  rw [changeNodes_eq_iff _ _ _ _ (by nofun)]
  exact files.closed loc' name there

theorem mem_entries_changeNodes (loc' : Loc) (name : Name) :
    name ∈ files.entries loc' ↔ files.changeNodes loc change (loc' ++ [name]) ≠ none := by
  rw [files.mem_entries, ne_eq, ne_eq, changeNodes_eq_iff _ _ _ _ (by nofun)]

theorem isTarget_changeNodes (loc' : Loc) (target : List UInt8)
    (there : files.changeNodes loc change loc' = some (.symlink target)) : IsTarget target :=
  files.isTarget loc' target ((files.changeNodes_eq_iff loc change loc' (by nofun)).mp there)

end Change

def change (loc : Loc) (change : Bool → List UInt8 → Bool × List UInt8) (entry : Change) :
    Files where
  node := files.changeNodes loc change
  entries := files.entries
  root := (files.changeNodes_eq_iff loc change [] (by nofun)).mpr files.root
  closed := files.closed_changeNodes loc change
  mem_entries := files.mem_entries_changeNodes loc change
  nodup_entries := files.nodup_entries
  isName := files.isName
  isTarget := files.isTarget_changeNodes loc change
  workingDirectory := files.workingDirectory
  journal := files.journal ++ [entry]

/-- Data written at an offset into a file. -/
def overwrite (contents data : List UInt8) (offset : Nat) : List UInt8 :=
  contents.take offset ++ replicate (offset - contents.length) 0 ++ data ++
    contents.drop (offset + data.length)

def write (loc : Loc) (offset : Nat) (data : List UInt8) : Files :=
  files.change loc (fun executable contents => (executable, overwrite contents data offset)) (.written loc)

/-- `posix_fallocate` from the start of the file: zeros up to the length. -/
def allocate (loc : Loc) (length : Nat) : Files :=
  files.change loc
    (fun executable contents => (executable, contents ++ replicate (length - contents.length) 0))
    (.written loc)

def truncate (loc : Loc) : Files :=
  files.change loc (fun executable _ => (executable, [])) (.written loc)

def setExecutable (loc : Loc) (executable : Bool) : Files :=
  files.change loc (fun _ contents => (executable, contents)) (.modeChanged loc)

/-! ### Paths -/

def components (path : List UInt8) : List Name := path.splitOn slash

theorem components_append_slash (path path' : List UInt8) :
    components (path ++ slash :: path') = components path ++ components path' :=
  splitOn_append_cons_self path path'

theorem components_name {name : Name} (noSlash : slash ∉ name) : components name = [name] :=
  splitOn_eq_singleton noSlash

/-- Where a path starts that is looked up in a directory. -/
def startOf (dir : Loc) (path : List UInt8) : Loc := if path.head? = some slash then [] else dir

/-- Follow the components from a directory; `links` more links may be followed. The result is
something that is there. -/
def walk (files : Files) (links : Nat) (dir : Loc) (names : List Name) : Except Errno (Loc × Nat) :=
  match names with
  | [] => .ok (dir, links)
  | name :: rest =>
    if files.node dir ≠ some .directory then .error .notDirectory
    else if name = [] ∨ name = dot then files.walk links dir rest
    else if name = dotDot then files.walk links dir.dropLast rest
    else
      match files.node (dir ++ [name]), links with
      | none, _ => .error .noEntry
      | some (.symlink _), 0 => .error .tooManyLinks
      | some (.symlink target), links + 1 => files.walk links (startOf dir target) (components target ++ rest)
      | some .directory, links => files.walk links (dir ++ [name]) rest
      | some (.regular _ _), links => files.walk links (dir ++ [name]) rest
termination_by (links, names.length)

/-- The number of links Linux follows. -/
def maxLinks : Nat := 40

/-- The directory a path leads to without its last component, and that component. -/
def parent (links : Nat) (dir : Loc) (path : List UInt8) : Except Errno (Loc × Name × Nat) := do
  let found ← files.walk links (startOf dir path) (components path).dropLast
  return (found.1, (components path).getLastD [], found.2)

instance decidableFits (files : Files) (dir : Loc) (name : Name) (node : Node) :
    Decidable (files.Fits dir name node) :=
  decidable_of_iff (files.node dir = some .directory ∧ IsName name ∧ files.node (dir ++ [name]) = none ∧
      node.HasTarget)
    ⟨fun ⟨a, b, c, d⟩ => ⟨a, b, c, d⟩, fun ⟨a, b, c, d⟩ => ⟨a, b, c, d⟩⟩

variable (path : List UInt8)

/-- The calls that create something new: nothing may be there, not even a link. A path whose
last component is no name leads to a directory that exists. -/
def create (node : Node) : Except Errno (Files × Loc) := do
  let found ← files.parent maxLinks files.workingDirectory path
  if fits : files.Fits found.1 found.2.1 node then
    return (files.add found.1 found.2.1 node fits, found.1 ++ [found.2.1])
  else if files.node found.1 ≠ some .directory then .error .notDirectory
  else .error .alreadyExists

def mkdir : Except Errno (Files × Loc) := files.create path .directory

/-- `open` with `O_CREAT` and `O_EXCL`. -/
def openExclusive : Except Errno (Files × Loc) :=
  files.create path (.regular false [])

def symlink (target path : List UInt8) : Except Errno (Files × Loc) :=
  if IsTarget target then files.create path (.symlink target) else .error .noEntry

/-- `open` with `O_CREAT` and `O_TRUNC`, which follows links: each round follows one. -/
def openFrom (files : Files) : Nat → Nat → Loc → List UInt8 → Except Errno (Files × Loc)
  | 0, _, _, _ => .error .tooManyLinks
  | rounds + 1, links, dir, path => do
    let found ← files.parent links dir path
    match files.node (found.1 ++ [found.2.1]), found.2.2 with
    | some (.symlink _), 0 => .error .tooManyLinks
    | some (.symlink target), links + 1 => files.openFrom rounds links found.1 target
    | some (.regular _ _), _ => return (files.truncate (found.1 ++ [found.2.1]), found.1 ++ [found.2.1])
    | some .directory, _ => .error .isDirectory
    | none, _ =>
      if fits : files.Fits found.1 found.2.1 (.regular false []) then
        return (files.add found.1 found.2.1 (.regular false []) fits, found.1 ++ [found.2.1])
      else if files.node found.1 ≠ some .directory then .error .notDirectory
      else .error .isDirectory

def openTruncate : Except Errno (Files × Loc) :=
  files.openFrom (maxLinks + 1) maxLinks files.workingDirectory path

/-- What a path leads to when all links are followed. -/
def follow : Except Errno (Loc × Nat) :=
  if path = [] then .error .noEntry
  else files.walk maxLinks (startOf files.workingDirectory path) (components path)

/-- `chmod`, which follows links. -/
def chmod (executable : Bool) : Except Errno (Files × Loc) := do
  let found ← files.follow path
  return (files.setExecutable found.1 executable, found.1)

/-- `lstat`, which does not follow a link at the end. -/
def lstat : Except Errno (Loc × Node) := do
  let found ← files.parent maxLinks files.workingDirectory path
  if IsName found.2.1 then
    match files.node (found.1 ++ [found.2.1]) with
    | some node => return (found.1 ++ [found.2.1], node)
    | none => .error .noEntry
  else
    let found ← files.follow path
    match files.node found.1 with
    | some node => return (found.1, node)
    | none => .error .noEntry

/-! ### Following components -/

theorem walk_nil (links : Nat) (dir : Loc) : files.walk links dir [] = .ok (dir, links) := by
  rw [walk]

theorem walk_cons (links : Nat) (dir : Loc) (name : Name) (rest : List Name) :
    files.walk links dir (name :: rest) =
      if files.node dir ≠ some .directory then .error .notDirectory
      else if name = [] ∨ name = dot then files.walk links dir rest
      else if name = dotDot then files.walk links dir.dropLast rest
      else
        match files.node (dir ++ [name]), links with
        | none, _ => .error .noEntry
        | some (.symlink _), 0 => .error .tooManyLinks
        | some (.symlink target), links + 1 =>
          files.walk links (startOf dir target) (components target ++ rest)
        | some .directory, links => files.walk links (dir ++ [name]) rest
        | some (.regular _ _), links => files.walk links (dir ++ [name]) rest := by
  rw [walk.eq_def]

/-- Following components is following the first ones and then the others. -/
theorem walk_append (links : Nat) (dir : Loc) (names names' : List Name) :
    files.walk links dir (names ++ names') =
      (files.walk links dir names >>= fun found => files.walk found.2 found.1 names') := by
  -- the components a link stands for come before those after the link
  fun_induction walk files links dir names with
  | case1 links dir => rfl
  | case2 links dir name rest notDirectory =>
    rw [cons_append, walk_cons, if_pos notDirectory]
    rfl
  | case3 links dir name rest isDirectory here ih =>
    rw [cons_append, walk_cons, if_neg isDirectory, if_pos here, ih]
  | case4 links dir rest isDirectory notHere ih =>
    rw [cons_append, walk_cons, if_neg isDirectory, if_neg notHere, if_pos rfl, ih]
  | case5 links dir name rest isDirectory notHere notUp none =>
    rw [cons_append, walk_cons, if_neg isDirectory, if_neg notHere, if_neg notUp, none]
    rfl
  | case6 dir name rest isDirectory notHere notUp target isLink =>
    rw [cons_append, walk_cons, if_neg isDirectory, if_neg notHere, if_neg notUp, isLink]
    rfl
  | case7 dir name rest isDirectory notHere notUp target links isLink ih =>
    rw [cons_append, walk_cons, if_neg isDirectory, if_neg notHere, if_neg notUp, isLink]
    rw [append_assoc] at ih
    exact ih
  | case8 dir name rest isDirectory notHere notUp links isDir ih =>
    rw [cons_append, walk_cons, if_neg isDirectory, if_neg notHere, if_neg notUp, isDir]
    exact ih
  | case9 dir name rest isDirectory notHere notUp x c links isFile ih =>
    rw [cons_append, walk_cons, if_neg isDirectory, if_neg notHere, if_neg notUp, isFile]
    exact ih

/-- One file system has all of another's directories, links and files. -/
structure Extends (files files' : Files) : Prop where
  workingDirectory : files'.workingDirectory = files.workingDirectory
  directory : ∀ loc, files.node loc = some .directory → files'.node loc = some .directory
  symlink : ∀ loc target, files.node loc = some (.symlink target) → files'.node loc = some (.symlink target)
  regular : ∀ loc x c, files.node loc = some (.regular x c) → ∃ x' c', files'.node loc = some (.regular x' c')

theorem Extends.trans {a b c : Files} (first : Extends a b) (second : Extends b c) : Extends a c where
  workingDirectory := second.workingDirectory.trans first.workingDirectory
  directory loc there := second.directory loc (first.directory loc there)
  symlink loc target there := second.symlink loc target (first.symlink loc target there)
  regular loc x c there := by
    obtain ⟨x', c', there'⟩ := first.regular loc x c there
    exact second.regular loc x' c' there'

/-- What is there stays where it is when more is created. -/
theorem Extends.walk {files files' : Files} (extended : Extends files files') {links : Nat} {dir : Loc}
    {names : List Name} {found : Loc × Nat} (walked : files.walk links dir names = .ok found) :
    files'.walk links dir names = .ok found := by
  have kept : ∀ dir, ¬ files.node dir ≠ some .directory → ¬ files'.node dir ≠ some .directory :=
    fun dir isDirectory => not_not.mpr (extended.directory dir (not_not.mp isDirectory))
  fun_induction files.walk links dir names with
  | case1 => rwa [walk_nil]
  | case2 | case5 | case6 => cases walked
  | case3 links dir name rest isDirectory here ih =>
    rw [walk_cons, if_neg (kept dir isDirectory), if_pos here, ih walked]
  | case4 links dir rest isDirectory notHere ih =>
    rw [walk_cons, if_neg (kept dir isDirectory), if_neg notHere, if_pos rfl, ih walked]
  | case7 dir name rest isDirectory notHere notUp target links isLink ih =>
    rw [walk_cons, if_neg (kept dir isDirectory), if_neg notHere, if_neg notUp, extended.symlink _ target isLink]
    exact ih walked
  | case8 dir name rest isDirectory notHere notUp links isDir ih =>
    rw [walk_cons, if_neg (kept dir isDirectory), if_neg notHere, if_neg notUp, extended.directory _ isDir]
    exact ih walked
  | case9 dir name rest isDirectory notHere notUp x c links isFile ih =>
    obtain ⟨x', c', isFile'⟩ := extended.regular _ x c isFile
    rw [walk_cons, if_neg (kept dir isDirectory), if_neg notHere, if_neg notUp, isFile']
    exact ih walked

/-! ### Where a path leads -/

/-- The path leads to the entry `name` of the directory at `dir`. -/
def LeadsTo (dir : Loc) (name : Name) : Prop :=
  ∃ links, files.parent maxLinks files.workingDirectory path = .ok (dir, name, links)

variable {files path} {files' : Files} {dir loc : Loc} {name : Name} {node : Node}

theorem parent_ok {links : Nat} {found : Loc × Name × Nat} :
    files.parent links dir path = .ok found ↔
      files.walk links (startOf dir path) (components path).dropLast = .ok (found.1, found.2.2) ∧
        found.2.1 = (components path).getLastD [] := by
  rw [parent, bind_ok]
  constructor
  · rintro ⟨walked, isWalked, ⟨⟩⟩
    exact ⟨isWalked, rfl⟩
  · rintro ⟨isWalked, last⟩
    exact ⟨_, isWalked, by rw [← last]; rfl⟩

theorem LeadsTo.extends (extended : Extends files files') (leads : files.LeadsTo path dir name) :
    files'.LeadsTo path dir name := by
  obtain ⟨links, found⟩ := leads
  obtain ⟨walked, last⟩ := parent_ok.mp found
  refine ⟨links, parent_ok.mpr ⟨?_, last⟩⟩
  rw [extended.workingDirectory]
  exact extended.walk walked

theorem startOf_append (dir : Loc) (path more : List UInt8) (some : path ≠ []) :
    startOf dir (path ++ more) = startOf dir path := by
  rw [startOf, startOf, head?_append_of_ne_nil _ some]

theorem components_eq (path : List UInt8) :
    components path = (components path).dropLast ++ [(components path).getLastD []] := by
  have nonempty : components path ≠ [] := splitOn_ne_nil slash path
  rw [getLastD_eq_getLast?, getLast?_eq_some_getLast nonempty, Option.getD_some]
  exact (dropLast_concat_getLast nonempty).symm

section

variable (leads : files.LeadsTo path dir name)
include leads

theorem LeadsTo.follow (isName : IsName name)
    (there : files.node (dir ++ [name]) = some node) (noLink : ∀ target, node ≠ .symlink target) :
    ∃ links, files.follow path = .ok (dir ++ [name], links) := by
  obtain ⟨links, found⟩ := leads
  obtain ⟨walked, last⟩ := parent_ok.mp found
  have some : path ≠ [] := by
    rintro rfl
    exact isName.1 last
  have isDirectory : files.node dir = .some .directory :=
    files.closed dir name (by rw [there]; exact Option.some_ne_none _)
  refine ⟨links, ?_⟩
  rw [Files.follow, if_neg some, components_eq path, ← last, walk_append, walked]
  change files.walk links dir [name] = _
  rw [walk_cons, if_neg (not_not.mpr isDirectory), if_neg (not_or.mpr ⟨isName.1, isName.2.1⟩),
    if_neg isName.2.2.1, there]
  cases node with
  | directory => exact walk_nil files links (dir ++ [name])
  | regular executable contents => exact walk_nil files links (dir ++ [name])
  | symlink target => exact absurd rfl (noLink target)

omit leads in
theorem leadsTo_entry {links : Nat} {entry : Name} (followed : files.follow path = .ok (loc, links))
    (noSlash : slash ∉ entry) : files.LeadsTo (path ++ slash :: entry) loc entry := by
  rw [follow] at followed
  split at followed
  next => cases followed
  next some =>
    refine ⟨links, parent_ok.mpr ⟨?_, ?_⟩⟩
    · rw [components_append_slash, components_name noSlash, dropLast_concat,
        startOf_append _ _ _ some, followed]
    · rw [components_append_slash, components_name noSlash, getLastD_concat]

theorem LeadsTo.entry {entry : Name} (isName : IsName name)
    (isDirectory : files.node (dir ++ [name]) = some .directory) (noSlash : slash ∉ entry) :
    files.LeadsTo (path ++ slash :: entry) (dir ++ [name]) entry := by
  obtain ⟨links, followed⟩ := leads.follow isName isDirectory (by simp)
  exact leadsTo_entry followed noSlash

omit leads in
theorem leadsTo_root (files : Files) (noSlash : slash ∉ name) :
    files.LeadsTo (slash :: name) [] name := by
  have parts : components (slash :: name) = [[]] ++ [name] := by
    rw [← components_name noSlash]
    exact components_append_slash [] name
  refine ⟨maxLinks, parent_ok.mpr ⟨?_, ?_⟩⟩
  · rw [parts, dropLast_concat, startOf, if_pos head?_cons, walk_cons, if_neg (not_not.mpr files.root),
      if_pos (.inl rfl), walk_nil]
  · rw [parts, getLastD_concat]

theorem LeadsTo.lstat (isName : IsName name)
    (there : files.node (dir ++ [name]) = some node) : files.lstat path = .ok (dir ++ [name], node) := by
  obtain ⟨links, found⟩ := leads
  rw [Files.lstat, found]
  simp only [bind, Except.bind, if_pos isName, there]
  rfl

theorem LeadsTo.create (fits : files.Fits dir name node) :
    files.create path node = .ok (files.add dir name node fits, dir ++ [name]) := by
  obtain ⟨links, found⟩ := leads
  rw [Files.create, found]
  simp only [bind, Except.bind, dif_pos fits]
  rfl

theorem LeadsTo.openTruncate (fits : files.Fits dir name (.regular false [])) :
    files.openTruncate path = .ok (files.add dir name (.regular false []) fits, dir ++ [name]) := by
  obtain ⟨links, found⟩ := leads
  rw [Files.openTruncate, openFrom, found]
  simp only [bind, Except.bind, fits.free, dif_pos fits]
  rfl

theorem LeadsTo.chmod (isName : IsName name)
    (there : files.node (dir ++ [name]) = some node) (noLink : ∀ target, node ≠ .symlink target)
    (executable : Bool) :
    files.chmod path executable = .ok (files.setExecutable (dir ++ [name]) executable, dir ++ [name]) := by
  obtain ⟨links, followed⟩ := leads.follow isName there noLink
  rw [Files.chmod, followed]
  rfl

end

theorem follow_of_lstat (found : files.lstat path = .ok (loc, .directory)) :
    ∃ links, files.follow path = .ok (loc, links) := by
  obtain ⟨parent, isParent, found⟩ := bind_ok.mp found
  split at found
  next isName =>
    -- the last component is an entry of the directory before it
    split at found
    next node there =>
      cases found
      exact LeadsTo.follow ⟨parent.2.2, isParent⟩ isName there (by simp)
    next => cases found
  next =>
    obtain ⟨place, followed, found⟩ := bind_ok.mp found
    split at found
    next => cases found; exact ⟨place.2, followed⟩
    next => cases found

theorem lstat_entry {entry : Name} (found : files.lstat path = .ok (loc, .directory)) (isName : IsName entry)
    (there : files.node (loc ++ [entry]) = some node) :
    files.lstat (path ++ slash :: entry) = .ok (loc ++ [entry], node) := by
  obtain ⟨links, followed⟩ := follow_of_lstat found
  exact (leadsTo_entry followed isName.2.2.2.1).lstat isName there

end Files

end FileSystem
