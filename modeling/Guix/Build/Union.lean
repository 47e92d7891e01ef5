import Guix.Client.Derivations
import Guix.Lib.Assoc
import Guix.Lib.Hoare
import Guix.Lib.SortBy
import Mathlib.Algebra.Ring.Nat

/-!
# Unions of directories

Embedding of `union-build` of guix/build/union.scm. The inputs are seen through `stat` and
`readdir`, which follow links. What is built is a tree of directories and links, and the
calls of the collision resolver are logged.
-/

namespace Guix.Build.Union

open Client Sorting

inductive FileType
  | regular
  | directory
  | blockSpecial
  | charSpecial
  | fifo
  | socket
  | unknown
  deriving DecidableEq

structure Stat where
  ino : Nat
  type : FileType
  size : Nat

def entryName (directory name : Str) : Str := directory ++ str "/" ++ name

/-- What there is under file names. `stat` finds nothing behind a dangling link. Directories
are nested to a finite depth. -/
structure FileView where
  stat : Str → Option Stat
  contents : Str → Bytes
  size_eq : ∀ file st, stat file = some st → st.type = .regular → st.size = (contents file).length
  readdir : Str → List Str
  readdir_nodup : ∀ file, (readdir file).Nodup
  depth : Str → Nat
  depth_lt : ∀ file, ∀ name ∈ readdir file, name ≠ str "." → name ≠ str ".." →
    depth (entryName file name) < depth file

section Files

variable (view : FileView)

def filesInDirectory (dirname : Str) : List Str :=
  sortBy id ((view.readdir dirname).filter fun file => file ≠ str "." ∧ file ≠ str "..")

/-- `file-is-directory?`. -/
def fileIsDirectory (file : Str) : Bool :=
  match view.stat file with
  | none => false
  | some st => st.type = .directory

/-- `get-bytevector-n!` of 8192 bytes: how many bytes were read, or the end of the file. The
bytes themselves go to a buffer that is not looked at. -/
def getBytevectorN (port : Bytes) : Option Nat × Bytes :=
  if port = [] then (none, []) else (some (min 8192 port.length), port.drop 8192)

def compareLoop : Nat → Bytes → Bytes → Bool
  | 0, _, _ => false
  | fuel + 1, port1, port2 =>
    let (n1, port1) := getBytevectorN port1
    let (n2, port2) := getBytevectorN port2
    n1 = n2 && (n1 = none || compareLoop fuel port1 port2)

/-- `file=?`. -/
def fileEqual (file1 file2 : Str) : Bool :=
  match view.stat file1, view.stat file2 with
  | some st1, some st2 =>
    st1.ino = st2.ino ||
      (st1.type = .regular && st2.type = .regular && st1.size = st2.size &&
        compareLoop ((view.contents file1).length + 1) (view.contents file1) (view.contents file2))
  | _, _ => false

/-- The pattern `(file (? (cut file=? <> file)) ...)`. -/
def allSame : List Str → Bool
  | [] => true
  | file :: rest => rest.all fun other => fileEqual view other file

end Files

/-! ### The table of a directory -/

abbrev Table := List (Str × List Str)

/-- `hash-set!`. -/
def hashSet (table : Table) (key : Str) (value : List Str) : Table := Assoc.set key value table

/-- `hash-ref`, with the empty list as the default. -/
def hashRef (table : Table) (key : Str) : List Str := (table.lookup key).getD []

/-- `add-to-table!`. -/
def addToTable (dir : Str) (table : Table) (file : Str) : Table :=
  hashSet table file (dir :: hashRef table file)

def populate (view : FileView) (dirs : List Str) : Table :=
  dirs.foldl (fun table dir => (filesInDirectory view dir).foldl (addToTable dir) table) []

/-! ### The union -/

inductive Tree
  | directory (entries : List (Str × Tree))
  | symlink (target : Str)

inductive UnionError
  /-- "union-build: collision between file and directories". -/
  | collision (files dirs : List Str)
  | outOfFuel
  deriving DecidableEq

/-- The keyword arguments, and the order in which `hash-for-each` goes through a table. -/
structure Options where
  createAllDirectories : Bool
  resolveCollision : List Str → Option Str
  hashForEach : Table → Table
  hashForEach_perm : ∀ table, (hashForEach table).Perm table

/-- The state is the log of calls of `resolve-collision`. -/
abbrev UnionM := EStateM UnionError (List (List Str))

section Union

variable (view : FileView) (options : Options)

def resolveCollisions (dirs files : List Str) : UnionM (Option Tree) := do
  if dirs = [] then
    modify (· ++ [files])
    return (options.resolveCollision files).map .symlink
  else throw (.collision files dirs)

/-- `union` is for the entries. -/
def unionOfDirectories (union : List Str → UnionM (Option Tree)) (dirs : List Str) : UnionM Tree := do
  let entries ← (options.hashForEach (populate view dirs)).mapM fun (file, dirsWithFile) => do
    return (file, ← union (dirsWithFile.reverse.map (entryName · file)))
  return .directory (entries.filterMap fun (file, built) => built.map ((file, ·)))

def union : Nat → List Str → UnionM (Option Tree)
  | 0, _ => throw .outOfFuel
  | fuel + 1, [input] =>
    if options.createAllDirectories && fileIsDirectory view input then
      return some (← unionOfDirectories view options (union fuel) [input])
    else return some (.symlink input)
  | fuel + 1, inputs => do
    let dirs := inputs.filter (fileIsDirectory view)
    match inputs.filter (!fileIsDirectory view ·) with
    | [] => return some (← unionOfDirectories view options (union fuel) dirs)
    | file :: files =>
      if dirs = [] ∧ allSame view (file :: files) then return some (.symlink file)
      else resolveCollisions options dirs (file :: files)

/-- More than the depths of all inputs. -/
def unionFuel (inputs : List Str) : Nat := (inputs.map view.depth).sum + 1

def unionBuild (inputs : List Str) : UnionM Tree :=
  unionOfDirectories view options (union view options (unionFuel view inputs)) inputs.eraseDups

end Union

end Guix.Build.Union
