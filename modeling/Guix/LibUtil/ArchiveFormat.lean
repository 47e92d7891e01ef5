import Guix.Lib.FileTree
import Guix.LibUtil.Archive

/-!
# The archive of a tree of files

The bytes that stand for a tree, independently of the programs that write and read them: a
directory's entries are sorted by name, and each node has its fields in one order.
-/

namespace Guix

open FileSystem

mutual

def nodeBytes : FileTree → Bytes
  | .regular executable contents =>
    writeString (ascii "(") ++ writeString (ascii "type") ++ writeString (ascii "regular") ++
      (if executable then writeString (ascii "executable") ++ writeString [] else []) ++
      (writeString (ascii "contents") ++ writeLongLong contents.length ++ contents ++
        writePadding contents.length) ++ writeString (ascii ")")
  | .symlink target =>
    writeString (ascii "(") ++ writeString (ascii "type") ++ writeString (ascii "symlink") ++
      writeString (ascii "target") ++ writeString target ++ writeString (ascii ")")
  | .directory entries =>
    writeString (ascii "(") ++ writeString (ascii "type") ++ writeString (ascii "directory") ++
      entriesBytes entries ++ writeString (ascii ")")

def entriesBytes : List (Name × FileTree) → Bytes
  | [] => []
  | (name, tree) :: rest =>
    writeString (ascii "entry") ++ writeString (ascii "(") ++ writeString (ascii "name") ++
      writeString name ++ writeString (ascii "node") ++ nodeBytes tree ++ writeString (ascii ")") ++
      entriesBytes rest

end

def archive (tree : FileTree) : Bytes := writeString archiveVersion1 ++ nodeBytes tree

/-- The trees that are archived: sorted entries, and lengths that fit their fields. -/
inductive ValidTree : FileTree → Prop
  | regular {executable : Bool} {contents : Bytes} (small : contents.length < 2 ^ 64) :
      ValidTree (.regular executable contents)
  | symlink {target : Bytes} (isTarget : IsTarget target) (small : target.length < 2 ^ 32) :
      ValidTree (.symlink target)
  | directory {entries : List (Name × FileTree)} (sorted : (entries.map (·.1)).Pairwise (· < ·))
      (isName : ∀ entry ∈ entries, IsName entry.1) (small : ∀ entry ∈ entries, entry.1.length < 2 ^ 32)
      (valid : ∀ entry ∈ entries, ValidTree entry.2) : ValidTree (.directory entries)

mutual

def depth : FileTree → Nat
  | .regular _ _ => 0
  | .symlink _ => 0
  | .directory entries => depthEntries entries + 1

def depthEntries : List (Name × FileTree) → Nat
  | [] => 0
  | (_, tree) :: rest => max (depth tree) (depthEntries rest)

end

theorem depth_lt {entries : List (Name × FileTree)} {entry : Name × FileTree} (member : entry ∈ entries) :
    depth entry.2 < depth (.directory entries) := by
  induction entries with
  | nil => cases member
  | cons head tail ih =>
    rcases List.mem_cons.mp member with rfl | inTail
    · exact Nat.lt_succ_of_le (Nat.le_max_left _ _)
    · exact Nat.lt_of_lt_of_le (ih inTail) (Nat.succ_le_succ (Nat.le_max_right _ _))

theorem entriesBytes_eq_flatMap (entries : List (Name × FileTree)) :
    entriesBytes entries = entries.flatMap fun entry =>
      writeString (ascii "entry") ++ writeString (ascii "(") ++ writeString (ascii "name") ++
        writeString entry.1 ++ writeString (ascii "node") ++ nodeBytes entry.2 ++ writeString (ascii ")") := by
  induction entries with
  | nil => rfl
  | cons head tail ih => rw [entriesBytes, List.flatMap_cons, ih]

end Guix
