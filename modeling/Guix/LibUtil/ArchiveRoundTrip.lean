import Guix.LibUtil.ArchiveDump
import Guix.LibUtil.ArchiveRestore

/-!
# Dumping and restoring

What `restorePath` makes of the bytes that `dumpPath` wrote.
-/

namespace Guix

open FileSystem Hoare Files

/-- The dump of a tree restores it, from any source that delivers the dump and anything after it,
to any place where nothing is. -/
theorem restorePath_dumpPath {tree : FileTree} (valid : ValidTree tree) {files : Files} {path : Path} {loc : Loc}
    (noNul : 0 ∉ path) (found : files.lstat path = .ok (loc, tree.node)) (holds : files.Holds loc tree)
    (rounds : Nat) (deep : depth tree < rounds) :
    ∃ bytes, dumpPath files (fun _ => true) rounds path = .ok bytes ∧
      ∀ (σ : Type) (source : Source σ) (s : σ) (more : Bytes), source.rest s = bytes ++ more →
        ∀ (fuel : Nat), bytes.length ≤ fuel →
          ∀ (before : Files) (fd : Option (Loc × Nat)) (dst : Path) (dir : Loc) (name : Name),
            Absent before dst dir name →
            ∃ s' after fd', restorePath source fuel dst (s, ⟨before, fd⟩) = .ok ⟨⟩ (s', ⟨after, fd'⟩) ∧
              source.rest s' = more ∧ after.Holds (dir ++ [name]) tree ∧
              SameOutside (dir ++ [name]) before after := by
  refine ⟨archive tree, dumpPath_eq valid rounds deep path noNul loc found holds, ?_⟩
  intro σ source s more stream fuel enough before fd dst dir name absent
  obtain ⟨_, ⟨s', st'⟩, ran, restored⟩ := wp_returns (wp_restorePath valid stream enough fd absent)
  exact ⟨s', st'.files, st'.fd, ran, restored.rest, restored.holds, restored.grows.same⟩

theorem restorePath_dumpPath_small :
    ∃ bytes, dumpPath smallFiles (fun _ => true) 2 (ascii "/d") = .ok bytes ∧
      ∀ (σ : Type) (source : Source σ) (s : σ) (more : Bytes), source.rest s = bytes ++ more →
        ∀ (fuel : Nat), bytes.length ≤ fuel →
          ∀ (before : Files) (fd : Option (Loc × Nat)) (dst : Path) (dir : Loc) (name : Name),
            Absent before dst dir name →
            ∃ s' after fd', restorePath source fuel dst (s, ⟨before, fd⟩) = .ok ⟨⟩ (s', ⟨after, fd'⟩) ∧
              source.rest s' = more ∧ after.Holds (dir ++ [name]) smallTree ∧
              SameOutside (dir ++ [name]) before after :=
  restorePath_dumpPath smallTree_valid (by decide) smallFiles_lstat smallFiles_holds 2 (by decide)

/-- The destination of the round trip can be in the same file system. -/
example : Absent smallFiles (ascii "/g") [] (ascii "g") :=
  ⟨by decide, smallFiles.leadsTo_root (by decide), by decide, rfl, rfl⟩

end Guix
