import Guix.Client.Gexp
import Mathlib.Data.List.Nodup

/-!
# Files that differ between two nars

`differing-files` of `(guix scripts challenge)`.
-/

namespace Guix.Scripts.Challenge

open Guix.Client List

/-- Type and content of a file; the content of regular files is listed by its hash. -/
inductive FileContents
  | regular (sha256 : Bytes)
  | executable (sha256 : Bytes)
  | symlink (target : Str)
  deriving DecidableEq

/-- What `archive-contents` and `store-item-contents` return. -/
abbrev Contents := List (Str × FileContents)

def files (contents : Contents) : List Str := contents.map (·.1)

structure ComparisonReport where
  localContents : Option Contents
  contents : List Contents

def differingFiles (report : ComparisonReport) : Option (List Str) :=
  match Gexp.deleteDuplicates (· = ·) (report.localContents.toList ++ report.contents) with
  | first :: second :: _ => some (files (first.filter (· ∉ second)))
  -- `take` wants two lists
  | _ => none

/-- The file is in one of the two only, or its type or content differs. -/
def Differs (a b : Contents) (file : Str) : Prop :=
  Xor (file ∈ files a) (file ∈ files b) ∨ ∃ x y, (file, x) ∈ a ∧ (file, y) ∈ b ∧ x ≠ y

section Pair

variable {report : ComparisonReport} {a b : Contents} {file : Str}

theorem mem_files : file ∈ files a ↔ ∃ x, (file, x) ∈ a := by
  simp [files]

theorem mem_difference_iff (names : (files b).Nodup) :
    file ∈ files (a.filter (· ∉ b)) ↔ file ∈ files a ∧ Differs a b file := by
  constructor
  · intro listed
    obtain ⟨x, inA, notB⟩ : ∃ x, (file, x) ∈ a ∧ (file, x) ∉ b := by simpa [mem_files] using listed
    have named : file ∈ files a := mem_files.mpr ⟨x, inA⟩
    refine ⟨named, ?_⟩
    by_cases both : file ∈ files b
    · obtain ⟨y, inB⟩ := mem_files.mp both
      exact .inr ⟨x, y, inA, inB, fun same => notB (same ▸ inB)⟩
    · exact .inl (.inl ⟨named, both⟩)
  · rintro ⟨named, (⟨_, notB⟩ | ⟨_, notA⟩) | ⟨x, y, inA, inB, other⟩⟩
    · obtain ⟨x, inA⟩ := mem_files.mp named
      simpa [mem_files] using ⟨x, inA, fun inB => notB (mem_files.mpr ⟨x, inB⟩)⟩
    · exact absurd named notA
    · -- names are distinct, so the other list has `y` only
      have notB : (file, x) ∉ b := fun inB' =>
        other (Prod.ext_iff.mp (inj_on_of_nodup_map names inB' inB rfl)).2
      simpa [mem_files] using ⟨x, inA, notB⟩

/-- Only the files of the first list are looked at: those of the second list alone are missed. -/
theorem differingFiles_exact_iff (pair : report.localContents.toList ++ report.contents = [a, b])
    (other : a ≠ b) (namesA : (files a).Nodup) (namesB : (files b).Nodup) :
    ∃ names, differingFiles report = some names ∧ names.Nodup ∧
      ((∀ file, file ∈ names ↔ Differs a b file) ↔ ∀ file ∈ files b, file ∈ files a) := by
  refine ⟨files (a.filter (· ∉ b)), ?_, namesA.sublist (filter_sublist.map _), ?_⟩
  · simp [differingFiles, pair, Gexp.deleteDuplicates, Gexp.keepFirst, other]
  simp only [mem_difference_iff namesB, and_iff_right_iff_imp]
  constructor
  · intro exact file inB
    by_contra notA
    exact notA (exact file (.inl (.inr ⟨inB, notA⟩)))
  · rintro covered file ((⟨inA, _⟩ | ⟨inB, _⟩) | ⟨x, _, inA, _⟩)
    · exact inA
    · exact covered file inB
    · exact mem_files.mpr ⟨x, inA⟩

/-- A program that is not executable any more, a document, and a link to another file. -/
theorem differingFiles_exact_iff_files :
    let a : Contents := [(str "/bin/f", .executable [1]), (str "/doc", .regular [2]), (str "/lib", .symlink (str "a"))]
    let b : Contents := [(str "/bin/f", .regular [1]), (str "/doc", .regular [2]), (str "/lib", .symlink (str "b"))]
    ∃ names, differingFiles ⟨some a, [b]⟩ = some names ∧ names.Nodup ∧
      ((∀ file, file ∈ names ↔ Differs a b file) ↔ ∀ file ∈ files b, file ∈ files a) :=
  differingFiles_exact_iff rfl (by decide) (by decide) (by decide)

end Pair

theorem differingFiles_misses_second :
    let b : Contents := [(['/', 'f'], .symlink [])]
    differingFiles ⟨none, [[], b]⟩ = some [] ∧ Differs [] b ['/', 'f'] :=
  ⟨by decide, .inl (.inr (by decide))⟩

end Guix.Scripts.Challenge
