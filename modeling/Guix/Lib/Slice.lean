import Mathlib.Data.List.Infix

/-!
# Windows of a list

`slice xs start count` is the window of `count` elements at offset `start`, cut
short at the end of the list. Scanners that move over a buffer are specified
with it: a word occurs in a list iff some window of the list is that word.
-/
namespace Slice

open List

variable {α : Type}

def slice (xs : List α) (start count : Nat) : List α :=
  (xs.drop start).take count

variable (xs : List α)

variable (start count : Nat)

@[simp] theorem length_slice : (slice xs start count).length = min count (xs.length - start) := by
  simp [slice]

theorem length_slice_of_le (fits : start + count ≤ xs.length) :
    (slice xs start count).length = count := by
  rw [length_slice]
  omega

@[simp] theorem slice_zero (start : Nat) : slice xs start 0 = [] := by
  simp [slice]

theorem slice_append_slice (start m n : Nat) :
    slice xs start m ++ slice xs (start + m) n = slice xs start (m + n) := by
  simp only [slice, ← drop_drop]
  exact (take_add (l := xs.drop start)).symm

theorem slice_append_drop : slice xs start count ++ xs.drop (start + count) = xs.drop start := by
  rw [slice, ← drop_drop, take_append_drop]

theorem getElem?_slice (start count j : Nat) (inside : j < count) :
    (slice xs start count)[j]? = xs[start + j]? := by
  simp [slice, inside]

theorem slice_slice (start count i n : Nat) (inside : i + n ≤ count) :
    slice (slice xs start count) i n = slice xs (start + i) n := by
  simp only [slice, drop_take, take_take, drop_drop]
  congr 1
  omega

theorem slice_append_left (xs ys : List α) {start count : Nat}
    (fits : start + count ≤ xs.length) : slice (xs ++ ys) start count = slice xs start count := by
  simp only [slice]
  rw [drop_append_of_le_length (by omega), take_append_of_le_length]
  simp only [length_drop]
  omega

theorem slice_append_right (xs ys : List α) (start count : Nat) :
    slice (xs ++ ys) (xs.length + start) count = slice ys start count := by
  simp [slice]

theorem slice_append_length (xs ys : List α) (count : Nat) :
    slice (xs ++ ys) xs.length count = ys.take count := by
  simp [slice]

theorem mem_slice_of_index (start count j : Nat) (inside : j < count)
    (x : α) (found : xs[start + j]? = some x) : x ∈ slice xs start count := by
  rw [← getElem?_slice xs start count j inside] at found
  exact mem_of_getElem? found

theorem slice_isInfix : slice xs start count <:+: xs :=
  ( take_prefix _ _).isInfix.trans (drop_suffix _ _).isInfix

theorem isInfix_iff_slice (word xs : List α) :
    word <:+: xs ↔
      ∃ start, start + word.length ≤ xs.length ∧ slice xs start word.length = word := by
  constructor
  · rintro ⟨before, after, rfl⟩
    refine ⟨before.length, by simp only [length_append]; omega, ?_⟩
    simp [slice, append_assoc]
  · rintro ⟨start, -, equal⟩
    rw [← equal]
    exact slice_isInfix xs start _

/-- An occurrence in a concatenation is in one of the parts or straddles the
seam, and then it lies in the last `k` elements of the first part followed by the
first `k` of the second. -/
theorem isInfix_append_iff (word xs ys : List α) (k : Nat) (short : word.length ≤ k) :
    word <:+: xs ++ ys ↔
      word <:+: xs ∨ word <:+: xs.drop (xs.length - k) ++ ys.take k ∨ word <:+: ys := by
  constructor
  · intro occurs
    obtain ⟨start, fits, equal⟩ := (isInfix_iff_slice word (xs ++ ys)).mp occurs
    rw [length_append] at fits
    by_cases before : start + word.length ≤ xs.length
    · left
      rw [slice_append_left xs ys before] at equal
      exact equal ▸ slice_isInfix xs start _
    by_cases after : xs.length ≤ start
    · right; right
      obtain ⟨offset, rfl⟩ := Nat.exists_eq_add_of_le after
      rw [slice_append_right] at equal
      exact equal ▸ slice_isInfix ys offset _
    · right; left
      -- the window starts inside `xs` and ends inside `ys`
      have seam : xs ++ ys = xs.take (xs.length - k) ++
          ((xs.drop (xs.length - k) ++ ys.take k) ++ ys.drop k) := by
        rw [append_assoc, take_append_drop, ← append_assoc, take_append_drop]
      have skipped : (xs.take (xs.length - k)).length ≤ start := by
        rw [length_take]
        omega
      obtain ⟨offset, offsetEq⟩ := Nat.exists_eq_add_of_le skipped
      have takeLength : (xs.take (xs.length - k)).length = xs.length - k := by
        rw [length_take]
        omega
      rw [seam, offsetEq, slice_append_right, slice_append_left] at equal
      · exact equal ▸ slice_isInfix _ offset _
      · simp only [length_append, length_drop, length_take]
        omega
  · rintro (left | middle | right)
    · exact left.trans (prefix_append xs ys).isInfix
    · exact middle.trans (List.IsInfix.trans
        ⟨xs.take (xs.length - k), ys.drop k, by
          simp only [append_assoc, take_append_drop]
          rw [← append_assoc, take_append_drop]⟩ infix_rfl)
    · exact right.trans (suffix_append xs ys).isInfix

end Slice
