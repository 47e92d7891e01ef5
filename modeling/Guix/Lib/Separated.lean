import Mathlib.Data.List.Basic
import Mathlib.Data.List.Induction

/-!
# Lists joined by a separator

A list that is joined from parts without the separator determines the parts.
-/

namespace Separated

open List

variable {α : Type} {sep : α}

theorem first_part {a b c d : List α} (noSepA : sep ∉ a) (noSepC : sep ∉ c)
    (same : a ++ sep :: b = c ++ sep :: d) : a = c ∧ b = d := by
  rcases append_eq_append_iff.mp same with ⟨extra, rfl, split⟩ | ⟨extra, rfl, split⟩
  · cases extra with
    | nil => simpa using split
    | cons x extra =>
      obtain ⟨rfl, rest⟩ := cons.inj split
      exact absurd (by simp) noSepC
  · cases extra with
    | nil => simpa using split.symm
    | cons x extra =>
      obtain ⟨rfl, rest⟩ := cons.inj split
      exact absurd (by simp) noSepA

theorem last_part {a b c d : List α} (noSepB : sep ∉ b) (noSepD : sep ∉ d)
    (same : a ++ sep :: b = c ++ sep :: d) : a = c ∧ b = d := by
  have reversed := congrArg reverse same
  simp only [reverse_append, reverse_cons, append_assoc, singleton_append] at reversed
  obtain ⟨back, front⟩ := first_part (mt mem_reverse.mp noSepB) (mt mem_reverse.mp noSepD) reversed
  exact ⟨reverse_injective front, reverse_injective back⟩

/-- Each part is preceded by the separator. -/
def joined (sep : α) (parts : List (List α)) : List α := parts.flatMap (sep :: ·)

theorem joined_concat (parts : List (List α)) (part : List α) :
    joined sep (parts ++ [part]) = joined sep parts ++ sep :: part := by
  simp [joined]

theorem joined_injective {parts parts' : List (List α)} (noSep : ∀ part ∈ parts, sep ∉ part)
    (noSep' : ∀ part ∈ parts', sep ∉ part) (same : joined sep parts = joined sep parts') :
    parts = parts' := by
  induction parts using reverseRecOn generalizing parts' with
  | nil =>
    cases parts' with
    | nil => rfl
    | cons part parts' => cases same
  | append_singleton parts part ih =>
    induction parts' using reverseRecOn with
    | nil => simp [joined] at same
    | append_singleton parts' part' _ =>
      rw [joined_concat, joined_concat] at same
      obtain ⟨front, rfl⟩ := last_part (noSep part (by simp)) (noSep' part' (by simp)) same
      rw [ih (fun p member => noSep p (by simp [member])) (fun p member => noSep' p (by simp [member]))
        front]

end Separated
