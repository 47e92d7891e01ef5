import Mathlib.Data.List.Sort

/-!
# Sorting by a key

A stable sort, and the removal of duplicates that keeps the first of equal items.
-/

namespace Sorting

open List

section SortBy

variable {α κ : Type} [LinearOrder κ] (key : α → κ)

def sortBy (items : List α) : List α := items.insertionSort fun a b => key a ≤ key b

variable (items : List α)

theorem sortBy_perm : (sortBy key items).Perm items :=
  perm_insertionSort _ items

@[simp] theorem mem_sortBy (a : α) : a ∈ sortBy key items ↔ a ∈ items :=
  (sortBy_perm key items).mem_iff

theorem sortBy_sorted : (sortBy key items).Pairwise fun a b => key a ≤ key b := by
  exact pairwise_insertionSort _ items

/-- When no two items have the same key, the keys increase. -/
theorem sortBy_increasing (distinct : (items.map key).Nodup) :
    (sortBy key items).Pairwise fun a b => key a < key b := by
  have different : (sortBy key items).Pairwise fun a b => key a ≠ key b :=
    pairwise_map.mp (((sortBy_perm key items).map key).nodup_iff.mpr distinct)
  exact (sortBy_sorted key items).imp₂ (fun _ _ => lt_of_le_of_ne) different

end SortBy

/-- Items that differ in `f` differ in `g`, if `g` determines `f`. -/
theorem nodup_map_of_determined {α β γ : Type} {f : α → β} {g : α → γ} (items : List α)
    (determined : ∀ a ∈ items, ∀ b ∈ items, g a = g b → f a = f b) (distinct : (items.map f).Nodup) :
    (items.map g).Nodup := by
  rw [List.Nodup, pairwise_map] at distinct ⊢
  apply distinct.imp_of_mem
  intro a b isA isB different same
  exact different (determined a isA b isB same)

variable {α : Type} [BEq α] [LawfulBEq α]

theorem eraseDups_spec (items : List α) : items.eraseDups.Sublist items ∧ items.eraseDups.Nodup := by
  induction length : items.length using Nat.strong_induction_on generalizing items with
  | _ n ih =>
    cases items with
    | nil => exact ⟨List.Sublist.refl [], nodup_nil⟩
    | cons a rest =>
      have shorter := length_filter_le (fun b => !b == a) rest
      rw [length_cons] at length
      obtain ⟨others, nodup⟩ := ih _ (by omega) (rest.filter fun b => !b == a) rfl
      rw [eraseDups_cons]
      exact ⟨(others.trans filter_sublist).cons_cons a, nodup_cons.mpr ⟨by simp, nodup⟩⟩

theorem nodup_eraseDups (items : List α) : items.eraseDups.Nodup := (eraseDups_spec items).2

theorem eraseDups_eq_self (items : List α) (distinct : items.Nodup) : items.eraseDups = items := by
  induction items with
  | nil => rfl
  | cons a rest ih =>
    rw [nodup_cons] at distinct
    have others : rest.filter (fun b => !b == a) = rest := by
      apply filter_eq_self.mpr
      intro b inRest
      have different : b ≠ a := fun same => distinct.1 (same ▸ inRest)
      simpa using different
    rw [eraseDups_cons, others, ih distinct.2]

/-- Sorting without duplicates gives the increasing list of the items. -/
theorem eraseDups_sortBy_eq {α : Type} [LinearOrder α] [BEq α] [LawfulBEq α] {items sorted : List α}
    (same : ∀ a, a ∈ items ↔ a ∈ sorted) (increasing : sorted.Pairwise (· < ·)) :
    (sortBy id items).eraseDups = sorted := by
  have weakly : (sortBy id items).eraseDups.Pairwise (· ≤ ·) :=
    (sortBy_sorted id items).sublist (eraseDups_spec _).1
  have strictly : (sortBy id items).eraseDups.Pairwise (· < ·) :=
    weakly.imp₂ (fun _ _ => lt_of_le_of_ne) (nodup_eraseDups _)
  apply strictly.eq_of_mem_iff increasing
  intro a
  rw [mem_eraseDups, mem_sortBy, same]

end Sorting
