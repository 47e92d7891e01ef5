import Mathlib.Data.List.Nodup

/-!
# Tables as association lists

A table in which every key occurs once, with the value that `List.lookup` finds.
-/

namespace Assoc

open List

variable {α β : Type} [BEq α] [LawfulBEq α]
variable {table : List (α × β)} {key : α} {value : β}

theorem mem_of_lookup (found : table.lookup key = some value) : (key, value) ∈ table := by
  obtain ⟨front, back, rfl, _⟩ := lookup_eq_some_iff.mp found
  simp

theorem lookup_of_mem (nodup : (table.map (·.1)).Nodup)
    (member : (key, value) ∈ table) : table.lookup key = some value := by
  cases found : table.lookup key with
  | none =>
    rw [List.lookup_eq_none_iff] at found
    have := found _ member
    simp at this
  | some other =>
    have same := inj_on_of_nodup_map nodup (mem_of_lookup found) member rfl
    cases same
    rfl

theorem lookup_eq_none_iff : table.lookup key = none ↔ key ∉ table.map (·.1) := by
  rw [List.lookup_eq_none_iff, mem_map]
  constructor
  · rintro others ⟨entry, isEntry, rfl⟩
    simpa using others entry isEntry
  · intro notKey entry isEntry
    simpa using fun same : key = entry.1 => notKey ⟨entry, isEntry, same.symm⟩

theorem lookup_filter_of_ne {other : α} (different : other ≠ key) (table : List (α × β)) :
    (table.filter (·.1 != key)).lookup other = table.lookup other := by
  induction table with
  | nil => rfl
  | cons entry rest ih =>
    rw [lookup_cons, filter_cons]
    split
    next => rw [lookup_cons, ih]
    next removed =>
      have same : entry.1 = key := by simpa using removed
      rw [ih, same, beq_false_of_ne different]

/-- The value of a key is replaced, or the key is added at the end. -/
def set (key : α) (value : β) : List (α × β) → List (α × β)
  | [] => [(key, value)]
  | entry :: rest => if entry.1 == key then (key, value) :: rest else entry :: set key value rest

theorem lookup_set_self (key : α) (value : β) (table : List (α × β)) :
    (set key value table).lookup key = some value := by
  induction table with
  | nil => simp [set]
  | cons entry rest ih =>
    rw [set]
    split
    next => simp
    next different =>
      have other : key ≠ entry.1 := fun same => different (beq_iff_eq.mpr same.symm)
      rw [lookup_cons, beq_false_of_ne other]
      exact ih

theorem lookup_set_of_ne {other : α} (different : other ≠ key) (value : β) (table : List (α × β)) :
    (set key value table).lookup other = table.lookup other := by
  induction table with
  | nil => simp [set, lookup_cons, beq_false_of_ne different]
  | cons entry rest ih =>
    rw [set]
    split
    next isKey =>
      rw [lookup_cons, lookup_cons, beq_iff_eq.mp isKey, beq_false_of_ne different]
    next => rw [lookup_cons, lookup_cons, ih]

theorem mem_keys_set (key : α) (value : β) (table : List (α × β)) (other : α) :
    other ∈ (set key value table).map (·.1) ↔ other = key ∨ other ∈ table.map (·.1) := by
  by_cases same : other = key
  · subst same
    have member := mem_of_lookup (lookup_set_self other value table)
    exact iff_of_true (mem_map.mpr ⟨_, member, rfl⟩) (.inl rfl)
  · rw [← not_iff_not, ← lookup_eq_none_iff, lookup_set_of_ne same, not_or, lookup_eq_none_iff]
    exact (and_iff_right same).symm

theorem nodup_set (key : α) (value : β) (nodup : (table.map (·.1)).Nodup) :
    ((set key value table).map (·.1)).Nodup := by
  induction table with
  | nil => exact nodup_singleton key
  | cons entry rest ih =>
    rw [set]
    rw [map_cons, nodup_cons] at nodup
    split
    next isKey =>
      rw [map_cons, nodup_cons]
      exact ⟨beq_iff_eq.mp isKey ▸ nodup.1, nodup.2⟩
    next different =>
      rw [map_cons, nodup_cons, mem_keys_set]
      refine ⟨fun inside => ?_, ih nodup.2⟩
      rcases inside with isKey | inRest
      · exact different (beq_iff_eq.mpr isKey)
      · exact nodup.1 inRest

/-! ### Tables computed entry by entry -/

section Computed

variable {γ : Type} {computed : α × β → α × γ → Prop} {table : List (α × β)} {results : List (α × γ)}
  (made : List.Forall₂ computed table results)

include made

omit [BEq α] [LawfulBEq α]

theorem keys_of_forall₂ (sameKey : ∀ entry result, computed entry result → result.1 = entry.1) :
    results.map (·.1) = table.map (·.1) := by
  induction made with
  | nil => rfl
  | cons isFirst _ ih => rw [map_cons, map_cons, ih, sameKey _ _ isFirst]

end Computed

end Assoc
