import Mathlib.Data.Finset.Card

/-!
# Searches that share one visited set

A search of a graph adds nodes to a set that it also uses to see where it has been, and
the set may hold nodes before the search starts. `Explored r starts s s'` says what a
search from `starts` has done to the set.
-/

namespace Closure

open Relation List

variable {α : Type*} {r : α → α → Prop}

structure Explored (r : α → α → Prop) (starts : List α) (s s' : Finset α) : Prop where
  grows : s ⊆ s'
  starts_mem : ∀ a ∈ starts, a ∈ s'
  sound : ∀ b ∈ s', b ∈ s ∨ ∃ a ∈ starts, ReflTransGen r a b
  closed : ∀ b ∈ s', b ∉ s → ∀ c, r b c → c ∈ s'

namespace Explored

variable {a : α} {starts : List α} {s s1 s' : Finset α}

theorem nil : Explored r [] s s where
  grows := Finset.Subset.refl s
  starts_mem := by simp
  sound _ there := .inl there
  closed _ there new := absurd there new

theorem seen (there : a ∈ s) : Explored r [a] s s where
  grows := Finset.Subset.refl s
  starts_mem := by simpa using there
  sound _ there := .inl there
  closed _ there new := absurd there new

theorem enter [DecidableEq α] (successors : ∀ b, b ∈ starts ↔ r a b)
    (explored : Explored r starts (insert a s) s') : Explored r [a] s s' where
  grows := (Finset.subset_insert a s).trans explored.grows
  starts_mem := by
    have here := explored.grows (Finset.mem_insert_self a s)
    simpa using here
  sound b there := by
    simp only [mem_singleton, exists_eq_left]
    rcases explored.sound b there with old | ⟨next, start, path⟩
    · rcases Finset.mem_insert.mp old with rfl | old
      · exact .inr .refl
      · exact .inl old
    · exact .inr (.head ((successors next).mp start) path)
  closed b there new c edge := by
    by_cases same : b = a
    · rw [same] at edge
      exact explored.starts_mem c ((successors c).mpr edge)
    · refine explored.closed b there ?_ c edge
      simp [same, new]

/-- One search after another, from the set that the first one has left. -/
theorem append (first : Explored r starts s s1) (second : Explored r [a] s1 s') :
    Explored r (starts ++ [a]) s s' where
  grows := first.grows.trans second.grows
  starts_mem b start := by
    rcases mem_append.mp start with early | late
    · exact second.grows (first.starts_mem b early)
    · exact second.starts_mem b late
  sound b there := by
    rcases second.sound b there with old | ⟨start, isStart, path⟩
    · rcases first.sound b old with older | ⟨start, isStart, path⟩
      · exact .inl older
      · exact .inr ⟨start, mem_append_left _ isStart, path⟩
    · exact .inr ⟨start, mem_append_right _ isStart, path⟩
  closed b there new c edge := by
    -- what the first search has added is closed already
    by_cases early : b ∈ s1
    · exact second.grows (first.closed b early new c edge)
    · exact second.closed b there early c edge

/-- If the set was closed before, it is afterwards what it was and all that can be
reached. -/
theorem mem_iff (explored : Explored r [a] s s') (closed : ∀ b ∈ s, ∀ c, r b c → c ∈ s) (b : α) :
    b ∈ s' ↔ b ∈ s ∨ ReflTransGen r a b := by
  constructor
  · intro there
    rcases explored.sound b there with old | ⟨start, isStart, path⟩
    · exact .inl old
    · rw [mem_singleton.mp isStart] at path
      exact .inr path
  · intro member
    rcases member with old | path
    · exact explored.grows old
    · induction path with
      | refl => exact explored.starts_mem a mem_cons_self
      | @tail c d _ edge there =>
        by_cases old : c ∈ s
        · exact explored.grows (closed c old d edge)
        · exact explored.closed c there old d edge

end Explored

/-! ### How far a search can still go -/

variable [DecidableEq α]

/-- How many of the nodes a search can still add to the set. -/
def remaining (nodes s : Finset α) : Nat := (nodes \ s).card

theorem remaining_le (nodes : Finset α) {s s' : Finset α} (grows : s ⊆ s') :
    remaining nodes s' ≤ remaining nodes s :=
  Finset.card_le_card (Finset.sdiff_subset_sdiff subset_rfl grows)

theorem remaining_insert_lt {nodes s : Finset α} {a : α} (node : a ∈ nodes) (new : a ∉ s) :
    remaining nodes (insert a s) < remaining nodes s := by
  apply Finset.card_lt_card
  refine Finset.ssubset_iff_of_subset ?_ |>.mpr ⟨a, ?_, ?_⟩
  · exact Finset.sdiff_subset_sdiff subset_rfl (Finset.subset_insert _ _)
  · simp [node, new]
  · simp

end Closure
