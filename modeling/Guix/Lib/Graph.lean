import Mathlib.Data.Finset.Card

/-!
# Directed graphs and cycles

A relation is acyclic here if it has no cycle other than self-loops.
-/

namespace Graph

open Relation List TransGen Finset

variable {α : Type*}

/-- The edges of `r` that are not self-loops. -/
def Proper (r : α → α → Prop) (a b : α) : Prop := a ≠ b ∧ r a b

def Acyclic (r : α → α → Prop) : Prop := ∀ a, ¬ TransGen (Proper r) a a

variable {r : α → α → Prop}

theorem Acyclic.mono {old : α → α → Prop} (acyclic : Acyclic old)
    (sub : ∀ a b, r a b → old a b) : Acyclic r := by
  intro a cycle
  exact acyclic a (TransGen.mono (fun x y edge => ⟨edge.1, sub x y edge.2⟩) _ _ cycle)

variable {a b : α}

/-- Self-loops can be left out of a path. -/
theorem reflTransGen_proper (path : ReflTransGen r a b) : ReflTransGen (Proper r) a b := by
  induction path with
  | refl => exact .refl
  | @tail c d _ edge ih =>
    by_cases loop : c = d
    · exact loop ▸ ih
    · exact ih.tail ⟨loop, edge⟩

theorem Acyclic.no_return (acyclic : Acyclic r) (edge : Proper r b a) : ¬ ReflTransGen r a b := by
  intro path
  exact acyclic a (tail' (reflTransGen_proper path) edge)

theorem Acyclic.swap (acyclic : Acyclic r) : Acyclic fun a b => r b a := by
  intro a cycle
  have reversed : TransGen (Function.swap (Proper r)) a a :=
    TransGen.mono (fun x y edge => ⟨Ne.symm edge.1, edge.2⟩) _ _ cycle
  exact acyclic a (transGen_swap.mp reversed)

/-! ### Adding nodes that nothing refers to yet -/

section Extension

variable {r old : α → α → Prop} {s : Set α}

section

variable (closed : ∀ a b, a ∈ s → r a b → b ∈ s ∧ old a b)
include closed

/-- A path of `r` that starts in a set which `r` does not leave is a path of `old`. -/
theorem transGen_of_closed (start : a ∈ s)
    (path : TransGen (Proper r) a b) : b ∈ s ∧ TransGen (Proper old) a b := by
  induction path with
  | single edge =>
    obtain ⟨inside, kept⟩ := closed a _ start edge.2
    exact ⟨inside, .single ⟨edge.1, kept⟩⟩
  | tail _ edge ih =>
    obtain ⟨inside, kept⟩ := closed _ _ ih.1 edge.2
    exact ⟨inside, ih.2.tail ⟨edge.1, kept⟩⟩

/-- A path of `r` that ends outside such a set has always been outside. -/
theorem transGen_outside (path : TransGen (Proper r) a b) (outside : b ∉ s) :
    TransGen (Proper fun x y => x ∉ s ∧ y ∉ s ∧ r x y) a b := by
  induction path with
  | @single c edge =>
    have fromOutside : a ∉ s := fun start => outside (closed a c start edge.2).1
    exact .single ⟨edge.1, fromOutside, outside, edge.2⟩
  | @tail c d _ edge ih =>
    have fromOutside : c ∉ s := fun start => outside (closed c d start edge.2).1
    exact (ih fromOutside).tail ⟨edge.1, fromOutside, outside, edge.2⟩

/-- If `r` adds edges to `old` only from nodes outside `s`, and no edge leaves `s`, a
new cycle lies entirely outside `s`. -/
theorem Acyclic.extend (acyclic : Acyclic old)
    (outside : Acyclic fun a b => a ∉ s ∧ b ∉ s ∧ r a b) : Acyclic r := by
  intro a cycle
  by_cases inside : a ∈ s
  · exact acyclic a (transGen_of_closed closed inside cycle).2
  · exact outside a (transGen_outside closed cycle inside)

end

end Extension

/-! ### Topologically sorted lists -/

/-- Every node of the list comes before all its successors. -/
def Sorted (r : α → α → Prop) : List α → Prop
  | [] => True
  | a :: later => (∀ b, Proper r a b → b ∈ later) ∧ Sorted r later

variable {nodes : List α}

theorem Sorted.mono {r' : α → α → Prop} (sorted : Sorted r nodes)
    (sub : ∀ a b, r' a b → r a b) : Sorted r' nodes := by
  induction nodes with
  | nil => trivial
  | cons a later ih => exact ⟨fun b edge => sorted.1 b ⟨edge.1, sub a b edge.2⟩, ih sorted.2⟩

theorem Sorted.of_append {front : List α} (sorted : Sorted r (front ++ nodes)) : Sorted r nodes := by
  induction front with
  | nil => exact sorted
  | cons a front ih => exact ih sorted.2

theorem Sorted.transGen_mem (sorted : Sorted r nodes) (start : a ∈ nodes)
    (path : TransGen (Proper r) a b) : b ∈ nodes := by
  induction nodes generalizing a with
  | nil => cases start
  | cons c later ih =>
    rcases mem_cons.mp start with rfl | inLater
    · -- the first edge leads to a later node
      rcases head'_iff.mp path with ⟨next, edge, rest⟩
      have nextLater := sorted.1 next edge
      rcases (reflTransGen_iff_eq_or_transGen).mp rest with rfl | more
      · exact mem_cons_of_mem _ nextLater
      · exact mem_cons_of_mem _ (ih sorted.2 nextLater more)
    · exact mem_cons_of_mem _ (ih sorted.2 inLater path)

/-- A relation among the nodes of a sorted list is acyclic. -/
theorem Sorted.acyclic (sorted : Sorted r nodes) (nodup : nodes.Nodup)
    (among : ∀ a b, r a b → a ∈ nodes) : Acyclic r := by
  intro a cycle
  have start : a ∈ nodes := by
    obtain ⟨next, edge, _⟩ := head'_iff.mp cycle
    exact among a next edge.2
  clear among
  induction nodes with
  | nil => cases start
  | cons c later ih =>
    obtain ⟨fresh, laterNodup⟩ := nodup_cons.mp nodup
    rcases mem_cons.mp start with rfl | inLater
    · obtain ⟨next, edge, rest⟩ := head'_iff.mp cycle
      have nextLater := sorted.1 next edge
      rcases (reflTransGen_iff_eq_or_transGen).mp rest with rfl | more
      · exact fresh nextLater
      · exact fresh (sorted.2.transGen_mem nextLater more)
    · exact ih sorted.2 laterNodup inLater

/-! ### The rank of a node -/

/-- How many nodes of a finite set a node reaches. -/
noncomputable def rank (r : α → α → Prop) (nodes : Finset α) (a : α) : Nat :=
  letI := Classical.decPred fun b => TransGen (Proper r) a b
  (nodes.filter fun b => TransGen (Proper r) a b).card

theorem rank_le_card (r : α → α → Prop) (nodes : Finset α) (a : α) :
    rank r nodes a ≤ nodes.card := by
  classical
  exact card_le_card (filter_subset _ _)

theorem Acyclic.rank_lt {nodes : Finset α} (acyclic : Acyclic r) (edge : Proper r a b)
    (inNodes : b ∈ nodes) : rank r nodes b < rank r nodes a := by
  classical
  apply card_lt_card
  refine ssubset_iff_of_subset ?_ |>.mpr ⟨b, ?_, ?_⟩
  · intro c reached
    simp only [Finset.mem_filter] at reached ⊢
    exact ⟨reached.1, head edge reached.2⟩
  · exact mem_filter.mpr ⟨inNodes, .single edge⟩
  · -- a node that reaches itself would be on a cycle
    intro cycle
    exact acyclic b (mem_filter.mp cycle).2

end Graph
