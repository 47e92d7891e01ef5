import Guix.Lib.Assoc
import Guix.Lib.Hoare
import Mathlib.Logic.Relation

/-!
# Memoised folds of acyclic graphs

The result of a node is combined from the results of its children and kept in a table, where
later visits of the node find it.
-/

namespace MemoFold

open Relation Hoare List

variable {S R ε : Type} (children : S → List S) (combine : S → List R → Except ε R)
  (outOfFuel : ε)

def visit [DecidableEq S] : Nat → S → EStateM ε (List (S × R)) R
  | 0, _ => throw outOfFuel
  | fuel + 1, node => do
    match (← get).lookup node with
    | some result => return result
    | none =>
      let results ← (children node).mapM (visit fuel)
      let result ← MonadExcept.ofExcept (combine node results)
      modify ((node, result) :: ·)
      return result

/-- `node` is reached from `start` along the children. -/
def Reaches (start node : S) : Prop := ReflTransGen (fun parent child => child ∈ children parent) start node

/-- The result is the one that is combined from those of the children in the table. -/
def Combined (table : List (S × R)) (node : S) (result : R) : Prop :=
  ∃ results, Forall₂ (fun child result => (child, result) ∈ table) (children node) results ∧
    combine node results = .ok result

/-- Every node is in the table at most once, with its result. -/
structure Consistent (good : S → R → Prop) (table : List (S × R)) : Prop where
  nodup : (table.map (·.1)).Nodup
  combined : ∀ node result, (node, result) ∈ table → Combined children combine table node result
  good : ∀ node result, (node, result) ∈ table → good node result

/-- The entries stay, and what comes to them is reached from the nodes `starts`. -/
def Grows (starts : List S) (table table' : List (S × R)) : Prop :=
  table ⊆ table' ∧ ∀ node ∈ table'.map (·.1), node ∈ table.map (·.1) ∨
    ∃ start ∈ starts, Reaches children start node

variable {children combine outOfFuel}
variable {table table' : List (S × R)} {node : S} {result : R}

theorem Combined.mono (sub : table ⊆ table') (combined : Combined children combine table node result) :
    Combined children combine table' node result := by
  obtain ⟨results, made, same⟩ := combined
  exact ⟨results, made.imp fun _ _ member => sub member, same⟩

theorem Grows.refl (starts : List S) (table : List (S × R)) : Grows children starts table table :=
  ⟨List.Subset.refl table, fun _ member => .inl member⟩

variable {starts : List S}

theorem Grows.trans {first second third : List (S × R)} (before : Grows children starts first second)
    (after : Grows children starts second third) :
    Grows children starts first third := by
  refine ⟨List.Subset.trans before.1 after.1, ?_⟩
  intro node member
  rcases after.2 node member with old | reached
  · exact before.2 node old
  · exact .inr reached

theorem mem_keys (member : (node, result) ∈ table) : node ∈ table.map (·.1) :=
  mem_map.mpr ⟨(node, result), member, rfl⟩

variable {good : S → R → Prop}

/-- A new entry for a node none of whose children leads back to it. -/
theorem Consistent.cons (consistent : Consistent children combine good table')
    (new : node ∉ table.map (·.1)) (grows : Grows children (children node) table table')
    (acyclic : ∀ child ∈ children node, ¬ Reaches children child node)
    (combined : Combined children combine table' node result) (isGood : good node result) :
    Consistent children combine good ((node, result) :: table') where
  nodup := by
    refine nodup_cons.mpr ⟨?_, consistent.nodup⟩
    intro member
    rcases grows.2 node member with old | ⟨child, isChild, reached⟩
    · exact new old
    · exact acyclic child isChild reached
  combined := by
    intro other result' member
    rcases mem_cons.mp member with same | old
    · cases same
      exact combined.mono (subset_cons_self _ _)
    · exact (consistent.combined other result' old).mono (subset_cons_self _ _)
  good := by
    intro other result' member
    rcases mem_cons.mp member with same | old
    · cases same
      exact isGood
    · exact consistent.good other result' old

theorem Grows.cons (grows : Grows children (children node) table table') :
    Grows children [node] table ((node, result) :: table') := by
  refine ⟨fun entry member => mem_cons_of_mem _ (grows.1 member), ?_⟩
  intro other member
  rcases mem_cons.mp member with rfl | old
  · exact .inr ⟨_, mem_cons_self, .refl⟩
  · refine (grows.2 other old).imp_right ?_
    rintro ⟨child, isChild, reached⟩
    exact ⟨node, mem_cons_self, .head isChild reached⟩

variable {start : S}

theorem Grows.of_mem (member : start ∈ starts)
    (grows : Grows children [start] table table') : Grows children starts table table' := by
  refine ⟨grows.1, fun node isKey => (grows.2 node isKey).imp_right ?_⟩
  rintro ⟨start', isStart, reached⟩
  exact ⟨start, member, mem_singleton.mp isStart ▸ reached⟩

theorem rank_le_of_reaches {rank : S → Nat}
    (ranked : ∀ node, ∀ child ∈ children node, rank child < rank node)
    (reached : Reaches children start node) : rank node ≤ rank start := by
  induction reached with
  | refl => exact Nat.le_refl _
  | tail _ edge ih => exact Nat.le_trans (Nat.le_of_lt (ranked _ _ edge)) ih

variable [DecidableEq S]

/-- A visit returns, and leaves a consistent table with the result of the node. The rank of a
node is above those of its children and below the fuel. -/
theorem wp_visit (good : S → R → Prop) (rank : S → Nat)
    (ranked : ∀ node, ∀ child ∈ children node, rank child < rank node)
    (combines : ∀ node results, Forall₂ good (children node) results →
      ∃ result, combine node results = .ok result ∧ good node result)
    (fuel : Nat) (node : S) (enough : rank node < fuel) (table : List (S × R))
    (consistent : Consistent children combine good table) :
    wp (visit children combine outOfFuel fuel node)
      (fun result table' => Consistent children combine good table' ∧ (node, result) ∈ table' ∧
        Grows children [node] table table') (fun _ _ => False) table := by
  induction fuel generalizing node table with
  | zero => omega
  | succ fuel ih =>
    rw [visit, wp_bind, wp_get]
    cases found : table.lookup node with
    | some result =>
      exact ⟨consistent, Assoc.mem_of_lookup found, .refl _ _⟩
    | none =>
      rw [wp_bind]
      have visited := wp_mapM_forall₂ (children node) (visit children combine outOfFuel fuel)
        (Consistent children combine good) (Grows children (children node))
        (fun child result table => (child, result) ∈ table) (fun _ _ => False) table consistent
        (Grows.refl _) (fun _ _ _ => Grows.trans)
        (fun _ _ _ _ grows member => grows.1 member)
        (fun child isChild table consistent => by
          apply wp_mono (ih child (by have := ranked node child isChild; omega) table consistent)
          · rintro result table' ⟨consistent', member, grows⟩
            exact ⟨consistent', grows.of_mem isChild, member⟩
          · exact fun _ _ failed => failed)
      apply wp_imp visited
      rintro results table' ⟨consistent', grows, made⟩
      have allGood : Forall₂ good (children node) results :=
        made.imp fun child result member => consistent'.good child result member
      obtain ⟨result, combined, isGood⟩ := combines node results allGood
      -- a way back to the node would go up in rank
      have acyclic : ∀ child ∈ children node, ¬ Reaches children child node := by
        intro child isChild reached
        have lower := ranked node child isChild
        have notHigher := rank_le_of_reaches ranked reached
        omega
      rw [combined]
      simp only [wp_bind, wp_ofExcept, wp_modify, wp_pure]
      constructor
      · rintro _ ⟨⟩
        exact ⟨consistent'.cons (Assoc.lookup_eq_none_iff.mp found) grows acyclic ⟨results, made, combined⟩ isGood,
          mem_cons_self, grows.cons⟩
      · rintro _ ⟨⟩

omit [DecidableEq S] in
/-- In a consistent table every node that is reached from an entry is an entry. -/
theorem Consistent.mem_of_reaches (consistent : Consistent children combine good table)
    (member : start ∈ table.map (·.1))
    (reached : Reaches children start node) : node ∈ table.map (·.1) := by
  induction reached with
  | refl => exact member
  | @tail parent child _ edge ih =>
    obtain ⟨⟨_, result⟩, isEntry, rfl⟩ := mem_map.mp ih
    obtain ⟨results, made, _⟩ := consistent.combined _ _ isEntry
    obtain ⟨result, _, isEntry⟩ := made.exists_of_mem edge
    exact mem_keys isEntry

end MemoFold
