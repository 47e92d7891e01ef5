import Mathlib.Algebra.Order.BigOperators.Group.List
import Mathlib.Algebra.Order.Ring.Nat
import Mathlib.Data.List.Nodup

/-!
# Traversals of a graph with a worklist

`walk` visits depth first what can be reached from the nodes of a worklist and has not
been visited. `search` looks breadth first for a goal. A traversal of a finite graph
returns when it has enough fuel.
-/

namespace Worklist

open Relation List

variable {α : Type} (succ : α → List α)

/-- `a` leads to `b` along edges of the graph. -/
abbrev Reach (a b : α) : Prop := ReflTransGen (fun x y => y ∈ succ x) a b

variable {succ} in
/-- A path that leaves a set takes an edge out of it. -/
theorem Reach.leaves {inside : α → Prop} {a b : α} (path : Reach succ a b) (isIn : inside a)
    (isOut : ¬ inside b) : ∃ c d, inside c ∧ d ∈ succ c ∧ ¬ inside d ∧ Reach succ d b := by
  induction path using ReflTransGen.head_induction_on with
  | refl => exact absurd isIn isOut
  | @head a c edge rest ih =>
    by_cases stays : inside c
    · exact ih stays
    · exact ⟨a, c, isIn, edge, stays, rest⟩

/-! ### Closed sets of nodes -/

/-- No edge leads out of the visited nodes, except to the worklist. -/
def Closed (visited todo : List α) : Prop := ∀ a ∈ visited, ∀ b ∈ succ a, b ∈ visited ∨ b ∈ todo

theorem closed_nil (todo : List α) : Closed succ [] todo := fun _ member => absurd member not_mem_nil

variable {succ}

theorem Closed.skip {visited tail : List α} {head : α} (closed : Closed succ visited (head :: tail))
    (seen : head ∈ visited) : Closed succ visited tail := by
  intro a isVisited b edge
  rcases closed a isVisited b edge with inVisited | inTodo
  · exact .inl inVisited
  · rcases mem_cons.mp inTodo with rfl | inTail
    · exact .inl seen
    · exact .inr inTail

theorem Closed.visit {visited tail : List α} {head : α} (closed : Closed succ visited (head :: tail)) :
    Closed succ (head :: visited) (succ head ++ tail) := by
  intro a isVisited b edge
  simp only [mem_cons, mem_append]
  rcases mem_cons.mp isVisited with rfl | earlier
  · exact .inr (.inl edge)
  · rcases closed a earlier b edge with inVisited | inTodo
    · exact .inl (.inr inVisited)
    · rcases mem_cons.mp inTodo with rfl | inTail
      · exact .inl (.inl rfl)
      · exact .inr (.inr inTail)

theorem Closed.reach {visited : List α} (closed : Closed succ visited []) {a b : α} (start : a ∈ visited)
    (path : Reach succ a b) : b ∈ visited := by
  induction path with
  | refl => exact start
  | tail _ edge ih => exact (closed _ ih _ edge).resolve_right not_mem_nil

/-! ### What a traversal visits -/

variable (succ) in
/-- Nodes that can be reached from the worklist and were not visited before, each once. -/
structure Visits (todo visited new : List α) : Prop where
  distinct : new.Nodup
  fresh : ∀ a ∈ new, a ∉ visited
  reached : ∀ a ∈ new, ∃ start ∈ todo, Reach succ start a

namespace Visits

variable {todo todo' tail visited visited' new new' : List α} {head : α}

theorem mono (visits : Visits succ todo' visited' new) (sub : visited ⊆ visited')
    (starts : ∀ b ∈ todo', ∃ a ∈ todo, Reach succ a b) : Visits succ todo visited new where
  distinct := visits.distinct
  fresh a isNew isVisited := visits.fresh a isNew (sub isVisited)
  reached a isNew := by
    obtain ⟨b, isStart, path⟩ := visits.reached a isNew
    obtain ⟨c, isStart, path'⟩ := starts b isStart
    exact ⟨c, isStart, path'.trans path⟩

theorem skip (visits : Visits succ tail visited new) : Visits succ (head :: tail) visited new :=
  visits.mono (Subset.refl _) fun b inTail => ⟨b, mem_cons_of_mem _ inTail, .refl⟩

theorem append (first : Visits succ todo visited new) (later : Visits succ todo visited' new')
    (sub : new ++ visited ⊆ visited') : Visits succ todo visited (new' ++ new) where
  distinct := nodup_append.mpr ⟨later.distinct, first.distinct, fun a isNew' _ isNew same =>
    later.fresh a isNew' (sub (mem_append_left _ (same ▸ isNew)))⟩
  fresh := forall_mem_append.mpr ⟨fun a isNew isVisited =>
    later.fresh a isNew (sub (mem_append_right _ isVisited)), first.fresh⟩
  reached := forall_mem_append.mpr ⟨later.reached, first.reached⟩

theorem visit (visits : Visits succ todo (head :: visited) new) (unseen : head ∉ visited)
    (starts : ∀ b ∈ todo, b ∈ succ head ++ tail) : Visits succ (head :: tail) visited (new ++ [head]) := by
  have first : Visits succ (head :: tail) visited [head] :=
    ⟨nodup_singleton _, by simpa, by simpa using .inl .refl⟩
  refine first.append (visits.mono (Subset.refl _) fun b isStart => ?_) (Subset.refl _)
  rcases mem_append.mp (starts b isStart) with edge | inTail
  · exact ⟨head, mem_cons_self, .single edge⟩
  · exact ⟨b, mem_cons_of_mem _ inTail, .refl⟩

theorem perm (visits : Visits succ todo visited new) (perm : new ~ new') : Visits succ todo visited new' where
  distinct := perm.nodup_iff.mp visits.distinct
  fresh a isNew := visits.fresh a (perm.mem_iff.mpr isNew)
  reached a isNew := visits.reached a (perm.mem_iff.mpr isNew)

end Visits

variable (succ) in
/-- The new nodes are all that was left to visit. -/
structure Explored (todo visited new : List α) : Prop extends Visits succ todo visited new where
  covered : todo ⊆ new ++ visited
  closed : Closed succ (new ++ visited) []

namespace Explored

variable {todo tail visited new : List α} {head : α}

theorem nil (closed : Closed succ visited []) : Explored succ [] visited [] :=
  ⟨⟨nodup_nil, by simp, by simp⟩, nil_subset _, closed⟩

theorem skip (explored : Explored succ tail visited new) (seen : head ∈ visited) :
    Explored succ (head :: tail) visited new :=
  ⟨explored.toVisits.skip, cons_subset.mpr ⟨mem_append_right new seen, explored.covered⟩, explored.closed⟩

theorem visit (explored : Explored succ todo (head :: visited) new) (unseen : head ∉ visited)
    (same : ∀ b, b ∈ todo ↔ b ∈ succ head ++ tail) : Explored succ (head :: tail) visited (new ++ [head]) := by
  refine ⟨explored.toVisits.visit unseen fun b => (same b).mp, ?_, ?_⟩
  · apply cons_subset.mpr
    refine ⟨by simp, fun b inTail => ?_⟩
    simpa using explored.covered ((same b).mpr (mem_append_right _ inTail))
  · simpa using explored.closed

theorem mem_iff (explored : Explored succ todo visited new) (a : α) :
    a ∈ new ↔ a ∉ visited ∧ ∃ start ∈ todo, Reach succ start a := by
  refine ⟨fun isNew => ⟨explored.fresh a isNew, explored.reached a isNew⟩, ?_⟩
  rintro ⟨fresh, start, inTodo, path⟩
  have inside := explored.closed.reach (explored.covered inTodo) path
  exact (mem_append.mp inside).resolve_right fresh

end Explored

/-! ### Depth first -/

variable [DecidableEq α]

variable (succ) in
/-- The nodes found, latest first, and those visited. -/
def walk : Nat → List α → List α → List α → Option (List α × List α)
  | 0, _, _, _ => none
  | _ + 1, [], found, visited => some (found, visited)
  | fuel + 1, head :: tail, found, visited =>
    if head ∈ visited then walk fuel tail found visited
    else walk fuel (succ head ++ tail) (head :: found) (head :: visited)

/-- What a traversal has done when it returns: the new nodes are put in front of both
lists. -/
theorem walk_spec (fuel : Nat) (todo found visited found' visited' : List α)
    (closed : Closed succ visited todo)
    (returned : walk succ fuel todo found visited = some (found', visited')) :
    ∃ new, found' = new ++ found ∧ visited' = new ++ visited ∧ Explored succ todo visited new := by
  induction fuel generalizing todo found visited with
  | zero => cases returned
  | succ fuel ih =>
    cases todo with
    | nil =>
      cases returned
      exact ⟨[], rfl, rfl, .nil closed⟩
    | cons head tail =>
      rw [walk] at returned
      split at returned
      next seen =>
        obtain ⟨new, rfl, rfl, explored⟩ := ih tail found visited (closed.skip seen) returned
        exact ⟨new, rfl, rfl, explored.skip seen⟩
      next unseen =>
        obtain ⟨new, rfl, rfl, explored⟩ :=
          ih (succ head ++ tail) (head :: found) (head :: visited) closed.visit returned
        exact ⟨new ++ [head], by simp, by simp, explored.visit unseen fun _ => Iff.rfl⟩

/-- A traversal may start with visited nodes that have not been expanded. -/
theorem walk_expands (fuel : Nat) (todo found visited : List α) {found' visited' : List α}
    (returned : walk succ fuel todo found visited = some (found', visited')) :
    visited ⊆ visited' ∧ todo ⊆ visited' ∧
      ∀ a ∈ visited', a ∈ visited ∨ succ a ⊆ visited' ∧ ∃ start ∈ todo, Reach succ start a := by
  induction fuel generalizing todo found visited with
  | zero => cases returned
  | succ fuel ih =>
    cases todo with
    | nil =>
      cases returned
      exact ⟨Subset.refl _, nil_subset _, fun a isVisited => .inl isVisited⟩
    | cons head tail =>
      rw [walk] at returned
      split at returned
      next seen =>
        obtain ⟨kept, covered, each⟩ := ih _ _ _ returned
        refine ⟨kept, cons_subset.mpr ⟨kept seen, covered⟩, fun a member => (each a member).imp_right ?_⟩
        rintro ⟨expanded, start, inTail, path⟩
        exact ⟨expanded, start, mem_cons_of_mem _ inTail, path⟩
      next =>
        obtain ⟨kept, covered, each⟩ := ih _ _ _ returned
        obtain ⟨isIn, kept⟩ := cons_subset.mp kept
        obtain ⟨headExpanded, covered⟩ := append_subset.mp covered
        refine ⟨kept, cons_subset.mpr ⟨isIn, covered⟩, fun a member => ?_⟩
        rcases each a member with isOld | ⟨expanded, start, isStart, path⟩
        · rcases mem_cons.mp isOld with rfl | earlier
          · exact .inr ⟨headExpanded, a, mem_cons_self, .refl⟩
          · exact .inl earlier
        · refine .inr ⟨expanded, ?_⟩
          rcases mem_append.mp isStart with edge | inTail
          · exact ⟨head, mem_cons_self, .head edge path⟩
          · exact ⟨start, mem_cons_of_mem _ inTail, path⟩

/-! ### Enough fuel -/

section Fuel

variable (succ) in
/-- The edges of the nodes that are still to be visited. -/
def edgesLeft (nodes visited : List α) : Nat :=
  (nodes.map fun a => if a ∈ visited then 0 else (succ a).length).sum

variable (succ) in
theorem edgesLeft_mono (nodes : List α) {visited visited' : List α} (sub : visited ⊆ visited') :
    edgesLeft succ nodes visited' ≤ edgesLeft succ nodes visited := by
  refine sum_le_sum fun a _ => ?_
  by_cases isVisited : a ∈ visited
  · rw [if_pos (sub isVisited)]
    exact Nat.zero_le _
  · rw [if_neg isVisited]
    split <;> omega

variable (succ) in
def edges (nodes : List α) : Nat := (nodes.map fun a => (succ a).length).sum

variable (succ) in
theorem edgesLeft_le_edges (nodes visited : List α) :
    edgesLeft succ nodes visited ≤ edges succ nodes := by
  induction nodes with
  | nil => exact Nat.le_refl _
  | cons a nodes ih =>
    simp only [edgesLeft, edges, map_cons, sum_cons] at ih ⊢
    split <;> omega

variable (succ) in
theorem edgesLeft_visit {nodes visited : List α} {head : α} (isNode : head ∈ nodes)
    (unseen : head ∉ visited) :
    edgesLeft succ nodes (head :: visited) + (succ head).length ≤ edgesLeft succ nodes visited := by
  induction nodes with
  | nil => cases isNode
  | cons a nodes ih =>
    have fewer := edgesLeft_mono succ nodes (subset_cons_self head visited)
    simp only [edgesLeft, map_cons, sum_cons] at ih fewer ⊢
    by_cases isHead : a = head
    · subst isHead
      rw [if_pos mem_cons_self, if_neg unseen]
      omega
    · have later : head ∈ nodes := (mem_cons.mp isNode).resolve_left (Ne.symm isHead)
      have same : a ∈ head :: visited ↔ a ∈ visited := by simp [isHead]
      have rest := ih later
      simp only [same]
      omega

theorem walk_returns {nodes : List α} (all : ∀ a, a ∈ nodes) {fuel : Nat}
    (todo found visited : List α) (enough : todo.length + edgesLeft succ nodes visited < fuel) :
    (walk succ fuel todo found visited).isSome := by
  induction fuel generalizing todo found visited with
  | zero => omega
  | succ fuel ih =>
    cases todo with
    | nil => rfl
    | cons head tail =>
      rw [walk]
      rw [length_cons] at enough
      split
      next => exact ih tail found visited (by omega)
      next unseen =>
        have fewer := edgesLeft_visit succ (all head) unseen
        apply ih
        rw [length_append]
        omega

end Fuel

/-! ### Breadth first -/

variable (succ) in
/-- Whether a goal is reached. -/
def search (goal : α → Bool) : Nat → List α → List α → Option Bool
  | 0, _, _ => none
  | _ + 1, [], _ => some false
  | fuel + 1, node :: nodes, visited =>
    let new := (node :: nodes).filter (· ∉ visited)
    if new.any goal then some true else search goal fuel (new.flatMap succ) (new ++ visited)

/-- What the answer means, when the visited nodes have been searched. -/
theorem search_spec (goal : α → Bool) (fuel : Nat) (frontier visited : List α) {answer : Bool}
    (closed : Closed succ visited frontier) (searched : ∀ a ∈ visited, goal a = false)
    (returned : search succ goal fuel frontier visited = some answer) :
    answer = true ↔ ∃ start ∈ frontier, ∃ a, goal a = true ∧ Reach succ start a := by
  induction fuel generalizing frontier visited with
  | zero => cases returned
  | succ fuel ih =>
    cases frontier with
    | nil =>
      cases returned
      simp
    | cons node nodes =>
      simp only [search] at returned
      generalize isNew : (node :: nodes).filter (· ∉ visited) = new at returned
      have sub : new ⊆ node :: nodes := isNew ▸ filter_subset_self _
      have covered : ∀ a ∈ node :: nodes, a ∈ new ++ visited := by
        intro a member
        simp [← isNew, member, Decidable.not_or_self]
      split at returned
      next here =>
        cases returned
        obtain ⟨a, isNew, isGoal⟩ := any_eq_true.mp here
        exact iff_of_true rfl ⟨a, sub isNew, a, isGoal, .refl⟩
      next notHere =>
        have searched' : ∀ a ∈ new ++ visited, goal a = false :=
          forall_mem_append.mpr ⟨by simpa using notHere, searched⟩
        have closed' : Closed succ (new ++ visited) (new.flatMap succ) := by
          refine forall_mem_append.mpr ⟨fun a isNew b edge => .inr (mem_flatMap.mpr ⟨a, isNew, edge⟩), ?_⟩
          intro a isVisited b edge
          rcases closed a isVisited b edge with inVisited | inFrontier
          · exact .inl (mem_append_right _ inVisited)
          · exact .inl (covered b inFrontier)
        rw [ih _ _ closed' searched' returned]
        constructor
        · rintro ⟨next, isNext, a, isGoal, path⟩
          obtain ⟨start, isNew, edge⟩ := mem_flatMap.mp isNext
          exact ⟨start, sub isNew, a, isGoal, .head edge path⟩
        · rintro ⟨start, isStart, a, isGoal, path⟩
          -- a path to a goal leaves what has been searched
          have isOut : a ∉ new ++ visited := fun isIn => by simp [searched' a isIn] at isGoal
          obtain ⟨c, d, isIn, edge, isNext, rest⟩ := path.leaves (covered start isStart) isOut
          exact ⟨d, (closed' c isIn d edge).resolve_left isNext, a, isGoal, rest⟩

def nodesLeft (nodes visited : List α) : Nat := (nodes.filter (· ∉ visited)).length

theorem nodesLeft_lt (nodes visited new : List α) (a : α) (isNode : a ∈ nodes) (unseen : a ∉ visited)
    (isNew : a ∈ new) : nodesLeft nodes (new ++ visited) < nodesLeft nodes visited := by
  have split : nodes.filter (· ∉ new ++ visited) = (nodes.filter (· ∉ visited)).filter (· ∉ new) := by
    rw [filter_filter]
    apply filter_congr
    intro b _
    simp
  rw [nodesLeft, split]
  apply length_filter_lt_length_iff_exists.mpr
  exact ⟨a, mem_filter.mpr ⟨isNode, by simpa using unseen⟩, by simpa using isNew⟩

theorem search_returns (goal : α → Bool) {nodes : List α} (all : ∀ a, a ∈ nodes) {fuel : Nat}
    (frontier visited : List α) (enough : nodesLeft nodes visited + 1 < fuel) :
    (search succ goal fuel frontier visited).isSome := by
  induction fuel generalizing frontier visited with
  | zero => omega
  | succ fuel ih =>
    cases frontier with
    | nil => rfl
    | cons node rest =>
      simp only [search]
      split
      next => rfl
      next =>
        cases isNew : (node :: rest).filter (· ∉ visited) with
        | nil =>
          -- nothing new was found, so that the next round is the last
          cases fuel with
          | zero => omega
          | succ fuel => rfl
        | cons a new =>
          have fresh : a ∈ (node :: rest).filter (· ∉ visited) := by
            rw [isNew]
            exact mem_cons_self
          have unseen : a ∉ visited := by simpa using (mem_filter.mp fresh).2
          have fewer := nodesLeft_lt nodes visited (a :: new) a (all a) unseen mem_cons_self
          apply ih
          omega

end Worklist
