import Guix.Lib.Graph
import Guix.Lib.Hoare
import Guix.LibStore.Misc

/-!
# Correctness of the topological sort

A visit that returns has put its path, after all paths reachable from it, at the front
of `sorted`. So a sort that returns has seen no cycle among the paths it was given.
-/

namespace Guix.LibStore

open Hoare Graph List Dfs

variable {ε : Type} (isValidPath : Path → Bool) (queryReferences : Path → Except ε (List Path))
  (paths : List Path)

/-- The references that a visit follows, and the self-references. -/
def DfsEdge (a b : Path) : Prop :=
  ∃ references, referencesOf isValidPath queryReferences a = .ok references ∧
    b ∈ references ∧ b ∈ paths

/-- The references among the paths to be sorted. -/
abbrev DfsWithin (a b : Path) : Prop := a ∈ paths ∧ DfsEdge isValidPath queryReferences paths a b

/-- What holds between any two visits. -/
structure Dfs.Inv (s : Dfs) : Prop where
  sorted : Sorted (DfsEdge isValidPath queryReferences paths) s.sorted
  nodup : s.sorted.Nodup
  visited : ∀ p, p ∈ s.visited ↔ p ∈ s.parents ∨ p ∈ s.sorted
  disjoint : ∀ p ∈ s.sorted, p ∉ s.parents
  asked : ∀ p ∈ s.sorted, p ∈ paths ∧ ∃ references, referencesOf isValidPath queryReferences p = .ok references

/-- What a visit of `path` does when it returns. -/
structure Dfs.Visited (path : Path) (s s' : Dfs) : Prop where
  inv : s'.Inv isValidPath queryReferences paths
  parents : s'.parents = s.parents
  grows : ∀ p ∈ s.sorted, p ∈ s'.sorted
  path_mem : path ∈ s'.sorted

/-- The loop over the references of `path`, with those in `done` visited. -/
structure Dfs.Loop (path : Path) (done : List Path) (s s' : Dfs) : Prop where
  inv : s'.Inv isValidPath queryReferences paths
  parents : s'.parents = (s.enter path).parents
  grows : ∀ p ∈ s.sorted, p ∈ s'.sorted
  done_mem : ∀ i ∈ done, i ≠ path → i ∈ paths → i ∈ s'.sorted

/-- Why a visit throws: there is a cycle, or a query throws. -/
def Dfs.Throws : SortError ε → Prop
  | .cycle _ => ¬ Acyclic (DfsWithin isValidPath queryReferences paths)
  | .store error => ∃ path, queryReferences path = .error error
  | .outOfFuel => False

namespace Dfs

variable {isValidPath queryReferences paths}

theorem Inv.enter {s : Dfs} {path : Path} (inv : s.Inv isValidPath queryReferences paths)
    (unvisited : path ∉ s.visited) : (s.enter path).Inv isValidPath queryReferences paths where
  sorted := inv.sorted
  nodup := inv.nodup
  visited p := by
    simp only [Dfs.enter, Finset.mem_insert, inv.visited p, or_assoc]
  disjoint p sorted := by
    simp only [Dfs.enter, Finset.mem_insert, not_or]
    refine ⟨?_, inv.disjoint p sorted⟩
    intro same
    exact unvisited (same ▸ (inv.visited p).mpr (.inr sorted))
  asked := inv.asked

theorem Loop.leave {s s' : Dfs} {path : Path} {references : List Path}
    (asked : referencesOf isValidPath queryReferences path = .ok references) (inPaths : path ∈ paths)
    (fresh : path ∉ s.parents)
    (loop : Loop isValidPath queryReferences paths path references s s') :
    Visited isValidPath queryReferences paths path s (s'.leave path) := by
  have onStack : path ∈ s'.parents := by simp [loop.parents, enter]
  have notSorted : path ∉ s'.sorted := fun sorted => loop.inv.disjoint path sorted onStack
  have restored : s'.parents.erase path = s.parents := by
    rw [loop.parents, enter, Finset.erase_insert fresh]
  refine ⟨⟨⟨?_, loop.inv.sorted⟩, ?_, ?_, ?_, ?_⟩, restored, ?_, ?_⟩
  · -- the successors of `path` were visited by the loop
    intro b edge
    obtain ⟨others, asked', listed, inPaths⟩ := edge.2
    rw [asked] at asked'
    cases asked'
    exact loop.done_mem b listed (Ne.symm edge.1) inPaths
  · exact nodup_cons.mpr ⟨notSorted, loop.inv.nodup⟩
  · intro p
    simp only [Dfs.leave, loop.inv.visited p, Finset.mem_erase, mem_cons]
    by_cases same : p = path <;> simp [same, onStack]
  · intro p sorted
    simp only [Dfs.leave, mem_cons] at sorted
    simp only [Dfs.leave, Finset.mem_erase, not_and]
    exact fun different => loop.inv.disjoint p (sorted.resolve_left different)
  · exact forall_mem_cons.mpr ⟨⟨inPaths, references, asked⟩, loop.inv.asked⟩
  · intro p sorted
    exact mem_cons_of_mem _ (loop.grows p sorted)
  · exact mem_cons_self

end Dfs

/-- A visit that comes back to a parent has found a cycle: every parent leads to the path that is
visited. -/
theorem dfsVisit_spec (fuel : Nat) (path : Path) (s : Dfs)
    (inv : s.Inv isValidPath queryReferences paths) (inPaths : path ∈ paths)
    (enough : (paths.toFinset \ s.parents).card < fuel) (leads : ∀ parent ∈ s.parents,
      Relation.TransGen (Proper (DfsWithin isValidPath queryReferences paths)) parent path) :
    wp (dfsVisit isValidPath queryReferences paths fuel path)
      (fun _ s' => s.Visited isValidPath queryReferences paths path s')
      (fun e _ => Throws isValidPath queryReferences paths e) s := by
  induction fuel generalizing path s with
  | zero => omega
  | succ fuel ih =>
    simp only [dfsVisit, wp_bind, wp_get, wp_ite, wp_throw, wp_pure, wp_modify, wp_ofExcept]
    refine ⟨fun onStack acyclic => acyclic path (leads path onStack), fun fresh => ⟨fun visited => ?_, fun unvisited => ⟨?_, ?_⟩⟩⟩
    · -- visited and finished earlier
      have sorted : path ∈ s.sorted := ((inv.visited path).mp visited).resolve_left fresh
      exact ⟨inv, rfl, fun _ sorted => sorted, sorted⟩
    · intro references asked
      -- `path` joins the parents, so that one call less can be nested below
      have fewer : (paths.toFinset \ (s.enter path).parents).card < fuel := by
        have shrinks : paths.toFinset \ (s.enter path).parents ⊂ paths.toFinset \ s.parents := by
          refine Finset.ssubset_iff_of_subset ?_ |>.mpr ⟨path, ?_, ?_⟩
          · exact Finset.sdiff_subset_sdiff subset_rfl (Finset.subset_insert _ _)
          · simp [inPaths, fresh]
          · simp [enter]
        have := Finset.card_lt_card shrinks
        omega
      refine wp_imp (wp_forM references _
        (fun done _ s' => Loop isValidPath queryReferences paths path done s s')
        (fun e _ => Throws isValidPath queryReferences paths e) (s.enter path) ?_ ?_) ?_
      · exact ⟨inv.enter unvisited, rfl, fun _ sorted => sorted, fun _ none => by simp at none⟩
      · intro done i todo s1 split loop
        simp only [wp_ite, wp_pure]
        refine ⟨fun follow => ?_, fun skip => ?_⟩
        · have edge : Proper (DfsWithin isValidPath queryReferences paths) path i :=
            ⟨Ne.symm follow.1, inPaths, references, asked, by simp [split], follow.2⟩
          refine wp_imp (ih i s1 loop.inv follow.2 (by rw [loop.parents]; exact fewer) ?_) ?_
          · intro parent onStack
            rw [loop.parents, enter, Finset.mem_insert] at onStack
            rcases onStack with rfl | earlier
            · exact .single edge
            · exact (leads parent earlier).tail edge
          intro _ s2 visit
          refine ⟨visit.inv, visit.parents.trans loop.parents, fun p sorted => visit.grows p (loop.grows p sorted),
            forall_mem_append.mpr ⟨fun j earlier different among => ?_, forall_mem_singleton.mpr fun _ _ => visit.path_mem⟩⟩
          exact visit.grows j (loop.done_mem j earlier different among)
        · exact ⟨loop.inv, loop.parents, loop.grows, forall_mem_append.mpr ⟨loop.done_mem,
            forall_mem_singleton.mpr fun different among => absurd ⟨different, among⟩ skip⟩⟩
      · intro _ s1 loop
        exact loop.leave asked inPaths fresh
    · intro e asked
      simp only [referencesOf] at asked
      split at asked
      · cases query : queryReferences path <;> rw [query] at asked <;> cases asked
        exact ⟨path, query⟩
      · cases asked

/-- What a sort that returns guarantees, and why it may throw. -/
theorem topoSortPaths_spec :
    (∀ sorted, topoSortPaths isValidPath queryReferences paths = .ok sorted →
      Sorted (DfsEdge isValidPath queryReferences paths) sorted ∧ sorted.Nodup ∧
        (∀ p ∈ sorted, p ∈ paths) ∧ ∀ p ∈ paths, p ∈ sorted ∧
          ∃ references, referencesOf isValidPath queryReferences p = .ok references) ∧
    ∀ e, topoSortPaths isValidPath queryReferences paths = .error e →
      Throws isValidPath queryReferences paths e := by
  have runs := wp_forM paths (dfsVisit isValidPath queryReferences paths (paths.length + 1))
    (fun done _ s => s.Inv isValidPath queryReferences paths ∧ s.parents = ∅ ∧
      ∀ p ∈ done, p ∈ s.sorted)
    (fun e _ => Throws isValidPath queryReferences paths e) {}
    ⟨⟨trivial, nodup_nil, by simp, by simp, by simp⟩, rfl, by simp⟩
    (by
      rintro done path todo s split ⟨inv, noParents, sorted⟩
      have enough : (paths.toFinset \ s.parents).card < paths.length + 1 := by
        rw [noParents, Finset.sdiff_empty]
        exact Nat.lt_succ_of_le (toFinset_card_le paths)
      refine wp_imp (dfsVisit_spec _ _ _ _ path s inv (by simp [split]) enough (by simp [noParents])) ?_
      intro _ s' visit
      exact ⟨visit.inv, visit.parents.trans noParents, forall_mem_append.mpr
        ⟨fun p earlier => visit.grows p (sorted p earlier), forall_mem_singleton.mpr visit.path_mem⟩⟩)
  simp only [wp] at runs
  simp only [topoSortPaths]
  cases outcome : forM paths (dfsVisit isValidPath queryReferences paths (paths.length + 1)) {} with
  | ok _ s =>
    simp only [outcome] at runs
    refine ⟨?_, by simp⟩
    intro sorted same
    cases same
    refine ⟨runs.1.sorted, runs.1.nodup, fun p isSorted => (runs.1.asked p isSorted).1, fun p inPaths => ?_⟩
    exact ⟨runs.2.2 p inPaths, (runs.1.asked p (runs.2.2 p inPaths)).2⟩
  | error e s =>
    simp only [outcome] at runs
    refine ⟨by simp, ?_⟩
    rintro e' ⟨⟩
    exact runs

/-- A sort that returns has checked that the references among its paths have no cycle. -/
theorem topoSortPaths_acyclic {sorted : List Path}
    (returned : topoSortPaths isValidPath queryReferences paths = .ok sorted) :
    Acyclic (DfsWithin isValidPath queryReferences paths) := by
  obtain ⟨ordered, nodup, _, complete⟩ := (topoSortPaths_spec _ _ paths).1 sorted returned
  apply (ordered.mono fun a b edge => edge.2).acyclic nodup
  intro a b edge
  exact (complete a edge.1).1

/-! ### Throwing exactly for cycles -/

section Throws

variable (references : Path → List Path)

/-- The references among the paths to be sorted. -/
def ReferencesWithin (a b : Path) : Prop :=
  a ∈ paths ∧ isValidPath a = true ∧ b ∈ references a ∧ b ∈ paths

variable {isValidPath references paths} in
theorem referencesWithin_iff {a b : Path} : ReferencesWithin isValidPath paths references a b ↔
    DfsWithin isValidPath (fun path => .ok (references path) : Path → Except ε (List Path)) paths a b := by
  rw [ReferencesWithin, DfsWithin, DfsEdge, referencesOf]
  cases isValidPath a with
  | true => simp [Except.mapError]
  | false => simp

/-- A sort throws exactly when the references among the paths have a cycle; otherwise it returns
the paths, each before those it refers to. -/
theorem topoSortPaths_sorts_or_throws :
    ((∃ e, topoSortPaths isValidPath
        (fun path => .ok (references path) : Path → Except ε (List Path)) (pathSet paths) = .error e) ↔
      ¬ Acyclic (ReferencesWithin isValidPath (pathSet paths) references)) ∧
    ∀ sorted, topoSortPaths isValidPath
        (fun path => .ok (references path) : Path → Except ε (List Path)) (pathSet paths) = .ok sorted →
      sorted.Perm (pathSet paths) ∧
        Sorted (ReferencesWithin isValidPath (pathSet paths) references) sorted := by
  obtain ⟨spec, throws⟩ := topoSortPaths_spec isValidPath
    (fun path => .ok (references path) : Path → Except ε (List Path)) (pathSet paths)
  refine ⟨⟨?_, fun cyclic => ?_⟩, fun sorted returned => ?_⟩
  · rintro ⟨e, thrown⟩ acyclic
    have why := throws e thrown
    cases e with
    | cycle path => exact why (acyclic.mono fun a b => referencesWithin_iff.mpr)
    | store error =>
      obtain ⟨path, failed⟩ := why
      cases failed
    | outOfFuel => exact why
  · cases outcome : topoSortPaths isValidPath
        (fun path => .ok (references path) : Path → Except ε (List Path)) (pathSet paths) with
    | error e => exact ⟨e, rfl⟩
    | ok sorted =>
      refine absurd ?_ cyclic
      exact (topoSortPaths_acyclic _ _ _ outcome).mono fun a b => referencesWithin_iff.mp
  · obtain ⟨ordered, nodup, within, complete⟩ := spec sorted returned
    refine ⟨(perm_ext_iff_of_nodup nodup (nodup_pathSet paths)).mpr fun p =>
      ⟨within p, fun inPaths => (complete p inPaths).1⟩, ?_⟩
    exact ordered.mono fun a b edge => (referencesWithin_iff.mp edge).2

end Throws

end Guix.LibStore
