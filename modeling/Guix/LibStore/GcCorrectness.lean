import Guix.LibStore.GcReachability

/-!
# Safety and completeness of the collector

Safety holds for every run, also for one that fails or is interrupted. Completeness is
about runs in which system calls do not fail.
-/

namespace Guix.LibStore.Gc

open Hoare Relation ReflTransGen

variable {cfg : Config} {start s : State} {path : Path}

/-! ### Answers -/

/-- What `canReachRoot` answers about a database when nothing has been remembered. -/
def freshAnswer (cfg : Config) (fuel : Nat) (db : Db) (path : Path) : Option Bool :=
  match canReachRoot cfg fuel ∅ path { db := db, disk := [] } with
  | .ok (found, _) _ => some found
  | .error _ _ => none

/-- The right answer: also the one of the first database, and of a search without the
sets `alive` and `dead`, which gives an answer if queries do not fail. -/
structure RightAnswer (cfg : Config) (start : Db) (db : Db) (path : Path) (found : Bool) : Prop where
  alive : found = true ↔ Alive cfg.settings cfg.roots start path
  fresh : ∀ fuel fresh, freshAnswer cfg fuel db path = some fresh → fresh = found
  returns : start.Collectable cfg.nixStore → ∀ fuel, start.validPaths.length < fuel →
    freshAnswer cfg fuel db path = some found

/-- The policy of a run that respects liveness. -/
abbrev liveness (cfg : Config) (start : Db) : Policy :=
  livePolicy cfg start (RightAnswer cfg start)

theorem alive_iff {answer : Db → Path → Bool → Prop}
    (inv : Inv cfg (livePolicy cfg start.db answer) start s) :
    Alive cfg.settings cfg.roots s.db path ↔ Alive cfg.settings cfg.roots start.db path := by
  constructor
  · intro alive
    obtain ⟨root, isRoot, chain⟩ := alive
    exact ⟨root, isRoot, mono (fun _ _ edge => edge.of_shrinks inv.shrinks) _ _ chain⟩
  · intro alive
    obtain ⟨root, isRoot, chain⟩ := alive
    refine ⟨root, isRoot, ?_⟩
    -- all paths of the chain are alive, hence still valid
    induction chain using head_induction_on with
    | refl => exact .refl
    | head edge chain ih => exact .head (inv.edge_of_alive edge ⟨root, isRoot, chain⟩) ih

/-- A search that returns gives the right answer. -/
theorem Searched.alive_iff (start s : State) {answer : Db → Path → Bool → Prop} {s' : State}
    {result : Bool × Finset Path} (inv : Inv cfg (livePolicy cfg start.db answer) start s)
    (searched : Searched cfg start answer (Alive cfg.settings cfg.roots start.db path)
      (fun visited' => path ∈ visited' ∨ path ∈ s.dead) s ∅ result s') :
    result.1 = true ↔ Alive cfg.settings cfg.roots start.db path := by
  constructor
  · exact searched.found
  · intro alive
    by_contra notFound
    obtain ⟨missed, explored⟩ := searched.notFound (by simpa using notFound)
    rcases missed with seen | dead
    · exact explored.not_alive inv seen alive
    · exact inv.dead path dead alive

theorem freshAnswer_spec (respected : cfg.options.ignoreLiveness = false) (text : cstr path = path)
    (db : Db) (fuel : Nat) :
    (∀ fresh, freshAnswer cfg fuel db path = some fresh →
      (fresh = true ↔ Alive cfg.settings cfg.roots db path)) ∧
    (db.Collectable cfg.nixStore → unvisited db ∅ < fuel →
      ∃ fresh, freshAnswer cfg fuel db path = some fresh) := by
  have inv : Inv cfg (liveness cfg db) { db := db, disk := [] } { db := db, disk := [] } :=
    Inv.init _ _ _ rfl rfl rfl
  have all : Searches cfg { db := db, disk := [] } (RightAnswer cfg db) fuel (canReachRoot cfg fuel) :=
    canReachRoot_searches respected fuel
  have searches := all ∅ path _ inv text
  simp only [wp] at searches
  simp only [freshAnswer]
  cases outcome : canReachRoot cfg fuel ∅ path { db := db, disk := [] } with
  | ok result s' =>
    simp only [outcome] at searches
    refine ⟨fun fresh answered => ?_, fun _ _ => ⟨result.1, rfl⟩⟩
    cases answered
    exact Searched.alive_iff { db := db, disk := [] } { db := db, disk := [] } inv searches
  | error e s' =>
    simp only [outcome] at searches
    exact ⟨by simp, fun collectable enough => absurd (searches.starved collectable) enough.not_ge⟩

theorem unvisited_empty_le {policy : Policy} (inv : Inv cfg policy start s) :
    unvisited s.db ∅ ≤ start.db.validPaths.length := by
  have sub : s.db.paths.toFinset \ ∅ ⊆ start.db.paths.toFinset := by
    intro p there
    simp only [Finset.sdiff_empty, List.mem_toFinset] at there ⊢
    exact inv.shrinks.valid there
  calc unvisited s.db ∅ ≤ start.db.paths.toFinset.card := Finset.card_le_card sub
    _ ≤ start.db.paths.length := List.toFinset_card_le _
    _ = start.db.validPaths.length := List.length_map _

theorem decides_liveness (respected : cfg.options.ignoreLiveness = false) (text : cstr path = path) :
    Decides cfg (liveness cfg start.db) start path := by
  intro s inv
  refine wp_mono (canReachRoot_searches respected cfg.fuel ∅ path s inv text) ?_
    (fun _ _ failed => failed.inv)
  intro result s' searched
  have right := searched.alive_iff start s inv
  obtain ⟨alive, rfl⟩ := searched.same
  have fresh : ∀ fuel fresh, freshAnswer cfg fuel s.db path = some fresh → fresh = result.1 := by
    intro fuel fresh answered
    have freshRight := (freshAnswer_spec respected text s.db fuel).1 fresh answered
    rw [alive_iff inv, ← right] at freshRight
    exact Bool.eq_iff_iff.mpr freshRight
  refine ⟨⟨searched.inv, rfl⟩, ⟨right, fresh, ?_⟩, ?_⟩
  · intro collectable fuel enough
    obtain ⟨answer, answered⟩ := (freshAnswer_spec respected text s.db fuel).2
      (inv.shrinks.collectable collectable) (Nat.lt_of_le_of_lt (unvisited_empty_le inv) enough)
    rw [answered, fresh fuel answer answered]
  · intro notFound
    rw [text]
    refine ⟨fun alive => ?_, fun p inVisited => (searched.notFound notFound).2.not_alive inv inVisited⟩
    rw [right.mpr alive] at notFound
    cases notFound

/-! ### Safety -/

/-- The runs for which liveness is respected. Paths to delete and valid paths are file
names in the store, and the trash directory is nothing that has to be kept. -/
structure Proper (cfg : Config) (db : Db) : Prop where
  respected : cfg.options.ignoreLiveness = false
  valid : ∀ p, db.Valid p → isAbove cfg p = false
  toDelete : cfg.options.action = .gcDeleteSpecific →
    ∀ p ∈ cfg.options.pathsToDelete, isAbove cfg p = false ∧ 0 ∉ p
  trash : ¬ Alive cfg.settings cfg.roots db cfg.trashDir

theorem Considered.entry {db : Db} (proper : Proper cfg db) (considered : Considered cfg path) :
    isAbove cfg path = false ∧ cstr path = path := by
  rcases considered with ⟨name, listed, notDot, notDots, rfl⟩ | ⟨specific, listed⟩
  · exact ⟨isAbove_entryPath cfg listed notDot notDots, entryPath_text cfg listed⟩
  · obtain ⟨entry, noNul⟩ := proper.toDelete specific path listed
    exact ⟨entry, cstr_eq_self noNul⟩

theorem runs_liveness (start : State) (proper : Proper cfg start.db) : Runs cfg (liveness cfg start.db) start where
  sound :=
    { referrers := by
        intro p q notAlive refers alive
        exact notAlive (Alive.of_edge (.referrer q refers) alive)
      trash := proper.trash
      entries := proper.valid }
  entries _ considered := (considered.entry proper).1
  decides _ considered := decides_liveness proper.respected (considered.entry proper).2

/-- Whatever happens in a run, the invariant for liveness holds at its end. -/
theorem collectGarbage_live (cfg : Config) (db : Db) (disk : List Path) (proper : Proper cfg db) :
    Preserves (collectGarbage cfg) (Inv cfg (liveness cfg db) { db, disk }) { db, disk } :=
  collectGarbage_inv (runs_liveness { db, disk } proper) (.init _ _ _ rfl rfl rfl)

end Guix.LibStore.Gc
