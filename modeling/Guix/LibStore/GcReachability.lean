import Guix.LibStore.ClosureCorrectness
import Guix.LibStore.GcInvariant

/-!
# Which paths are alive

A path is alive if a root can be reached from it along incoming edges. The collector
asks the database as it is then, after earlier deletions, and remembers answers; both
make no difference, since only paths that are not alive are ever deleted. In a database
that the store itself has written, queries succeed, and a search needs no more nested
calls than there are valid paths.
-/

namespace Guix.LibStore

open List Finset

/-- What queries and deletions need of the database to succeed. -/
structure Db.Collectable (nixStore : Path) (db : Db) : Prop where
  storePath : ∀ v ∈ db.validPaths, isStorePath nixStore v.path = true
  hash : ∀ v ∈ db.validPaths, ∃ hash, parseHashField v.path v.hash = .ok hash
  acyclic : Graph.Acyclic db.Refers

theorem Db.Shrinks.collectable {nixStore : Path} {db db' : Db} (shrinks : db.Shrinks db')
    (collectable : db.Collectable nixStore) : db'.Collectable nixStore where
  storePath v found := collectable.storePath v (shrinks.rows v found)
  hash v found := collectable.hash v (shrinks.rows v found)
  acyclic := collectable.acyclic.mono fun _ _ refers => (shrinks.refers_iff.mp refers).1

theorem Db.Collectable.readable {nixStore : Path} {db : Db} (collectable : db.Collectable nixStore) :
    db.Readable nixStore where
  storePath := collectable.storePath
  hash := collectable.hash

namespace Gc

open Hoare Relation Fallible

/-- The edges that `canReachRoot` follows, from a valid path to what keeps it alive. -/
inductive Incoming (settings : Settings) (db : Db) (path : Path) : Path → Prop
  | referrer (i : Path) : db.Refers i path → Incoming settings db path i
  | output (i : Path) : settings.gcKeepDerivations = true → isDerivation path = true →
      db.Derives path i → db.HasDeriver i path → Incoming settings db path i
  | deriver (i : Path) : settings.gcKeepOutputs = true → db.Valid path → db.Derives i path →
      Incoming settings db path i

def Alive (settings : Settings) (roots : Finset Path) (db : Db) (path : Path) : Prop :=
  ∃ root ∈ roots, ReflTransGen (Incoming settings db) path root

variable {cfg : Config} {db db' : Db} {path i : Path}

theorem Incoming.valid (edge : Incoming cfg.settings db path i) : db.Valid path := by
  cases edge with
  | referrer refers => exact refers.right_valid
  | output _ _ derives _ => exact derives.valid
  | deriver _ valid _ => exact valid

theorem Incoming.valid_right (edge : Incoming cfg.settings db path i) : db.Valid i := by
  cases edge with
  | referrer refers => exact refers.left_valid
  | output _ _ _ hasDeriver => exact hasDeriver.valid
  | deriver _ _ derives => exact derives.valid

/-! ### Edges of a smaller database -/

theorem Incoming.of_shrinks (shrinks : db.Shrinks db') (edge : Incoming cfg.settings db' path i) :
    Incoming cfg.settings db path i := by
  have derives : ∀ a b, db'.Derives a b → db.Derives a b := by
    intro a b derives
    obtain ⟨v, found, named, d, output, same, outputPath⟩ := derives
    exact ⟨v, shrinks.rows v found, named, d, ((shrinks.outputs d).mp output).1, same, outputPath⟩
  cases edge with
  | referrer refers => exact .referrer i (shrinks.refers_iff.mp refers).1
  | output keep isDrv derived hasDeriver =>
    obtain ⟨v, found, named, same⟩ := hasDeriver
    exact .output i keep isDrv (derives _ _ derived) ⟨v, shrinks.rows v found, named, same⟩
  | deriver keep valid derived => exact .deriver i keep (shrinks.valid valid) (derives _ _ derived)

theorem Incoming.to_shrunk (shrinks : db.Shrinks db') (edge : Incoming cfg.settings db path i)
    (valid : db'.Valid path) (valid' : db'.Valid i) : Incoming cfg.settings db' path i := by
  have derives : ∀ a b, db.Derives a b → db'.Valid a → db'.Derives a b := by
    intro a b derives still
    obtain ⟨v, found, rfl, d, output, same, outputPath⟩ := derives
    have there := shrinks.row_of_valid found still
    refine ⟨v, there, rfl, d, (shrinks.outputs d).mpr ⟨output, ?_⟩, same, outputPath⟩
    rw [same]
    exact Db.mem_ids there
  cases edge with
  | referrer refers => exact .referrer i (shrinks.refers_iff.mpr ⟨refers, valid', valid⟩)
  | output keep isDrv derived hasDeriver =>
    obtain ⟨v, found, rfl, same⟩ := hasDeriver
    exact .output v.path keep isDrv (derives _ _ derived valid)
      ⟨v, shrinks.row_of_valid found valid', rfl, same⟩
  | deriver keep _ derived => exact .deriver i keep valid (derives _ _ derived valid')

/-! ### The set `incoming` -/

theorem derivedOutputs_eq (outputs : List Path) :
    derivedOutputs cfg db path outputs = db.outputsDerivedFrom cfg.nixStore path outputs := by
  induction outputs with
  | nil => rfl
  | cons i outputs ih =>
    rw [derivedOutputs, ih]
    rfl

/-- The closure in the direction of the referrers that follows the same edges. -/
def closureFlags (cfg : Config) : ClosureFlags where
  flipDirection := true
  includeOutputs := cfg.gcKeepOutputs
  includeDerivers := cfg.gcKeepDerivations

theorem keptOutputs_eq : keptOutputs cfg db path =
    ClosureFlags.edgesIf (cfg.gcKeepDerivations && isDerivation path) (do
      let outputs ← db.queryDerivationOutputs path
      db.outputsDerivedFrom cfg.nixStore path outputs) := by
  have same : derivedOutputs cfg db path = db.outputsDerivedFrom cfg.nixStore path := funext derivedOutputs_eq
  rw [keptOutputs, same]
  rfl

theorem mem_incoming (respected : cfg.options.ignoreLiveness = false) (text : cstr path = path)
    (valid : db.Valid path) {paths : List Path} (ok : incoming cfg db path = .ok paths) :
    ∀ j, j ∈ paths ↔ Incoming cfg.settings db path j := by
  obtain ⟨referrers, referrersOk, ok⟩ := bind_ok.mp ok
  obtain ⟨outputs, outputsOk, ok⟩ := bind_ok.mp ok
  obtain ⟨derivers, deriversOk, ok⟩ := bind_ok.mp ok
  cases ok
  rw [keptOutputs_eq] at outputsOk
  have flipped : (closureFlags cfg).flippedEdges db cfg.nixStore path =
      .ok (pathSet (referrers ++ derivers ++ outputs)) :=
    bind_ok.mpr ⟨referrers, referrersOk, bind_ok.mpr ⟨derivers, deriversOk, bind_ok.mpr ⟨outputs, outputsOk, rfl⟩⟩⟩
  intro j
  have edges := mem_flippedEdges text flipped j
  simp only [closureFlags, Config.gcKeepOutputs, Config.gcKeepDerivations, Config.overridden, respected,
    Bool.and_false, Bool.not_false, Bool.and_true, Bool.and_eq_true, mem_pathSet, mem_append] at edges
  rw [mem_pathSet, mem_append, mem_append, or_right_comm, edges]
  constructor
  · intro listed
    rcases listed with refers | ⟨keep, derives⟩ | ⟨⟨keep, isDrv⟩, derives, hasDeriver⟩
    · exact .referrer j refers
    · exact .deriver j keep valid derives
    · exact .output j keep isDrv derives hasDeriver
  · intro edge
    cases edge with
    | referrer refers => exact .inl refers
    | deriver keep _ derives => exact .inr (.inl ⟨keep, derives⟩)
    | output keep isDrv derives hasDeriver => exact .inr (.inr ⟨⟨keep, isDrv⟩, derives, hasDeriver⟩)

theorem incoming_returns (collectable : db.Collectable cfg.nixStore) (valid : db.Valid path) :
    ∃ paths, incoming cfg db path = .ok paths := by
  obtain ⟨edges, ok⟩ := @edges_returns (closureFlags cfg) _ _ _ collectable.readable valid
  obtain ⟨referrers, referrersOk, ok⟩ := bind_ok.mp ok
  obtain ⟨derivers, deriversOk, ok⟩ := bind_ok.mp ok
  obtain ⟨outputs, outputsOk, _⟩ := bind_ok.mp ok
  exact ⟨_, bind_ok.mpr ⟨referrers, referrersOk, bind_ok.mpr ⟨outputs, keptOutputs_eq.trans outputsOk,
    bind_ok.mpr ⟨derivers, deriversOk, rfl⟩⟩⟩⟩

/-! ### The search -/

/-- How many valid paths a search can still visit. -/
def unvisited (db : Db) (visited : Finset Path) : Nat := (db.paths.toFinset \ visited).card

theorem unvisited_le (db : Db) {visited visited' : Finset Path} (grows : visited ⊆ visited') :
    unvisited db visited' ≤ unvisited db visited :=
  Closure.remaining_le db.paths.toFinset grows

theorem unvisited_insert_lt (valid : db.Valid path) {visited : Finset Path} (new : path ∉ visited) :
    unvisited db (insert path visited) < unvisited db visited :=
  Closure.remaining_insert_lt (mem_toFinset.mpr valid) new

/-- The policy of a run that respects liveness. -/
def livePolicy (cfg : Config) (db : Db) (answer : Db → Path → Bool → Prop) : Policy where
  live := Alive cfg.settings cfg.roots db
  may path := ¬ Alive cfg.settings cfg.roots db path
  answer := answer

variable {start : State} {answer : Db → Path → Bool → Prop}

/-- The paths that a search has visited since `visited`: none is a root, and it has
followed all their edges. -/
def Explored (cfg : Config) (s : State) (visited visited' : Finset Path) : Prop :=
  ∀ v ∈ visited', v ∉ visited → v ∉ cfg.roots ∧
    ∀ j, Incoming cfg.settings s.db v j → j = v ∨ j ∈ visited' ∨ j ∈ s.dead

theorem Explored.trans {s : State} {visited visited1 visited2 : Finset Path}
    (first : Explored cfg s visited visited1) (second : Explored cfg s visited1 visited2)
    (grows : visited1 ⊆ visited2) : Explored cfg s visited visited2 := by
  intro v inVisited new
  by_cases early : v ∈ visited1
  · obtain ⟨notRoot, edges⟩ := first v early new
    exact ⟨notRoot, fun j edge => (edges j edge).imp_right (.imp_left (@grows j))⟩
  · exact second v inVisited early

/-- What a search returns: `hit` if it found a root, and else `miss` of what it has
visited. It changes nothing but the set `alive`. -/
structure Searched (cfg : Config) (start : State) (answer : Db → Path → Bool → Prop)
    (hit : Prop) (miss : Finset Path → Prop) (s : State) (visited : Finset Path)
    (result : Bool × Finset Path) (s' : State) : Prop where
  inv : Inv cfg (livePolicy cfg start.db answer) start s'
  same : ∃ alive, s' = { s with alive := alive }
  grows : visited ⊆ result.2
  found : result.1 = true → hit
  notFound : result.1 = false → miss result.2 ∧ Explored cfg s visited result.2

/-- The outcome of a search that throws: a query has failed, or there was not enough fuel
for the paths left. -/
structure Interrupted (cfg : Config) (start : State) (answer : Db → Path → Bool → Prop) (fuel : Nat)
    (visited : Finset Path) (s s' : State) : Prop where
  inv : Inv cfg (livePolicy cfg start.db answer) start s'
  same : ∃ alive, s' = { s with alive := alive }
  starved : s.db.Collectable cfg.nixStore → fuel ≤ unvisited s.db visited

/-- What the search from one path promises. -/
def Searches (cfg : Config) (start : State) (answer : Db → Path → Bool → Prop) (fuel : Nat)
    (visit : Finset Path → Path → GcM (Bool × Finset Path)) : Prop :=
  ∀ visited path s, Inv cfg (livePolicy cfg start.db answer) start s → cstr path = path →
    wp (visit visited path)
      (Searched cfg start answer (Alive cfg.settings cfg.roots start.db path)
        (fun visited' => path ∈ visited' ∨ path ∈ s.dead) s visited)
      (fun _ => Interrupted cfg start answer fuel visited s) s

theorem Explored.refl (cfg : Config) (s : State) (visited : Finset Path) :
    Explored cfg s visited visited :=
  fun _ old new => absurd old new

theorem anyCanReachRoot_spec {fuel : Nat} (visit : Finset Path → Path → GcM (Bool × Finset Path))
    (searches : Searches cfg start answer fuel visit) (path : Path) (paths : List Path)
    (texts : ∀ j ∈ paths, cstr j = j) (visited : Finset Path) (s : State)
    (inv : Inv cfg (livePolicy cfg start.db answer) start s) :
    wp (anyCanReachRoot visit path visited paths)
      (Searched cfg start answer
        (∃ j ∈ paths, Alive cfg.settings cfg.roots start.db j)
        (fun visited' => ∀ j ∈ paths, j = path ∨ j ∈ visited' ∨ j ∈ s.dead) s visited)
      (fun _ => Interrupted cfg start answer fuel visited s) s := by
  induction paths generalizing visited s with
  | nil =>
    refine ⟨inv, ⟨s.alive, rfl⟩, Finset.Subset.refl _, by simp, fun _ => ⟨by simp, ?_⟩⟩
    exact Explored.refl cfg s visited
  | cons j rest ih =>
    obtain ⟨text, restTexts⟩ := forall_mem_cons.mp texts
    simp only [anyCanReachRoot, wp_ite, wp_bind]
    refine ⟨fun self => ?_, fun other => ?_⟩
    · -- the path itself is skipped
      refine wp_imp (ih restTexts visited s inv) ?_
      intro result s1 searched
      refine ⟨searched.inv, searched.same, searched.grows,
        fun found => exists_mem_cons_of_exists (searched.found found), fun notFound => ?_⟩
      obtain ⟨missed, explored⟩ := searched.notFound notFound
      exact ⟨forall_mem_cons.mpr ⟨.inl self, missed⟩, explored⟩
    · refine wp_imp (searches visited j s inv text) ?_
      intro result s1 searched
      obtain ⟨found, visited1⟩ := result
      obtain ⟨alive1, rfl⟩ := searched.same
      refine ⟨fun isFound => ?_, fun isNotFound => ?_⟩
      · exact ⟨searched.inv, ⟨alive1, rfl⟩, searched.grows,
          fun _ => ⟨j, mem_cons_self, searched.found isFound⟩, by simp⟩
      · obtain ⟨missed, explored⟩ := searched.notFound (by simpa using isNotFound)
        refine wp_mono (ih restTexts visited1 _ searched.inv) ?_ ?_
        · intro result s2 searched2
          obtain ⟨alive2, rfl⟩ := searched2.same
          refine ⟨searched2.inv, ⟨alive2, rfl⟩, searched.grows.trans searched2.grows,
            fun found => exists_mem_cons_of_exists (searched2.found found), fun notFound => ?_⟩
          obtain ⟨missed2, explored2⟩ := searched2.notFound notFound
          exact ⟨forall_mem_cons.mpr ⟨.inr (missed.imp_left (@searched2.grows j)), missed2⟩,
            explored.trans explored2 searched2.grows⟩
        · intro e s2 failed
          obtain ⟨alive2, rfl⟩ := failed.same
          refine ⟨failed.inv, ⟨alive2, rfl⟩, fun collectable => ?_⟩
          exact (failed.starved collectable).trans (unvisited_le s.db searched.grows)

theorem Alive.of_edge (edge : Incoming cfg.settings db path i)
    (alive : Alive cfg.settings cfg.roots db i) : Alive cfg.settings cfg.roots db path := by
  obtain ⟨root, isRoot, chain⟩ := alive
  exact ⟨root, isRoot, ReflTransGen.head edge chain⟩

theorem Inv.markAlive {s : State} (inv : Inv cfg (livePolicy cfg start.db answer) start s)
    (alive : Alive cfg.settings cfg.roots start.db path) :
    Inv cfg (livePolicy cfg start.db answer) start { s with alive := insert path s.alive } :=
  { inv with alive := (forall_mem_insert _ _ _).mpr ⟨alive, inv.alive⟩ }

theorem Inv.valid_of_alive {s : State} (inv : Inv cfg (livePolicy cfg start.db answer) start s)
    (valid : start.db.Valid path) (alive : Alive cfg.settings cfg.roots start.db path) : s.db.Valid path := by
  obtain ⟨v, found, rfl⟩ := valid.exists_row
  exact Db.valid_of_mem (inv.kept v found (not_not_intro alive))

theorem Inv.edge_of_alive {s : State} (inv : Inv cfg (livePolicy cfg start.db answer) start s)
    (edge : Incoming cfg.settings start.db path i) (alive : Alive cfg.settings cfg.roots start.db i) :
    Incoming cfg.settings s.db path i :=
  edge.to_shrunk inv.shrinks (inv.valid_of_alive edge.valid (.of_edge edge alive))
    (inv.valid_of_alive edge.valid_right alive)

theorem canReachRoot_searches (respected : cfg.options.ignoreLiveness = false) (fuel : Nat) :
    Searches cfg start answer fuel (canReachRoot cfg fuel) := by
  induction fuel with
  | zero =>
    intro visited path s inv _
    exact ⟨inv, ⟨s.alive, rfl⟩, fun _ => Nat.zero_le _⟩
  | succ fuel ih =>
    intro visited path s inv text
    simp only [canReachRoot, wp_bind, wp_get, wp_ite, wp_pure, wp_query, isValidPath_iff, text]
    have unchanged : ∃ alive, s = { s with alive := alive } := ⟨s.alive, rfl⟩
    refine ⟨fun seen => ?_, fun unseen => ⟨fun marked => ?_, fun _ => ⟨fun dead => ?_, fun _ =>
      ⟨fun isRoot => ?_, fun notRoot => ⟨fun valid => ⟨fun paths asked => ?_, fun e failed => ?_⟩,
        fun invalid => ?_⟩⟩⟩⟩⟩
    · exact ⟨inv, unchanged, Finset.Subset.refl _, by simp, fun _ => ⟨.inl seen, .refl cfg s visited⟩⟩
    · exact ⟨inv, unchanged, Finset.Subset.refl _, fun _ => inv.alive path marked, by simp⟩
    · exact ⟨inv, unchanged, Finset.Subset.refl _, by simp, fun _ => ⟨.inr dead, .refl cfg s visited⟩⟩
    · -- a root is alive
      have alive : Alive cfg.settings cfg.roots start.db path := ⟨path, isRoot, .refl⟩
      exact ⟨inv.markAlive alive, ⟨_, rfl⟩, Finset.Subset.refl _, fun _ => alive, by simp⟩
    · have edges := mem_incoming respected text valid asked
      have texts : ∀ j ∈ paths, cstr j = j := fun j listed =>
        cstr_eq_self ((edges j).mp listed).valid_right.noNul
      refine wp_mono (anyCanReachRoot_spec _ ih path paths texts (insert path visited) s inv) ?_
        fun _ _ failed => ⟨failed.inv, failed.same, fun collectable =>
          (failed.starved collectable).trans_lt (unvisited_insert_lt valid unseen)⟩
      intro result s1 searched
      obtain ⟨found, visited1⟩ := result
      obtain ⟨alive1, rfl⟩ := searched.same
      have grows : visited ⊆ visited1 := (subset_insert path visited).trans searched.grows
      refine ⟨fun isFound => ?_, fun isNotFound => ?_⟩
      · -- alive through one of its incoming edges
        obtain ⟨j, listed, alive⟩ := searched.found isFound
        have edge := ((edges j).mp listed).of_shrinks inv.shrinks
        have alive := Alive.of_edge edge alive
        exact ⟨searched.inv.markAlive alive, ⟨_, rfl⟩, grows, fun _ => alive, by simp⟩
      · obtain ⟨missed, explored⟩ := searched.notFound (by simpa using isNotFound)
        have seen : path ∈ visited1 := searched.grows (mem_insert_self path visited)
        refine ⟨searched.inv, ⟨_, rfl⟩, grows, by simp, fun _ => ⟨.inl seen, ?_⟩⟩
        -- `path` is explored now, too
        intro v inVisited new
        by_cases self : v = path
        · subst self
          exact ⟨notRoot, fun j edge => missed j ((edges j).mpr edge)⟩
        · exact explored v inVisited (by simp [self, new])
    · refine ⟨inv, unchanged, fun collectable => ?_⟩
      obtain ⟨paths, asked⟩ := incoming_returns collectable valid
      rw [asked] at failed
      cases failed
    · -- an invalid path has no incoming edges
      refine ⟨inv, unchanged, subset_insert path visited, by simp,
        fun _ => ⟨.inl (mem_insert_self path visited), ?_⟩⟩
      intro v inVisited new
      rcases mem_insert.mp inVisited with rfl | old
      · exact ⟨notRoot, fun j edge => absurd edge.valid invalid⟩
      · exact absurd old new

/-- The paths of a search that found no root are not alive. -/
theorem Explored.not_alive {s : State} (inv : Inv cfg (livePolicy cfg start.db answer) start s)
    {visited : Finset Path} (explored : Explored cfg s ∅ visited) {v : Path} (inVisited : v ∈ visited) :
    ¬ Alive cfg.settings cfg.roots start.db v := by
  rintro ⟨root, isRoot, chain⟩
  -- follow the chain to the root: it never leaves `visited`
  induction chain using ReflTransGen.head_induction_on with
  | refl => exact (explored root inVisited (by simp)).1 isRoot
  | @head a b edge chain ih =>
    have aliveB : Alive cfg.settings cfg.roots start.db b := ⟨root, isRoot, chain⟩
    rcases (explored a inVisited (by simp)).2 b (inv.edge_of_alive edge aliveB) with rfl | seen | dead
    · exact ih inVisited
    · exact ih seen
    · exact inv.dead b dead aliveB

end Gc

end Guix.LibStore
