import Guix.Lib.Closure
import Guix.LibStore.DatabaseQueries

/-!
# Correctness of `computeFSClosure`

A call adds to `paths` what can be reached along the selected edges without passing
through a path that was there before. If the set was closed under these edges, nothing
reachable is left out.
-/

namespace Guix.LibStore

open Hoare Fallible Closure Relation List ClosureFlags

/-- A database as registrations leave it: what `sqlite3_bind_text` stores has no NUL. -/
structure Db.Written (nixStore : Path) (db : Db) : Prop extends db.Readable nixStore where
  deriver_text : ∀ v ∈ db.validPaths, 0 ∉ v.deriver.getD []

/-- The edges that the flags select. -/
inductive ClosureFlags.Selected (flags : ClosureFlags) (db : Db) (path : Path) : Path → Prop
  | referrer (i : Path) : flags.flipDirection = true → db.Refers i path → Selected flags db path i
  | validDeriver (i : Path) : flags.flipDirection = true → flags.includeOutputs = true →
      db.Derives i path → Selected flags db path i
  | derivedOutput (i : Path) : flags.flipDirection = true → flags.includeDerivers = true →
      isDerivation path = true → db.Derives path i → db.HasDeriver i path → Selected flags db path i
  | reference (i : Path) : flags.flipDirection = false → db.Refers path i → Selected flags db path i
  | validOutput (i : Path) : flags.flipDirection = false → flags.includeOutputs = true →
      isDerivation path = true → db.Derives path i → db.Valid i → Selected flags db path i
  | deriver (i : Path) : flags.flipDirection = false → flags.includeDerivers = true →
      db.HasDeriver path i → db.Valid i → Selected flags db path i

variable {flags : ClosureFlags} {db : Db} {nixStore path i : Path}

theorem Db.HasDeriver.valid (hasDeriver : db.HasDeriver path i) : db.Valid path := by
  obtain ⟨v, found, rfl, _⟩ := hasDeriver
  exact Db.valid_of_mem found

theorem Db.Derives.valid (derives : db.Derives path i) : db.Valid path := by
  obtain ⟨v, found, rfl, _⟩ := derives
  exact Db.valid_of_mem found

theorem ClosureFlags.Selected.valid (selected : flags.Selected db path i) : db.Valid i := by
  cases selected with
  | referrer _ refers => exact refers.left_valid
  | validDeriver _ _ derives => exact derives.valid
  | derivedOutput _ _ _ _ hasDeriver => exact hasDeriver.valid
  | reference _ refers => exact refers.right_valid
  | validOutput _ _ _ _ valid => exact valid
  | deriver _ _ _ valid => exact valid

/-! ### The set `edges` -/

/-- What a query contributes that is only made if a flag is set. -/
theorem mem_of_flag {flag : Bool} {query : Except Error (List Path)} {answer : List Path}
    {p : Path → Prop} (spec : ∀ found, query = .ok found → ∀ j, j ∈ found ↔ p j)
    (ok : edgesIf flag query = .ok answer) : ∀ j, j ∈ answer ↔ flag = true ∧ p j := by
  cases flag with
  | true =>
    intro j
    rw [spec answer ok j]
    exact ⟨fun holds => ⟨rfl, holds⟩, And.right⟩
  | false =>
    cases ok
    simp

theorem mem_flippedEdges (text : cstr path = path) {edges : List Path}
    (ok : flags.flippedEdges db nixStore path = .ok edges) (j : Path) :
    j ∈ edges ↔ db.Refers j path ∨ (flags.includeOutputs = true ∧ db.Derives j path) ∨
      ((flags.includeDerivers && isDerivation path) = true ∧ db.Derives path j ∧
        db.HasDeriver j path) := by
  obtain ⟨referrers, referrersOk, ok⟩ := bind_ok.mp ok
  obtain ⟨derivers, deriversOk, ok⟩ := bind_ok.mp ok
  obtain ⟨outputs, outputsOk, ok⟩ := bind_ok.mp ok
  cases ok
  have memReferrers := queryReferrers_ok referrersOk j
  have memDerivers := mem_of_flag (fun found asked => mem_queryValidDerivers asked) deriversOk j
  have memOutputs := mem_of_flag (p := fun j => db.Derives path j ∧ db.HasDeriver j path)
    (fun found asked j => by
      obtain ⟨all, allOk, derivedOk⟩ := bind_ok.mp asked
      have memAll := mem_queryDerivationOutputs allOk
      rw [mem_outputsDerivedFrom all found
        (fun k listed => Db.Derives.text ((memAll k).mp listed)) derivedOk j, memAll j, text])
    outputsOk j
  rw [text] at memReferrers memDerivers
  rw [mem_pathSet, mem_append, mem_append, memReferrers, memDerivers, memOutputs, or_assoc]

theorem mem_forwardEdges (written : db.Written nixStore) (text : cstr path = path) {edges : List Path}
    (ok : flags.forwardEdges db nixStore path = .ok edges) (j : Path) :
    j ∈ edges ↔ db.Refers path j ∨
      ((flags.includeOutputs && isDerivation path) = true ∧ db.Derives path j ∧ db.Valid j) ∨
      (flags.includeDerivers = true ∧ db.HasDeriver path j ∧ db.Valid j) := by
  obtain ⟨references, referencesOk, ok⟩ := bind_ok.mp ok
  obtain ⟨outputs, outputsOk, ok⟩ := bind_ok.mp ok
  obtain ⟨derivers, deriversOk, ok⟩ := bind_ok.mp ok
  cases ok
  have memReferences := (queryReferences_ok nixStore referencesOk).2 j
  have memOutputs := mem_of_flag (p := fun j => db.Derives path j ∧ db.Valid j)
    (fun found asked j => by
      obtain ⟨all, allOk, validOk⟩ := bind_ok.mp asked
      cases validOk
      have memAll := mem_queryDerivationOutputs allOk j
      rw [text] at memAll
      rw [mem_filter, isValidPath_iff, memAll]
      apply and_congr_right
      intro derives
      rw [derives.text])
    outputsOk j
  have memDerivers := mem_of_flag (p := fun j => db.HasDeriver path j ∧ db.Valid j)
    (fun found asked j => by
      obtain ⟨deriver, deriverOk, validOk⟩ := bind_ok.mp asked
      cases validOk
      have known := queryDeriver_ok deriverOk
      rw [text] at known
      have deriverText : cstr deriver = deriver := by
        obtain ⟨v, listed, _, rfl⟩ := known
        exact cstr_eq_self (written.deriver_text v listed)
      have valid := isValidPath_iff db deriver
      rw [deriverText] at valid
      constructor
      · intro member
        split at member
        · next isValid =>
          rw [mem_singleton.mp member]
          exact ⟨known, valid.mp isValid⟩
        · cases member
      · intro registered
        have same : deriver = j := known.unique registered.1
        rw [← same] at registered ⊢
        rw [if_pos (valid.mpr registered.2)]
        exact mem_singleton_self deriver)
    deriversOk j
  rw [text] at memReferences
  rw [mem_pathSet, mem_append, mem_append, memReferences, memOutputs, memDerivers, or_assoc]

theorem mem_edges (written : db.Written nixStore) (text : cstr path = path) {edges : List Path}
    (ok : flags.edges db nixStore path = .ok edges) (j : Path) :
    j ∈ edges ↔ flags.Selected db path j := by
  cases flipped : flags.flipDirection with
  | true =>
    rw [ClosureFlags.edges, if_pos flipped] at ok
    rw [mem_flippedEdges text ok j, Bool.and_eq_true]
    constructor
    · intro member
      rcases member with refers | ⟨outputs, derives⟩ | ⟨⟨derivers, isDrv⟩, derives, hasDeriver⟩
      · exact .referrer j flipped refers
      · exact .validDeriver j flipped outputs derives
      · exact .derivedOutput j flipped derivers isDrv derives hasDeriver
    · intro selected
      cases selected with
      | referrer _ refers => exact .inl refers
      | validDeriver _ outputs derives => exact .inr (.inl ⟨outputs, derives⟩)
      | derivedOutput _ derivers isDrv derives hasDeriver =>
        exact .inr (.inr ⟨⟨derivers, isDrv⟩, derives, hasDeriver⟩)
      | reference forward | validOutput forward | deriver forward =>
        rw [flipped] at forward
        cases forward
  | false =>
    rw [ClosureFlags.edges, flipped, if_neg Bool.false_ne_true] at ok
    rw [mem_forwardEdges written text ok j, Bool.and_eq_true]
    constructor
    · intro member
      rcases member with refers | ⟨⟨outputs, isDrv⟩, derives, valid⟩ | ⟨derivers, hasDeriver, valid⟩
      · exact .reference j flipped refers
      · exact .validOutput j flipped outputs isDrv derives valid
      · exact .deriver j flipped derivers hasDeriver valid
    · intro selected
      cases selected with
      | reference _ refers => exact .inl refers
      | validOutput _ outputs isDrv derives valid => exact .inr (.inl ⟨⟨outputs, isDrv⟩, derives, valid⟩)
      | deriver _ derivers hasDeriver valid => exact .inr (.inr ⟨derivers, hasDeriver, valid⟩)
      | referrer backward | validDeriver backward | derivedOutput backward =>
        rw [flipped] at backward
        cases backward

theorem edgesIf_returns (flag : Bool) {query : Except Error (List Path)}
    (returns : ∃ found, query = .ok found) : ∃ found, edgesIf flag query = .ok found := by
  cases flag with
  | true => exact returns
  | false => exact ⟨[], rfl⟩

/-- The store answers all questions about a valid path. -/
theorem edges_returns (readable : db.Readable nixStore) (valid : db.Valid path) :
    ∃ edges, flags.edges db nixStore path = .ok edges := by
  have text : cstr path = path := cstr_eq_self valid.noNul
  obtain ⟨info, asked⟩ := queryPathInfo_returns readable text valid
  obtain ⟨all, allOk⟩ := queryDerivationOutputs_returns text valid
  unfold edges
  split
  · obtain ⟨referrers, referrersOk⟩ := queryReferrers_returns readable valid
    obtain ⟨derived, derivedOk⟩ := outputsDerivedFrom_returns readable path all
      fun j listed => Db.Derives.text ((mem_queryDerivationOutputs allOk j).mp listed)
    obtain ⟨derivers, deriversOk⟩ :=
      edgesIf_returns flags.includeOutputs (queryValidDerivers_returns readable valid)
    obtain ⟨outputs, outputsOk⟩ := edgesIf_returns (flags.includeDerivers && isDerivation path)
      ⟨derived, bind_ok.mpr ⟨all, allOk, derivedOk⟩⟩
    exact ⟨_, bind_ok.mpr ⟨referrers, referrersOk, bind_ok.mpr ⟨derivers, deriversOk,
      bind_ok.mpr ⟨outputs, outputsOk, rfl⟩⟩⟩⟩
  · have referencesOk : db.queryReferences nixStore path = .ok info.references :=
      bind_ok.mpr ⟨info, asked, rfl⟩
    have deriverOk : db.queryDeriver nixStore path = .ok info.deriver := bind_ok.mpr ⟨info, asked, rfl⟩
    have validOk : (db.queryDerivationOutputs path >>= fun outputs =>
        pure (outputs.filter db.isValidPath)) = .ok (all.filter db.isValidPath) :=
      bind_ok.mpr ⟨all, allOk, rfl⟩
    have ownOk : (db.queryDeriver nixStore path >>= fun deriver =>
        pure (if db.isValidPath deriver then [deriver] else [])) =
        .ok (if db.isValidPath info.deriver then [info.deriver] else []) :=
      bind_ok.mpr ⟨info.deriver, deriverOk, rfl⟩
    obtain ⟨outputs, outputsOk⟩ :=
      edgesIf_returns (flags.includeOutputs && isDerivation path) ⟨_, validOk⟩
    obtain ⟨derivers, deriversOk⟩ := edgesIf_returns flags.includeDerivers ⟨_, ownOk⟩
    exact ⟨_, bind_ok.mpr ⟨info.references, referencesOk, bind_ok.mpr ⟨outputs, outputsOk,
      bind_ok.mpr ⟨derivers, deriversOk, rfl⟩⟩⟩⟩

/-! ### The search -/

/-- What a call that has fuel for all paths left does from any set. -/
def Explores (flags : ClosureFlags) (db : Db) (fuel : Nat)
    (visit : Path → EStateM Error (Finset Path) PUnit) : Prop :=
  ∀ path paths, db.Valid path → remaining db.paths.toFinset paths < fuel →
    wp (visit path) (fun _ paths' => Explored (flags.Selected db) [path] paths paths')
      (fun _ _ => False) paths

theorem forM_edges {fuel : Nat} {visit : Path → EStateM Error (Finset Path) PUnit}
    (explores : Explores flags db fuel visit) {edges : List Path} (valid : ∀ j ∈ edges, db.Valid j)
    {paths : Finset Path} (enough : remaining db.paths.toFinset paths < fuel) :
    wp (forM edges visit) (fun _ paths' => Explored (flags.Selected db) edges paths paths')
      (fun _ _ => False) paths := by
  refine wp_forM edges visit
    (fun done _ paths' => Explored (flags.Selected db) done paths paths') _ paths .nil ?_
  intro done j todo paths1 split before
  have listed : j ∈ edges := by simp [split]
  -- the set has only grown, so that there is still enough fuel
  have enough1 : remaining db.paths.toFinset paths1 < fuel :=
    Nat.lt_of_le_of_lt (remaining_le _ before.grows) enough
  apply wp_mono (explores j paths1 (valid j listed) enough1)
  · intro _ paths' visited
    exact before.append visited
  · intro _ _ failed
    exact failed

/-- A call for a path about which the store answers; it need not be valid itself. -/
theorem computeFSClosure_step (written : db.Written nixStore) {fuel : Nat}
    (explores : Explores flags db fuel (computeFSClosure db nixStore flags fuel)) (noNul : 0 ∉ path)
    {paths : Finset Path} (enough : remaining db.paths.toFinset (insert path paths) < fuel) :
    wp (computeFSClosure db nixStore flags (fuel + 1) path)
      (fun _ paths' => Explored (flags.Selected db) [path] paths paths')
      (fun _ _ => ¬ db.Valid path ∧ path ∉ paths) paths := by
  simp only [computeFSClosure, wp_bind, wp_get, wp_ite, wp_pure, wp_set, wp_ofExcept]
  refine ⟨fun there => .seen there, fun new => ⟨?_, ?_⟩⟩
  · intro edges asked
    have member := mem_edges written (cstr_eq_self noNul) asked
    apply wp_mono (forM_edges explores (fun j listed => ((member j).mp listed).valid) enough)
    · intro _ paths' explored
      exact .enter member explored
    · intro _ _ failed
      exact failed.elim
  · intro e refused
    refine ⟨?_, new⟩
    intro valid
    obtain ⟨edges, asked⟩ := edges_returns written.toReadable valid
    rw [asked] at refused
    cases refused

theorem computeFSClosure_explores (written : db.Written nixStore) (fuel : Nat) :
    Explores flags db fuel (computeFSClosure db nixStore flags fuel) := by
  induction fuel with
  | zero => exact fun _ _ _ enough => absurd enough (Nat.not_lt_zero _)
  | succ fuel ih =>
    intro path paths valid enough
    by_cases there : path ∈ paths
    · simp only [computeFSClosure, wp_bind, wp_get, if_pos there, wp_pure]
      exact .seen there
    · have fewer := remaining_insert_lt (mem_toFinset.mpr valid) there
      apply wp_mono (computeFSClosure_step written ih valid.noNul (by omega))
      · intro _ _ explored
        exact explored
      · intro _ _ refused
        exact refused.1 valid

/-- `computeFSClosure` adds exactly what can be reached. The depth of the recursion is
bounded by the number of valid paths; the only exception is that of a query about
`path` itself, when it is neither valid nor in the set. -/
theorem computeFSClosure_exact (nixStore : Path) (db : Db) (written : db.Written nixStore)
    (flags : ClosureFlags) (path : Path) (noNul : 0 ∉ path) (paths : Finset Path)
    (closed : ∀ a ∈ paths, ∀ b, flags.Selected db a b → b ∈ paths) (fuel : Nat)
    (enough : db.validPaths.length + 1 < fuel) :
    wp (computeFSClosure db nixStore flags fuel path)
      (fun _ paths' => ∀ p, p ∈ paths' ↔ p ∈ paths ∨ ReflTransGen (flags.Selected db) path p)
      (fun _ _ => ¬ db.Valid path ∧ path ∉ paths) paths := by
  obtain ⟨fuel, rfl⟩ : ∃ n, fuel = n + 1 := ⟨fuel - 1, by omega⟩
  have atMost : remaining db.paths.toFinset (insert path paths) ≤ db.validPaths.length := calc
    remaining db.paths.toFinset (insert path paths) ≤ db.paths.toFinset.card :=
      Finset.card_le_card Finset.sdiff_subset
    _ ≤ db.paths.length := toFinset_card_le db.paths
    _ = db.validPaths.length := length_map _
  apply wp_mono (computeFSClosure_step written (computeFSClosure_explores written fuel) noNul
    (by omega))
  · intro _ paths' explored
    exact explored.mem_iff closed
  · intro _ _ refused
    exact refused

/-- Two paths that refer to each other. -/
def cyclicInfos : List ValidPathInfo :=
  [{ path := ascii "/s/a", hash := Hash.ofType .sha256, references := [ascii "/s/b"] },
   { path := ascii "/s/b", hash := Hash.ofType .sha256, references := [ascii "/s/a"] }]

/-- What is in the database before `registerValidPaths` looks for cycles. -/
@[irreducible] def cyclicDb : Db :=
  match (do
    forM cyclicInfos (addOrUpdate ⟨1, fun _ => .ok [], fun _ _ => .ok ⟨⟩⟩)
    forM cyclicInfos addReferences : DbM PUnit) Db.empty with
  | .ok _ db | .error _ db => db

theorem cyclicDb_written : cyclicDb.Written (ascii "/s") where
  storePath := by decide +kernel
  hash v found := by
    have parses : ∀ v ∈ cyclicDb.validPaths, (parseHashField v.path v.hash).map (fun _ => ()) = .ok () := by
      decide +kernel
    obtain ⟨hash, parsed, _⟩ := Fallible.map_ok.mp (parses v found)
    exact ⟨hash, parsed⟩
  deriver_text := by decide +kernel

theorem cyclicDb_small : cyclicDb.validPaths.length + 1 < 4 := by decide +kernel

theorem computeFSClosure_exact_cycle : cyclicDb.Written (ascii "/s") ∧
    wp (computeFSClosure cyclicDb (ascii "/s") { flipDirection := true } 4 (ascii "/s/a"))
      (fun _ paths' => ∀ p, p ∈ paths' ↔ p ∈ (∅ : Finset Path) ∨
        ReflTransGen (Selected { flipDirection := true } cyclicDb) (ascii "/s/a") p)
      (fun _ _ => ¬ cyclicDb.Valid (ascii "/s/a") ∧ ascii "/s/a" ∉ (∅ : Finset Path)) ∅ :=
  ⟨cyclicDb_written, computeFSClosure_exact (ascii "/s") cyclicDb cyclicDb_written
    { flipDirection := true } (ascii "/s/a") (by decide) ∅ (by simp) 4 cyclicDb_small⟩

end Guix.LibStore
