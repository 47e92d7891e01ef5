import Guix.Lib.Machine
import Guix.LibStore.LocalStoreCorrectness

/-!
# Histories of the database

Any sequence of transactions on an empty database. A batch only looks at the references
among its own paths when it looks for cycles; the graph of the whole store stays acyclic
because an old path never comes to refer to a new one.
-/

namespace Guix.LibStore

open Graph Hoare Relation Ledger Machine List Set

inductive Update
  | registerValidPaths (outside : Outside) (infos : List ValidPathInfo)
  | invalidatePathChecked (path : Path)

namespace Update

def run (nixStore : Path) : Update → DbM PUnit
  | .registerValidPaths outside infos => LibStore.registerValidPaths nixStore outside infos
  | .invalidatePathChecked path => LibStore.invalidatePathChecked nixStore path

/-- The database after a transaction, which may have thrown. The event is the transaction
and the database it found. -/
def step (nixStore : Path) (db : Db) (update : Update) : Option (Db × (Db × Update)) :=
  match update.run nixStore db with
  | .ok _ db' => some (db', (db, update))
  | .error _ db' => some (db', (db, update))

end Update

/-! ### What a transaction does to the graph -/

/-- A batch as the callers of `registerValidPaths` pass it. They look up `isValidPath`
under the lock of the path first. Only the outputs of a build are registered several at
a time, and their names have passed `checkStoreName`. -/
structure Batch (db : Db) (infos : List ValidPathInfo) : Prop where
  known : ∀ i ∈ infos, db.Valid (cstr i.path) →
    ∀ r ∈ i.references, db.Refers (cstr i.path) (cstr r)
  text : infos.length ≤ 1 ∨ ∀ i ∈ infos, 0 ∉ i.path

instance (db : Db) (infos : List ValidPathInfo) : Decidable (Batch db infos) :=
  decidable_of_iff
    ((∀ i ∈ infos, db.Valid (cstr i.path) →
        ∀ r ∈ i.references, db.Refers (cstr i.path) (cstr r)) ∧
      (infos.length ≤ 1 ∨ ∀ i ∈ infos, 0 ∉ i.path))
    ⟨fun both => ⟨both.1, both.2⟩, fun batch => ⟨batch.known, batch.text⟩⟩

variable {nixStore : Path} {db db' : Db} {infos : List ValidPathInfo}

section

variable (registered : Registered nixStore infos db db')
include registered

theorem Registered.refers_iff (a b : Path) :
    db'.Refers a b ↔
      db.Refers a b ∨ ∃ i ∈ infos, ∃ r ∈ i.references, a = cstr i.path ∧ b = cstr r := by
  have ledger : (a, b) ∈ db'.ledger.refs ↔ (a, b) ∈ (db.ledger.register infos).refs := by
    rw [registered.ledger]
  simpa only [Db.ledger, register, add, refsOf, mem_union,
    mem_ofPred_eq, Prod.mk.injEq] using ledger

theorem Registered.valid_iff (p : Path) :
    db'.Valid p ↔ db.Valid p ∨ ∃ i ∈ infos, p = cstr i.path := by
  have ledger : p ∈ db'.ledger.valid ↔ p ∈ (db.ledger.register infos).valid := by
    rw [registered.ledger]
  simpa only [Db.ledger, register, add, pathsOf, mem_union,
    mem_ofPred_eq] using ledger

/-- The references of an old path are the ones it had. -/
theorem Registered.closed (batch : Batch db infos)
    (a b : Path) (old : db.Valid a) (refers : db'.Refers a b) : db.Valid b ∧ db.Refers a b := by
  rcases (registered.refers_iff a b).mp refers with before | ⟨i, inBatch, r, isRef, rfl, rfl⟩
  · exact ⟨before.right_valid, before⟩
  · have before := batch.known i inBatch old r isRef
    exact ⟨before.right_valid, before⟩

/-- Among the new paths the batch itself has been sorted topologically. -/
theorem Registered.acyclic_new (batch : Batch db infos) :
    Acyclic fun a b => ¬ db.Valid a ∧ ¬ db.Valid b ∧ db'.Refers a b := by
  have new : ∀ p, ¬ db.Valid p → db'.Valid p → ∃ i ∈ infos, p = cstr i.path := by
    intro p notOld valid
    exact ((registered.valid_iff p).mp valid).resolve_left notOld
  rcases batch.text with single | texts
  · -- the only new path can only refer to itself
    intro a cycle
    obtain ⟨b, edge, _⟩ := TransGen.head'_iff.mp cycle
    obtain ⟨different, newA, newB, refers⟩ := edge
    obtain ⟨i, first, rfl⟩ := new _ newA refers.left_valid
    obtain ⟨j, second, rfl⟩ := new _ newB refers.right_valid
    have same : i = j := by
      cases infos with
      | nil => cases first
      | cons k rest =>
        have noRest : rest = [] := by simpa using single
        subst noRest
        rw [mem_singleton.mp first, mem_singleton.mp second]
    exact different (by rw [same])
  · apply registered.acyclic.mono
    rintro a b ⟨newA, newB, refers⟩
    obtain ⟨i, first, isA⟩ := new _ newA refers.left_valid
    obtain ⟨j, second, isB⟩ := new _ newB refers.right_valid
    rw [cstr_eq_self (texts i first)] at isA
    rw [cstr_eq_self (texts j second)] at isB
    refine ⟨isA ▸ mem_map_of_mem first, isB ▸ mem_map_of_mem second, ?_, refers⟩
    rw [isA]
    exact cstr_eq_self (texts i first)

theorem Registered.keeps_acyclic
    (batch : Batch db infos) (acyclic : Acyclic db.Refers) : Acyclic db'.Refers := by
  have closed : ∀ a b, a ∈ {p | db.Valid p} → db'.Refers a b →
      b ∈ {p | db.Valid p} ∧ db.Refers a b := registered.closed batch
  exact acyclic.extend closed (registered.acyclic_new batch)

end

theorem Invalidated.refers {path : Path} (invalidated : Invalidated path db db') (a b : Path)
    (refers : db'.Refers a b) : db.Refers a b := by
  have inLedger : (a, b) ∈ db'.ledger.refs := refers
  rw [invalidated.ledger] at inLedger
  exact inLedger.1

/-! ### Histories -/

/-- What the callers promise about the transactions. -/
def Allowed : Db × Update → Prop
  | (db, .registerValidPaths _ infos) => Batch db infos
  | (_, .invalidatePathChecked _) => True

instance : DecidablePred Allowed
  | (db, .registerValidPaths _ infos) => inferInstanceAs (Decidable (Batch db infos))
  | (_, .invalidatePathChecked _) => inferInstanceAs (Decidable True)

theorem Update.step_acyclic (nixStore : Path) (db : Db) (update : Update) (next : Db)
    (event : Db × Update) (acyclic : Acyclic db.Refers)
    (stepped : Update.step nixStore db update = some (next, event)) (allowed : Allowed event) :
    Acyclic next.Refers := by
  have keeps : wp (update.run nixStore) (fun _ db' => Allowed (db, update) → Acyclic db'.Refers)
      (fun _ db' => db' = db) db := by
    cases update with
    | registerValidPaths outside infos =>
      apply wp_imp (registerValidPaths_spec nixStore outside infos db)
      intro _ db' registered batch
      exact registered.keeps_acyclic batch acyclic
    | invalidatePathChecked path =>
      apply wp_imp (invalidatePathChecked_spec nixStore path db)
      intro _ db' outcome _
      by_cases valid : db.Valid (cstr path)
      · exact acyclic.mono (outcome.1 valid).refers
      · exact outcome.2 valid ▸ acyclic
  simp only [wp] at keeps
  simp only [Update.step] at stepped
  cases outcome : update.run nixStore db with
  | ok _ db' =>
    simp only [outcome] at stepped keeps
    cases stepped
    exact keeps allowed
  | error _ db' =>
    simp only [outcome] at stepped keeps
    cases stepped
    exact keeps ▸ acyclic

theorem acyclic_empty : Acyclic Db.empty.Refers := by
  intro a cycle
  obtain ⟨b, edge, _⟩ := TransGen.head'_iff.mp cycle
  exact absurd edge.2.left_valid (by simp [Db.Valid, Db.empty, Tables.paths])

/-- After every transaction of a history, the graph of the references has no cycle other
than self-loops. -/
theorem references_acyclic (nixStore : Path) (updates : List Update) (db : Db)
    (events : List (Db × Update))
    (ran : run (Update.step nixStore) Db.empty updates = some (db, events))
    (allowed : ∀ event ∈ events, Allowed event) : Acyclic db.Refers := by
  exact run_preserves (Update.step nixStore) (fun db => Acyclic db.Refers) Allowed
    (Update.step_acyclic nixStore) acyclic_empty ran allowed

/-- A batch with a self-loop, a later path that refers to it, and an invalidation. -/
def smallHistory : List Update :=
  let hash := Hash.ofType .sha256
  let outside : Outside := ⟨1, fun _ => .ok [], fun _ _ => .ok ⟨⟩⟩
  [.registerValidPaths outside
     [{ path := ascii "/s/b", hash, references := [ascii "/s/a", ascii "/s/b"] },
      { path := ascii "/s/a", hash }],
   .registerValidPaths outside [{ path := ascii "/s/c", hash, references := [ascii "/s/b"] }],
   .invalidatePathChecked (ascii "/s/c")]

theorem references_acyclic_small :
    ∃ db events, run (Update.step (ascii "/s")) Db.empty smallHistory = some (db, events) ∧
      db.Refers (ascii "/s/b") (ascii "/s/a") ∧ Acyclic db.Refers := by
  have runs : (run (Update.step (ascii "/s")) Db.empty smallHistory).any (fun result =>
      (∀ event ∈ result.2, Allowed event) ∧ result.1.Refers (ascii "/s/b") (ascii "/s/a")) = true := by
    decide +kernel
  obtain ⟨⟨db, events⟩, outcome, ended⟩ := (Option.any_eq_true _ _).mp runs
  obtain ⟨allowed, refers⟩ := of_decide_eq_true ended
  exact ⟨db, events, outcome, refers, references_acyclic _ smallHistory db events outcome allowed⟩

/-- Two paths that refer to each other. The first one is written with a NUL byte, so that it is
not the path that the second one refers to until it is registered. -/
def nulBatch : Update :=
  let hash := Hash.ofType .sha256
  .registerValidPaths ⟨1, fun _ => .ok [], fun _ _ => .ok ⟨⟩⟩
    [{ path := ascii "/s/a" ++ [0], hash, references := [ascii "/s/b"] },
     { path := ascii "/s/b", hash, references := [ascii "/s/a"] }]

theorem references_cycle_nul :
    ∃ db events, run (Update.step (ascii "/s")) Db.empty [nulBatch] = some (db, events) ∧
      ¬ Acyclic db.Refers := by
  have runs : (run (Update.step (ascii "/s")) Db.empty [nulBatch]).any (fun result =>
      result.1.Refers (ascii "/s/a") (ascii "/s/b") ∧ result.1.Refers (ascii "/s/b") (ascii "/s/a")) = true := by
    decide +kernel
  obtain ⟨⟨db, events⟩, outcome, ended⟩ := (Option.any_eq_true _ _).mp runs
  obtain ⟨forth, back⟩ := of_decide_eq_true ended
  refine ⟨db, events, outcome, fun acyclic => acyclic (ascii "/s/a") ?_⟩
  exact .tail (.single ⟨by decide, forth⟩) ⟨by decide, back⟩

end Guix.LibStore
