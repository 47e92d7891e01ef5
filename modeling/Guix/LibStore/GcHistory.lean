import Guix.LibStore.GcInvariant
import Guix.LibStore.StoreHistory

/-!
# Histories with garbage collections

Registrations, invalidations and runs of the collector in any order, where each of them
may throw. The database stands for the ledger that the same operations give, and nothing
is deleted that another valid path refers to.
-/

namespace Guix.LibStore

open Hoare Gc Db Machine

variable {s s' : State}

namespace Gc

variable (cfg : Config)

/-! ### A search changes nothing but the cache -/

def OnlyMarks (s s' : State) : Prop := ∃ alive, s' = { s with alive := alive }

theorem OnlyMarks.refl (s : State) : OnlyMarks s s := ⟨s.alive, rfl⟩

theorem OnlyMarks.trans {s'' : State} (first : OnlyMarks s s') (second : OnlyMarks s' s'') :
    OnlyMarks s s'' := by
  obtain ⟨_, rfl⟩ := first
  obtain ⟨alive, rfl⟩ := second
  exact ⟨alive, rfl⟩

theorem anyCanReachRoot_marks {visit : Finset Path → Path → GcM (Bool × Finset Path)}
    (marks : ∀ visited path s, Preserves (visit visited path) (OnlyMarks s) s)
    (path : Path) (paths : List Path) (visited : Finset Path) (s : State) :
    Preserves (anyCanReachRoot visit path visited paths) (OnlyMarks s) s := by
  induction paths generalizing visited s with
  | nil => exact OnlyMarks.refl s
  | cons j rest ih =>
    simp only [anyCanReachRoot, wp_ite, wp_bind]
    refine ⟨fun _ => ih visited s, fun _ => ?_⟩
    apply wp_imp (marks visited j s)
    intro result s1 first
    refine ⟨fun _ => first, fun _ => ?_⟩
    exact wp_mono (ih result.2 s1) (fun _ _ => first.trans) (fun _ _ => first.trans)

theorem canReachRoot_marks (fuel : Nat) (visited : Finset Path) (path : Path) (s : State) :
    Preserves (canReachRoot cfg fuel visited path) (OnlyMarks s) s := by
  induction fuel generalizing visited path s with
  | zero => exact OnlyMarks.refl s
  | succ fuel ih =>
    simp only [canReachRoot, wp_bind, wp_get, wp_ite, wp_pure, wp_query, markAlive, wp_modify]
    refine ⟨fun _ => .refl s, fun _ => ⟨fun _ => .refl s, fun _ => ⟨fun _ => .refl s, fun _ =>
      ⟨fun _ => ⟨_, rfl⟩, fun _ => ⟨fun _ => ⟨?_, fun _ _ => .refl s⟩, fun _ => .refl s⟩⟩⟩⟩⟩
    intro paths _
    apply wp_imp (anyCanReachRoot_marks ih path paths (insert path visited) s)
    intro result s1 marked
    exact ⟨fun _ => marked.trans ⟨_, rfl⟩, fun _ => marked⟩

/-! ### Any run, whether it respects liveness or not -/

/-- Everything may be deleted. -/
def freePolicy : Policy where
  live _ := True
  may _ := True
  answer _ _ _ := True

variable {cfg} {start : State}

theorem OnlyMarks.inv (marked : OnlyMarks s s') (inv : Inv cfg freePolicy start s) :
    Inv cfg freePolicy start s' := by
  obtain ⟨alive, rfl⟩ := marked
  exact { inv with alive := fun _ _ => trivial }

theorem OnlyMarks.db (marked : OnlyMarks s s') : s'.db = s.db := by
  obtain ⟨alive, rfl⟩ := marked
  rfl

theorem decides_free (path : Path) : Decides cfg freePolicy start path := by
  intro s inv
  apply wp_mono (canReachRoot_marks cfg cfg.fuel ∅ path s)
  · intro answer s' marked
    exact ⟨⟨marked.inv inv, marked.db⟩, trivial, fun _ => ⟨trivial, fun _ _ => trivial⟩⟩
  · exact fun _ _ marked => marked.inv inv

theorem runs_free (valid : ∀ p, start.db.Valid p → isAbove cfg p = false)
    (toDelete : cfg.options.action = .gcDeleteSpecific →
      ∀ p ∈ cfg.options.pathsToDelete, isAbove cfg p = false) :
    Runs cfg freePolicy start where
  sound := ⟨fun _ _ _ _ => trivial, trivial, valid⟩
  entries := by
    intro path considered
    rcases considered with ⟨name, listed, notDot, notDots, rfl⟩ | ⟨specific, listed⟩
    · exact isAbove_entryPath cfg listed notDot notDots
    · exact toDelete specific path listed
  decides path _ := decides_free path

/-- Nothing is invalidated or removed while another valid path refers to it. -/
def Unreferred (log : List (Event × Db)) : Prop :=
  ∀ entry ∈ log, ∀ p, entry.1 = .invalidated p ∨ entry.1 = .removed p →
    ∀ a, entry.2.Refers a p → a = p

theorem Inv.unreferred (inv : Inv cfg freePolicy start s)
    (noTrash : ¬ start.db.Valid cfg.trashDir) : Unreferred s.log := by
  intro entry logged p deleted a refers
  have good := inv.log entry logged
  obtain ⟨event, db⟩ := entry
  rcases deleted with rfl | rfl
  · exact good.2 a refers
  · -- what is removed from the disk is not valid, and the trash never was
    have isTrash := good.2 refers.right_valid
    rw [isTrash] at refers
    exact absurd ((inv.snapshots _ logged).valid refers.right_valid) noTrash

end Gc

/-! ### Histories -/

/-- A path in the store that names neither the store directory nor one above it. -/
def IsEntry (nixStore path : Path) : Prop :=
  let name := (cstr path).drop (nixStore.length + 1)
  name ≠ [] ∧ name ≠ ascii "." ∧ name ≠ ascii ".."
  deriving Decidable

variable {cfg : Config} {path : Path}

theorem isAbove_eq_false (entry : IsEntry cfg.nixStore path) : isAbove cfg path = false := by
  obtain ⟨nonempty, notDot, notDots⟩ := entry
  simp [isAbove, nameOf, nonempty, notDot, notDots]

theorem isEntry_cstr {nixStore : Path} : IsEntry nixStore (cstr path) ↔ IsEntry nixStore path := by
  simp [IsEntry]

inductive Action
  | update (update : Update)
  | collectGarbage (cfg : Config) (disk : List Path)

/-- What is seen of an action; `log` is that of the collector. -/
structure Transition where
  before : Db
  action : Action
  failed : Bool
  log : List (Event × Db)
  after : Db

def Action.step (nixStore : Path) (db : Db) : Action → Option (Db × Transition)
  | .update change =>
    match change.run nixStore db with
    | .ok _ db' => some (db', ⟨db, .update change, false, [], db'⟩)
    | .error _ db' => some (db', ⟨db, .update change, true, [], db'⟩)
  | .collectGarbage cfg disk =>
    if cfg.nixStore = nixStore then
      match Gc.collectGarbage cfg { db := db, disk := disk } with
      | .ok _ s => some (s.db, ⟨db, .collectGarbage cfg disk, false, s.log, s.db⟩)
      | .error _ s => some (s.db, ⟨db, .collectGarbage cfg disk, true, s.log, s.db⟩)
    else none

namespace Transition

/-- What the action is meant to do to the ledger. -/
def replay (ledger : Ledger) (t : Transition) : Ledger :=
  match t.action with
  | .update (.registerValidPaths _ infos) => if t.failed then ledger else ledger.register infos
  | .update (.invalidatePathChecked path) => if t.failed then ledger else ledger.remove (cstr path)
  | .collectGarbage _ _ => Gc.replay ledger t.log

/-- A transaction that throws changes nothing, and the collector deletes nothing that is
referred to. -/
structure Sound (t : Transition) : Prop where
  rollback : ∀ update, t.action = .update update → t.failed = true → t.after = t.before
  unreferred : Unreferred t.log

/-- Paths that are registered, and paths to delete, are entries of the store, and the
trash directory is not registered. -/
def Orderly (nixStore : Path) (t : Transition) : Prop :=
  match t.action with
  | .update (.registerValidPaths _ infos) =>
    ∀ i ∈ infos, IsEntry nixStore i.path ∧ cstr i.path ≠ nixStore ++ ascii "/trash"
  | .update (.invalidatePathChecked _) => True
  | .collectGarbage cfg _ => cfg.options.action = .gcDeleteSpecific →
    ∀ p ∈ cfg.options.pathsToDelete, IsEntry nixStore p

instance (nixStore : Path) (t : Transition) : Decidable (t.Orderly nixStore) := by
  unfold Orderly
  split <;> infer_instance

end Transition

/-- The valid paths are entries of the store other than the trash directory. -/
def Db.Entries (nixStore : Path) (db : Db) : Prop :=
  ∀ p, db.Valid p → IsEntry nixStore p ∧ p ≠ nixStore ++ ascii "/trash"

variable {nixStore : Path}

theorem Ledger.remove_of_notMem {ledger : Ledger} (closed : ledger.Closed)
    (notValid : path ∉ ledger.valid) : ledger.remove path = ledger := by
  ext p
  · constructor
    · exact fun kept => kept.1
    · intro valid
      refine ⟨valid, ?_⟩
      rintro rfl
      exact notValid valid
  · constructor
    · exact fun kept => kept.1
    · intro refers
      refine ⟨refers, ?_⟩
      intro same
      exact notValid (same ▸ (closed p.1 p.2 refers).1)

/-- What one transition gives: the invariant of the database, its ledger, and safety. -/
def Keeps (nixStore : Path) (next : Db) (t : Transition) : Prop :=
  next.Entries nixStore ∧ next.ledger = t.replay t.before.ledger ∧ t.Sound

theorem unreferred_nil : Unreferred [] := by
  exact nofun

theorem Update.run_keeps {change : Update} {db : Db} (entries : db.Entries nixStore)
    (orderly : Transition.Orderly nixStore ⟨db, .update change, false, [], db⟩) :
    wp (change.run nixStore) (fun _ db' => Keeps nixStore db' ⟨db, .update change, false, [], db'⟩)
      (fun _ db' => Keeps nixStore db' ⟨db, .update change, true, [], db'⟩) db := by
  have returned : ∀ {db' : Db}, db'.Entries nixStore →
      db'.ledger = Transition.replay db.ledger ⟨db, .update change, false, [], db'⟩ →
      Keeps nixStore db' ⟨db, .update change, false, [], db'⟩ := fun entries' ledger =>
    ⟨entries', ledger, fun _ _ failed => absurd failed (by simp), unreferred_nil⟩
  have failed : ∀ (e : Error) (db' : Db), db' = db → Keeps nixStore db' ⟨db, .update change, true, [], db'⟩ := by
    rintro _ _ rfl
    exact ⟨entries, by cases change <;> rfl, fun _ _ _ => rfl, unreferred_nil⟩
  cases change with
  | registerValidPaths outside infos =>
    refine wp_mono (registerValidPaths_spec nixStore outside infos db) ?_ failed
    intro _ db' registered
    refine returned ?_ registered.ledger
    intro p valid
    rcases (registered.valid_iff p).mp valid with old | ⟨i, inBatch, rfl⟩
    · exact entries p old
    · exact ⟨isEntry_cstr.mpr (orderly i inBatch).1, (orderly i inBatch).2⟩
  | invalidatePathChecked path =>
    refine wp_mono (invalidatePathChecked_spec nixStore path db) ?_ failed
    intro _ db' outcome
    have ledger : db'.ledger = db.ledger.remove (cstr path) := by
      by_cases valid : db.Valid (cstr path)
      · exact (outcome.1 valid).ledger
      · rw [outcome.2 valid, Ledger.remove_of_notMem db.ledger_closed valid]
    refine returned ?_ ledger
    intro p valid
    have inLedger : p ∈ db'.ledger.valid := valid
    rw [ledger] at inLedger
    exact entries p inLedger.1

theorem collectGarbage_free (disk : List Path) {db : Db} (entries : db.Entries cfg.nixStore)
    (toDelete : cfg.options.action = .gcDeleteSpecific →
      ∀ p ∈ cfg.options.pathsToDelete, IsEntry cfg.nixStore p) :
    Preserves (collectGarbage cfg) (Inv cfg freePolicy { db, disk }) { db, disk } := by
  refine collectGarbage_inv (runs_free ?_ ?_) (.init _ _ _ rfl rfl rfl)
  · exact fun p valid => isAbove_eq_false (entries p valid).1
  · exact fun specific p listed => isAbove_eq_false (toDelete specific p listed)

theorem collectGarbage_keeps {disk : List Path} (failed : Bool) {db : Db}
    (entries : db.Entries cfg.nixStore) {s : Gc.State}
    (inv : Gc.Inv cfg Gc.freePolicy { db := db, disk := disk } s) :
    Keeps cfg.nixStore s.db ⟨db, .collectGarbage cfg disk, failed, s.log, s.db⟩ := by
  refine ⟨fun p valid => entries p (inv.shrinks.valid valid), inv.ledger, ?_, ?_⟩
  · exact nofun
  · apply inv.unreferred
    intro valid
    exact (entries _ valid).2 rfl

theorem Action.step_keeps {db : Db} {action : Action} {next : Db} {t : Transition}
    (entries : db.Entries nixStore) (stepped : action.step nixStore db = some (next, t))
    (orderly : t.Orderly nixStore) :
    next.Entries nixStore ∧ next.ledger = t.replay db.ledger ∧ t.Sound := by
  suffices keeps : t.before = db ∧ Keeps nixStore next t by
    obtain ⟨rfl, holds⟩ := keeps
    exact holds
  cases action with
  | update change =>
    simp only [Action.step] at stepped
    split at stepped
    · next outcome =>
      cases stepped
      have keeps := wp_ok (Update.run_keeps entries orderly) outcome
      exact ⟨rfl, keeps⟩
    · next outcome =>
      cases stepped
      have keeps := wp_error (Update.run_keeps entries orderly) outcome
      exact ⟨rfl, keeps⟩
  | collectGarbage cfg disk =>
    simp only [Action.step] at stepped
    split at stepped
    · next same =>
      subst same
      split at stepped
      · next outcome =>
        cases stepped
        have inv := wp_ok (collectGarbage_free disk entries orderly) outcome
        exact ⟨rfl, collectGarbage_keeps _ entries inv⟩
      · next outcome =>
        cases stepped
        have inv := wp_error (collectGarbage_free disk entries orderly) outcome
        exact ⟨rfl, collectGarbage_keeps _ entries inv⟩
    · cases stepped

/-- In every history whose paths are entries of the store, the references of valid paths
are valid after every step, the database is what the operations are meant to make of it,
a registration that throws changes nothing, and no run of the collector invalidates or
removes a path to which another valid path refers. -/
theorem references_stay_valid (nixStore : Path) (actions : List Action) (db : Db)
    (transitions : List Transition)
    (ran : run (Action.step nixStore) empty actions = some (db, transitions))
    (orderly : ∀ t ∈ transitions, t.Orderly nixStore) :
    (∀ a b, db.Refers a b → db.Valid a ∧ db.Valid b) ∧
    db.ledger = transitions.foldl Transition.replay Ledger.empty ∧
    ∀ t ∈ transitions, t.Sound := by
  have noEntries : empty.Entries nixStore := by
    intro p valid
    simp [Valid, empty, Tables.paths] at valid
  have empty : empty.ledger = Ledger.empty := by
    ext p
    · simp [ledger, Ledger.empty, Valid, empty, Tables.paths]
    · simp [ledger, Ledger.empty, Refers, empty]
  have refined := run_refines (Action.step nixStore) (Entries nixStore)
    (Transition.Orderly nixStore) ledger Transition.replay Transition.Sound
    (fun db action next t => Action.step_keeps) noEntries ran orderly
  rw [empty] at refined
  exact ⟨db.ledger_closed, refined.2⟩

/-! ### Two histories -/

theorem noEntries_proper : ∀ name ∈ ([] : List Bytes), name ≠ [] ∧ 0 ∉ name ∧ slash ∉ name := by
  simp

/-- `/gnu/b` refers to `/gnu/a`; then the collector is asked to delete `toDelete`, and `mkdir`
of the trash directory fails with `errNo`. -/
def shortHistory (toDelete : Path) (errNo : Option Errno) : List Action :=
  let hash := Hash.ofType .sha256
  [.update (.registerValidPaths ⟨1, fun _ => .ok [], fun _ _ => .ok ⟨⟩⟩
     [{ path := ascii "/gnu/b", hash, references := [ascii "/gnu/a"] },
      { path := ascii "/gnu/a", hash }]),
   .collectGarbage
     { settings :=
         { nixStore := ascii "/gnu", gcKeepOutputs := true, gcKeepDerivations := true,
           nixStore_text := by decide, nixStore_absolute := by decide }
       options := { action := .gcDeleteSpecific, pathsToDelete := [toDelete] }
       permanentRoots := ∅
       tempRoots := ∅
       os :=
         { failure := fun time => if time = 1 then errNo else none
           interrupted := fun _ => false
           bytesFreed := fun _ => 0
           isDir := fun path => decide (path = ascii "/gnu/trash")
           readdir := []
           random_shuffle := id
           readdir_name := noEntries_proper
           shuffle_perm := List.Perm.refl }
       fuel := 9 }
     [ascii "/gnu/a", ascii "/gnu/b"]]

theorem references_stay_valid_short :
    ∃ db transitions,
      run (Action.step (ascii "/gnu")) empty (shortHistory (ascii "/gnu/a") none) =
        some (db, transitions) ∧
      ¬ db.Valid (ascii "/gnu/b") ∧ (∀ t ∈ transitions, t.Sound) := by
  have runs : (run (Action.step (ascii "/gnu")) empty (shortHistory (ascii "/gnu/a") none)).any
      (fun result => ¬ result.1.Valid (ascii "/gnu/b") ∧ ∀ t ∈ result.2, t.Orderly (ascii "/gnu")) = true := by
    decide +kernel
  obtain ⟨⟨db, transitions⟩, outcome, ended⟩ := (Option.any_eq_true _ _).mp runs
  obtain ⟨gone, orderly⟩ := of_decide_eq_true ended
  have all := references_stay_valid _ _ db transitions outcome orderly
  exact ⟨db, transitions, outcome, gone, all.2.2⟩

/-- `/gnu/.` is accepted as a store path to delete. The trash directory cannot be created for
lack of space, so that `deletePath` is called on `/gnu/.`: it removes everything in the store,
among it `/gnu/a`, to which the valid path `/gnu/b` refers. -/
theorem collectGarbage_removes_referenced :
    ∃ db transitions,
      run (Action.step (ascii "/gnu")) empty
        (shortHistory (ascii "/gnu/.") (some .ENOSPC)) = some (db, transitions) ∧
      db.Refers (ascii "/gnu/b") (ascii "/gnu/a") ∧ ∃ t ∈ transitions, ¬ Gc.Unreferred t.log := by
  have runs : (run (Action.step (ascii "/gnu")) empty
      (shortHistory (ascii "/gnu/.") (some .ENOSPC))).any (fun result =>
        result.1.Refers (ascii "/gnu/b") (ascii "/gnu/a") ∧ ∃ t ∈ result.2, ∃ entry ∈ t.log,
          entry.1 = .removed (ascii "/gnu/a") ∧ entry.2.Refers (ascii "/gnu/b") (ascii "/gnu/a")) = true := by
    decide +kernel
  obtain ⟨⟨db, transitions⟩, outcome, ended⟩ := (Option.any_eq_true _ _).mp runs
  obtain ⟨refers, t, member, entry, logged, removed, referred⟩ := of_decide_eq_true ended
  refine ⟨db, transitions, outcome, refers, t, member, ?_⟩
  intro unreferred
  have same := unreferred entry logged _ (.inr removed) _ referred
  exact absurd same (by decide)

end Guix.LibStore
