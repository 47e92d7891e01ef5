import Guix.LibStore.Gc
import Guix.LibStore.DatabaseQueries

/-!
# What every run of the collector keeps

The collector only ever deletes rows and entries. Which ones it may delete, and what
its answers about reachability mean, is a `Policy`; the invariant of a run is stated
once for all policies.
-/

namespace Guix.LibStore

open List Db

variable {path : Path} {name : Bytes}

namespace Gc

open Hoare

variable (cfg : Config)

/-! ### System calls -/

section Calls

variable (s : State) (fails : Error → State → Prop)

def State.later (s : State) : State := { s with clock := s.clock + 1 }

@[simp] theorem wp_tick (post : Nat → State → Prop) :
    wp tick post fails s ↔ post s.clock s.later := by
  rfl

@[simp] theorem wp_log (event : Event) (post : PUnit → State → Prop) :
    wp (log event) post fails s ↔ post ⟨⟩ { s with log := (event, s.db) :: s.log } := by
  simp only [log, wp_modify]

@[simp] theorem wp_checkInterrupt (post : PUnit → State → Prop) :
    wp (checkInterrupt cfg) post fails s ↔
      (cfg.os.interrupted s.clock = true → fails .interrupted s.later) ∧
        (cfg.os.interrupted s.clock ≠ true → post ⟨⟩ s.later) := by
  simp [checkInterrupt]

@[simp] theorem wp_syscall (post : Option Errno → State → Prop) :
    wp (syscall cfg) post fails s ↔ post (cfg.os.failure s.clock) s.later := by
  simp [syscall]

/-- What `lstat` returns. -/
def statusOf (path : Path) : Except Errno Bool :=
  match cfg.os.failure s.clock with
  | some errNo => .error errNo
  | none =>
    if isAbove cfg path then .ok true
    else if cstr path ∈ s.disk then .ok (cfg.os.isDir (cstr path))
    else .error .ENOENT

@[simp] theorem wp_lstat (path : Path) (post : Except Errno Bool → State → Prop) :
    wp (lstat cfg path) post fails s ↔ post (statusOf cfg s path) s.later := by
  rfl

/-- An entry disappears. -/
def State.remove (entry : Path) : State :=
  { s with disk := s.disk.filter (· ≠ entry), log := (.removed entry, s.db) :: s.log }

@[simp] theorem wp_removeEntry (entry : Path) (post : PUnit → State → Prop) :
    wp (removeEntry entry) post fails s ↔ post ⟨⟩ (s.remove entry) := by
  rfl

@[simp] theorem wp_query {α : Type} (ask : Db → Except LibStore.Error α) (post : α → State → Prop) :
    wp (query ask) post fails s ↔
      (∀ a, ask s.db = .ok a → post a s) ∧ ∀ e, ask s.db = .error e → fails (.store e) s := by
  simp only [query, wp_bind, wp_get, wp_ofExcept]
  cases ask s.db <;> simp [Except.mapError]

end Calls

/-! ### The invariant -/

/-- What a proof about the collector chooses: `live` of the paths it marks alive, `may`
of those it deletes or marks dead, and `answer` of each question about reachability. -/
structure Policy where
  live : Path → Prop
  may : Path → Prop
  answer : Db → Path → Bool → Prop

variable (policy : Policy)

/-- What the policy has to say about the database that a run starts from. -/
structure Policy.Sound (db : Db) : Prop where
  referrers : ∀ p q, policy.may p → db.Refers q p → policy.may q
  trash : policy.may cfg.trashDir
  entries : ∀ p, db.Valid p → isAbove cfg p = false

/-- What an event of the log promises, given the database just before it. -/
def Good (entry : Event × Db) : Prop :=
  match entry.1 with
  | .invalidated p => policy.may p ∧ ∀ a, entry.2.Refers a p → a = p
  | .removed p => policy.may p ∧ (entry.2.Valid p → p = cfg.trashDir)
  | .answered p alive => policy.answer entry.2 p alive
  | .limitReached => True

/-- The ledger after the invalidations of a log. -/
def replay (ledger : Ledger) : List (Event × Db) → Ledger
  | [] => ledger
  | (.invalidated p, _) :: log => (replay ledger log).remove p
  | _ :: log => replay ledger log

variable (start : State)

structure Inv (s : State) : Prop where
  shrinks : start.db.Shrinks s.db
  kept : ∀ v ∈ start.db.validPaths, ¬ policy.may v.path → v ∈ s.db.validPaths
  alive : ∀ p ∈ s.alive, policy.live p
  dead : ∀ p ∈ s.dead, policy.may p
  log : ∀ entry ∈ s.log, Good cfg policy entry
  snapshots : ∀ entry ∈ s.log, start.db.Shrinks entry.2
  ledger : s.db.ledger = replay start.db.ledger s.log
  present : ∀ p ∈ start.disk, p ∈ s.disk ∨ ∃ db, (Event.removed p, db) ∈ s.log

variable {cfg policy start} {s : State}

theorem Inv.later (inv : Inv cfg policy start s) : Inv cfg policy start s.later := { inv with }

theorem present_cons {disk disk' : List Path} {log : List (Event × Db)} (entry : Event × Db)
    (present : ∀ p ∈ disk, p ∈ disk' ∨ ∃ db, (Event.removed p, db) ∈ log) :
    ∀ p ∈ disk, p ∈ disk' ∨ ∃ db, (Event.removed p, db) ∈ entry :: log := by
  intro p before
  rcases present p before with still | ⟨db, removed⟩
  · exact .inl still
  · exact .inr ⟨db, mem_cons_of_mem _ removed⟩

section

variable (inv : Inv cfg policy start s)
include inv

theorem Inv.logged (event : Event) (good : Good cfg policy (event, s.db))
    (kept : ∀ p, event ≠ .invalidated p) :
    Inv cfg policy start { s with log := (event, s.db) :: s.log } :=
  { inv with
    log := forall_mem_cons.mpr ⟨good, inv.log⟩
    snapshots := forall_mem_cons.mpr ⟨inv.shrinks, inv.snapshots⟩
    ledger := by
      cases event with
      | invalidated p => exact absurd rfl (kept p)
      | _ => exact inv.ledger
    present := present_cons _ inv.present }

theorem Inv.markDead {visited : Finset Path} (may : ∀ p ∈ visited, policy.may p) :
    Inv cfg policy start { s with dead := s.dead ∪ visited } :=
  { inv with dead := Finset.forall_mem_union.mpr ⟨inv.dead, may⟩ }

theorem Inv.remove (entry : Path) (may : policy.may entry)
    (invalid : s.db.Valid entry → entry = cfg.trashDir) : Inv cfg policy start (s.remove entry) :=
  { inv with
    log := forall_mem_cons.mpr ⟨⟨may, invalid⟩, inv.log⟩
    snapshots := forall_mem_cons.mpr ⟨inv.shrinks, inv.snapshots⟩
    present := by
      intro p before
      by_cases same : p = entry
      · exact .inr ⟨s.db, by simp [State.remove, same]⟩
      · rcases inv.present p before with still | ⟨db, removed⟩
        · exact .inl (mem_filter.mpr ⟨still, by simpa using same⟩)
        · exact .inr ⟨db, mem_cons_of_mem _ removed⟩ }

theorem Inv.invalidate {db' : Db} (may : policy.may (cstr path))
    (invalidated : Invalidated path s.db db') :
    Inv cfg policy start
      { s with db := db', log := (.invalidated (cstr path), s.db) :: s.log } := by
  obtain ⟨row, found, named, deleted⟩ := invalidated.deleted
  have valid' := (deleteRow_graph found deleted).1
  have smaller := Db.Shrinks.of_deleteRow deleted
  exact
    { inv with
      shrinks := inv.shrinks.trans smaller
      kept := by
        -- the row that was deleted is one that may be deleted
        intro v old mustStay
        have there := inv.kept v old mustStay
        have different : v.path ≠ row.path := by
          intro same
          rw [same, named] at mustStay
          exact mustStay may
        obtain ⟨w, kept, same⟩ := ((valid' v.path).mpr ⟨valid_of_mem there, different⟩).exists_row
        rw [← eq_of_path_eq (smaller.rows w kept) there same]
        exact kept
      log := forall_mem_cons.mpr ⟨⟨may, invalidated.unreferred⟩, inv.log⟩
      snapshots := forall_mem_cons.mpr ⟨inv.shrinks, inv.snapshots⟩
      ledger := by
        rw [replay, ← inv.ledger]
        exact invalidated.ledger
      present := present_cons _ inv.present }

end

/-! ### Deleting -/

/-- The invariant, and the database as it was before. -/
def Same (cfg : Config) (policy : Policy) (start s s' : State) : Prop :=
  Inv cfg policy start s' ∧ s'.db = s.db

/-- A path that the collector may remove from the disk now. -/
structure Removable (cfg : Config) (policy : Policy) (s : State) (path : Path) : Prop where
  entry : isAbove cfg path = false
  may : policy.may (cstr path)
  invalid : s.db.Valid (cstr path) → cstr path = cfg.trashDir

theorem Removable.congr {s' : State} (removable : Removable cfg policy s path)
    (same : s'.db = s.db) : Removable cfg policy s' path :=
  ⟨removable.entry, removable.may, same ▸ removable.invalid⟩

theorem checkLimit_inv {s0 : State} (same : Same cfg policy start s0 s) :
    Preserves (checkLimit cfg) (Same cfg policy start s0) s := by
  simp only [checkLimit, wp_bind, wp_get, wp_ite, wp_log, wp_throw, wp_pure]
  refine ⟨fun _ => ⟨?_, same.2⟩, fun _ => same⟩
  exact same.1.logged .limitReached trivial (by simp)

section Disk

variable (inv : Inv cfg policy start s) (removable : Removable cfg policy s path)
include inv removable

theorem deleteGarbage_inv : Preserves (deleteGarbage cfg path) (Same cfg policy start s) s := by
  simp only [deleteGarbage, deletePath, deleteEntry, wp_bind, wp_get, wp_ite, wp_modify, wp_throw,
    wp_checkInterrupt, wp_syscall, removable.entry, Bool.false_eq_true, false_implies, true_and,
    not_false_eq_true, true_implies]
  refine ⟨fun _ => ⟨fun _ => ⟨inv.later, rfl⟩, fun _ => ?_⟩, fun _ => ⟨inv, rfl⟩⟩
  split
  · simp only [wp_throw]
    exact ⟨inv.later.later, rfl⟩
  · have removed := inv.later.later.remove (cstr path) removable.may removable.invalid
    exact ⟨{ removed with }, rfl⟩

theorem renameToTrash_inv : Preserves (renameToTrash cfg path) (Same cfg policy start s) s := by
  simp only [renameToTrash, wp_bind, wp_syscall]
  split
  · simp only [wp_pure]
    exact ⟨inv.later, rfl⟩
  · simp only [wp_bind, wp_syscall, wp_get]
    split
    · simp only [wp_pure]
      exact ⟨inv.later.later, rfl⟩
    · simp only [wp_ite, wp_pure, wp_bind, wp_removeEntry]
      have kept : Same cfg policy start s s.later.later := ⟨inv.later.later, rfl⟩
      refine ⟨fun _ => kept, fun _ => ⟨fun _ => kept, fun _ => ⟨fun _ => ?_, fun _ => kept⟩⟩⟩
      exact ⟨inv.later.later.remove (cstr path) removable.may removable.invalid, rfl⟩

theorem moveToTrash_inv (size : Nat) : Preserves (moveToTrash cfg path size) (Same cfg policy start s) s := by
  simp only [moveToTrash, wp_bind]
  refine wp_imp (renameToTrash_inv inv removable) ?_
  rintro failure s1 ⟨inv1, same⟩
  split
  · exact ⟨{ inv1 with }, same⟩
  · simp only [wp_ite, wp_pure]
    refine ⟨fun _ => ?_, fun _ => ⟨inv1, same⟩⟩
    have onward : ∀ s', Same cfg policy start s1 s' → Same cfg policy start s s' :=
      fun s' kept => ⟨kept.1, kept.2.trans same⟩
    exact wp_mono (deleteGarbage_inv inv1 (removable.congr same)) (fun _ s' => onward s')
      (fun _ s' => onward s')

theorem deleteFromDisk_inv (size : Nat) :
    Preserves (deleteFromDisk cfg path size) (Same cfg policy start s) s := by
  simp only [deleteFromDisk, wp_bind, wp_lstat]
  split
  · exact ⟨inv.later, rfl⟩
  · exact ⟨inv.later, rfl⟩
  · simp only [wp_bind, wp_modify, wp_get, wp_ite]
    have inv1 : Inv cfg policy start { s.later with paths := insert path s.later.paths } :=
      { inv.later with }
    refine ⟨fun _ => ?_, fun _ => ?_⟩
    · exact wp_imp (moveToTrash_inv inv1 (removable.congr rfl) size) fun _ _ => checkLimit_inv
    · exact wp_imp (deleteGarbage_inv inv1 (removable.congr rfl)) fun _ _ => checkLimit_inv

end Disk

theorem invalidate_inv (inv : Inv cfg policy start s) (may : policy.may (cstr path))
    (valid : s.db.Valid (cstr path)) :
    wp (invalidate cfg path)
      (fun _ s' => Inv cfg policy start s' ∧ ¬ s'.db.Valid (cstr path))
      (fun _ s' => Inv cfg policy start s') s := by
  simp only [invalidate, wp_bind, wp_get, wp_focus, wp_modify]
  refine wp_mono (invalidatePathChecked_spec cfg.nixStore path s.db) ?_ ?_
  · intro _ db' outcome
    have invalidated := outcome.1 valid
    refine ⟨inv.invalidate may invalidated, ?_⟩
    intro still
    have inLedger : cstr path ∈ db'.ledger.valid := still
    rw [invalidated.ledger] at inLedger
    exact inLedger.2 rfl
  · intro e db' same
    rw [same]
    exact { inv with }

theorem queryPathInfo_valid {db : Db} {nixStore : Path} {info : ValidPathInfo}
    (ok : db.queryPathInfo nixStore path = .ok info) : db.Valid (cstr path) := by
  simp only [queryPathInfo, assertStorePath] at ok
  split at ok
  · cases query : db.stmtQueryPathInfo path with
    | none => rw [query] at ok; cases ok
    | some row =>
      obtain ⟨found, named⟩ := stmtQueryPathInfo_eq_some.mp query
      exact named ▸ valid_of_mem found
  · cases ok

theorem deletePathRecursive_inv (sound : policy.Sound cfg start.db) (fuel : Nat) (path : Path)
    (s : State) (inv : Inv cfg policy start s) (entry : isAbove cfg path = false)
    (may : policy.may (cstr path)) :
    wp (deletePathRecursive cfg fuel path)
      (fun _ s' => Inv cfg policy start s' ∧ ¬ s'.db.Valid (cstr path))
      (fun _ s' => Inv cfg policy start s') s := by
  induction fuel generalizing path s with
  | zero => exact inv
  | succ fuel ih =>
    simp only [deletePathRecursive, wp_bind, wp_checkInterrupt, wp_get, wp_ite, wp_query,
      isValidPath_iff]
    refine ⟨fun _ => inv.later, fun _ => ⟨fun _ => ⟨?_, fun _ _ => inv.later⟩, fun invalid => ?_⟩⟩
    · intro referrers asked
      -- the referrers are deleted first; they may be deleted if `path` may
      refine wp_imp (Preserves.forM referrers _ inv.later ?_) ?_
      · intro i listed s1 inv1
        simp only [wp_ite, wp_pure]
        refine ⟨fun _ => ?_, fun _ => inv1⟩
        have refers := (queryReferrers_ok asked i).mp listed
        have refers0 := (inv.shrinks.refers_iff.mp refers).1
        have text : cstr i = i := cstr_eq_self refers0.left_valid.noNul
        refine wp_imp (ih i s1 inv1 (sound.entries i refers0.left_valid) ?_)
          (fun _ _ holds => holds.1)
        rw [text]
        exact sound.referrers _ i may refers0
      · intro _ s1 inv1
        refine ⟨fun info asked => ?_, fun _ _ => inv1⟩
        refine wp_imp (invalidate_inv inv1 may (queryPathInfo_valid asked)) ?_
        rintro _ s2 ⟨inv2, invalid⟩
        refine wp_mono (deleteFromDisk_inv inv2
          ⟨entry, may, fun valid => absurd valid invalid⟩ info.narSize) ?_ (fun _ _ failed => failed.1)
        intro _ s3 same
        exact ⟨same.1, by rw [same.2]; exact invalid⟩
    · refine wp_mono (deleteFromDisk_inv inv.later
        ⟨entry, may, fun valid => absurd valid invalid⟩ 0) ?_ (fun _ _ failed => failed.1)
      intro _ s1 same
      exact ⟨same.1, by rw [same.2]; exact invalid⟩

/-! ### Runs -/

/-- The path of an entry that `readdir` returned. -/
def entryPath (cfg : Config) (name : Bytes) : Path := cfg.nixStore ++ ascii "/" ++ name

/-- The paths that a run asks about: the entries of the store, or the paths to delete. -/
def Considered (cfg : Config) (path : Path) : Prop :=
  (∃ name ∈ cfg.os.readdir, name ≠ ascii "." ∧ name ≠ ascii ".." ∧ path = entryPath cfg name) ∨
    (cfg.options.action = .gcDeleteSpecific ∧ path ∈ cfg.options.pathsToDelete)

/-- The answer about `path` obeys the policy, whatever the caches hold. -/
def Decides (cfg : Config) (policy : Policy) (start : State) (path : Path) : Prop :=
  ∀ s, Inv cfg policy start s →
    wp (canReachRoot cfg cfg.fuel ∅ path)
      (fun answer s' => Same cfg policy start s s' ∧ policy.answer s.db path answer.1 ∧
        (answer.1 = false → policy.may (cstr path) ∧ ∀ p ∈ answer.2, policy.may p))
      (fun _ s' => Inv cfg policy start s') s

/-- What a proof about runs has to show about its policy. -/
structure Runs (cfg : Config) (policy : Policy) (start : State) : Prop where
  sound : policy.Sound cfg start.db
  entries : ∀ path, Considered cfg path → isAbove cfg path = false
  decides : ∀ path, Considered cfg path → Decides cfg policy start path

theorem entryPath_text (cfg : Config) (listed : name ∈ cfg.os.readdir) :
    cstr (entryPath cfg name) = entryPath cfg name := by
  apply cstr_eq_self
  have noNul := (cfg.os.readdir_name name listed).2.1
  have storeText := cfg.settings.nixStore_text
  simp [entryPath, Config.nixStore, noNul, storeText, ascii]

theorem nameOf_entryPath (cfg : Config) (listed : name ∈ cfg.os.readdir) :
    nameOf cfg (entryPath cfg name) = name := by
  rw [nameOf, entryPath_text cfg listed, entryPath]
  have length : cfg.nixStore.length + 1 = (cfg.nixStore ++ ascii "/").length := by
    simp [ascii]
  rw [length, drop_left]

theorem isAbove_entryPath (cfg : Config) (listed : name ∈ cfg.os.readdir) (notDot : name ≠ ascii ".")
    (notDots : name ≠ ascii "..") :
    isAbove cfg (entryPath cfg name) = false := by
  have nonempty := (cfg.os.readdir_name name listed).1
  simp [isAbove, nameOf_entryPath cfg listed, nonempty, notDot, notDots]

theorem trashDir_text (cfg : Config) : cstr cfg.trashDir = cfg.trashDir := by
  apply cstr_eq_self
  have storeText := cfg.settings.nixStore_text
  simp [Config.trashDir, Config.nixStore, storeText, ascii]

theorem trash_removable (runs : Runs cfg policy start) (s : State) :
    Removable cfg policy s cfg.trashDir := by
  refine ⟨?_, ?_, fun _ => trashDir_text cfg⟩
  · have name : nameOf cfg cfg.trashDir = ascii "trash" := by
      rw [nameOf, trashDir_text, Config.trashDir]
      simp [ascii]
    rw [isAbove, name]
    decide
  · rw [trashDir_text]
    exact runs.sound.trash

variable (runs : Runs cfg policy start) (inv : Inv cfg policy start s)
include runs inv

theorem tryToDelete_inv (considered : Considered cfg path) :
    Preserves (tryToDelete cfg path) (Inv cfg policy start) s := by
  simp only [tryToDelete, wp_bind, wp_checkInterrupt, wp_get, wp_ite, wp_pure]
  refine ⟨fun _ => inv.later, fun _ => ⟨fun _ => inv.later, fun _ => ⟨fun _ => inv.later, fun _ => ?_⟩⟩⟩
  refine wp_imp (runs.decides path considered s.later inv.later) ?_
  intro answer s1 decided
  obtain ⟨found, visited⟩ := answer
  obtain ⟨⟨inv1, same⟩, right, unreachable⟩ := decided
  have inv2 := inv1.logged (.answered path found) (same ▸ right) (by simp)
  refine ⟨fun _ => inv2, fun notFound => ?_⟩
  obtain ⟨may, mayAll⟩ := unreachable (by simpa using notFound)
  have inv3 := inv2.markDead mayAll
  refine ⟨fun _ => ?_, fun _ => inv3⟩
  exact wp_imp (deletePathRecursive_inv runs.sound cfg.fuel path _ inv3
    (runs.entries path considered) may) (fun _ _ holds => holds.1)

theorem readStore_inv (names : List Bytes) (listed : ∀ name ∈ names, name ∈ cfg.os.readdir)
    (entries : List Path) (considered : ∀ path ∈ entries, Considered cfg path) :
    wp (readStore cfg names entries)
      (fun entries' s' => Inv cfg policy start s' ∧ ∀ path ∈ entries', Considered cfg path)
      (fun _ => Inv cfg policy start) s := by
  induction names generalizing entries s with
  | nil => exact ⟨inv, considered⟩
  | cons name rest ih =>
    have listedRest : ∀ name ∈ rest, name ∈ cfg.os.readdir :=
      (forall_mem_cons.mp listed).2
    simp only [readStore, wp_bind, wp_checkInterrupt, wp_get, wp_ite]
    refine ⟨fun _ => inv.later, fun _ => ⟨fun _ => ?_, fun proper => ⟨fun _ => ?_, fun _ => ?_⟩⟩⟩
    · exact ih inv.later listedRest entries considered
    all_goals
      have isEntry : Considered cfg (entryPath cfg name) :=
        .inl ⟨name, listed name mem_cons_self, fun dot => proper (.inl dot),
          fun dots => proper (.inr dots), rfl⟩
    · -- a valid path is looked at later
      apply ih inv.later listedRest _
      exact forall_mem_append.mpr ⟨considered, forall_mem_singleton.mpr isEntry⟩
    · refine wp_imp (tryToDelete_inv runs inv.later isEntry) ?_
      exact fun _ _ inv1 => ih inv1 listedRest entries considered

theorem collect_inv : Preserves (collect cfg) (Inv cfg policy start) s := by
  simp only [collect, wp_ite, wp_tryCatch, wp_pure, wp_throw]
  refine ⟨fun specific => ?_, fun _ => ⟨fun _ => ?_, fun _ => inv⟩⟩
  · refine Preserves.forM _ _ inv ?_
    intro path listed s1 inv1
    simp only [collectSpecific, wp_bind, wp_query, wp_get, wp_ite, wp_pure, wp_throw]
    refine ⟨fun _ _ => ?_, fun _ _ => inv1⟩
    refine wp_imp (tryToDelete_inv runs inv1 (.inr ⟨specific, listed⟩)) ?_
    intro _ s2 inv2
    exact ⟨fun _ => inv2, fun _ => inv2⟩
  · suffices dead : Preserves (collectDead cfg) (Inv cfg policy start) s from
      wp_mono dead (fun _ _ holds => holds) (fun _ _ holds => ⟨fun _ => holds, fun _ => holds⟩)
    simp only [collectDead, wp_bind, wp_syscall]
    split
    · exact inv.later
    · simp only [wp_bind]
      refine wp_imp (readStore_inv runs inv.later cfg.os.readdir (fun _ listed => listed) []
        (by simp)) ?_
      rintro entries s1 ⟨inv1, considered⟩
      refine Preserves.forM _ _ inv1 ?_
      intro path shuffled s2 inv2
      exact tryToDelete_inv runs inv2
        (considered path ((cfg.os.shuffle_perm entries).mem_iff.mp shuffled))

theorem prepareTrash_inv : Preserves (prepareTrash cfg) (Inv cfg policy start) s := by
  simp only [prepareTrash, wp_ite, wp_bind, wp_tryCatch, wp_pure]
  have create : ∀ s1, Inv cfg policy start s1 →
      wp (createTrash cfg) (fun _ => Inv cfg policy start)
        (fun e s2 => wp (trashFailed e) (fun _ => Inv cfg policy start)
          (fun _ => Inv cfg policy start) s2) s1 := by
    intro s1 inv1
    simp only [createTrash, wp_bind, wp_syscall]
    split
    · simp only [wp_throw, trashFailed]
      split
      · exact { inv1 with }
      · exact inv1.later
      · exact inv1.later
    · exact
        { inv1 with
          present := by
            intro p before
            rcases inv1.present p before with still | removed
            · exact .inl (mem_cons_of_mem _ still)
            · exact .inr removed }
  refine ⟨fun _ => ?_, fun _ => inv⟩
  simp only [clearTrash, wp_bind, wp_lstat]
  split
  · exact create _ inv.later
  · exact create _ inv.later
  · exact inv.later
  · refine wp_mono (deleteGarbage_inv inv.later (trash_removable runs s.later)) ?_
      (fun _ _ failed => failed.1)
    intro _ s1 same
    exact create s1 same.1

theorem finish_inv : Preserves (finish cfg) (Inv cfg policy start) s := by
  unfold finish
  split
  · exact { inv with }
  · exact { inv with }
  all_goals
    exact wp_mono (deleteGarbage_inv inv (trash_removable runs s)) (fun _ _ same => same.1)
      (fun _ _ same => same.1)

/-- Every run keeps the invariant, also one that throws. -/
theorem collectGarbage_inv : Preserves (collectGarbage cfg) (Inv cfg policy start) s := by
  simp only [collectGarbage, wp_bind]
  refine wp_imp (prepareTrash_inv runs inv) ?_
  intro _ s1 inv1
  refine wp_imp (collect_inv runs inv1) ?_
  intro _ s2 inv2
  exact finish_inv runs inv2

omit runs inv in
theorem Inv.init (cfg : Config) (policy : Policy) (start : State) (aliveEmpty : start.alive = ∅)
    (deadEmpty : start.dead = ∅) (logEmpty : start.log = []) : Inv cfg policy start start where
  shrinks := .refl start.db
  kept _ found _ := found
  alive := by simp [aliveEmpty]
  dead := by simp [deadEmpty]
  log := by simp [logEmpty]
  snapshots := by simp [logEmpty]
  ledger := by simp [logEmpty, replay]
  present _ before := .inl before

end Gc

end Guix.LibStore
