import Guix.LibStore.GcCorrectness

/-!
# Completeness of the collector

When system calls do not fail, a run that does not stop at the limit removes every
entry that is not alive. The recursion ends since references have no cycles.
-/

namespace Guix.LibStore

open List Graph Db

namespace Gc

open Hoare Relation

variable {cfg : Config} {start s : State} {path : Path}

/-! ### Deletions succeed -/

/-- System calls do not fail, nobody interrupts, and the trash directory is a directory. -/
structure Reliable (cfg : Config) : Prop where
  failure : ∀ n, cfg.os.failure n = none
  interrupted : ∀ n, cfg.os.interrupted n = false
  trash : cfg.os.isDir cfg.trashDir = true

/-- The run stops because of `maxFreed`. -/
structure Limited (cfg : Config) (e : Error) (s : State) : Prop where
  error : e = .GCLimitReached
  logged : ∃ db, (Event.limitReached, db) ∈ s.log
  trash : cfg.trashDir ∈ s.disk

/-- What removing `path` from the disk does. -/
structure Erased (cfg : Config) (path : Path) (s s' : State) : Prop where
  db : s'.db = s.db
  moves : s'.moveToTrash = s.moveToTrash
  disk : ∀ p ∈ s'.disk, p ∈ s.disk
  trash : cfg.trashDir ∈ s'.disk
  erased : path ≠ cfg.trashDir → path ∉ s'.disk

theorem Reliable.wp_checkInterrupt (reliable : Reliable cfg) (fails : Error → State → Prop)
    (post : PUnit → State → Prop) : wp (checkInterrupt cfg) post fails s ↔ post ⟨⟩ s.later := by
  simp [reliable.interrupted]

section Erase

variable (reliable : Reliable cfg) (entry : isAbove cfg path = false) (text : cstr path = path)
include reliable entry text

theorem deleteGarbage_erases (there : path ∈ s.disk) :
    wp (deleteGarbage cfg path)
      (fun _ s' => s'.db = s.db ∧ s'.moveToTrash = s.moveToTrash ∧
        s'.disk = s.disk.filter (· ≠ path) ∧ ∀ entry ∈ s.log, entry ∈ s'.log)
      (fun _ _ => False) s := by
  simp only [deleteGarbage, deletePath, deleteEntry, wp_bind, wp_get, wp_ite, wp_modify, wp_throw,
    reliable.wp_checkInterrupt, wp_syscall, entry, text, there, reliable.failure, Bool.false_eq_true,
    false_implies, true_and, not_false_eq_true, true_implies, not_true_eq_false, and_true,
    wp_removeEntry]
  exact ⟨rfl, rfl, rfl, fun _ logged => mem_cons_of_mem _ logged⟩

theorem moveToTrash_erases (there : path ∈ s.disk) (trash : cfg.trashDir ∈ s.disk) (size : Nat) :
    wp (moveToTrash cfg path size) (fun _ s' => Erased cfg path s s') (fun _ _ => False) s := by
  simp only [moveToTrash, renameToTrash, wp_bind, wp_syscall, wp_get, reliable.failure, entry, text,
    wp_ite, wp_pure, Bool.false_eq_true, false_implies, true_and, not_false_eq_true, true_implies,
    wp_removeEntry, wp_modify]
  refine ⟨fun isTrash => ?_, fun notTrash => ⟨fun _ => ?_, fun absent => ?_⟩⟩
  · -- `rename` fails on the trash directory itself, which is ignored
    simp only [reduceCtorEq, or_self, false_implies, not_false_eq_true, true_implies, true_and]
    exact ⟨rfl, rfl, fun _ kept => kept, trash, fun notTrash => absurd isTrash notTrash⟩
  · refine ⟨rfl, rfl, fun p kept => (mem_filter.mp kept).1, ?_, ?_⟩
    · exact mem_filter.mpr ⟨trash, by simpa using Ne.symm notTrash⟩
    · intro _ kept
      simpa using (mem_filter.mp kept).2
  · exact absurd ⟨there, trash⟩ absent

omit reliable entry text in
theorem checkLimit_erased {s0 : State} (erased : Erased cfg path s0 s) :
    wp (checkLimit cfg) (fun _ s' => Erased cfg path s0 s') (Limited cfg) s := by
  simp only [checkLimit, wp_bind, wp_get, wp_ite, wp_log, wp_throw, wp_pure]
  exact ⟨fun _ => ⟨rfl, ⟨s.db, mem_cons_self⟩, erased.trash⟩, fun _ => erased⟩

theorem deleteFromDisk_erases (trash : cfg.trashDir ∈ s.disk) (moves : s.moveToTrash = true) (size : Nat) :
    wp (deleteFromDisk cfg path size) (fun _ s' => Erased cfg path s s') (Limited cfg) s := by
  simp only [deleteFromDisk, wp_bind, wp_lstat]
  have status : statusOf cfg s path =
      if path ∈ s.disk then .ok (cfg.os.isDir path) else .error .ENOENT := by
    simp [statusOf, reliable.failure, entry, text]
  rw [status]
  by_cases there : path ∈ s.disk
  · simp only [there, if_true, wp_bind, wp_modify, wp_get, wp_ite]
    refine ⟨fun _ => ?_, fun notMoved => ?_⟩
    · refine wp_mono (moveToTrash_erases (s := { s.later with paths := insert path s.paths })
        reliable entry text there trash size) ?_ (by simp)
      intro _ s1 erased
      exact checkLimit_erased { erased with }
    · refine wp_mono (deleteGarbage_erases (s := { s.later with paths := insert path s.paths })
        reliable entry text there) ?_ (by simp)
      rintro _ s1 ⟨db, moves', disk, _⟩
      have notTrash : path ≠ cfg.trashDir := by
        intro isTrash
        exact notMoved ⟨moves, by rw [isTrash, reliable.trash]⟩
      apply checkLimit_erased
      refine ⟨db, moves', ?_, ?_, ?_⟩
      all_goals rw [disk]
      · exact fun p kept => (mem_filter.mp kept).1
      · exact mem_filter.mpr ⟨trash, by simpa using Ne.symm notTrash⟩
      · intro _ kept
        simpa using (mem_filter.mp kept).2
  · simp only [there, if_false, wp_pure]
    exact ⟨rfl, rfl, fun _ kept => kept, trash, fun _ => there⟩

end Erase

theorem invalidate_succeeds (collectable : s.db.Collectable cfg.nixStore) (text : cstr path = path)
    (valid : s.db.Valid path) (unreferred : ∀ a, s.db.Refers a path → a = path) :
    wp (invalidate cfg path)
      (fun _ s' => Invalidated path s.db s'.db ∧ s'.disk = s.disk ∧ s'.moveToTrash = s.moveToTrash)
      (fun _ _ => False) s := by
  obtain ⟨row, found, named⟩ := valid.exists_row
  have storePath : isStorePath cfg.nixStore path = true := named ▸ collectable.storePath row found
  have noReferrers : (s.db.queryReferrers_ path).filter (· ≠ path) = [] := by
    apply filter_eq_nil_iff.mpr
    intro a listed
    have refers := (mem_queryReferrers_ s.db a path).mp listed
    rw [text] at refers
    simp [unreferred a refers]
  obtain ⟨db', deleted⟩ := deleteRow_ok found (named.symm ▸ unreferred)
  have statement : s.db.stmtInvalidatePath path = .ok db' := by
    rw [stmtInvalidatePath, stmtQueryPathInfo_eq_some.mpr ⟨found, named.trans text.symm⟩]
    exact deleted
  have returns : wp (invalidatePathChecked cfg.nixStore path) (fun _ _ => True) (fun _ _ => False)
      s.db := by
    simp only [invalidatePathChecked, assertStorePath, storePath, invalidatePath, wp_bind,
      wp_ofExcept, wp_transaction, wp_get, wp_ite, wp_throw, wp_pure, wp_execute, if_true,
      noReferrers, isValidPath_iff, text, valid, statement]
    simp [Except.map]
  simp only [invalidate, wp_bind, wp_get, wp_focus, wp_modify]
  refine wp_both returns (invalidatePathChecked_spec cfg.nixStore path s.db) ?_
  intro _ db1 _ outcome
  exact ⟨outcome.1 (by rw [text]; exact valid), trivial, trivial⟩

/-- What holds between two deletions of a run that has not been stopped. -/
structure Progress (cfg : Config) (start s : State) : Prop where
  trash : cfg.trashDir ∈ s.disk
  moves : s.moveToTrash = true
  gone : ∀ p, start.db.Valid p → p ∈ s.disk → p ≠ cfg.trashDir → s.db.Valid p

/-- What deleting `path` and its referrers does. Only paths that refer to `path`,
directly or not, become invalid. -/
structure Deleted (cfg : Config) (start : State) (path : Path) (s s' : State) : Prop where
  progress : Progress cfg start s'
  shrinks : s.db.Shrinks s'.db
  disk : ∀ p ∈ s'.disk, p ∈ s.disk
  invalid : ¬ s'.db.Valid path
  erased : path ≠ cfg.trashDir → path ∉ s'.disk
  onlyReferrers : ∀ p, s.db.Valid p → ¬ s'.db.Valid p → ReflTransGen start.db.Refers p path

/-- The loop over the referrers of `path`, with those in `done` deleted. -/
structure DeletedReferrers (cfg : Config) (start : State) (path : Path) (done : List Path)
    (s s' : State) : Prop where
  inv : Inv cfg (liveness cfg start.db) start s'
  progress : Progress cfg start s'
  shrinks : s.db.Shrinks s'.db
  disk : ∀ p ∈ s'.disk, p ∈ s.disk
  invalid : ∀ i ∈ done, i ≠ path → ¬ s'.db.Valid i
  onlyReferrers : ∀ p, s.db.Valid p → ¬ s'.db.Valid p →
    ∃ i, i ≠ path ∧ start.db.Refers i path ∧ ReflTransGen start.db.Refers p i

theorem Erased.progress {s1 s2 : State} (progress : Progress cfg start s)
    (disk : s1.disk = s.disk) (moves : s1.moveToTrash = s.moveToTrash)
    (valid : ∀ p, s.db.Valid p → p ≠ path → s1.db.Valid p) (erased : Erased cfg path s1 s2) :
    Progress cfg start s2 where
  trash := erased.trash
  moves := erased.moves.trans (moves.trans progress.moves)
  gone p old there notTrash := by
    have before : p ∈ s.disk := disk ▸ erased.disk p there
    have other : p ≠ path := by
      intro same
      subst same
      exact erased.erased notTrash there
    rw [erased.db]
    exact valid p (progress.gone p old before notTrash) other

/-- The fuel that a deletion needs: the number of paths that refer to `path`. -/
noncomputable def referrersOf (db : Db) (path : Path) : Nat :=
  rank (fun p q => db.Refers q p) db.paths.toFinset path

theorem referrersOf_lt {db : Db} (acyclic : Acyclic db.Refers) {i path : Path} (other : i ≠ path)
    (refers : db.Refers i path) : referrersOf db i < referrersOf db path := by
  have inPaths : i ∈ db.paths := refers.left_valid
  exact acyclic.swap.rank_lt ⟨Ne.symm other, refers⟩ (by simpa using inPaths)

theorem referrersOf_le (db : Db) (path : Path) : referrersOf db path ≤ db.validPaths.length := by
  calc referrersOf db path ≤ db.paths.toFinset.card := rank_le_card _ _ _
    _ ≤ db.paths.length := toFinset_card_le _
    _ = db.validPaths.length := length_map _

theorem deletePathRecursive_deletes (proper : Proper cfg start.db)
    (collectable : start.db.Collectable cfg.nixStore) (reliable : Reliable cfg) (fuel : Nat)
    (path : Path) (s : State) (inv : Inv cfg (liveness cfg start.db) start s)
    (progress : Progress cfg start s) (entry : isAbove cfg path = false) (text : cstr path = path)
    (dead : ¬ Alive cfg.settings cfg.roots start.db path)
    (enough : referrersOf start.db path < fuel) :
    wp (deletePathRecursive cfg fuel path) (fun _ s' => Deleted cfg start path s s') (Limited cfg) s := by
  have sound := (runs_liveness start proper).sound
  induction fuel generalizing path s with
  | zero => exact absurd enough (Nat.not_lt_zero _)
  | succ fuel ih =>
    have collectable' := inv.shrinks.collectable collectable
    simp only [deletePathRecursive, wp_bind, reliable.wp_checkInterrupt, wp_get, wp_ite, wp_query,
      isValidPath_iff, text]
    refine ⟨fun valid => ⟨fun referrers asked => ?_, fun e failed => ?_⟩, fun invalid => ?_⟩
    · have listedIff := queryReferrers_ok asked
      rw [text] at listedIff
      refine wp_imp (wp_forM referrers _
        (fun done _ s1 => DeletedReferrers cfg start path done s.later s1) (Limited cfg) s.later ?_ ?_) ?_
      · exact ⟨inv.later, { progress with }, .refl _,
          fun _ there => there, by simp, fun _ valid noLonger => absurd valid noLonger⟩
      · intro done i todo s1 split loop
        simp only [wp_ite, wp_pure]
        have refers : start.db.Refers i path := by
          have listed : i ∈ referrers := by simp [split]
          exact (inv.shrinks.refers_iff.mp ((listedIff i).mp listed)).1
        refine ⟨fun other => ?_, fun self => ?_⟩
        · have text' : cstr i = i := cstr_eq_self refers.left_valid.noNul
          have dead' := sound.referrers path i dead refers
          have entry' := sound.entries i refers.left_valid
          have fewer := referrersOf_lt collectable.acyclic other refers
          refine wp_both (ih i s1 loop.inv loop.progress entry' text' dead' (by omega))
            (deletePathRecursive_inv sound fuel i s1 loop.inv entry' (by rw [text']; exact dead')) ?_
          rintro _ s2 deleted ⟨inv2, _⟩
          refine ⟨inv2, deleted.progress, loop.shrinks.trans deleted.shrinks, ?_, ?_, ?_⟩
          · intro p there
            exact loop.disk p (deleted.disk p there)
          · exact forall_mem_append.mpr
              ⟨fun j earlier different valid => loop.invalid j earlier different (deleted.shrinks.valid valid),
                forall_mem_singleton.mpr fun _ => deleted.invalid⟩
          · intro p valid noLonger
            by_cases before : s1.db.Valid p
            · exact ⟨i, other, refers, deleted.onlyReferrers p before noLonger⟩
            · exact loop.onlyReferrers p valid before
        · refine ⟨loop.inv, loop.progress, loop.shrinks, loop.disk, ?_, loop.onlyReferrers⟩
          exact forall_mem_append.mpr
            ⟨loop.invalid, forall_mem_singleton.mpr fun different => absurd different self⟩
      · intro _ s1 loop
        have collectable1 := loop.inv.shrinks.collectable collectable
        -- `path` does not refer to its own referrers, so it has not been deleted
        have valid1 : s1.db.Valid path := by
          by_contra noLonger
          obtain ⟨i, other, refers, chain⟩ := loop.onlyReferrers path valid noLonger
          exact collectable.acyclic.no_return ⟨other, refers⟩ chain
        have unreferred : ∀ a, s1.db.Refers a path → a = path := by
          intro a refers
          by_contra different
          have listed := (listedIff a).mpr (loop.shrinks.refers_iff.mp refers).1
          exact loop.invalid a listed different refers.left_valid
        refine ⟨fun info _ => ?_, fun e failed => ?_⟩
        · refine wp_mono (invalidate_succeeds collectable1 text valid1 unreferred) ?_ (by simp)
          rintro _ s2 ⟨invalidated, disk2, moves2⟩
          obtain ⟨row, found, named, deletedRow⟩ := invalidated.deleted
          have valid2 := (deleteRow_graph found deletedRow).1
          rw [named, text] at valid2
          refine wp_imp (deleteFromDisk_erases reliable entry text (disk2 ▸ loop.progress.trash)
            (moves2.trans loop.progress.moves) info.narSize) ?_
          intro _ s3 erased
          refine ⟨erased.progress loop.progress disk2 moves2
            (fun p valid other => (valid2 p).mpr ⟨valid, other⟩), ?_, ?_, ?_, erased.erased, ?_⟩
          · rw [erased.db]
            exact loop.shrinks.trans (Db.Shrinks.of_deleteRow deletedRow)
          · intro p there
            exact loop.disk p (disk2 ▸ erased.disk p there)
          · rw [erased.db, valid2]
            exact fun still => still.2 rfl
          · intro p valid noLonger
            rw [erased.db, valid2, not_and, not_not] at noLonger
            by_cases before : s1.db.Valid p
            · rw [noLonger before]
            · obtain ⟨i, _, refers, chain⟩ := loop.onlyReferrers p valid before
              exact chain.tail refers
        · obtain ⟨info, asked⟩ := queryPathInfo_returns collectable1.readable text valid1
          rw [asked] at failed
          cases failed
    · obtain ⟨referrers, asked⟩ := queryReferrers_returns collectable'.readable valid
      have failed : s.db.queryReferrers cfg.nixStore path = .error e := failed
      rw [asked] at failed
      cases failed
    · refine wp_imp (deleteFromDisk_erases (s := s.later) reliable entry text progress.trash
        progress.moves 0) ?_
      intro _ s1 erased
      have same : ∀ p, s.db.Valid p → p ≠ path → s.later.db.Valid p := fun _ valid _ => valid
      refine ⟨erased.progress progress (by rfl) (by rfl) same, ?_, erased.disk, ?_, erased.erased, ?_⟩
      · rw [erased.db]
        exact .refl _
      · rw [erased.db]
        exact invalid
      · intro p valid noLonger
        rw [erased.db] at noLonger
        exact absurd valid noLonger

/-! ### A run removes what is not alive -/

/-- The entries that a run should remove. -/
structure Doomed (cfg : Config) (db : Db) (path : Path) : Prop where
  dead : ¬ Alive cfg.settings cfg.roots db path
  notLinks : path ≠ cfg.linksDir
  notTrash : path ≠ cfg.trashDir
  notActive : ¬ (¬ db.Valid path ∧ isActive cfg path = true)

/-- What a complete run needs. -/
structure Complete (cfg : Config) (db : Db) : Prop where
  proper : Proper cfg db
  collectable : db.Collectable cfg.nixStore
  reliable : Reliable cfg
  deletes : cfg.options.action = .gcDeleteDead
  unlimited : 0 < cfg.options.maxFreed
  enough : db.validPaths.length < cfg.fuel

/-- What holds after some of the deletions of a run. -/
structure Swept (cfg : Config) (start s s' : State) : Prop where
  inv : Inv cfg (liveness cfg start.db) start s'
  progress : Progress cfg start s'
  disk : ∀ p ∈ s'.disk, p ∈ s.disk

theorem Swept.trans {s1 s2 : State} (first : Swept cfg start s s1) (second : Swept cfg start s1 s2) :
    Swept cfg start s s2 :=
  ⟨second.inv, second.progress, fun p there => first.disk p (second.disk p there)⟩

theorem shouldDelete_of_dead (deletes : cfg.options.action = .gcDeleteDead) :
    cfg.shouldDelete = true := by
  simp [Config.shouldDelete, deletes]

section Sweep

variable (inv : Inv cfg (liveness cfg start.db) start s) (progress : Progress cfg start s)
include inv progress

theorem Swept.refl : Swept cfg start s s := ⟨inv, progress, fun _ there => there⟩

theorem Swept.later : Swept cfg start s s.later := ⟨inv.later, { progress with }, fun _ there => there⟩

variable (complete : Complete cfg start.db)
include complete

theorem tryToDelete_sweeps (considered : Considered cfg path) :
    wp (tryToDelete cfg path)
      (fun _ s' => Progress cfg start s' ∧ (∀ p ∈ s'.disk, p ∈ s.disk) ∧
        (Doomed cfg start.db path → path ∉ s'.disk))
      (Limited cfg) s := by
  obtain ⟨entry, text⟩ := considered.entry complete.proper
  have respected := complete.proper.respected
  have shouldDelete := shouldDelete_of_dead complete.deletes
  simp only [tryToDelete, wp_bind, complete.reliable.wp_checkInterrupt, wp_get, wp_ite, wp_pure,
    isValidPath_iff, text]
  have later := (Swept.later inv progress).progress
  refine ⟨fun special => ⟨later, fun _ there => there, fun doomed => ?_⟩,
    fun _ => ⟨fun active => ⟨later, fun _ there => there, fun doomed there => ?_⟩, fun _ => ?_⟩⟩
  · rcases special with links | trash
    · exact absurd links doomed.notLinks
    · exact absurd trash doomed.notTrash
  · -- it was valid at the start, and has been deleted since
    by_cases old : start.db.Valid path
    · exact active.1 (progress.gone path old there doomed.notTrash)
    · exact doomed.notActive ⟨old, active.2⟩
  · have visits : unvisited s.later.db ∅ < cfg.fuel :=
      Nat.lt_of_le_of_lt (unvisited_empty_le inv.later) complete.enough
    have collectable : s.later.db.Collectable cfg.nixStore :=
      inv.shrinks.collectable complete.collectable
    have searches := canReachRoot_searches respected cfg.fuel ∅ path s.later inv.later text
    have decides := decides_liveness respected text s.later inv.later
    refine wp_mono (wp_and searches decides) ?_
      (fun _ _ failed => absurd (failed.1.starved collectable) visits.not_ge)
    rintro ⟨found, visited⟩ s1 ⟨searched, ⟨inv1, _⟩, right, unreachable⟩
    obtain ⟨alive, rfl⟩ := searched.same
    refine ⟨fun isFound => ⟨{ progress with }, fun _ there => there,
      fun doomed => ?_⟩, fun notFound => ?_⟩
    · exact absurd (right.1.mp isFound) doomed.dead
    · simp only [shouldDelete, wp_modify, true_implies, not_true_eq_false, false_implies, and_true]
      obtain ⟨dead, mayAll⟩ := unreachable (by simpa using notFound)
      rw [text] at dead
      have inv2 := (inv1.logged (.answered path found) right (by simp)).markDead mayAll
      refine wp_imp (deletePathRecursive_deletes complete.proper complete.collectable
        complete.reliable cfg.fuel path _ inv2 { progress with } entry
        text dead (Nat.lt_of_le_of_lt (referrersOf_le start.db path) complete.enough)) ?_
      intro _ s3 deleted
      exact ⟨deleted.progress, deleted.disk, fun doomed => deleted.erased doomed.notTrash⟩

theorem tryToDelete_swept (considered : Considered cfg path) :
    wp (tryToDelete cfg path)
      (fun _ s' => Swept cfg start s s' ∧ (Doomed cfg start.db path → path ∉ s'.disk)) (Limited cfg) s := by
  refine wp_both (tryToDelete_sweeps inv progress complete considered)
    (tryToDelete_inv (runs_liveness start complete.proper) inv considered) ?_
  rintro _ s' ⟨progress', disk, erased⟩ inv'
  exact ⟨⟨inv', progress', disk⟩, erased⟩

theorem readStore_swept {names : List Bytes} (listed : ∀ name ∈ names, name ∈ cfg.os.readdir)
    (entries : List Path) :
    wp (readStore cfg names entries)
      (fun entries' s' => Swept cfg start s s' ∧ (∀ p ∈ entries, p ∈ entries') ∧
        ∀ name ∈ names, name ≠ ascii "." → name ≠ ascii ".." →
          entryPath cfg name ∈ entries' ∨
            (Doomed cfg start.db (entryPath cfg name) → entryPath cfg name ∉ s'.disk))
      (Limited cfg) s := by
  induction names generalizing entries s with
  | nil => exact ⟨.refl inv progress, fun _ there => there, by simp⟩
  | cons name rest ih =>
    obtain ⟨isListed, listedRest⟩ := forall_mem_cons.mp listed
    have later := Swept.later inv progress
    simp only [readStore, wp_bind, complete.reliable.wp_checkInterrupt, wp_get, wp_ite]
    refine ⟨fun dots => ?_, fun proper => ⟨fun _ => ?_, fun _ => ?_⟩⟩
    · refine wp_imp (ih later.inv later.progress listedRest entries) ?_
      intro entries' s' swept
      refine ⟨later.trans swept.1, swept.2.1, ?_⟩
      exact forall_mem_cons.mpr
        ⟨fun notDot notDots => absurd dots (by simp [notDot, notDots]), swept.2.2⟩
    · refine wp_imp (ih later.inv later.progress listedRest _) ?_
      intro entries' s' swept
      refine ⟨later.trans swept.1, fun p there => swept.2.1 p (mem_append_left _ there), ?_⟩
      exact forall_mem_cons.mpr
        ⟨fun _ _ => .inl (swept.2.1 _ (mem_append_right _ (mem_singleton_self _))), swept.2.2⟩
    · have considered : Considered cfg (entryPath cfg name) :=
        .inl ⟨name, isListed, fun dot => proper (.inl dot), fun dots => proper (.inr dots), rfl⟩
      refine wp_imp (tryToDelete_swept later.inv later.progress complete considered) ?_
      intro _ s1 tried
      refine wp_imp (ih tried.1.inv tried.1.progress listedRest entries) ?_
      intro entries' s' swept
      refine ⟨later.trans (tried.1.trans swept.1), swept.2.1, ?_⟩
      exact forall_mem_cons.mpr
        ⟨fun _ _ => .inr fun doomed there => tried.2 doomed (swept.1.disk _ there), swept.2.2⟩

theorem collectDead_swept :
    wp (collectDead cfg)
      (fun _ s' => Swept cfg start s s' ∧
        ∀ name ∈ cfg.os.readdir, name ≠ ascii "." → name ≠ ascii ".." →
          Doomed cfg start.db (entryPath cfg name) → entryPath cfg name ∉ s'.disk)
      (Limited cfg) s := by
  have later := Swept.later inv progress
  simp only [collectDead, wp_bind, wp_syscall, complete.reliable.failure]
  have runs := runs_liveness start complete.proper
  refine wp_both
    (readStore_swept later.inv later.progress complete (fun _ there => there) [])
    (readStore_inv runs later.inv cfg.os.readdir (fun _ there => there) [] (by simp)) ?_
  rintro entries s1 ⟨swept1, _, handled⟩ ⟨_, considered⟩
  refine wp_imp (wp_forM (cfg.os.random_shuffle entries) (tryToDelete cfg)
    (fun done _ s2 => Swept cfg start s1 s2 ∧ ∀ p ∈ done, Doomed cfg start.db p → p ∉ s2.disk)
    (Limited cfg) s1 ⟨.refl swept1.inv swept1.progress, by simp⟩ ?_) ?_
  · intro done path todo s2 split holds
    have inEntries : path ∈ entries :=
      (cfg.os.shuffle_perm entries).mem_iff.mp (by simp [split])
    refine wp_imp (tryToDelete_swept holds.1.inv holds.1.progress complete
      (considered path inEntries)) ?_
    intro _ s3 tried
    refine ⟨holds.1.trans tried.1, ?_⟩
    exact forall_mem_append.mpr
      ⟨fun p earlier doomed there => holds.2 p earlier doomed (tried.1.disk p there),
        forall_mem_singleton.mpr tried.2⟩
  · intro _ s2 holds
    refine ⟨later.trans (swept1.trans holds.1), ?_⟩
    intro name listed notDot notDots doomed there
    rcases handled name listed notDot notDots with valid | erased
    · exact holds.2 _ ((cfg.os.shuffle_perm entries).mem_iff.mpr valid) doomed there
    · exact erased doomed (holds.1.disk _ there)

end Sweep

theorem prepareTrash_progress (complete : Complete cfg start.db) (moves : start.moveToTrash = true) :
    wp (prepareTrash cfg) (fun _ s' => Progress cfg start s') (fun _ _ => False) start := by
  have reliable := complete.reliable
  have entry := (trash_removable (runs_liveness start complete.proper) start).entry
  have text := trashDir_text cfg
  have create : ∀ s1 : State, s1.db = start.db → s1.moveToTrash = true →
      wp (createTrash cfg) (fun _ s' => Progress cfg start s')
        (fun e s2 => wp (trashFailed e) (fun _ s' => Progress cfg start s') (fun _ _ => False) s2)
        s1 := by
    intro s1 same moves1
    simp only [createTrash, wp_bind, wp_syscall, reliable.failure, wp_modify]
    refine ⟨mem_cons_self, moves1, ?_⟩
    intro p old _ _
    rw [State.later, same]
    exact old
  simp only [prepareTrash, shouldDelete_of_dead complete.deletes, if_true, wp_bind, wp_tryCatch,
    clearTrash, wp_lstat]
  have status : statusOf cfg start cfg.trashDir =
      if cfg.trashDir ∈ start.disk then .ok true else .error .ENOENT := by
    simp [statusOf, reliable.failure, entry, text, reliable.trash]
  rw [status]
  by_cases there : cfg.trashDir ∈ start.disk
  · simp only [there, if_true]
    refine wp_mono (deleteGarbage_erases (s := start.later) reliable entry text there) ?_ (by simp)
    intro _ s1 deleted
    exact create s1 deleted.1 (deleted.2.1.trans moves)
  · simp only [there, if_false, wp_pure]
    exact create _ rfl moves

/-- What `readdir` lists. -/
def Listed (cfg : Config) (disk : List Path) : Prop :=
  ∀ p ∈ disk, p ≠ cfg.trashDir → ∃ name ∈ cfg.os.readdir, name ≠ ascii "." ∧ name ≠ ascii ".." ∧
    p = entryPath cfg name

theorem collectGarbage_removes {start : State} (complete : Complete cfg start.db) (moves : start.moveToTrash = true)
    (init : Inv cfg (liveness cfg start.db) start start) (listed : Listed cfg start.disk) :
    wp (collectGarbage cfg)
      (fun _ s' => (∃ db, (Event.limitReached, db) ∈ s'.log) ∨
        ∀ p ∈ start.disk, Doomed cfg start.db p → p ∉ s'.disk)
      (fun _ _ => False) start := by
  have runs := runs_liveness start complete.proper
  have entry := (trash_removable runs start).entry
  simp only [collectGarbage, wp_bind]
  refine wp_both (prepareTrash_progress complete moves) (prepareTrash_inv runs init) ?_
  intro _ s1 progress inv
  simp only [collect, complete.deletes, complete.unlimited, reduceCtorEq, if_false, if_true,
    wp_tryCatch]
  -- the trash directory is deleted at the end of the run
  have finish : ∀ s2 : State, cfg.trashDir ∈ s2.disk →
      wp (finish cfg) (fun _ s' => (∀ p ∈ s'.disk, p ∈ s2.disk) ∧ ∀ entry ∈ s2.log, entry ∈ s'.log)
        (fun _ _ => False) s2 := by
    intro s2 trash
    simp only [Gc.finish, complete.deletes]
    refine wp_imp (deleteGarbage_erases complete.reliable entry (trashDir_text cfg) trash) ?_
    rintro _ s3 ⟨_, _, disk, logged⟩
    refine ⟨?_, logged⟩
    rw [disk]
    exact fun p there => (mem_filter.mp there).1
  refine wp_mono (collectDead_swept inv progress complete) ?_ ?_
  · rintro _ s2 ⟨swept, erased⟩
    refine wp_imp (finish s2 swept.progress.trash) ?_
    intro _ s3 finished
    refine .inr ?_
    intro p before doomed there
    obtain ⟨name, isListed, notDot, notDots, rfl⟩ := listed p before doomed.notTrash
    exact erased name isListed notDot notDots doomed (finished.1 _ there)
  · intro e s2 limited
    simp only [limited.error, if_true, wp_pure]
    refine wp_imp (finish s2 limited.trash) ?_
    intro _ s3 finished
    obtain ⟨db, logged⟩ := limited.logged
    exact .inl ⟨db, finished.2 _ logged⟩

/-! ### The collector as a whole -/

/-- What a run guarantees at its end, however it ends: nothing that is alive has been
invalidated or removed, and every answer was right. -/
structure Safe (cfg : Config) (start s : State) : Prop where
  invalidated : ∀ p db, (Event.invalidated p, db) ∈ s.log →
    ¬ Alive cfg.settings cfg.roots start.db p
  removed : ∀ p db, (Event.removed p, db) ∈ s.log → ¬ Alive cfg.settings cfg.roots start.db p
  valid : ∀ p, start.db.Valid p → Alive cfg.settings cfg.roots start.db p → s.db.Valid p
  disk : ∀ p ∈ start.disk, Alive cfg.settings cfg.roots start.db p → p ∈ s.disk
  answered : ∀ p found db, (Event.answered p found, db) ∈ s.log →
    RightAnswer cfg start.db db p found

theorem Inv.safe (inv : Inv cfg (liveness cfg start.db) start s) : Safe cfg start s where
  invalidated _ _ logged := (inv.log _ logged).1
  removed _ _ logged := (inv.log _ logged).1
  valid _ valid alive := inv.valid_of_alive valid alive
  disk p before alive := by
    rcases inv.present p before with still | ⟨db, removed⟩
    · exact still
    · exact absurd alive (inv.log _ removed).1
  answered _ _ _ logged := inv.log _ logged

/-- A run keeps what is alive, whether it returns or throws, and removes the rest if
nothing keeps it from doing so. -/
theorem collectGarbage_removes_dead_only (cfg : Config) (db : Db) (disk : List Path)
    (proper : Proper cfg db) :
    wp (collectGarbage cfg) (fun _ => Safe cfg { db, disk }) (fun _ => Safe cfg { db, disk })
      { db, disk } ∧
    (Complete cfg db → Listed cfg disk →
      wp (collectGarbage cfg)
        (fun _ s => (∃ db', (Event.limitReached, db') ∈ s.log) ∨
          ∀ p ∈ disk, Doomed cfg db p → p ∉ s.disk)
        (fun _ _ => False) { db, disk }) := by
  constructor
  · exact wp_mono (collectGarbage_live cfg db disk proper) (fun _ _ inv => inv.safe)
      (fun _ _ inv => inv.safe)
  · intro complete listed
    exact collectGarbage_removes complete rfl (Inv.init _ _ _ rfl rfl rfl) listed

/-! ### Two runs -/

/-- Nothing fails, and `readdir` lists these names. -/
def quietOs (names : List Bytes) (proper : ∀ name ∈ names, name ≠ [] ∧ 0 ∉ name ∧ slash ∉ name) :
    Os where
  failure _ := none
  interrupted _ := false
  bytesFreed _ := 0
  isDir path := decide (path = ascii "/s/trash")
  readdir := names
  random_shuffle entries := entries
  readdir_name := proper
  shuffle_perm _ := List.Perm.refl _

def smallSettings : Settings where
  nixStore := ascii "/s"
  gcKeepOutputs := true
  gcKeepDerivations := true
  nixStore_text := by decide
  nixStore_absolute := by decide

def zeroSha256 : Hash := ⟨.sha256, List.replicate 32 0, by decide⟩

/-- A store with `/s/b` and `/s/a`, of which the first refers to the second. -/
def smallDb : Db :=
  match registerValidPaths (ascii "/s") ⟨1, fun _ => .ok [], fun _ _ => .ok ⟨⟩⟩
    [{ path := ascii "/s/b", hash := zeroSha256, references := [ascii "/s/a"] },
     { path := ascii "/s/a", hash := zeroSha256 }] empty with
  | .ok _ db | .error _ db => db

/-- The path to delete is a root, followed by a NUL byte. -/
def nulRun : Config where
  settings := smallSettings
  options := { action := .gcDeleteSpecific, pathsToDelete := [ascii "/s/b" ++ [0]] }
  permanentRoots := {ascii "/s/b"}
  tempRoots := ∅
  os := quietOs [] (by simp)
  fuel := 9

def smallStart : State := { db := smallDb, disk := [ascii "/s/b", ascii "/s/a"] }

/-- The path up to the NUL byte is not found among the roots, but it is what the
database and the file system are asked about: a root is invalidated and removed. -/
theorem collectGarbage_deletes_root :
    nulRun.options.ignoreLiveness = false ∧
    Alive nulRun.settings nulRun.roots smallDb (ascii "/s/b") ∧
    wp (collectGarbage nulRun)
      (fun _ s => ¬ s.db.Valid (ascii "/s/b") ∧ ascii "/s/b" ∉ s.disk ∧ ¬ Safe nulRun smallStart s)
      (fun _ _ => False) smallStart := by
  have alive : Alive nulRun.settings nulRun.roots smallDb (ascii "/s/b") :=
    ⟨ascii "/s/b", by decide, .refl⟩
  refine ⟨rfl, alive, ?_⟩
  have runs : (match collectGarbage nulRun smallStart with
      | .ok _ s => decide (¬ s.db.Valid (ascii "/s/b") ∧ ascii "/s/b" ∉ s.disk)
      | .error _ _ => false) = true := by decide +kernel
  simp only [wp]
  cases outcome : collectGarbage nulRun smallStart with
  | ok _ s =>
    simp only [outcome, decide_eq_true_eq] at runs
    refine ⟨runs.1, runs.2, ?_⟩
    intro safe
    have before : ascii "/s/b" ∈ smallStart.disk := by decide
    exact runs.2 (safe.disk _ before alive)
  | error e s =>
    simp only [outcome] at runs
    cases runs

/-- `/s/a` is a root; `/s/b` and the invalid `/s/c` are garbage. -/
def sweepingRun : Config where
  settings := smallSettings
  options := {}
  permanentRoots := {ascii "/s/a"}
  tempRoots := ∅
  os := quietOs [ascii ".", ascii "b", ascii "c", ascii "a"] (by decide)
  fuel := 9

theorem smallDb_refers {a b : Path} (refers : smallDb.Refers a b) :
    a = ascii "/s/b" ∧ b = ascii "/s/a" := by
  have rows : ∀ v ∈ smallDb.validPaths, ∀ w ∈ smallDb.validPaths, (v.id, w.id) ∈ smallDb.refs →
      v.path = ascii "/s/b" ∧ w.path = ascii "/s/a" := by decide +kernel
  obtain ⟨v, found, w, found', rfl, rfl, ref⟩ := refers
  exact rows v found w found' ref

theorem smallDb_collectable : smallDb.Collectable (ascii "/s") where
  storePath := by decide +kernel
  hash v found := by
    have parses : ∀ v ∈ smallDb.validPaths, (parseHashField v.path v.hash).map (fun _ => ()) = .ok () := by
      decide +kernel
    obtain ⟨hash, parsed, _⟩ := Fallible.map_ok.mp (parses v found)
    exact ⟨hash, parsed⟩
  acyclic a cycle := by
    obtain ⟨_, first, _⟩ := TransGen.head'_iff.mp cycle
    obtain ⟨_, _, last⟩ := TransGen.tail'_iff.mp cycle
    have isB := (smallDb_refers first.2).1
    have isA := (smallDb_refers last.2).2
    rw [isB] at isA
    exact absurd isA (by decide)

theorem not_alive_of_no_edge {db : Db} (notRoot : path ∉ cfg.roots)
    (noEdge : ∀ i, ¬ Incoming cfg.settings db path i) : ¬ Alive cfg.settings cfg.roots db path := by
  rintro ⟨root, isRoot, chain⟩
  rcases ReflTransGen.cases_head chain with rfl | ⟨i, edge, _⟩
  · exact notRoot isRoot
  · exact noEdge i edge

theorem sweepingRun_proper : Proper sweepingRun smallDb where
  respected := rfl
  valid p valid := by
    have entries : ∀ p ∈ smallDb.paths, isAbove sweepingRun p = false := by decide +kernel
    exact entries p valid
  toDelete specific := by cases specific
  trash := by
    have invalid : ¬ smallDb.Valid sweepingRun.trashDir := by decide +kernel
    exact not_alive_of_no_edge (by decide) fun i edge => invalid edge.valid

theorem sweepingRun_complete : Complete sweepingRun smallDb where
  proper := sweepingRun_proper
  collectable := smallDb_collectable
  reliable := ⟨fun _ => rfl, fun _ => rfl, by decide⟩
  deletes := rfl
  unlimited := by decide +kernel
  enough := by decide +kernel

theorem sweepingRun_listed : Listed sweepingRun [ascii "/s/c", ascii "/s/a"] := by
  intro p there _
  rcases mem_cons.mp there with isC | there
  · exact ⟨ascii "c", by decide, by decide, by decide, isC.trans (by decide)⟩
  · exact ⟨ascii "a", by decide, by decide, by decide, (mem_singleton.mp there).trans (by decide)⟩

theorem sweepingRun_doomed : Doomed sweepingRun smallDb (ascii "/s/c") where
  dead := by
    have invalid : ¬ smallDb.Valid (ascii "/s/c") := by decide +kernel
    exact not_alive_of_no_edge (by decide) fun i edge => invalid edge.valid
  notLinks := by decide
  notTrash := by decide
  notActive := by decide +kernel

-- Only the theorem is applied below: nothing should run the collector here.
attribute [local irreducible] wp

theorem collectGarbage_removes_dead_only_small :
    wp (collectGarbage sweepingRun)
      (fun _ s => Safe sweepingRun { db := smallDb, disk := [ascii "/s/c", ascii "/s/a"] } s ∧
        ((∃ db, (Event.limitReached, db) ∈ s.log) ∨
          ∀ p ∈ [ascii "/s/c", ascii "/s/a"], Doomed sweepingRun smallDb p → p ∉ s.disk))
      (fun _ _ => False) { db := smallDb, disk := [ascii "/s/c", ascii "/s/a"] } ∧
    Doomed sweepingRun smallDb (ascii "/s/c") ∧
    Alive sweepingRun.settings sweepingRun.roots smallDb (ascii "/s/a") := by
  have both := collectGarbage_removes_dead_only sweepingRun smallDb
    [ascii "/s/c", ascii "/s/a"] sweepingRun_proper
  have sweeps := both.2 sweepingRun_complete sweepingRun_listed
  refine ⟨?_, sweepingRun_doomed, ⟨ascii "/s/a", by decide, .refl⟩⟩
  exact wp_both sweeps both.1 fun _ _ swept safe => ⟨safe, swept⟩

end Gc

end Guix.LibStore
