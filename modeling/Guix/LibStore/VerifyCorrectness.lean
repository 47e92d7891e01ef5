import Guix.Lib.Closure
import Guix.LibStore.DatabaseQueries
import Guix.LibStore.Verify

/-!
# When verification completes

A path that is missing on disk can be invalidated after all its other referrers have
been. `verifyPath` takes care of referrers that are on disk, but not of missing ones that
stay registered: it keeps them out of `validPaths`, and so does not see that they are in
the way.
-/

namespace Guix.LibStore

open Hoare Closure Relation List VerifyState LibUtil Db

variable {cfg : VerifyConfig} {store : List Bytes} {db db' : Db} {path p q : Path}

/-- The file is in the store directory. -/
def Present (store : List Bytes) (path : Path) : Prop :=
  ∃ name ∈ store, baseNameOf path = .ok name

/-- A missing path all of whose other referrers can be invalidated before it. -/
inductive Removable (db : Db) (store : List Bytes) : Path → Prop
  | intro (path : Path) (missing : ¬ Present store path)
      (referrers : ∀ i, db.Refers i path → i ≠ path → Removable db store i) : Removable db store path

/-- A missing path that another path on disk refers to. -/
def Kept (db : Db) (store : List Bytes) (path : Path) : Prop :=
  ∃ i, db.Refers i path ∧ i ≠ path ∧ Present store i

def Settled (db : Db) (store : List Bytes) (path : Path) : Prop :=
  Present store path ∨ Kept db store path ∨ Removable db store path

/-- Every missing path is held by a path on disk directly, or by no path on disk at all. -/
def Db.Verifiable (db : Db) (store : List Bytes) : Prop := ∀ path, db.Valid path → Settled db store path

/-- `i` is another path that refers to `path`. -/
def Above (db : Db) (path i : Path) : Prop := db.Refers i path ∧ i ≠ path

section

variable (removable : Removable db store path)
include removable

theorem Removable.missing : ¬ Present store path := by
  cases removable with
  | intro _ isMissing _ => exact isMissing

theorem Removable.above (above : Above db path p) : Removable db store p := by
  cases removable with
  | intro _ _ referrers => exact referrers p above.1 above.2

theorem Removable.not_kept : ¬ Kept db store path := by
  rintro ⟨i, refers, other, present⟩
  exact (removable.above ⟨refers, other⟩).missing present

/-- Paths that refer to each other cannot be removed. -/
theorem Removable.acyclic : ¬ TransGen (Above db) path path := by
  induction removable with
  | intro path _ _ ih =>
    intro cycle
    obtain ⟨i, first, rest⟩ := TransGen.head'_iff.mp cycle
    exact ih i first.1 first.2 (.tail' rest first)

end

/-! ### Steps -/

@[simp] theorem wp_onDb {α : Type} (x : DbM α) (post : α → VerifyState → Prop)
    (fails : VerifyError → VerifyState → Prop) (s : VerifyState) :
    wp (onDb x) post fails s ↔ wp x (fun a db => post a { s with db })
      (fun e db => fails (.store e) { s with db }) s.db := by
  simp only [wp, onDb]
  cases x s.db <;> rfl

/-- What `invalidatePath` does: it fails if another path refers to the path. -/
theorem invalidatePath_exact {db : Db} (valid : db.Valid path) :
    wp (invalidatePath path)
      (fun _ db' => db.Shrinks db' ∧ (∀ p, db'.Valid p ↔ db.Valid p ∧ p ≠ path) ∧
        ∀ i, db.Refers i path → i = path)
      (fun e db' => e = .sqlite .foreignKey ∧ db' = db ∧ ∃ i, db.Refers i path ∧ i ≠ path) db := by
  obtain ⟨row, found, rfl⟩ := valid.exists_row
  have text : cstr row.path = row.path := cstr_eq_self valid.noNul
  have query : db.stmtQueryPathInfo row.path = some row :=
    stmtQueryPathInfo_eq_some.mpr ⟨found, text.symm⟩
  simp only [invalidatePath, wp_execute, stmtInvalidatePath, query]
  constructor
  · intro db1 _ executed
    cases deleted : db.deleteRow row with
    | error e => rw [deleted] at executed; cases executed
    | ok db2 =>
      rw [deleted] at executed
      cases executed
      obtain ⟨valid', _, unreferred⟩ := deleteRow_graph found deleted
      exact ⟨.of_deleteRow deleted, valid', unreferred⟩
  · intro e executed
    cases deleted : db.deleteRow row with
    | ok db2 => rw [deleted] at executed; cases executed
    | error e =>
      rw [deleted] at executed
      cases executed
      have isForeignKey : e = .foreignKey := by
        dsimp only [deleteRow] at deleted
        split at deleted
        · cases deleted
          rfl
        · cases deleted
      refine ⟨by rw [isForeignKey], trivial, ?_⟩
      by_contra unreferred
      obtain ⟨db2, ok⟩ := deleteRow_ok found fun i refers =>
        by_contra fun other => unreferred ⟨i, refers, other⟩
      rw [ok] at deleted
      cases deleted

theorem present_iff {nixStore : Path} (inStore : isStorePath nixStore path = true) :
    ∃ name, baseNameOf path = .ok name ∧ (name ∈ store ↔ Present store path) := by
  have absolute : path[0]? = some slash := by
    simp only [isStorePath, isInStore, isInDir, Bool.and_eq_true, beq_iff_eq] at inStore
    exact inStore.1.1.1.1
  have member : slash ∈ path := mem_of_getElem? absolute
  obtain ⟨position, found⟩ := Option.isSome_iff_exists.mp
    (isSome_idxOf?.mpr (mem_reverse.mpr member))
  have isName : baseNameOf path = .ok (path.drop (path.length - 1 - position + 1)) := by
    rw [baseNameOf, rfind, found]
    rfl
  refine ⟨_, isName, fun listed => ⟨_, listed, isName⟩, ?_⟩
  rintro ⟨name, listed, isName'⟩
  rw [isName] at isName'
  exact Except.ok.inj isName' ▸ listed

/-! ### The invariant -/

section Run

variable (cfg) (start : Db)

/-- What holds between any two calls. -/
structure VerifyState.Inv (s : VerifyState) : Prop where
  shrinks : start.Shrinks s.db
  gone : ∀ p, start.Valid p → ¬ s.db.Valid p → Removable start cfg.store p
  validPaths : ∀ p ∈ s.done, p ∈ s.validPaths ↔ Present cfg.store p
  visited : ∀ p ∈ s.validPaths, p ∈ s.done

/-- A path that is to be invalidated by a call that has not returned yet. -/
def VerifyState.Open (s : VerifyState) (p : Path) : Prop :=
  p ∈ s.done ∧ Removable start cfg.store p ∧ s.db.Valid p

/-- What calls do between two states. -/
structure VerifyState.Verified (s s' : VerifyState) : Prop where
  inv : s'.Inv cfg start
  done : s.done ⊆ s'.done
  fewer : ∀ p, s'.db.Valid p → s.db.Valid p
  opened : ∀ p, s'.Open cfg start p → s.Open cfg start p
  settled : ∀ p ∈ s'.done, p ∉ s.done → Settled start cfg.store p

/-- How verification fails. -/
def Obstructed (e : VerifyError) (_ : VerifyState) : Prop :=
  e = .store (.sqlite .foreignKey) ∧ ¬ start.Verifiable cfg.store

end Run

variable {start : Db} {s s1 s' : VerifyState}

theorem VerifyState.Verified.refl (inv : s.Inv cfg start) : s.Verified cfg start s where
  inv := inv
  done := Finset.Subset.refl _
  fewer _ valid := valid
  opened _ isOpen := isOpen
  settled _ there new := absurd there new

theorem VerifyState.Verified.trans (first : s.Verified cfg start s1) (second : s1.Verified cfg start s') :
    s.Verified cfg start s' where
  inv := second.inv
  done := first.done.trans second.done
  fewer p valid := first.fewer p (second.fewer p valid)
  opened p isOpen := first.opened p (second.opened p isOpen)
  settled p there new := by
    by_cases early : p ∈ s1.done
    · exact first.settled p early new
    · exact second.settled p there early

/-- The path that is entered is settled when the call returns. -/
theorem VerifyState.Verified.leave
    (verified : Verified cfg start { s with done := insert path s.done } s')
    (closed : ¬ s'.Open cfg start path) (settled : Settled start cfg.store path) :
    s.Verified cfg start s' ∧ path ∈ s'.done := by
  refine ⟨⟨verified.inv, (Finset.subset_insert _ _).trans verified.done, verified.fewer, ?_, ?_⟩,
    verified.done (Finset.mem_insert_self _ _)⟩
  · intro p isOpen
    obtain ⟨isDone, removable, valid⟩ := verified.opened p isOpen
    refine ⟨(Finset.mem_insert.mp isDone).resolve_left ?_, removable, valid⟩
    intro same
    exact closed (same ▸ isOpen)
  · intro p isDone new
    by_cases same : p = path
    · exact same ▸ settled
    · exact verified.settled p isDone (by simp [same, new])

/-- What a visit does that has fuel for all paths left. -/
def Visits (cfg : VerifyConfig) (start : Db) (fuel : Nat) (visit : Path → VerifyM PUnit) : Prop :=
  ∀ p s, start.Valid p → s.Inv cfg start → (∀ x, s.Open cfg start x → TransGen (Above start) x p) →
    remaining start.paths.toFinset s.done < fuel →
    wp (visit p) (fun _ s' => s.Verified cfg start s' ∧ p ∈ s'.done) (Obstructed cfg start) s

/-- The loop over the referrers finds out whether one of them is on disk. -/
theorem verifyReferrers_spec {fuel : Nat} {visit : Path → VerifyM PUnit} (visits : Visits cfg start fuel visit)
    (path : Path) (referrers : List Path) (valid : ∀ i ∈ referrers, start.Refers i path) (can : Bool)
    (s : VerifyState) (inv : s.Inv cfg start)
    (below : ∀ x, s.Open cfg start x → ReflTransGen (Above start) x path)
    (enough : remaining start.paths.toFinset s.done < fuel) :
    wp (verifyReferrers visit path referrers can)
      (fun can' s' => s.Verified cfg start s' ∧ (∀ i ∈ referrers, i ≠ path → i ∈ s'.done) ∧
        (can' = true ↔ can = true ∧ ∀ i ∈ referrers, i ≠ path → ¬ Present cfg.store i))
      (Obstructed cfg start) s := by
  induction referrers generalizing can s with
  | nil => exact ⟨.refl inv, by simp, by simp⟩
  | cons i rest ih =>
    have validRest : ∀ j ∈ rest, start.Refers j path := (forall_mem_cons.mp valid).2
    simp only [verifyReferrers, wp_ite, wp_bind, wp_get]
    refine ⟨fun other => ?_, fun same => ?_⟩
    · have refers := valid i mem_cons_self
      have belowI : ∀ x, s.Open cfg start x → TransGen (Above start) x i :=
        fun x isOpen => .tail' (below x isOpen) ⟨refers, other⟩
      refine wp_imp (visits i s refers.left_valid inv belowI enough) ?_
      rintro _ s1 ⟨verified, isDone⟩
      have enough1 : remaining start.paths.toFinset s1.done < fuel :=
        Nat.lt_of_le_of_lt (remaining_le _ verified.done) enough
      refine wp_imp (ih validRest (can && !s1.validPaths.contains i) s1 verified.inv
        (fun x isOpen => below x (verified.opened x isOpen)) enough1) ?_
      rintro can' s' ⟨verified', restDone, found⟩
      refine ⟨verified.trans verified', forall_mem_cons.mpr ⟨fun _ => verified'.done isDone, restDone⟩, ?_⟩
      · have onDisk := verified.inv.validPaths i isDone
        have notContained : (!s1.validPaths.contains i) = true ↔ ¬ Present cfg.store i := by
          rw [← onDisk]
          simp
        rw [found, Bool.and_eq_true, notContained, forall_mem_cons]
        tauto
    · have isPath : i = path := not_not.mp same
      refine wp_imp (ih validRest can s inv below enough) ?_
      rintro can' s' ⟨verified, restDone, found⟩
      refine ⟨verified, forall_mem_cons.mpr ⟨absurd isPath, restDone⟩, ?_⟩
      rw [found]
      simp [isPath]

/-- The end of a call for a missing path none of whose referrers is on disk. -/
theorem invalidate_spec (missing : ¬ Present cfg.store path) (valid : start.Valid path)
    (inv : s.Inv cfg start) (below : ∀ x, s.Open cfg start x → TransGen (Above start) x path)
    (verified : Verified cfg start { s with done := insert path s.done } s1)
    (visited : ∀ i, s.db.Refers i path → i ≠ path → i ∈ s1.done)
    (noneOnDisk : ∀ i, s.db.Refers i path → i ≠ path → ¬ Present cfg.store i) :
    wp (onDb (invalidatePath path))
      (fun _ s' => s.Verified cfg start s' ∧ path ∈ s'.done) (Obstructed cfg start) s1 := by
  rw [wp_onDb]
  by_cases still : s1.db.Valid path
  · apply wp_mono (invalidatePath_exact still)
    · rintro _ db' ⟨shrinks, valid', unreferred⟩
      -- all other referrers have been invalidated before
      have removable : Removable start cfg.store path := by
        refine .intro path missing ?_
        intro i refers other
        apply verified.inv.gone i refers.left_valid
        intro validI
        exact other (unreferred i (verified.inv.shrinks.refers_iff.mpr ⟨refers, validI, still⟩))
      have step : s1.Verified cfg start { s1 with db := db' } := by
        refine ⟨⟨verified.inv.shrinks.trans shrinks, ?_, verified.inv.validPaths, verified.inv.visited⟩,
          Finset.Subset.refl _,
          fun p validP => ((valid' p).mp validP).1, ?_, fun p there notThere => absurd there notThere⟩
        · intro p before notValid
          by_cases same : p = path
          · exact same ▸ removable
          · exact verified.inv.gone p before fun validP => notValid ((valid' p).mpr ⟨validP, same⟩)
        · intro p isOpen
          exact ⟨isOpen.1, isOpen.2.1, ((valid' p).mp isOpen.2.2).1⟩
      exact (verified.trans step).leave (fun isOpen => ((valid' path).mp isOpen.2.2).2 rfl)
        (.inr (.inr removable))
    · rintro e db' ⟨rfl, rfl, i, refers, other⟩
      refine ⟨rfl, ?_⟩
      intro verifiable
      have refersStart := (verified.inv.shrinks.refers_iff.mp refers).1
      have validBefore : s.db.Valid path := verified.fewer path still
      rcases verifiable path valid with present | ⟨r, refersR, otherR, presentR⟩ | removable
      · exact missing present
      · -- a referrer on disk would have been seen
        have validR : s.db.Valid r := by
          by_contra notValid
          exact (inv.gone r refersR.left_valid notValid).missing presentR
        exact noneOnDisk r (inv.shrinks.refers_iff.mpr ⟨refersR, validR, validBefore⟩) otherR presentR
      · -- another referrer would be waiting for this path
        have validI : s.db.Valid i := verified.fewer i refers.left_valid
        have refersBefore := inv.shrinks.refers_iff.mpr ⟨refersStart, validI, validBefore⟩
        have isOpen : s1.Open cfg start i :=
          ⟨visited i refersBefore other, removable.above ⟨refersStart, other⟩, refers.left_valid⟩
        obtain ⟨doneBefore, removableI, _⟩ := verified.opened i isOpen
        have openBefore : s.Open cfg start i :=
          ⟨(Finset.mem_insert.mp doneBefore).resolve_left other, removableI, validI⟩
        exact removable.acyclic (.head ⟨refersStart, other⟩ (below i openBefore))
  · -- the statement finds no row to delete
    have query : s1.db.stmtQueryPathInfo path = none := by
      rw [stmtQueryPathInfo_eq_none, cstr_eq_self valid.noNul]
      exact still
    have unchanged : s1.db.stmtInvalidatePath path = .ok s1.db := by
      rw [stmtInvalidatePath, query]
    simp only [invalidatePath, wp_execute, unchanged]
    refine ⟨?_, fun e executed => by cases executed⟩
    intro db' _ executed
    cases executed
    exact verified.leave (fun isOpen => still isOpen.2.2) (.inr (.inr (verified.inv.gone path valid still)))

theorem VerifyState.Inv.enter (inv : s.Inv cfg start) (new : path ∉ s.done)
    (missing : ¬ Present cfg.store path) :
    Inv cfg start { s with done := insert path s.done } where
  shrinks := inv.shrinks
  gone := inv.gone
  validPaths p isDone := by
    rcases Finset.mem_insert.mp isDone with rfl | old
    · exact ⟨fun listed => absurd (inv.visited p listed) new, fun present => absurd present missing⟩
    · exact inv.validPaths p old
  visited p listed := Finset.mem_insert_of_mem (inv.visited p listed)

theorem VerifyState.Inv.present (inv : s.Inv cfg start) (present : Present cfg.store path) :
    Inv cfg start
      { s with done := insert path s.done, validPaths := path :: s.validPaths } where
  shrinks := inv.shrinks
  gone := inv.gone
  validPaths p isDone := by
    by_cases same : p = path
    · simp [same, present]
    · have old : p ∈ s.done := (Finset.mem_insert.mp isDone).resolve_left same
      rw [mem_cons, or_iff_right same]
      exact inv.validPaths p old
  visited p listed := by
    rcases mem_cons.mp listed with rfl | old
    · exact Finset.mem_insert_self _ _
    · exact Finset.mem_insert_of_mem (inv.visited p old)

theorem verifyPath_visits (noRepair : cfg.repair = false)
    (storePaths : ∀ p, start.Valid p → isStorePath cfg.nixStore p = true) (fuel : Nat) :
    Visits cfg start fuel (verifyPath cfg fuel) := by
  induction fuel with
  | zero => exact fun _ _ _ _ _ enough => absurd enough (Nat.not_lt_zero _)
  | succ fuel ih =>
    intro path s valid inv below enough
    have inStore := storePaths path valid
    obtain ⟨name, isName, onDisk⟩ := @present_iff cfg.store path _ inStore
    have asked : s.db.queryReferrers cfg.nixStore path = .ok (s.db.queryReferrers_ path) := by
      rw [queryReferrers, assertStorePath, if_pos inStore]
      rfl
    have listed : ∀ i, i ∈ s.db.queryReferrers_ path ↔ s.db.Refers i path := by
      intro i
      rw [mem_queryReferrers_, cstr_eq_self valid.noNul]
    simp only [verifyPath, inStore, isName, asked, noRepair, Except.mapError, wp_bind, wp_get, wp_ite,
      wp_pure, wp_set, wp_modify, wp_ofExcept_ok, setErrors, onDisk, Bool.not_true, Bool.false_eq_true,
      false_implies, not_false_eq_true, true_implies, true_and, not_not]
    refine ⟨fun there => ⟨.refl inv, there⟩, fun new => ⟨fun missing => ?_, fun present => ?_⟩⟩
    · -- the referrers come first
      have entered := inv.enter new missing
      have fewer := remaining_insert_lt (mem_toFinset.mpr valid) new
      have belowPath : ∀ x, Open cfg start { s with done := insert path s.done } x →
          ReflTransGen (Above start) x path := by
        intro x isOpen
        rcases Finset.mem_insert.mp isOpen.1 with rfl | old
        · exact .refl
        · exact (below x ⟨old, isOpen.2⟩).to_reflTransGen
      refine wp_imp (verifyReferrers_spec ih path (s.db.queryReferrers_ path)
        (fun i found => (inv.shrinks.refers_iff.mp ((listed i).mp found)).1) true _ entered belowPath
        (Nat.lt_of_lt_of_le fewer (Nat.le_of_lt_succ enough))) ?_
      rintro can s1 ⟨verified, visited, found⟩
      refine ⟨fun canInvalidate => ?_, fun cannot => ?_⟩
      · exact invalidate_spec missing valid inv below verified
          (fun i refers => visited i ((listed i).mpr refers))
          (fun i refers => (found.mp canInvalidate).2 i ((listed i).mpr refers))
      · have kept : Kept start cfg.store path := by
          by_contra notKept
          apply cannot
          refine found.mpr ⟨rfl, ?_⟩
          intro i inList other presentI
          exact notKept ⟨i, (inv.shrinks.refers_iff.mp ((listed i).mp inList)).1, other, presentI⟩
        have noted : s1.Verified cfg start { s1 with errors := true } :=
          { VerifyState.Verified.refl verified.inv with inv := { verified.inv with } }
        exact (verified.trans noted).leave (fun isOpen => isOpen.2.1.not_kept kept) (.inr (.inl kept))
    · have step : Verified cfg start { s with done := insert path s.done }
          { s with done := insert path s.done, validPaths := path :: s.validPaths } :=
        ⟨inv.present present, Finset.Subset.refl _, fun _ validP => validP, fun _ isOpen => isOpen,
          fun p there notThere => absurd there notThere⟩
      exact step.leave (fun isOpen => isOpen.2.1.missing present) (.inl present)

/-! ### Whole runs -/

theorem verifyContents_returns (noRepair : cfg.repair = false) (path : Path) (s : VerifyState) :
    wp (verifyContents cfg path) (fun _ _ => True) (fun _ _ => False) s := by
  simp [verifyContents, verifyHash, noRepair, setErrors, updatePathInfo]

theorem verifyStore_spec (noRepair : cfg.repair = false)
    (storePaths : ∀ p, start.Valid p → isStorePath cfg.nixStore p = true) (checkContents : Bool) :
    wp (verifyStore cfg checkContents) (fun _ _ => start.Verifiable cfg.store) (Obstructed cfg start)
      { db := start } := by
  have inv : Inv cfg start { db := start } :=
    ⟨.refl start, fun _ valid gone => absurd valid gone, by simp, by simp⟩
  have noneOpen : ∀ x, ¬ Open cfg start { db := start } x :=
    fun x isOpen => absurd isOpen.1 (Finset.notMem_empty x)
  simp only [verifyStore, wp_bind, wp_get]
  refine wp_imp (wp_forM (pathSet start.paths) _
    (fun visited _ s => Verified cfg start { db := start } s ∧ ∀ p ∈ visited, p ∈ s.done)
    (Obstructed cfg start) _ ⟨.refl inv, by simp⟩ ?_) ?_
  · intro visited path todo s split before
    have listed : path ∈ pathSet start.paths := by simp [split]
    have valid : start.Valid path := (mem_pathSet _ _).mp listed
    have enough : remaining start.paths.toFinset s.done < start.paths.length + 1 :=
      Nat.lt_succ_of_le (le_trans (Finset.card_le_card Finset.sdiff_subset) (toFinset_card_le _))
    refine wp_imp (verifyPath_visits noRepair storePaths _ path s valid before.1.inv
      (fun x isOpen => absurd (before.1.opened x isOpen) (noneOpen x)) enough) ?_
    intro _ s' after
    refine ⟨before.1.trans after.1, ?_⟩
    intro p earlier
    rcases mem_append.mp earlier with old | new
    · exact after.1.done (before.2 p old)
    · exact mem_singleton.mp new ▸ after.2
  · intro _ s after
    have verifiable : start.Verifiable cfg.store := by
      intro p valid
      exact after.1.settled p (after.2 p ((mem_pathSet _ _).mpr valid)) (Finset.notMem_empty p)
    cases checkContents with
    | false => exact verifiable
    | true =>
      simp only [if_true, wp_bind, wp_get, wp_pure]
      refine wp_mono (wp_forM_const (pathSet s.validPaths) (verifyContents cfg) (fun _ => True)
        (fun _ _ => False) s trivial ?_) (fun _ _ _ => verifiable) (fun _ _ failed => failed.elim)
      intro path _ s' _
      exact verifyContents_returns noRepair path s'

/-- Verification completes exactly if every missing path is held by a path on disk directly, or
if all that holds it can be invalidated before it. -/
theorem verifyStore_completes_iff (cfg : VerifyConfig) (noRepair : cfg.repair = false) (db : Db)
    (storePaths : ∀ p, db.Valid p → isStorePath cfg.nixStore p = true) (checkContents : Bool) :
    (∃ errors s, verifyStore cfg checkContents { db } = .ok errors s) ↔ db.Verifiable cfg.store := by
  have spec := verifyStore_spec noRepair storePaths checkContents
  constructor
  · rintro ⟨errors, s, ran⟩
    have verifiable := wp_ok spec ran
    exact verifiable
  · intro verifiable
    cases ran : verifyStore cfg checkContents { db } with
    | ok errors s => exact ⟨errors, s, rfl⟩
    | error e s => exact absurd verifiable (wp_error spec ran).2

/-- `/s/a` refers to `/s/b`, and that to `/s/c`. -/
def chainInfos : List ValidPathInfo :=
  [{ path := ascii "/s/a", hash := Hash.ofType .sha256, references := [ascii "/s/b"] },
   { path := ascii "/s/b", hash := Hash.ofType .sha256, references := [ascii "/s/c"] },
   { path := ascii "/s/c", hash := Hash.ofType .sha256 }]

@[irreducible] def chainDb : Db :=
  match registerValidPaths (ascii "/s") ⟨1, fun _ => .ok [], fun _ _ => .ok ⟨⟩⟩ chainInfos empty with
  | .ok _ db | .error _ db => db

/-- Verification of a store directory with these names. -/
def listing (store : List Bytes) : VerifyConfig where
  nixStore := ascii "/s"
  store
  repairPath _ := pure ⟨⟩
  hashPath _ path := .error (.notValid path)

theorem chainDb_storePaths (path : Path) (valid : chainDb.Valid path) :
    isStorePath (ascii "/s") path = true := by
  have inStore : ∀ p ∈ chainDb.paths, isStorePath (ascii "/s") p = true := by decide +kernel
  exact inStore path valid

/-- `/s/b` is on disk and holds `/s/c`, which is missing. `/s/a` is missing and can be removed. -/
theorem verifyStore_completes_iff_chain :
    ∃ errors s, verifyStore (listing [ascii "b"]) true { db := chainDb } = .ok errors s := by
  refine (verifyStore_completes_iff (listing [ascii "b"]) rfl chainDb chainDb_storePaths true).mpr ?_
  have paths : ∀ p ∈ chainDb.paths, p = ascii "/s/a" ∨ p = ascii "/s/b" ∨ p = ascii "/s/c" := by
    decide +kernel
  intro path valid
  rcases paths path valid with rfl | rfl | rfl
  · have free : ∀ v ∈ chainDb.validPaths, ¬ chainDb.Refers v.path (ascii "/s/a") := by decide +kernel
    refine .inr (.inr (.intro _ (by simp [Present]; decide) fun i refers _ => ?_))
    obtain ⟨v, isRow, _, _, rfl, _⟩ := id refers
    exact absurd refers (free v isRow)
  · exact .inl ⟨_, mem_singleton_self _, by decide⟩
  · exact .inr (.inl ⟨ascii "/s/b", by decide +kernel, by decide, _, mem_singleton_self _, by decide⟩)

def thrown {ε σ α : Type} : EStateM.Result ε σ α → Option ε
  | .ok _ _ => none
  | .error e _ => some e

/-- Only `/s/a` is left. `/s/b` stays registered because of it, so that `/s/c` cannot be
invalidated, but this is tried. -/
theorem verifyStore_foreignKey :
    thrown (verifyStore (listing [ascii "a"]) false { db := chainDb }) =
      some (.store (.sqlite .foreignKey)) := by
  decide +kernel

end Guix.LibStore
