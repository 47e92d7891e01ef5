import Guix.LibStore.Ledger
import Guix.LibStore.MiscCorrectness

/-!
# What registration and invalidation do

A batch that commits adds its paths and references to the ledger and leaves no cycle
among its paths; a batch that throws changes nothing.
-/

namespace Guix.LibStore

open Hoare Graph Fallible Db Ledger Set

variable (nixStore : Path) (outside : Outside)

/-! ### Transactions, statements and queries -/

@[simp] theorem wp_transaction {α : Type} (body : DbM α) (post : α → Db → Prop)
    (fails : Error → Db → Prop) (db : Db) :
    wp (transaction body) post fails db ↔ wp body post (fun e _ => fails e db) db := by
  simp only [wp, transaction]
  cases body db <;> rfl

@[simp] theorem wp_execute {α : Type} (statement : Db → Except SqlError (Db × α))
    (post : α → Db → Prop) (fails : Error → Db → Prop) (db : Db) :
    wp (execute statement) post fails db ↔
      (∀ db' a, statement db = .ok (db', a) → post a db') ∧
        ∀ e, statement db = .error e → fails (.sqlite e) db := by
  simp only [execute, wp_bind, wp_get]
  cases statement db with
  | ok result =>
    obtain ⟨db', a⟩ := result
    simp
  | error e => simp

theorem isValidPath_iff (db : Db) (path : Path) : db.isValidPath path = true ↔ db.Valid (cstr path) := by
  rw [isValidPath, Option.isSome_iff_ne_none, ne_eq, stmtQueryPathInfo_eq_none, not_not]

variable {db : Db} {path : Path}

theorem queryValidPathId_ok {id : Nat} (ok : db.queryValidPathId path = .ok id) :
    ∃ v ∈ db.validPaths, v.path = cstr path ∧ v.id = id := by
  unfold queryValidPathId at ok
  split at ok
  · next row query =>
    cases ok
    obtain ⟨found, named⟩ := stmtQueryPathInfo_eq_some.mp query
    exact ⟨row, found, named, rfl⟩
  · cases ok

/-! ### One element of a batch -/

theorem addOrUpdate_ledger (info : ValidPathInfo) (db : Db) :
    wp (addOrUpdate outside info) (fun _ db' => db'.ledger = db.ledger.add {cstr info.path} ∅)
      (fun _ _ => True) db := by
  simp only [addOrUpdate, updatePathInfo, addValidPath, wp_bind, wp_ite, wp_throw, wp_get, wp_modify,
    wp_execute, wp_pure, wp_ofExcept, implies_true, and_true, true_and]
  intro _
  refine ⟨fun valid => ?_, fun _ db' id inserted => ?_⟩
  · obtain ⟨sameValid, sameRefers⟩ := stmtUpdatePathInfo_graph db info.path
      (if info.narSize ≠ 0 then some info.narSize else none)
      (hashField info.hash)
    apply ledger_eq_add
    · intro p
      rw [sameValid, mem_singleton_iff, or_iff_left_of_imp]
      intro same
      rw [same]
      exact (isValidPath_iff db info.path).mp valid
    · intro a b
      rw [sameRefers]
      simp
  · obtain ⟨valid, refers, _⟩ := stmtRegisterValidPath_graph inserted
    have added : db'.ledger = db.ledger.add {cstr info.path} ∅ := by
      apply ledger_eq_add
      · exact valid
      · intro a b
        rw [refers]
        simp
    refine ⟨fun _ outputs _ _ _ => ?_, fun _ => added⟩
    -- the outputs of a derivation are in a table of their own
    refine wp_forM_const outputs _ (fun db' => db'.ledger = db.ledger.add {cstr info.path} ∅)
      (fun _ _ => True) db' added ?_
    intro output _ db1 holds
    simp only [wp_execute, implies_true, and_true]
    intro db2 _ executed
    obtain ⟨db3, statement, same⟩ := map_ok.mp executed
    cases same
    obtain ⟨rows, refs⟩ := stmtAddDerivationOutput_tables statement
    rw [ledger_eq_of_rows db1 _ rows refs]
    exact holds

theorem addReferences_ledger (info : ValidPathInfo) (db : Db) :
    wp (addReferences info)
      (fun _ db' => db'.ledger =
        db.ledger.add ∅ {ref | ∃ r ∈ info.references, ref = (cstr info.path, cstr r)})
      (fun _ _ => True) db := by
  simp only [addReferences, addReference, wp_bind, wp_get, wp_ofExcept, implies_true, and_true]
  intro referrer asked
  obtain ⟨v, found, named, rfl⟩ := queryValidPathId_ok asked
  refine wp_mono (wp_forM info.references _
    (fun done _ db1 => db1.validPaths = db.validPaths ∧
      db1.ledger = db.ledger.add ∅ {ref | ∃ r ∈ done, ref = (cstr info.path, cstr r)})
    (fun _ _ => True) db ⟨rfl, by simp⟩ ?_) (fun _ _ holds => holds.2) (fun _ _ _ => trivial)
  rintro done reference todo db1 _ ⟨rows, ledger⟩
  simp only [wp_bind, wp_get, wp_ofExcept, wp_execute, implies_true, and_true]
  intro id asked' db2 _ executed
  obtain ⟨w, found', named', rfl⟩ := queryValidPathId_ok asked'
  obtain ⟨db3, added, rows', refers⟩ :=
    stmtAddReference_graph (rows.symm ▸ found) found'
  rw [added] at executed
  cases executed
  refine ⟨rows'.trans rows, ?_⟩
  have step : db2.ledger = db1.ledger.add ∅ {(cstr info.path, cstr reference)} := by
    apply ledger_eq_add
    · intro p
      simp only [Valid, Tables.paths, rows', mem_empty_iff_false, or_false]
    · intro a b
      rw [refers, named, named', mem_singleton_iff, Prod.mk.injEq]
  rw [step, ledger, add_add, empty_union]
  congr 1
  ext ref
  simp [or_and_right, exists_or, or_comm]

theorem checkDerivation_keeps (info : ValidPathInfo) (db : Db) :
    wp (checkDerivation outside info) (fun _ db' => db' = db) (fun _ _ => True) db := by
  simp [checkDerivation]

/-! ### A batch -/

/-- What holds after a batch that was committed. The cycle check sees the paths of the
batch as they are in the database, without what follows a NUL byte. -/
structure Registered (infos : List ValidPathInfo) (db db' : Db) : Prop where
  ledger : db'.ledger = db.ledger.register infos
  storePaths : ∀ i ∈ infos, isStorePath nixStore i.path = true
  acyclic : Acyclic fun a b =>
    a ∈ infos.map (·.path) ∧ b ∈ infos.map (·.path) ∧ cstr a = a ∧ db'.Refers a b

variable {references : List Path}

theorem queryPathInfo_ok {info : ValidPathInfo} (ok : db.queryPathInfo nixStore path = .ok info) :
    isStorePath nixStore path = true ∧ ∃ row ∈ db.validPaths, row.path = cstr path ∧
      info.deriver = row.deriver.getD [] ∧ info.references = pathSet (db.stmtQueryReferences row.id) := by
  obtain ⟨_, inStore, ok⟩ := bind_ok.mp ok
  unfold assertStorePath at inStore
  split at inStore
  · next isPath =>
    split at ok
    · cases ok
    · next row query =>
      obtain ⟨found, named⟩ := stmtQueryPathInfo_eq_some.mp query
      obtain ⟨hash, _, ok⟩ := bind_ok.mp ok
      cases ok
      exact ⟨isPath, row, found, named, rfl, rfl⟩
  · cases inStore

theorem queryReferences_ok (ok : db.queryReferences nixStore path = .ok references) :
    isStorePath nixStore path = true ∧ ∀ b, b ∈ references ↔ db.Refers (cstr path) b := by
  obtain ⟨info, asked, ok⟩ := bind_ok.mp ok
  cases ok
  obtain ⟨inStore, row, found, named, _, isReferences⟩ := queryPathInfo_ok nixStore asked
  refine ⟨inStore, fun b => ?_⟩
  rw [isReferences, mem_pathSet, mem_stmtQueryReferences found, named]

theorem referencesOf_ok (valid : db.Valid (cstr path))
    (ok : referencesOf db.isValidPath (db.queryReferences nixStore) path = .ok references) :
    isStorePath nixStore path = true ∧ ∀ b, b ∈ references ↔ db.Refers (cstr path) b := by
  rw [referencesOf, if_pos ((isValidPath_iff db path).mpr valid)] at ok
  exact queryReferences_ok nixStore (mapError_ok.mp ok)

theorem register_loops {infos : List ValidPathInfo} {post : PUnit → Db → Prop} {rest : DbM PUnit}
    (after : ∀ db', db'.ledger = db.ledger.register infos → wp rest post (fun _ _ => True) db') :
    wp (do
      forM infos (addOrUpdate outside)
      forM infos addReferences
      forM infos (checkDerivation outside)
      rest) post (fun _ _ => True) db := by
  simp only [wp_bind]
  refine wp_imp (wp_forM infos _
    (fun done _ db1 => db1.ledger = db.ledger.add (pathsOf done) ∅) _ db (by simp) ?_) ?_
  · intro done info todo db1 _ holds
    refine wp_imp (addOrUpdate_ledger outside info db1) ?_
    intro _ db2 added
    rw [added, holds, add_add, pathsOf_append, union_empty]
  · intro _ db1 valid
    refine wp_imp (wp_forM infos _ (fun done _ db2 => db2.ledger =
      db.ledger.add (pathsOf infos) (refsOf done)) _ db1 (by simpa using valid) ?_) ?_
    · intro done info todo db2 _ holds
      refine wp_imp (addReferences_ledger info db2) ?_
      intro _ db3 added
      rw [added, holds, add_add, refsOf_append, union_empty]
    · intro _ db2 registered
      refine wp_imp (wp_forM_const infos _ (fun db3 => db3 = db2) _ db2 rfl ?_) ?_
      · intro info _ db3 same
        rw [same]
        exact checkDerivation_keeps outside info db2
      · intro _ db3 same
        rw [same]
        exact after db2 registered

theorem registerValidPaths_spec (infos : List ValidPathInfo) (db : Db) :
    wp (registerValidPaths nixStore outside infos)
      (fun _ db' => Registered nixStore infos db db') (fun _ db' => db' = db) db := by
  rw [registerValidPaths, wp_transaction]
  refine wp_mono (register_loops _ ?_) (fun _ _ holds => holds) (fun _ _ _ => rfl)
  intro db' ledger
  simp only [wp_bind, wp_get, wp_ofExcept, wp_pure, implies_true, and_true]
  intro sorted ok
  have sort := mapError_ok.mp ok
  have complete := ((topoSortPaths_spec _ _ _).1 sorted sort).2.2.2
  have acyclic := topoSortPaths_acyclic _ _ _ sort
  -- every path of the batch is valid by now, so that its references were asked for
  have asked : ∀ p ∈ infos.map (·.path), ∃ references,
      referencesOf db'.isValidPath (db'.queryReferences nixStore) p = .ok references ∧
        isStorePath nixStore p = true ∧ ∀ b, b ∈ references ↔ db'.Refers (cstr p) b := by
    intro p inBatch
    obtain ⟨references, ok⟩ := (complete p ((mem_pathSet _ _).mpr inBatch)).2
    have valid : cstr p ∈ db'.ledger.valid := by
      obtain ⟨i, inInfos, rfl⟩ := List.mem_map.mp inBatch
      rw [ledger]
      exact .inr ⟨i, inInfos, rfl⟩
    exact ⟨references, ok, referencesOf_ok nixStore valid ok⟩
  refine ⟨ledger, ?_, acyclic.mono ?_⟩
  · intro i inInfos
    obtain ⟨_, _, inStore, _⟩ := asked i.path (List.mem_map_of_mem inInfos)
    exact inStore
  · rintro a b ⟨inBatch, inBatch', noNul, refers⟩
    obtain ⟨references, ok, _, listed⟩ := asked a inBatch
    refine ⟨(mem_pathSet _ _).mpr inBatch, references, ok, (listed b).mpr ?_,
      (mem_pathSet _ _).mpr inBatch'⟩
    rw [noNul]
    exact refers

/-! ### Invalidation -/

theorem mem_queryReferrers_ (db : Db) (a path : Path) :
    a ∈ db.queryReferrers_ path ↔ db.Refers a (cstr path) := by
  rw [queryReferrers_, mem_pathSet, mem_stmtQueryReferrers]

/-- What a successful `invalidatePathChecked` does: the path is no longer valid, and
no other valid path referred to it. -/
structure Invalidated (path : Path) (db db' : Db) : Prop where
  ledger : db'.ledger = db.ledger.remove (cstr path)
  unreferred : ∀ a, db.Refers a (cstr path) → a = cstr path
  deleted : ∃ row ∈ db.validPaths, row.path = cstr path ∧ db.deleteRow row = .ok db'

theorem invalidatePath_spec {path : Path} {db : Db} (valid : db.Valid (cstr path)) :
    wp (invalidatePath path) (fun _ db' => Invalidated path db db') (fun _ db' => db' = db) db := by
  simp only [invalidatePath, wp_execute, implies_true, and_true]
  intro db' _ executed
  obtain ⟨row, found, named⟩ := valid.exists_row
  rw [stmtInvalidatePath, stmtQueryPathInfo_eq_some.mpr ⟨found, named⟩] at executed
  obtain ⟨db1, deleted, same⟩ := map_ok.mp executed
  cases same
  obtain ⟨valid', refers, unreferred⟩ := deleteRow_graph found deleted
  refine ⟨?_, named ▸ unreferred, row, found, named, deleted⟩
  ext p
  · rw [← named]
    exact valid' p
  · rw [← named]
    exact refers p.1 p.2

theorem invalidatePathChecked_spec (path : Path) (db : Db) :
    wp (invalidatePathChecked nixStore path)
      (fun _ db' => (db.Valid (cstr path) → Invalidated path db db') ∧
        (¬ db.Valid (cstr path) → db' = db))
      (fun _ db' => db' = db) db := by
  simp only [invalidatePathChecked, wp_bind, wp_ofExcept, wp_transaction, wp_get, wp_ite, wp_throw,
    wp_pure, implies_true, and_true, true_and, isValidPath_iff]
  intro _ _
  refine ⟨fun valid _ => ?_, fun invalid valid => absurd valid invalid⟩
  refine wp_mono (invalidatePath_spec valid) ?_ (fun _ _ _ => trivial)
  intro _ db' invalidated
  exact ⟨fun _ => invalidated, fun invalid => absurd valid invalid⟩

end Guix.LibStore
