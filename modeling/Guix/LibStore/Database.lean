import Guix.LibUtil.PathSet
import Guix.LibUtil.Hash

/-!
# The database of valid paths

The tables of `schema.sql` with their constraints, and the SQL statements that
`LocalStore` prepares. Foreign keys are enforced (`pragma foreign_keys`), so a statement
that would break one fails and changes nothing. Text is bound to a statement with
`sqlite3_bind_text(value.c_str(), -1)`, which stops at the first NUL byte.
-/

namespace Guix.LibStore

open List

/-- A row of `ValidPaths`; `none` is NULL. -/
structure ValidPath where
  id : Nat
  path : Path
  hash : Bytes
  registrationTime : Nat
  deriver : Option Path
  narSize : Option Nat
  deriving DecidableEq, Repr

/-- A row of `DerivationOutputs`. -/
structure DerivationOutput where
  drv : Nat
  id : Bytes
  path : Path
  deriving DecidableEq, Repr

/-- `sequence` is the largest id that `autoincrement` has given out. -/
structure Tables where
  validPaths : List ValidPath := []
  refs : List (Nat × Nat) := []
  derivationOutputs : List DerivationOutput := []
  sequence : Nat := 0
  deriving DecidableEq, Repr

def Tables.ids (t : Tables) : List Nat := t.validPaths.map (·.id)

def Tables.paths (t : Tables) : List Path := t.validPaths.map (·.path)

structure Db extends Tables where
  id_le : ∀ id ∈ toTables.ids, id ≤ sequence
  id_unique : toTables.ids.Nodup
  path_unique : toTables.paths.Nodup
  referrer_valid : ∀ ref ∈ refs, ref.1 ∈ toTables.ids
  reference_valid : ∀ ref ∈ refs, ref.2 ∈ toTables.ids
  drv_valid : ∀ output ∈ derivationOutputs, output.drv ∈ toTables.ids
  path_text : ∀ path ∈ toTables.paths, 0 ∉ path
  output_text : ∀ output ∈ derivationOutputs, 0 ∉ output.path
  deriving DecidableEq

inductive SqlError
  | unique
  | foreignKey
  deriving DecidableEq, Repr

namespace Db

def empty : Db where
  toTables := {}
  id_le := by simp [Tables.ids]
  id_unique := nodup_nil
  path_unique := nodup_nil
  referrer_valid := by simp
  reference_valid := by simp
  drv_valid := by simp
  path_text := by simp [Tables.paths]
  output_text := by simp

/-! ### Statements that change the tables -/

theorem mem_ids_append {rows new : List ValidPath} {id : Nat} (found : id ∈ rows.map (·.id)) :
    id ∈ (rows ++ new).map (·.id) :=
  ((sublist_append_left _ _).map _).subset found

theorem mem_ids_without {rows : List ValidPath} {deleted id : Nat} :
    id ∈ (rows.filter (·.id ≠ deleted)).map (·.id) ↔ id ∈ rows.map (·.id) ∧ id ≠ deleted := by
  simp only [mem_map, mem_filter, decide_eq_true_eq]
  constructor
  · rintro ⟨row, ⟨there, different⟩, rfl⟩
    exact ⟨⟨row, there, rfl⟩, different⟩
  · rintro ⟨⟨row, there, rfl⟩, different⟩
    exact ⟨row, ⟨there, different⟩, rfl⟩

/-- The id of the new row is what `sqlite3_last_insert_rowid` then returns. -/
def stmtRegisterValidPath (db : Db) (path hash : Bytes) (registrationTime : Nat)
    (deriver : Option Path) (narSize : Option Nat) : Except SqlError (Db × Nat) :=
  if known : cstr path ∈ db.paths then .error .unique
  else
    let id := db.sequence + 1
    let row : ValidPath := ⟨id, cstr path, cstr hash, registrationTime, deriver.map cstr, narSize⟩
    .ok ({ db with
      validPaths := db.validPaths ++ [row]
      sequence := id
      id_le := by
        intro other found
        simp only [Tables.ids, map_append, mem_append, map_cons, map_nil, mem_singleton] at found
        rcases found with old | new
        · exact Nat.le_succ_of_le (db.id_le other old)
        · exact Nat.le_of_eq new
      id_unique := by
        rw [Tables.ids, map_append, map_singleton, ← concat_eq_append]
        exact db.id_unique.concat fun old => Nat.not_succ_le_self _ (db.id_le id old)
      path_unique := by
        rw [Tables.paths, map_append, map_singleton, ← concat_eq_append]
        exact db.path_unique.concat known
      referrer_valid := by
        intro ref found
        exact mem_ids_append (db.referrer_valid ref found)
      reference_valid := by
        intro ref found
        exact mem_ids_append (db.reference_valid ref found)
      drv_valid := by
        intro output found
        exact mem_ids_append (db.drv_valid output found)
      path_text := by
        intro text found
        simp only [Tables.paths, map_append, mem_append, map_cons, map_nil, mem_singleton] at found
        rcases found with old | new
        · exact db.path_text text old
        · rw [new]
          exact zero_notMem_cstr path }, id)

/-- The rows with a path, changed by an update. -/
def updateRow (path hash : Bytes) (narSize : Option Nat) (row : ValidPath) : ValidPath :=
  if row.path = path then { row with narSize, hash } else row

@[simp] theorem updateRow_id (path hash : Bytes) (narSize : Option Nat) (row : ValidPath) :
    (updateRow path hash narSize row).id = row.id := by
  unfold updateRow
  split <;> rfl

@[simp] theorem updateRow_path (path hash : Bytes) (narSize : Option Nat) (row : ValidPath) :
    (updateRow path hash narSize row).path = row.path := by
  unfold updateRow
  split <;> rfl

theorem ids_updateRow (rows : List ValidPath) (path hash : Bytes) (narSize : Option Nat) :
    (rows.map (updateRow path hash narSize)).map (·.id) = rows.map (·.id) := by
  simp

theorem paths_updateRow (rows : List ValidPath) (path hash : Bytes) (narSize : Option Nat) :
    (rows.map (updateRow path hash narSize)).map (·.path) = rows.map (·.path) := by
  simp

def stmtUpdatePathInfo (db : Db) (narSize : Option Nat) (hash path : Bytes) : Db :=
  { db with
    validPaths := db.validPaths.map (updateRow (cstr path) (cstr hash) narSize)
    id_le := by simp only [Tables.ids, ids_updateRow]; exact db.id_le
    id_unique := by simp only [Tables.ids, ids_updateRow]; exact db.id_unique
    path_unique := by simp only [Tables.paths, paths_updateRow]; exact db.path_unique
    referrer_valid := by simp only [Tables.ids, ids_updateRow]; exact db.referrer_valid
    reference_valid := by simp only [Tables.ids, ids_updateRow]; exact db.reference_valid
    drv_valid := by simp only [Tables.ids, ids_updateRow]; exact db.drv_valid
    path_text := by simp only [Tables.paths, paths_updateRow]; exact db.path_text }

/-- `insert or replace` with the whole row as primary key. -/
def stmtAddReference (db : Db) (referrer reference : Nat) : Except SqlError Db :=
  if valid : referrer ∈ db.ids ∧ reference ∈ db.ids then
    .ok { db with
      refs := db.refs.filter (· ≠ (referrer, reference)) ++ [(referrer, reference)]
      referrer_valid := by
        intro ref found
        rcases mem_append.mp found with old | new
        · exact db.referrer_valid ref (mem_filter.mp old).1
        · rw [mem_singleton.mp new]
          exact valid.1
      reference_valid := by
        intro ref found
        rcases mem_append.mp found with old | new
        · exact db.reference_valid ref (mem_filter.mp old).1
        · rw [mem_singleton.mp new]
          exact valid.2 }
  else .error .foreignKey

/-- `insert or replace` with the first two columns as primary key. -/
def stmtAddDerivationOutput (db : Db) (drv : Nat) (id path : Bytes) : Except SqlError Db :=
  if valid : drv ∈ db.ids then
    .ok { db with
      derivationOutputs :=
        db.derivationOutputs.filter (fun d => ¬(d.drv = drv ∧ d.id = cstr id))
          ++ [⟨drv, cstr id, cstr path⟩]
      drv_valid := by
        intro output found
        rcases mem_append.mp found with old | new
        · exact db.drv_valid output (mem_filter.mp old).1
        · rw [mem_singleton.mp new]
          exact valid
      output_text := by
        intro output found
        rcases mem_append.mp found with old | new
        · exact db.output_text output (mem_filter.mp old).1
        · rw [mem_singleton.mp new]
          exact zero_notMem_cstr path }
  else .error .foreignKey

/-- Deleting a row: the trigger `DeleteSelfRefs`, then `on delete restrict` for
references to it and `on delete cascade` for its references and outputs. -/
def deleteRow (db : Db) (row : ValidPath) : Except SqlError Db :=
  let refs := db.refs.filter (· ≠ (row.id, row.id))
  if used : ∃ ref ∈ refs, ref.2 = row.id then .error .foreignKey
  else .ok
    { db with
      validPaths := db.validPaths.filter (·.id ≠ row.id)
      refs := refs.filter (·.1 ≠ row.id)
      derivationOutputs := db.derivationOutputs.filter (·.drv ≠ row.id)
      id_le := by
        intro id found
        exact db.id_le id (mem_ids_without.mp found).1
      id_unique := db.id_unique.sublist (filter_sublist.map _)
      path_unique := db.path_unique.sublist (filter_sublist.map _)
      referrer_valid := by
        intro ref found
        obtain ⟨kept, different⟩ := mem_filter.mp found
        have there := db.referrer_valid ref (mem_filter.mp kept).1
        exact mem_ids_without.mpr ⟨there, of_decide_eq_true different⟩
      reference_valid := by
        intro ref found
        obtain ⟨kept, _⟩ := mem_filter.mp found
        have there := db.reference_valid ref (mem_filter.mp kept).1
        exact mem_ids_without.mpr ⟨there, fun deleted => used ⟨ref, kept, deleted⟩⟩
      drv_valid := by
        intro output found
        obtain ⟨kept, different⟩ := mem_filter.mp found
        exact mem_ids_without.mpr ⟨db.drv_valid output kept, of_decide_eq_true different⟩
      path_text := by
        intro text found
        exact db.path_text text ((filter_sublist.map _).subset found)
      output_text := by
        intro output found
        exact db.output_text output (mem_filter.mp found).1 }

/-! ### Queries -/

def stmtQueryPathInfo (db : Db) (path : Bytes) : Option ValidPath :=
  db.validPaths.find? (·.path = cstr path)

def stmtInvalidatePath (db : Db) (path : Bytes) : Except SqlError Db :=
  match db.stmtQueryPathInfo path with
  | none => .ok db
  | some row => db.deleteRow row

/-- The rows of a join with `ValidPaths` on its id. -/
def rowsWithId (db : Db) (id : Nat) : List ValidPath := db.validPaths.filter (·.id = id)

def stmtQueryReferences (db : Db) (referrer : Nat) : List Path :=
  (db.refs.filter (·.1 = referrer)).flatMap fun ref => (db.rowsWithId ref.2).map (·.path)

def stmtQueryReferrers (db : Db) (path : Bytes) : List Path :=
  match db.stmtQueryPathInfo path with
  | none => []
  | some row =>
    (db.refs.filter (·.2 = row.id)).flatMap fun ref => (db.rowsWithId ref.1).map (·.path)

def stmtQueryValidDerivers (db : Db) (path : Bytes) : List Path :=
  (db.derivationOutputs.filter (·.path = cstr path)).flatMap fun output =>
    (db.rowsWithId output.drv).map (·.path)

def stmtQueryDerivationOutputs (db : Db) (drv : Nat) : List Path :=
  (db.derivationOutputs.filter (·.drv = drv)).map (·.path)

end Db

end Guix.LibStore
