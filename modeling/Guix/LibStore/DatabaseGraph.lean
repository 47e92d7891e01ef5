import Guix.LibStore.Database

/-!
# The graph in the database

Which paths are valid and which valid path refers to which, and what each statement
does to that graph. Ids do not appear in it.
-/

namespace Guix.LibStore.Db

open List Tables

def Valid (db : Db) (path : Path) : Prop := path ∈ db.paths
  deriving Decidable

def Refers (db : Db) (a b : Path) : Prop :=
  ∃ v ∈ db.validPaths, ∃ w ∈ db.validPaths, v.path = a ∧ w.path = b ∧ (v.id, w.id) ∈ db.refs
  deriving Decidable

variable {db db' : Db} {v w row : ValidPath} {a b path : Path}

/-! ### Rows -/

theorem mem_ids (found : v ∈ db.validPaths) : v.id ∈ db.ids :=
  mem_map_of_mem found

theorem valid_of_mem (found : v ∈ db.validPaths) : db.Valid v.path :=
  mem_map_of_mem found

theorem Valid.exists_row (valid : db.Valid path) : ∃ v ∈ db.validPaths, v.path = path :=
  mem_map.mp valid

theorem eq_of_id_eq (found : v ∈ db.validPaths) (found' : w ∈ db.validPaths) (same : v.id = w.id) :
    v = w :=
  inj_on_of_nodup_map db.id_unique found found' same

theorem eq_of_path_eq (found : v ∈ db.validPaths) (found' : w ∈ db.validPaths)
    (same : v.path = w.path) : v = w :=
  inj_on_of_nodup_map db.path_unique found found' same

theorem Valid.noNul (valid : db.Valid path) : 0 ∉ path :=
  db.path_text path valid

theorem Refers.left_valid (refers : db.Refers a b) : db.Valid a := by
  obtain ⟨v, found, _, _, rfl, _⟩ := refers
  exact valid_of_mem found

theorem Refers.right_valid (refers : db.Refers a b) : db.Valid b := by
  obtain ⟨_, _, w, found, _, rfl, _⟩ := refers
  exact valid_of_mem found

/-! ### Queries -/

theorem stmtQueryPathInfo_eq_some :
    db.stmtQueryPathInfo path = some v ↔ v ∈ db.validPaths ∧ v.path = cstr path := by
  constructor
  · intro query
    exact ⟨mem_of_find?_eq_some query, by simpa using find?_some query⟩
  · rintro ⟨found, named⟩
    cases query : db.stmtQueryPathInfo path with
    | none =>
      have absent := find?_eq_none.mp query v found
      simp [named] at absent
    | some w =>
      have same : w.path = cstr path := by simpa using find?_some query
      rw [eq_of_path_eq (mem_of_find?_eq_some query) found (same.trans named.symm)]

theorem stmtQueryPathInfo_eq_none : db.stmtQueryPathInfo path = none ↔ ¬ db.Valid (cstr path) := by
  rw [Option.eq_none_iff_forall_ne_some, Valid, paths, mem_map, not_exists]
  exact forall_congr' fun v => not_congr stmtQueryPathInfo_eq_some

@[simp] theorem mem_rowsWithId (id : Nat) : v ∈ db.rowsWithId id ↔ v ∈ db.validPaths ∧ v.id = id := by
  simp [rowsWithId]

theorem mem_stmtQueryReferences (found : v ∈ db.validPaths) :
    path ∈ db.stmtQueryReferences v.id ↔ db.Refers v.path path := by
  simp only [stmtQueryReferences, mem_flatMap, mem_filter, mem_map, mem_rowsWithId,
    decide_eq_true_eq]
  constructor
  · rintro ⟨⟨referrer, reference⟩, ⟨ref, rfl⟩, w, ⟨found', rfl⟩, rfl⟩
    exact ⟨v, found, w, found', rfl, rfl, ref⟩
  · rintro ⟨v', there, w, found', same, named, ref⟩
    rw [eq_of_path_eq there found same] at ref
    exact ⟨(v.id, w.id), ⟨ref, rfl⟩, w, ⟨found', rfl⟩, named⟩

theorem mem_stmtQueryReferrers : a ∈ db.stmtQueryReferrers path ↔ db.Refers a (cstr path) := by
  simp only [stmtQueryReferrers]
  split
  · next query =>
    have invalid := stmtQueryPathInfo_eq_none.mp query
    simp only [not_mem_nil, false_iff]
    intro refers
    exact invalid refers.right_valid
  · next w query =>
    obtain ⟨found, named⟩ := stmtQueryPathInfo_eq_some.mp query
    simp only [mem_flatMap, mem_filter, mem_map, mem_rowsWithId, decide_eq_true_eq]
    constructor
    · rintro ⟨⟨referrer, reference⟩, ⟨ref, rfl⟩, v, ⟨found', rfl⟩, rfl⟩
      exact ⟨v, found', w, found, rfl, named, ref⟩
    · rintro ⟨v, found', w', there, named', same, ref⟩
      rw [eq_of_path_eq there found (same.trans named.symm)] at ref
      exact ⟨(v.id, w.id), ⟨ref, rfl⟩, v, ⟨found', rfl⟩, named'⟩

/-! ### What the statements do to the graph -/

theorem refers_iff_ref : db.Refers a b ↔ ∃ ref ∈ db.refs,
    (∃ v ∈ db.validPaths, v.id = ref.1 ∧ v.path = a) ∧ ∃ w ∈ db.validPaths, w.id = ref.2 ∧ w.path = b := by
  constructor
  · rintro ⟨v, found, w, found', named, named', ref⟩
    exact ⟨_, ref, ⟨v, found, rfl, named⟩, w, found', rfl, named'⟩
  · rintro ⟨⟨_, _⟩, ref, ⟨v, found, rfl, named⟩, w, found', rfl, named'⟩
    exact ⟨v, found, w, found', named, named', ref⟩

theorem stmtRegisterValidPath_graph {hash : Bytes} {time id : Nat} {deriver : Option Path}
    {narSize : Option Nat}
    (ok : db.stmtRegisterValidPath path hash time deriver narSize = .ok (db', id)) :
    (∀ p, db'.Valid p ↔ db.Valid p ∨ p = cstr path) ∧ (∀ a b, db'.Refers a b ↔ db.Refers a b) ∧
      id ∈ db'.ids := by
  unfold stmtRegisterValidPath at ok
  split at ok
  · cases ok
  · next unknown =>
    injection ok with pair
    injection pair with same sameId
    subst same sameId
    refine ⟨?_, ?_, ?_⟩
    · intro p
      simp [Valid, paths]
    · -- the new id is in no row of `Refs`
      intro a b
      constructor
      · intro refers
        obtain ⟨v, found, w, found', rfl, rfl, ref⟩ := refers
        have old : v.id ≤ db.sequence := db.id_le v.id (db.referrer_valid _ ref)
        have old' : w.id ≤ db.sequence := db.id_le w.id (db.reference_valid _ ref)
        simp only [mem_append, mem_singleton] at found found'
        rcases found with found | rfl
        · rcases found' with found' | rfl
          · exact ⟨v, found, w, found', rfl, rfl, ref⟩
          · exact absurd old' (Nat.not_succ_le_self _)
        · exact absurd old (Nat.not_succ_le_self _)
      · rintro ⟨v, found, w, found', rfl, rfl, ref⟩
        exact ⟨v, mem_append_left _ found, w, mem_append_left _ found', rfl, rfl, ref⟩
    · simp [ids]

theorem stmtUpdatePathInfo_graph (db : Db) (path : Path) (narSize : Option Nat) (hash : Bytes) :
    (∀ p, (db.stmtUpdatePathInfo narSize hash path).Valid p ↔ db.Valid p) ∧
      ∀ a b, (db.stmtUpdatePathInfo narSize hash path).Refers a b ↔ db.Refers a b := by
  constructor
  · intro p
    simp only [Valid, paths, stmtUpdatePathInfo, paths_updateRow]
  · intro a b
    rw [refers_iff_ref, refers_iff_ref]
    simp [stmtUpdatePathInfo]

theorem stmtAddReference_graph (found : v ∈ db.validPaths) (found' : w ∈ db.validPaths) :
    ∃ db', db.stmtAddReference v.id w.id = .ok db' ∧ db'.validPaths = db.validPaths ∧
      ∀ a b, db'.Refers a b ↔ db.Refers a b ∨ (a = v.path ∧ b = w.path) := by
  unfold stmtAddReference
  rw [dif_pos ⟨mem_ids found, mem_ids found'⟩]
  refine ⟨_, rfl, rfl, ?_⟩
  intro a b
  constructor
  · intro refers
    obtain ⟨x, there, y, there', rfl, rfl, ref⟩ := refers
    rcases mem_append.mp ref with old | new
    · exact .inl ⟨x, there, y, there', rfl, rfl, (mem_filter.mp old).1⟩
    · obtain ⟨sameId, sameId'⟩ := Prod.mk.inj (mem_singleton.mp new)
      rw [eq_of_id_eq there found sameId, eq_of_id_eq there' found' sameId']
      exact .inr ⟨rfl, rfl⟩
  · intro known
    rcases known with refers | ⟨rfl, rfl⟩
    · obtain ⟨x, there, y, there', rfl, rfl, ref⟩ := refers
      refine ⟨x, there, y, there', rfl, rfl, ?_⟩
      by_cases again : (x.id, y.id) = (v.id, w.id)
      · exact mem_append_right _ (by simp [again])
      · exact mem_append_left _ (mem_filter.mpr ⟨ref, decide_eq_true again⟩)
    · exact ⟨v, found, w, found', rfl, rfl, mem_append_right _ (mem_singleton_self _)⟩

theorem stmtAddDerivationOutput_tables {drv : Nat} {id : Bytes}
    (ok : db.stmtAddDerivationOutput drv id path = .ok db') :
    db'.validPaths = db.validPaths ∧ db'.refs = db.refs := by
  unfold stmtAddDerivationOutput at ok
  split at ok
  · cases ok
    exact ⟨rfl, rfl⟩
  · cases ok

/-! ### Databases with fewer paths -/

/-- `db'` is `db` without some of the valid paths. -/
structure Shrinks (db db' : Db) : Prop where
  rows : ∀ v ∈ db'.validPaths, v ∈ db.validPaths
  refs : ∀ ref, ref ∈ db'.refs ↔ ref ∈ db.refs ∧ ref.1 ∈ db'.ids ∧ ref.2 ∈ db'.ids
  outputs : ∀ output, output ∈ db'.derivationOutputs ↔
    output ∈ db.derivationOutputs ∧ output.drv ∈ db'.ids

theorem Shrinks.refl (db : Db) : db.Shrinks db where
  rows _ found := found
  refs ref := by
    constructor
    · intro found
      exact ⟨found, db.referrer_valid ref found, db.reference_valid ref found⟩
    · intro found
      exact found.1
  outputs output := by
    constructor
    · intro found
      exact ⟨found, db.drv_valid output found⟩
    · intro found
      exact found.1

theorem Shrinks.ids (shrinks : db.Shrinks db') {id : Nat} (found : id ∈ db'.ids) : id ∈ db.ids := by
  obtain ⟨v, there, rfl⟩ := mem_map.mp found
  exact mem_ids (shrinks.rows v there)

theorem Shrinks.trans {db'' : Db} (first : db.Shrinks db') (second : db'.Shrinks db'') : db.Shrinks db'' where
  rows v found := first.rows v (second.rows v found)
  refs ref := by
    rw [second.refs, first.refs]
    constructor
    · intro found
      exact ⟨found.1.1, found.2⟩
    · intro found
      exact ⟨⟨found.1, second.ids found.2.1, second.ids found.2.2⟩, found.2⟩
  outputs output := by
    rw [second.outputs, first.outputs]
    constructor
    · intro found
      exact ⟨found.1.1, found.2⟩
    · intro found
      exact ⟨⟨found.1, second.ids found.2⟩, found.2⟩

theorem Shrinks.valid (shrinks : db.Shrinks db') (valid : db'.Valid path) : db.Valid path := by
  obtain ⟨v, found, rfl⟩ := valid.exists_row
  exact valid_of_mem (shrinks.rows v found)

theorem Shrinks.row_of_valid (shrinks : db.Shrinks db') (found : v ∈ db.validPaths) (valid : db'.Valid v.path) :
    v ∈ db'.validPaths := by
  obtain ⟨w, there, same⟩ := valid.exists_row
  rw [← eq_of_path_eq (shrinks.rows w there) found same]
  exact there

theorem Shrinks.refers_iff (shrinks : db.Shrinks db') :
    db'.Refers a b ↔ db.Refers a b ∧ db'.Valid a ∧ db'.Valid b := by
  constructor
  · intro refers
    obtain ⟨v, found, w, found', rfl, rfl, ref⟩ := refers
    exact ⟨⟨v, shrinks.rows v found, w, shrinks.rows w found', rfl, rfl, ((shrinks.refs _).mp ref).1⟩,
      valid_of_mem found, valid_of_mem found'⟩
  · rintro ⟨⟨v, found, w, found', rfl, rfl, ref⟩, valid, valid'⟩
    have there := shrinks.row_of_valid found valid
    have there' := shrinks.row_of_valid found' valid'
    exact ⟨v, there, w, there', rfl, rfl, (shrinks.refs _).mpr ⟨ref, mem_ids there, mem_ids there'⟩⟩

theorem Shrinks.of_deleteRow {row : ValidPath} (ok : db.deleteRow row = .ok db') :
    db.Shrinks db' := by
  dsimp only [deleteRow] at ok
  split at ok
  · cases ok
  · next unused =>
    injection ok with same
    subst same
    refine ⟨?_, ?_, ?_⟩
    · intro v found
      exact (mem_filter.mp found).1
    · intro ref
      constructor
      · intro found
        obtain ⟨notSelf, different⟩ := mem_filter.mp found
        have old := (mem_filter.mp notSelf).1
        exact ⟨old, mem_ids_without.mpr ⟨db.referrer_valid ref old, of_decide_eq_true different⟩,
          mem_ids_without.mpr ⟨db.reference_valid ref old, fun used => unused ⟨ref, notSelf, used⟩⟩⟩
      · intro found
        obtain ⟨old, left, _⟩ := found
        have different := (mem_ids_without.mp left).2
        refine mem_filter.mpr ⟨mem_filter.mpr ⟨old, ?_⟩, by simpa using different⟩
        simp only [ne_eq, Prod.ext_iff, decide_eq_true_eq]
        intro self
        exact different self.1
    · intro output
      constructor
      · intro found
        obtain ⟨old, different⟩ := mem_filter.mp found
        exact ⟨old, mem_ids_without.mpr ⟨db.drv_valid output old, of_decide_eq_true different⟩⟩
      · intro found
        exact mem_filter.mpr ⟨found.1, by simpa using (mem_ids_without.mp found.2).2⟩

/-! ### Deleting a row -/

theorem deleteRow_graph (found : row ∈ db.validPaths) (ok : db.deleteRow row = .ok db') :
    (∀ p, db'.Valid p ↔ db.Valid p ∧ p ≠ row.path) ∧
      (∀ a b, db'.Refers a b ↔ db.Refers a b ∧ a ≠ row.path) ∧
      ∀ a, db.Refers a row.path → a = row.path := by
  have shrinks := Shrinks.of_deleteRow ok
  dsimp only [deleteRow] at ok
  split at ok
  · cases ok
  · next unused =>
    injection ok with same
    have unreferred : ∀ a, db.Refers a row.path → a = row.path := by
      intro a refers
      obtain ⟨v, there, w, there', rfl, named, ref⟩ := refers
      rw [eq_of_path_eq there' found named] at ref
      by_cases self : v.id = row.id
      · rw [eq_of_id_eq there found self]
      · exact absurd ⟨(v.id, row.id), mem_filter.mpr ⟨ref, by simpa using self⟩, rfl⟩ unused
    have valid (p : Path) : db'.Valid p ↔ db.Valid p ∧ p ≠ row.path := by
      subst same
      simp only [Valid, paths, mem_map, mem_filter, ne_eq, decide_not,
        Bool.not_eq_eq_eq_not, Bool.not_true, decide_eq_false_iff_not]
      constructor
      · rintro ⟨v, ⟨there, different⟩, rfl⟩
        refine ⟨⟨v, there, rfl⟩, ?_⟩
        intro same
        exact different (by rw [eq_of_path_eq there found same])
      · intro valid
        obtain ⟨⟨v, there, rfl⟩, different⟩ := valid
        refine ⟨v, ⟨there, ?_⟩, rfl⟩
        intro same
        exact different (by rw [eq_of_id_eq there found same])
    refine ⟨valid, ?_, unreferred⟩
    intro a b
    rw [shrinks.refers_iff, valid, valid]
    constructor
    · intro refers
      exact ⟨refers.1, refers.2.1.2⟩
    · intro refers
      obtain ⟨refers, different⟩ := refers
      refine ⟨refers, ⟨refers.left_valid, different⟩, refers.right_valid, ?_⟩
      -- a reference to the deleted row would come from the row itself
      rintro rfl
      exact different (unreferred a refers)

theorem deleteRow_ok (found : row ∈ db.validPaths)
    (unreferred : ∀ a, db.Refers a row.path → a = row.path) : ∃ db', db.deleteRow row = .ok db' := by
  dsimp only [deleteRow]
  split
  · next used =>
    obtain ⟨ref, kept, same⟩ := used
    obtain ⟨there, notSelf⟩ := mem_filter.mp kept
    obtain ⟨v, known, sameId⟩ := mem_map.mp (db.referrer_valid ref there)
    have self : v.path = row.path := by
      apply unreferred
      refine ⟨v, known, row, found, rfl, rfl, ?_⟩
      rw [sameId, ← same]
      exact there
    rw [eq_of_path_eq known found self] at sameId
    simp [Prod.ext_iff, sameId, same] at notSelf
  · exact ⟨_, rfl⟩

end Guix.LibStore.Db
