import Guix.LibStore.Closure
import Guix.LibStore.LocalStoreCorrectness

/-!
# What the queries answer

The queries of the local store in terms of the graph in its database, and that they
return if the database is one that the store itself has written.
-/

namespace Guix.LibStore

open List Fallible Db

/-- `drv` is a valid derivation with the output path `output`. -/
def Db.Derives (db : Db) (drv output : Path) : Prop :=
  ∃ v ∈ db.validPaths, v.path = drv ∧ ∃ d ∈ db.derivationOutputs, d.drv = v.id ∧ d.path = output

/-- `path` is valid and was registered with this deriver. -/
def Db.HasDeriver (db : Db) (path deriver : Path) : Prop :=
  ∃ v ∈ db.validPaths, v.path = path ∧ v.deriver.getD [] = deriver

/-- What queries need of the database to succeed. -/
structure Db.Readable (nixStore : Path) (db : Db) : Prop where
  storePath : ∀ v ∈ db.validPaths, isStorePath nixStore v.path = true
  hash : ∀ v ∈ db.validPaths, ∃ hash, parseHashField v.path v.hash = .ok hash

variable {db : Db} {path i nixStore : Path}

/-! ### Answers -/

theorem queryReferrers_ok {referrers : List Path}
    (ok : db.queryReferrers nixStore path = .ok referrers) :
    ∀ a, a ∈ referrers ↔ db.Refers a (cstr path) := by
  obtain ⟨_, _, ok⟩ := bind_ok.mp ok
  cases ok
  exact fun a => mem_queryReferrers_ db a path

theorem queryDeriver_ok {deriver : Path} (ok : db.queryDeriver nixStore path = .ok deriver) :
    db.HasDeriver (cstr path) deriver := by
  obtain ⟨info, asked, ok⟩ := bind_ok.mp ok
  cases ok
  obtain ⟨_, row, found, named, isDeriver, _⟩ := queryPathInfo_ok nixStore asked
  exact ⟨row, found, named, isDeriver.symm⟩

theorem Db.HasDeriver.unique {a b : Path} (first : db.HasDeriver path a) (second : db.HasDeriver path b) :
    a = b := by
  obtain ⟨v, found, named, rfl⟩ := first
  obtain ⟨w, found', named', rfl⟩ := second
  rw [eq_of_path_eq found found' (named.trans named'.symm)]

theorem Db.Derives.text {drv output : Path} (derives : db.Derives drv output) : cstr output = output := by
  obtain ⟨_, _, _, d, found, _, rfl⟩ := derives
  exact cstr_eq_self (db.output_text d found)

theorem mem_queryDerivationOutputs {outputs : List Path}
    (ok : db.queryDerivationOutputs path = .ok outputs) :
    ∀ j, j ∈ outputs ↔ db.Derives (cstr path) j := by
  obtain ⟨id, query, ok⟩ := bind_ok.mp ok
  cases ok
  obtain ⟨v, found, named, rfl⟩ := queryValidPathId_ok query
  intro j
  simp only [mem_pathSet, stmtQueryDerivationOutputs, mem_map, mem_filter, decide_eq_true_eq]
  constructor
  · rintro ⟨d, ⟨output, same⟩, rfl⟩
    exact ⟨v, found, named, d, output, same, rfl⟩
  · rintro ⟨w, found', named', d, output, same, rfl⟩
    rw [eq_of_path_eq found' found (named'.trans named.symm)] at same
    exact ⟨d, ⟨output, same⟩, rfl⟩

theorem mem_queryValidDerivers {derivers : List Path}
    (ok : db.queryValidDerivers nixStore path = .ok derivers) :
    ∀ j, j ∈ derivers ↔ db.Derives j (cstr path) := by
  obtain ⟨_, _, ok⟩ := bind_ok.mp ok
  cases ok
  intro j
  simp only [mem_pathSet, stmtQueryValidDerivers, mem_flatMap, mem_filter,
    mem_map, mem_rowsWithId, decide_eq_true_eq]
  constructor
  · rintro ⟨d, ⟨output, outputPath⟩, v, ⟨found, same⟩, rfl⟩
    exact ⟨v, found, rfl, d, output, same.symm, outputPath⟩
  · rintro ⟨v, found, rfl, d, output, same, outputPath⟩
    exact ⟨d, ⟨output, outputPath⟩, v, ⟨found, same.symm⟩, rfl⟩

theorem isDerivedFrom_ok {derived : Bool} (text : cstr i = i)
    (ok : db.isDerivedFrom nixStore path i = .ok derived) : derived = true ↔ db.HasDeriver i path := by
  unfold isDerivedFrom at ok
  split at ok
  · obtain ⟨deriver, query, rfl⟩ := map_ok.mp ok
    have known := queryDeriver_ok query
    rw [text] at known
    simp only [decide_eq_true_eq]
    constructor
    · intro same
      exact same ▸ known
    · intro registered
      exact Db.HasDeriver.unique known registered
  · next invalid =>
    cases ok
    simp only [Bool.false_eq_true, false_iff]
    rintro ⟨v, found, rfl, _⟩
    exact invalid ((isValidPath_iff db v.path).mpr (by rw [text]; exact valid_of_mem found))

theorem mem_outputsDerivedFrom (outputs derived : List Path) (texts : ∀ j ∈ outputs, cstr j = j)
    (ok : db.outputsDerivedFrom nixStore path outputs = .ok derived) :
    ∀ j, j ∈ derived ↔ j ∈ outputs ∧ db.HasDeriver j path := by
  induction outputs generalizing derived with
  | nil =>
    cases ok
    simp
  | cons k outputs ih =>
    obtain ⟨isDerived, head, ok⟩ := bind_ok.mp ok
    obtain ⟨rest, tail, ok⟩ := bind_ok.mp ok
    cases ok
    have tailSpec := ih rest (forall_mem_cons.mp texts).2 tail
    have headSpec := isDerivedFrom_ok (texts k mem_cons_self) head
    intro j
    have listed : j ∈ (if isDerived then k :: rest else rest) ↔ (j = k ∧ isDerived = true) ∨ j ∈ rest := by
      cases isDerived <;> simp
    rw [listed, headSpec, tailSpec, mem_cons, or_and_right]
    apply or_congr_left
    apply and_congr_right
    rintro rfl
    rfl

/-! ### Queries return -/

theorem queryPathInfo_returns (readable : db.Readable nixStore) (text : cstr path = path)
    (valid : db.Valid path) : ∃ info, db.queryPathInfo nixStore path = .ok info := by
  obtain ⟨v, found, rfl⟩ := valid.exists_row
  obtain ⟨hash, parsed⟩ := readable.hash v found
  have query : db.stmtQueryPathInfo v.path = some v :=
    stmtQueryPathInfo_eq_some.mpr ⟨found, text.symm⟩
  rw [queryPathInfo, assertStorePath, if_pos (readable.storePath v found), query]
  simp only [parsed]
  exact ⟨_, rfl⟩

theorem queryReferrers_returns (readable : db.Readable nixStore)
    (valid : db.Valid path) : ∃ referrers, db.queryReferrers nixStore path = .ok referrers := by
  obtain ⟨v, found, rfl⟩ := valid.exists_row
  rw [queryReferrers, assertStorePath, if_pos (readable.storePath v found)]
  exact ⟨_, rfl⟩

theorem queryValidDerivers_returns (readable : db.Readable nixStore) (valid : db.Valid path) :
    ∃ derivers, db.queryValidDerivers nixStore path = .ok derivers := by
  obtain ⟨v, found, rfl⟩ := valid.exists_row
  rw [queryValidDerivers, assertStorePath, if_pos (readable.storePath v found)]
  exact ⟨_, rfl⟩

theorem queryDerivationOutputs_returns (text : cstr path = path) (valid : db.Valid path) :
    ∃ outputs, db.queryDerivationOutputs path = .ok outputs := by
  obtain ⟨v, found, rfl⟩ := valid.exists_row
  have query : db.stmtQueryPathInfo v.path = some v :=
    stmtQueryPathInfo_eq_some.mpr ⟨found, text.symm⟩
  rw [queryDerivationOutputs, queryValidPathId, query]
  exact ⟨_, rfl⟩

theorem outputsDerivedFrom_returns (readable : db.Readable nixStore) (path : Path)
    (outputs : List Path) (texts : ∀ j ∈ outputs, cstr j = j) :
    ∃ derived, db.outputsDerivedFrom nixStore path outputs = .ok derived := by
  induction outputs with
  | nil => exact ⟨[], rfl⟩
  | cons j outputs ih =>
    have text := texts j mem_cons_self
    obtain ⟨rest, tail⟩ := ih (forall_mem_cons.mp texts).2
    have head : ∃ derived, db.isDerivedFrom nixStore path j = .ok derived := by
      unfold isDerivedFrom
      split
      · next valid =>
        rw [isValidPath_iff, text] at valid
        obtain ⟨info, asked⟩ := queryPathInfo_returns readable text valid
        rw [queryDeriver, asked]
        exact ⟨_, rfl⟩
      · exact ⟨false, rfl⟩
    obtain ⟨derived, asked⟩ := head
    rw [outputsDerivedFrom, asked, tail]
    exact ⟨_, rfl⟩

end Guix.LibStore
