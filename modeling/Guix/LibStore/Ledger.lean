import Guix.LibStore.DatabaseGraph
import Guix.LibStore.LocalStore

/-!
# What the database is for

A `Ledger` says which paths are valid and which references were registered for them,
with no ids, rows or constraints. The operations of the store are given here by what
they are meant to do; `LocalStoreCorrectness` shows that the database does the same.
-/

namespace Guix.LibStore

@[ext]
structure Ledger where
  valid : Set Path
  refs : Set (Path × Path)

namespace Ledger

def empty : Ledger := ⟨∅, ∅⟩

/-- Everything referred to, and everything that refers, is valid. -/
def Closed (l : Ledger) : Prop := ∀ a b, (a, b) ∈ l.refs → a ∈ l.valid ∧ b ∈ l.valid

def add (l : Ledger) (paths : Set Path) (refs : Set (Path × Path)) : Ledger :=
  ⟨l.valid ∪ paths, l.refs ∪ refs⟩

/-- The paths of a batch, as the database stores them. -/
def pathsOf (infos : List ValidPathInfo) : Set Path := {p | ∃ i ∈ infos, p = cstr i.path}

def refsOf (infos : List ValidPathInfo) : Set (Path × Path) :=
  {ref | ∃ i ∈ infos, ∃ r ∈ i.references, ref = (cstr i.path, cstr r)}

def register (l : Ledger) (infos : List ValidPathInfo) : Ledger :=
  l.add (pathsOf infos) (refsOf infos)

def remove (l : Ledger) (path : Path) : Ledger :=
  ⟨{p ∈ l.valid | p ≠ path}, {ref ∈ l.refs | ref.1 ≠ path}⟩

theorem add_add (l : Ledger) (paths paths' : Set Path) (refs refs' : Set (Path × Path)) :
    (l.add paths refs).add paths' refs' = l.add (paths ∪ paths') (refs ∪ refs') := by
  simp [add, Set.union_assoc]

@[simp] theorem add_empty (l : Ledger) : l.add ∅ ∅ = l := by
  simp [add]

@[simp] theorem pathsOf_nil : pathsOf [] = ∅ := by
  simp [pathsOf]

@[simp] theorem refsOf_nil : refsOf [] = ∅ := by
  simp [refsOf]

theorem pathsOf_append (infos : List ValidPathInfo) (info : ValidPathInfo) :
    pathsOf (infos ++ [info]) = pathsOf infos ∪ {cstr info.path} := by
  ext p
  simp [pathsOf, or_and_right, exists_or, or_comm]

theorem refsOf_append (infos : List ValidPathInfo) (info : ValidPathInfo) :
    refsOf (infos ++ [info]) =
      refsOf infos ∪ {ref | ∃ r ∈ info.references, ref = (cstr info.path, cstr r)} := by
  ext ref
  simp [refsOf, or_and_right, exists_or]

end Ledger

/-- The ledger that a database stands for. -/
def Db.ledger (db : Db) : Ledger := ⟨{p | db.Valid p}, {ref | db.Refers ref.1 ref.2}⟩

theorem Db.ledger_eq_add (db db' : Db) (paths : Set Path) (refs : Set (Path × Path))
    (valid : ∀ p, db'.Valid p ↔ db.Valid p ∨ p ∈ paths)
    (refers : ∀ a b, db'.Refers a b ↔ db.Refers a b ∨ (a, b) ∈ refs) :
    db'.ledger = db.ledger.add paths refs := by
  ext p
  · exact valid p
  · exact refers p.1 p.2

theorem Db.ledger_eq_of_rows (db db' : Db) (rows : db'.validPaths = db.validPaths)
    (refs : db'.refs = db.refs) : db'.ledger = db.ledger := by
  simp only [Db.ledger, Db.Valid, Tables.paths, Db.Refers, rows, refs]

theorem Db.ledger_closed (db : Db) : db.ledger.Closed := by
  intro a b refers
  exact ⟨Db.Refers.left_valid refers, Db.Refers.right_valid refers⟩

end Guix.LibStore
