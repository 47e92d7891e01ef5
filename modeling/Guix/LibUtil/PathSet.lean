import Guix.LibUtil.Types
import Mathlib.Data.List.Dedup
import Mathlib.Data.List.Sort

/-!
# Sets of paths

A `PathSet` is a `std::set<Path>`. It is the list of its elements in the order in
which a loop over it visits them: sorted by bytes, each once.
-/

namespace Guix

instance strictTotalOrder_uint8 : IsStrictTotalOrder UInt8 (· < ·) where
  irrefl := UInt8.lt_irrefl
  trans _ _ _ := UInt8.lt_trans
  trichotomous _ _ notLt notGt := UInt8.le_antisymm (UInt8.not_lt.mp notGt) (UInt8.not_lt.mp notLt)

/-- `operator<` of `std::string`. -/
instance strictTotalOrder_bytes : IsStrictTotalOrder Bytes (· < ·) where
  irrefl := List.lt_irrefl
  trans _ _ _ := List.lt_trans
  trichotomous _ _ := Std.Trichotomous.trichotomous _ _

def comparePaths (a b : Path) : Prop := ¬ b < a
  deriving Decidable

/-- The set that inserting each path of a list gives. -/
def pathSet (paths : List Path) : List Path := (paths.insertionSort comparePaths).dedup

@[simp] theorem mem_pathSet (paths : List Path) (path : Path) :
    path ∈ pathSet paths ↔ path ∈ paths := by
  simp [pathSet]

theorem nodup_pathSet (paths : List Path) : (pathSet paths).Nodup :=
  List.nodup_dedup _

end Guix
