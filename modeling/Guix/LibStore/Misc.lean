import Guix.LibUtil.PathSet
import Mathlib.Data.Finset.Basic

/-!
# Topological sort of store paths

`dfsVisit` and `topoSortPaths` of `misc.cc`. The store is given by what they ask it:
which paths are valid, and the references of a valid path, which is a query that may
throw. A recursive call that runs out of `fuel` throws `outOfFuel`.
-/

namespace Guix.LibStore

inductive SortError (ε : Type)
  | cycle (path : Path)
  | store (error : ε)
  | outOfFuel
  deriving DecidableEq, Repr

structure Dfs where
  visited : Finset Path := ∅
  sorted : List Path := []
  parents : Finset Path := ∅

variable {ε : Type} (isValidPath : Path → Bool) (queryReferences : Path → Except ε (List Path))

def referencesOf (path : Path) : Except (SortError ε) (List Path) :=
  if isValidPath path then (queryReferences path).mapError .store else .ok []

def Dfs.enter (s : Dfs) (path : Path) : Dfs :=
  { s with visited := insert path s.visited, parents := insert path s.parents }

def Dfs.leave (s : Dfs) (path : Path) : Dfs :=
  { s with sorted := path :: s.sorted, parents := s.parents.erase path }

def dfsVisit (paths : List Path) : Nat → Path → EStateM (SortError ε) Dfs PUnit
  | 0, _ => throw .outOfFuel
  | fuel + 1, path => do
    let s ← get
    if path ∈ s.parents then throw (.cycle path)
    else if path ∈ s.visited then pure ⟨⟩
    else do
      modify (Dfs.enter · path)
      let references ← MonadExcept.ofExcept (referencesOf isValidPath queryReferences path)
      forM references fun i =>
        -- not into itself, and not into paths that are not to be sorted
        if i ≠ path ∧ i ∈ paths then dfsVisit paths fuel i else pure ⟨⟩
      modify (Dfs.leave · path)

/-- The visits on the stack are of different paths, so that this fuel is enough. -/
def topoSortPaths (paths : List Path) : Except (SortError ε) (List Path) :=
  match forM paths (dfsVisit isValidPath queryReferences paths (paths.length + 1)) {} with
  | .ok _ s => .ok s.sorted
  | .error e _ => .error e

end Guix.LibStore
