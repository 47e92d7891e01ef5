import Guix.LibStore.LocalStore

/-!
# Closures of store paths

`computeFSClosure` of `misc.cc`, asking the local store. The set `paths` is both the
result and what tells a recursive call where the search has been. A call that runs out
of `fuel` throws `outOfFuel`.
-/

namespace Guix.LibStore

/-- Whether an output is valid and names `path` as its deriver. -/
def Db.isDerivedFrom (db : Db) (nixStore path i : Path) : Except Error Bool :=
  if db.isValidPath i then (db.queryDeriver nixStore i).map fun deriver => decide (deriver = path)
  else .ok false

def Db.outputsDerivedFrom (db : Db) (nixStore path : Path) : List Path → Except Error (List Path)
  | [] => .ok []
  | i :: outputs => do
    let derived ← db.isDerivedFrom nixStore path i
    let rest ← db.outputsDerivedFrom nixStore path outputs
    return if derived then i :: rest else rest

/-- The arguments that select the edges to follow. -/
structure ClosureFlags where
  flipDirection : Bool := false
  includeOutputs : Bool := false
  includeDerivers : Bool := false

namespace ClosureFlags

variable (flags : ClosureFlags) (db : Db) (nixStore path : Path)

/-- What `edges` gets if a flag is set. -/
def edgesIf (flag : Bool) (query : Except Error (List Path)) : Except Error (List Path) :=
  if flag then query else .ok []

/-- The set `edges` if the direction is flipped. -/
def flippedEdges : Except Error (List Path) := do
  let referrers ← db.queryReferrers nixStore path
  let derivers ← edgesIf flags.includeOutputs (db.queryValidDerivers nixStore path)
  let derived ← edgesIf (flags.includeDerivers && isDerivation path) do
    let outputs ← db.queryDerivationOutputs path
    db.outputsDerivedFrom nixStore path outputs
  return pathSet (referrers ++ derivers ++ derived)

def forwardEdges : Except Error (List Path) := do
  let references ← db.queryReferences nixStore path
  let outputs ← edgesIf (flags.includeOutputs && isDerivation path) do
    let outputs ← db.queryDerivationOutputs path
    return outputs.filter db.isValidPath
  let derivers ← edgesIf flags.includeDerivers do
    let deriver ← db.queryDeriver nixStore path
    return if db.isValidPath deriver then [deriver] else []
  return pathSet (references ++ outputs ++ derivers)

def edges : Except Error (List Path) :=
  if flags.flipDirection then flags.flippedEdges db nixStore path
  else flags.forwardEdges db nixStore path

end ClosureFlags

def computeFSClosure (db : Db) (nixStore : Path) (flags : ClosureFlags) :
    Nat → Path → EStateM Error (Finset Path) PUnit
  | 0, _ => throw .outOfFuel
  | fuel + 1, path => do
    let paths ← get
    if path ∈ paths then pure ⟨⟩
    else do
      set (insert path paths)
      let edges ← MonadExcept.ofExcept (flags.edges db nixStore path)
      forM edges (computeFSClosure db nixStore flags fuel)

end Guix.LibStore
