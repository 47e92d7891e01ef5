import Guix.LibStore.LocalStore
import Guix.LibUtil.CanonPath

/-!
# Verifying the store

`verifyStore` and `verifyPath` of `local-store.cc`. The names that `readDirectory` finds
in the store are given, and so are the functions that build and hash files. Messages
are left out. A recursive call that runs out of `fuel` throws `outOfFuel`.
-/

namespace Guix.LibStore

open MonadExcept

inductive VerifyError
  | store (error : Error)
  | path (error : LibUtil.PathError)
  deriving DecidableEq

structure VerifyConfig where
  nixStore : Path
  /-- The set `store` of names. -/
  store : List Bytes
  repair : Bool := false
  repairPath : Path → DbM PUnit
  hashPath : HashType → Path → Except Error (Hash × Nat)

structure VerifyState where
  db : Db
  done : Finset Path := ∅
  validPaths : List Path := []
  errors : Bool := false

abbrev VerifyM := EStateM VerifyError VerifyState

def onDb {α : Type} (x : DbM α) : VerifyM α := fun s =>
  match x s.db with
  | .ok a db => .ok a { s with db }
  | .error e db => .error (.store e) { s with db }

def setErrors : VerifyM PUnit := modify fun s => { s with errors := true }

/-- The loop over the referrers, which computes `canInvalidate`. -/
def verifyReferrers (visit : Path → VerifyM PUnit) (path : Path) : List Path → Bool → VerifyM Bool
  | [], canInvalidate => return canInvalidate
  | i :: rest, canInvalidate => do
    if i ≠ path then do
      visit i
      let s ← get
      verifyReferrers visit path rest (canInvalidate && !s.validPaths.contains i)
    else verifyReferrers visit path rest canInvalidate

def verifyPath (cfg : VerifyConfig) : Nat → Path → VerifyM PUnit
  | 0, _ => throw (.store .outOfFuel)
  | fuel + 1, path => do
    let s ← get
    if path ∈ s.done then pure ⟨⟩
    else do
      set { s with done := insert path s.done }
      if !isStorePath cfg.nixStore path then onDb (invalidatePath path)
      else do
        let name ← ofExcept ((LibUtil.baseNameOf path).mapError .path)
        if name ∉ cfg.store then do
          let referrers ← ofExcept ((s.db.queryReferrers cfg.nixStore path).mapError .store)
          let canInvalidate ← verifyReferrers (verifyPath cfg fuel) path referrers true
          if canInvalidate then onDb (invalidatePath path)
          else if cfg.repair then tryCatch (onDb (cfg.repairPath path)) fun _ => setErrors
          else setErrors
        else modify fun s => { s with validPaths := path :: s.validPaths }

/-- What is done with a path whose contents have the given hash and size; hashes are compared
by their bytes. -/
def verifyHash (cfg : VerifyConfig) (path : Path) (info : ValidPathInfo) (current : Hash × Nat) :
    VerifyM PUnit :=
  let nullHash := Hash.ofType .sha256
  if info.hash.hash ≠ nullHash.hash ∧ info.hash.hash ≠ current.1.hash then
    if cfg.repair then onDb (cfg.repairPath path) else setErrors
  else if info.hash.hash = nullHash.hash ∨ info.narSize = 0 then
    onDb (updatePathInfo { info with
      hash := if info.hash.hash = nullHash.hash then current.1 else info.hash
      narSize := if info.narSize = 0 then current.2 else info.narSize })
  else pure ⟨⟩

/-- The body of the loop that checks the content hashes. -/
def verifyContents (cfg : VerifyConfig) (path : Path) : VerifyM PUnit :=
  tryCatch (do
    let s ← get
    let info ← ofExcept ((s.db.queryPathInfo cfg.nixStore path).mapError .store)
    let current ← ofExcept ((cfg.hashPath info.hash.type path).mapError .store)
    verifyHash cfg path info current)
    fun _ => setErrors

/-- The calls of `verifyPath` on the stack are for different valid paths, so that this fuel is
enough. -/
def verifyStore (cfg : VerifyConfig) (checkContents : Bool) : VerifyM Bool := do
  let s ← get
  forM (pathSet s.db.paths) (verifyPath cfg (s.db.paths.length + 1))
  if checkContents then do
    let s ← get
    forM (pathSet s.validPaths) (verifyContents cfg)
  let s ← get
  return s.errors

end Guix.LibStore
