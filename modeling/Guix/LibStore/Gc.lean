import Guix.Lib.Hoare
import Guix.LibStore.LocalStore

/-!
# The garbage collector

`collectGarbage` of `gc.cc` and what it calls, on the database and on the entries of
the store directory. The roots have been found and the locks are held, so that nobody
else changes the store.

System calls fail, and the user interrupts, when `Os` says so; both are indexed by a
clock that each of them advances. `log` is kept for specification only. The output to
the user and `removeUnusedLinks`, which only touches `.links`, are left out.
-/

namespace Guix.LibStore.Gc

inductive Errno
  | ENOENT
  | ENOTDIR
  | ENOSPC
  | EXDEV
  | EBUSY
  | EINVAL
  | other (code : Nat)
  deriving DecidableEq, Repr

/-- What the collector finds outside the database. `readdir` returns file names, and
`random_shuffle` the same entries in another order. -/
structure Os where
  failure : Nat → Option Errno
  interrupted : Nat → Bool
  bytesFreed : Nat → Nat
  isDir : Path → Bool
  readdir : List Bytes
  random_shuffle : List Path → List Path
  readdir_name : ∀ name ∈ readdir, name ≠ [] ∧ 0 ∉ name ∧ slash ∉ name
  shuffle_perm : ∀ entries, (random_shuffle entries).Perm entries

inductive Action
  | gcReturnLive
  | gcReturnDead
  | gcDeleteDead
  | gcDeleteSpecific
  deriving DecidableEq, Repr

structure Options where
  action : Action := .gcDeleteDead
  ignoreLiveness : Bool := false
  pathsToDelete : List Path := []
  maxFreed : Nat := 2 ^ 64 - 1

/-- The store directory is an absolute file name. -/
structure Settings where
  nixStore : Path
  gcKeepOutputs : Bool
  gcKeepDerivations : Bool
  nixStore_text : 0 ∉ nixStore
  nixStore_absolute : nixStore.head? = some slash

/-- A run of the collector: `permanentRoots` is what `findRoots` and
`addAdditionalRoots` found, `tempRoots` what `readTempRoots` did. -/
structure Config where
  settings : Settings
  options : Options
  permanentRoots : Finset Path
  tempRoots : Finset Path
  os : Os
  fuel : Nat

/-- System calls that can fail with a `SysError`, by the text of the error. -/
inductive Call
  | gettingStatus (path : Path)
  | statting (path : Path)
  | makingWritable (path : Path)
  | renaming (path tmp : Path)
  | unlinking (path : Path)
  | creating (path : Path)
  | opening (path : Path)
  deriving DecidableEq, Repr

inductive Error
  | store (error : LibStore.Error)
  | sys (call : Call) (errNo : Errno)
  | interrupted
  | GCLimitReached
  | stillAlive (path : Path)
  | outOfFuel
  deriving DecidableEq, Repr

inductive Event
  | invalidated (path : Path)
  | removed (path : Path)
  | answered (path : Path) (alive : Bool)
  | limitReached
  deriving DecidableEq, Repr

/-- `GCState` and `GCResults` with the database and the entries of the store directory.
The log has the newest event first, with the database just before it. -/
structure State where
  db : Db
  disk : List Path
  dead : Finset Path := ∅
  alive : Finset Path := ∅
  bytesInvalidated : Nat := 0
  moveToTrash : Bool := true
  paths : Finset Path := ∅
  bytesFreed : Nat := 0
  clock : Nat := 0
  log : List (Event × Db) := []

abbrev GcM := EStateM Error State

namespace Config

variable (cfg : Config)

def nixStore : Path := cfg.settings.nixStore

def linksDir : Path := cfg.nixStore ++ ascii "/.links"

def trashDir : Path := cfg.nixStore ++ ascii "/trash"

def roots : Finset Path :=
  (if cfg.options.ignoreLiveness then ∅ else cfg.permanentRoots) ∪ cfg.tempRoots

/-- Whether `gcKeepOutputs` and `gcKeepDerivations` are overridden. -/
def overridden : Bool :=
  cfg.options.action = .gcDeleteSpecific && cfg.options.ignoreLiveness

def gcKeepOutputs : Bool := cfg.settings.gcKeepOutputs && !cfg.overridden

def gcKeepDerivations : Bool := cfg.settings.gcKeepDerivations && !cfg.overridden

def shouldDelete : Bool :=
  cfg.options.action = .gcDeleteDead || cfg.options.action = .gcDeleteSpecific

end Config

section

variable (cfg : Config)

/-! ### System calls -/

def log (event : Event) : GcM PUnit :=
  modify fun s => { s with log := (event, s.db) :: s.log }

def tick : GcM Nat :=
  modifyGet fun s => (s.clock, { s with clock := s.clock + 1 })

def checkInterrupt : GcM PUnit := do
  let now ← tick
  if cfg.os.interrupted now then throw .interrupted else pure ⟨⟩

/-- A system call that changes nothing here. -/
def syscall : GcM (Option Errno) := do
  let now ← tick
  return cfg.os.failure now

/-- The file name of a path in the store. -/
def nameOf (path : Path) : Bytes := (cstr path).drop (cfg.nixStore.length + 1)

/-- Whether a path in the store names the store directory or its parent, not an entry. -/
def isAbove (path : Path) : Bool :=
  nameOf cfg path = [] || nameOf cfg path = ascii "." || nameOf cfg path = ascii ".."

/-- `lstat`: whether the path is a directory. -/
def lstat (path : Path) : GcM (Except Errno Bool) := do
  let failure ← syscall cfg
  let s ← get
  return match failure with
    | some errNo => .error errNo
    | none =>
      if isAbove cfg path then .ok true
      else if cstr path ∈ s.disk then .ok (cfg.os.isDir (cstr path))
      else .error .ENOENT

def removeEntry (entry : Path) : GcM PUnit := do
  log (.removed entry)
  modify fun s => { s with disk := s.disk.filter (· ≠ entry) }

/-- `deletePath` on an entry of the store. -/
def deleteEntry (entry : Path) : GcM PUnit := do
  checkInterrupt cfg
  let failure ← syscall cfg
  match failure with
  | some errNo => throw (.sys (.unlinking entry) errNo)
  | none => removeEntry entry

/-- `deletePath`. A path that names the store directory or its parent loses what is
below it before `rmdir` fails on `.` or `..`. -/
def deletePath (path : Path) : GcM PUnit := do
  let s ← get
  if isAbove cfg path then do
    forM s.disk (deleteEntry cfg)
    if nameOf cfg path = [] then pure ⟨⟩ else throw (.sys (.unlinking path) .EINVAL)
  else if cstr path ∈ s.disk then deleteEntry cfg (cstr path)
  else throw (.sys (.statting path) .ENOENT)

def deleteGarbage (path : Path) : GcM PUnit := do
  deletePath cfg path
  modify fun s => { s with bytesFreed := u64 (s.bytesFreed + cfg.os.bytesFreed s.clock) }

/-! ### Deleting a path -/

def query {α : Type} (ask : Db → Except LibStore.Error α) : GcM α := do
  let s ← get
  MonadExcept.ofExcept ((ask s.db).mapError .store)

def invalidate (path : Path) : GcM PUnit := do
  let s ← get
  Hoare.focus (·.db) (fun s db => { s with db }) .store (invalidatePathChecked cfg.nixStore path)
  modify fun s' => { s' with log := (.invalidated (cstr path), s.db) :: s'.log }

/-- `chmod` and `rename`: the error of the one that fails. -/
def renameToTrash (path : Path) : GcM (Option Errno) := do
  let chmod ← syscall cfg
  match chmod with
  | some errNo => return some errNo
  | none => do
    let rename ← syscall cfg
    let s ← get
    match rename with
    | some errNo => return some errNo
    | none =>
      if isAbove cfg path then return some .EBUSY
      else if cstr path = cfg.trashDir then return some .EINVAL
      else if cstr path ∈ s.disk ∧ cfg.trashDir ∈ s.disk then do
        removeEntry (cstr path)
        return none
      else return some .ENOENT

/-- The `try` block of `deletePathRecursive`. Other errors are swallowed. -/
def moveToTrash (path : Path) (size : Nat) : GcM PUnit := do
  let failure ← renameToTrash cfg path
  match failure with
  | none => modify fun s => { s with bytesInvalidated := u64 (s.bytesInvalidated + size) }
  | some errNo => if errNo = .ENOSPC ∨ errNo = .EXDEV then deleteGarbage cfg path else pure ⟨⟩

/-- The end of `deletePathRecursive`. -/
def checkLimit : GcM PUnit := do
  let s ← get
  if u64 (s.bytesFreed + s.bytesInvalidated) > cfg.options.maxFreed then do
    log .limitReached
    throw .GCLimitReached
  else pure ⟨⟩

/-- `deletePathRecursive` from `lstat` on. -/
def deleteFromDisk (path : Path) (size : Nat) : GcM PUnit := do
  let status ← lstat cfg path
  match status with
  | .error .ENOENT => pure ⟨⟩
  | .error errNo => throw (.sys (.gettingStatus path) errNo)
  | .ok isDir => do
    modify fun s => { s with paths := insert path s.paths }
    let s ← get
    if s.moveToTrash ∧ isDir then moveToTrash cfg path size else deleteGarbage cfg path
    checkLimit cfg

def deletePathRecursive : Nat → Path → GcM PUnit
  | 0, _ => throw .outOfFuel
  | fuel + 1, path => do
    checkInterrupt cfg
    let s ← get
    if s.db.isValidPath path then do
      let referrers ← query (·.queryReferrers cfg.nixStore path)
      forM referrers fun i => if i ≠ path then deletePathRecursive fuel i else pure ⟨⟩
      let info ← query (·.queryPathInfo cfg.nixStore path)
      invalidate cfg path
      deleteFromDisk cfg path info.narSize
    else deleteFromDisk cfg path 0

/-! ### Reachability -/

/-- Whether an output is valid and names `path` as its deriver. -/
def isDerived (db : Db) (path i : Path) : Except LibStore.Error Bool :=
  if db.isValidPath i then (db.queryDeriver cfg.nixStore i).map fun deriver => decide (deriver = path)
  else .ok false

def derivedOutputs (db : Db) (path : Path) : List Path → Except LibStore.Error (List Path)
  | [] => .ok []
  | i :: outputs => do
    let derived ← isDerived cfg db path i
    let rest ← derivedOutputs db path outputs
    return if derived then i :: rest else rest

/-- The outputs that `incoming` gets with `gcKeepDerivations`. -/
def keptOutputs (db : Db) (path : Path) : Except LibStore.Error (List Path) :=
  if cfg.gcKeepDerivations && isDerivation path then do
    let outputs ← db.queryDerivationOutputs path
    derivedOutputs cfg db path outputs
  else .ok []

/-- The derivers that `incoming` gets with `gcKeepOutputs`. -/
def keptDerivers (db : Db) (path : Path) : Except LibStore.Error (List Path) :=
  if cfg.gcKeepOutputs then db.queryValidDerivers cfg.nixStore path else .ok []

/-- The set `incoming` of `canReachRoot`. -/
def incoming (db : Db) (path : Path) : Except LibStore.Error (List Path) := do
  let referrers ← db.queryReferrers cfg.nixStore path
  let outputs ← keptOutputs cfg db path
  let derivers ← keptDerivers cfg db path
  return pathSet (referrers ++ outputs ++ derivers)

/-- The loop over `incoming`, which stops at the first path that can reach a root. -/
def anyCanReachRoot (visit : Finset Path → Path → GcM (Bool × Finset Path)) (path : Path) :
    Finset Path → List Path → GcM (Bool × Finset Path)
  | visited, [] => return (false, visited)
  | visited, i :: rest => do
    if i = path then anyCanReachRoot visit path visited rest
    else do
      let (found, visited) ← visit visited i
      if found then return (true, visited) else anyCanReachRoot visit path visited rest

def markAlive (path : Path) : GcM PUnit :=
  modify fun s => { s with alive := insert path s.alive }

/-- Returns the set `visited` along with the answer. -/
def canReachRoot : Nat → Finset Path → Path → GcM (Bool × Finset Path)
  | 0, _, _ => throw .outOfFuel
  | fuel + 1, visited, path => do
    let s ← get
    if path ∈ visited then return (false, visited)
    else if path ∈ s.alive then return (true, visited)
    else if path ∈ s.dead then return (false, visited)
    else if path ∈ cfg.roots then do
      markAlive path
      return (true, visited)
    else if s.db.isValidPath path then do
      let paths ← query fun db => incoming cfg db path
      let (found, visited) ←
        anyCanReachRoot (canReachRoot fuel) path (insert path visited) paths
      if found then do
        markAlive path
        return (true, visited)
      else return (false, visited)
    else return (false, insert path visited)

def isActiveTempFile (path suffix : Path) : Bool :=
  hasSuffix path suffix && decide (path.take (path.length - suffix.length) ∈ cfg.tempRoots)

def isActive (path : Path) : Bool :=
  isActiveTempFile cfg path (ascii ".lock") || isActiveTempFile cfg path (ascii ".chroot")

def tryToDelete (path : Path) : GcM PUnit := do
  checkInterrupt cfg
  let s ← get
  if path = cfg.linksDir ∨ path = cfg.trashDir then pure ⟨⟩
  else if ¬ s.db.isValidPath path ∧ isActive cfg path then pure ⟨⟩
  else do
    let (found, visited) ← canReachRoot cfg cfg.fuel ∅ path
    log (.answered path found)
    if found then pure ⟨⟩
    else do
      modify fun s => { s with dead := s.dead ∪ visited }
      if cfg.shouldDelete then deletePathRecursive cfg cfg.fuel path else pure ⟨⟩

/-! ### A run -/

/-- `createDirs(trashDir)`, when the store directory exists. -/
def createTrash : GcM PUnit := do
  let failure ← syscall cfg
  match failure with
  | some errNo => throw (.sys (.creating cfg.trashDir) errNo)
  | none => modify fun s => { s with disk := cfg.trashDir :: s.disk }

/-- What an earlier run left in the trash. -/
def clearTrash : GcM PUnit := do
  let status ← lstat cfg cfg.trashDir
  match status with
  | .error .ENOENT | .error .ENOTDIR => pure ⟨⟩
  | .error errNo => throw (.sys (.gettingStatus cfg.trashDir) errNo)
  | .ok _ => deleteGarbage cfg cfg.trashDir

/-- Errors of `createDirs` other than `ENOSPC` are swallowed, too. -/
def trashFailed : Error → GcM PUnit
  | .sys _ .ENOSPC => modify fun s => { s with moveToTrash := false }
  | .sys _ _ => pure ⟨⟩
  | e => throw e

def prepareTrash : GcM PUnit :=
  if cfg.shouldDelete then do
    clearTrash cfg
    tryCatch (createTrash cfg) trashFailed
  else pure ⟨⟩

/-- Read the store: invalid paths are deleted at once, the valid ones are returned. -/
def readStore : List Bytes → List Path → GcM (List Path)
  | [], entries => return entries
  | name :: rest, entries => do
    checkInterrupt cfg
    let s ← get
    let path := cfg.nixStore ++ ascii "/" ++ name
    if name = ascii "." ∨ name = ascii ".." then readStore rest entries
    else if s.db.isValidPath path then readStore rest (entries ++ [path])
    else do
      tryToDelete cfg path
      readStore rest entries

def collectDead : GcM PUnit := do
  let failure ← syscall cfg
  match failure with
  | some errNo => throw (.sys (.opening cfg.nixStore) errNo)
  | none => do
    let entries ← readStore cfg cfg.os.readdir []
    forM (cfg.os.random_shuffle entries) (tryToDelete cfg)

def collectSpecific (path : Path) : GcM PUnit := do
  query fun _ => assertStorePath cfg.nixStore path
  tryToDelete cfg path
  let s ← get
  if path ∈ s.dead then pure ⟨⟩ else throw (.stillAlive path)

def collect : GcM PUnit :=
  if cfg.options.action = .gcDeleteSpecific then
    forM cfg.options.pathsToDelete (collectSpecific cfg)
  else if cfg.options.maxFreed > 0 then
    tryCatch (collectDead cfg) fun e =>
      if e = .GCLimitReached then pure ⟨⟩ else throw e
  else pure ⟨⟩

/-- What follows the deletions. -/
def finish : GcM PUnit :=
  match cfg.options.action with
  | .gcReturnLive => modify fun s => { s with paths := s.alive }
  | .gcReturnDead => modify fun s => { s with paths := s.dead }
  | .gcDeleteDead | .gcDeleteSpecific => deleteGarbage cfg cfg.trashDir

def collectGarbage : GcM PUnit := do
  prepareTrash cfg
  collect cfg
  finish cfg

end

end Guix.LibStore.Gc
