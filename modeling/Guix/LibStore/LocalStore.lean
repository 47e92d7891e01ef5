import Guix.LibStore.Database
import Guix.LibStore.Misc
import Guix.LibStore.StorePaths

/-!
# Registering and invalidating paths

The functions of `local-store.cc` on the database. Each `SQLiteTxn` is atomic: an
exception rolls it back. What they read from derivation files, and the check of the
output paths of a derivation, are parameters; both may throw.
-/

namespace Guix.LibStore

open MonadExcept

structure ValidPathInfo where
  path : Path
  deriver : Path := []
  hash : Hash
  references : List Path := []
  registrationTime : Nat := 0
  narSize : Nat := 0
  id : Nat := 0

/-- What a registration finds outside the database: the clock, the outputs that
`readDerivation` finds in a file, and the verdict of `checkDerivationOutputs`. Their
exceptions are given by their messages. -/
structure Outside where
  time : Nat
  readDerivation : Path → Except Bytes (List (Bytes × Path))
  checkDerivationOutputs : Db → Path → Except Bytes PUnit

inductive Error
  | notInStore (path : Path)
  | notValid (path : Path)
  | noId (path : Path)
  | corruptHash (s : Bytes) (path : Path)
  | unknownHashType (s : Bytes) (path : Path)
  | hash (error : HashError)
  | sqlite (error : SqlError)
  | assertion
  | derivation (message : Bytes)
  | cycle (path : Path)
  | pathInUse (path : Path) (referrers : List Path)
  | outOfFuel
  deriving DecidableEq, Repr

def assertStorePath (nixStore path : Path) : Except Error PUnit :=
  if isStorePath nixStore path then .ok ⟨⟩ else .error (.notInStore path)

def isDerivation (fileName : Path) : Bool := hasSuffix fileName (ascii ".drv")

/-! ### Queries -/

def parseHashField (path : Path) (s : Bytes) : Except Error Hash :=
  let type := s.takeWhile (· != 58)
  if type.length = s.length then .error (.corruptHash s path)
  else match parseHashType type with
    | none => .error (.unknownHashType type path)
    | some ht => (parseHash ht (s.drop (type.length + 1))).mapError .hash

namespace Db

def isValidPath (db : Db) (path : Path) : Bool := (db.stmtQueryPathInfo path).isSome

def queryValidPathId (db : Db) (path : Path) : Except Error Nat :=
  match db.stmtQueryPathInfo path with
  | some row => .ok row.id
  | none => .error (.noId path)

def queryPathInfo (db : Db) (nixStore path : Path) : Except Error ValidPathInfo := do
  assertStorePath nixStore path
  match db.stmtQueryPathInfo path with
  | none => .error (.notValid path)
  | some row =>
    let hash ← parseHashField path row.hash
    return {
      path, hash
      id := row.id
      registrationTime := row.registrationTime
      deriver := row.deriver.getD []
      narSize := row.narSize.getD 0
      references := pathSet (db.stmtQueryReferences row.id) }

def queryReferences (db : Db) (nixStore path : Path) : Except Error (List Path) := do
  let info ← db.queryPathInfo nixStore path
  return info.references

def queryReferrers_ (db : Db) (path : Path) : List Path :=
  pathSet (db.stmtQueryReferrers path)

def queryReferrers (db : Db) (nixStore path : Path) : Except Error (List Path) := do
  assertStorePath nixStore path
  return db.queryReferrers_ path

def queryDeriver (db : Db) (nixStore path : Path) : Except Error Path := do
  let info ← db.queryPathInfo nixStore path
  return info.deriver

def queryValidDerivers (db : Db) (nixStore path : Path) : Except Error (List Path) := do
  assertStorePath nixStore path
  return pathSet (db.stmtQueryValidDerivers path)

def queryDerivationOutputs (db : Db) (path : Path) : Except Error (List Path) := do
  let id ← db.queryValidPathId path
  return pathSet (db.stmtQueryDerivationOutputs id)

end Db

/-! ### Changes -/

abbrev DbM := EStateM Error Db

/-- `SQLiteTxn`: an exception before the commit rolls the transaction back. -/
def transaction {α : Type} (body : DbM α) : DbM α := fun db =>
  match body db with
  | .ok a db' => .ok a db'
  | .error e _ => .error e db

/-- Execute a statement; the tables change only if it succeeds. -/
def execute {α : Type} (statement : Db → Except SqlError (Db × α)) : DbM α := do
  let db ← get
  match statement db with
  | .ok (db', a) => do
    set db'
    return a
  | .error e => throw (.sqlite e)

def hashField (hash : Hash) : Bytes := ascii "sha256:" ++ printHash hash

def addValidPath (outside : Outside) (info : ValidPathInfo) (checkOutputs : Bool) : DbM Nat := do
  let id ← execute fun db => db.stmtRegisterValidPath info.path (hashField info.hash)
    (if info.registrationTime = 0 then outside.time else info.registrationTime)
    (if info.deriver ≠ [] then some info.deriver else none)
    (if info.narSize ≠ 0 then some info.narSize else none)
  if isDerivation info.path then do
    let outputs ← ofExcept ((outside.readDerivation info.path).mapError .derivation)
    let db ← get
    ofExcept
      (if checkOutputs then (outside.checkDerivationOutputs db info.path).mapError .derivation
       else .ok ⟨⟩)
    forM outputs fun output =>
      execute fun db =>
        (db.stmtAddDerivationOutput id output.1 output.2).map (·, PUnit.unit)
  else pure ⟨⟩
  return id

def updatePathInfo (info : ValidPathInfo) : DbM PUnit :=
  modify fun db => db.stmtUpdatePathInfo (if info.narSize ≠ 0 then some info.narSize else none)
    (hashField info.hash) info.path

def addReference (referrer reference : Nat) : DbM PUnit :=
  execute fun db => (db.stmtAddReference referrer reference).map (·, ⟨⟩)

def SortError.toError : SortError Error → Error
  | .cycle path => .cycle path
  | .store error => error
  | .outOfFuel => .outOfFuel

/-- The first loop of `registerValidPaths`. -/
def addOrUpdate (outside : Outside) (info : ValidPathInfo) : DbM PUnit := do
  if info.hash.type ≠ .sha256 then throw .assertion
  else do
    let db ← get
    if db.isValidPath info.path then updatePathInfo info
    else do
      let _ ← addValidPath outside info false

/-- The second loop of `registerValidPaths`. -/
def addReferences (info : ValidPathInfo) : DbM PUnit := do
  let db ← get
  let referrer ← ofExcept (db.queryValidPathId info.path)
  forM info.references fun reference => do
    let db ← get
    let id ← ofExcept (db.queryValidPathId reference)
    addReference referrer id

/-- The third loop of `registerValidPaths`. -/
def checkDerivation (outside : Outside) (info : ValidPathInfo) : DbM PUnit := do
  let db ← get
  ofExcept
    (if isDerivation info.path then do
      let _ ← (outside.readDerivation info.path).mapError .derivation
      (outside.checkDerivationOutputs db info.path).mapError .derivation
    else .ok ⟨⟩)

def registerValidPaths (nixStore : Path) (outside : Outside) (infos : List ValidPathInfo) :
    DbM PUnit :=
  transaction do
    forM infos (addOrUpdate outside)
    forM infos addReferences
    forM infos (checkDerivation outside)
    let db ← get
    let _ ← ofExcept
      ((topoSortPaths db.isValidPath (db.queryReferences nixStore)
        (pathSet (infos.map (·.path)))).mapError SortError.toError)

def invalidatePath (path : Path) : DbM PUnit :=
  execute fun db => (db.stmtInvalidatePath path).map (·, ⟨⟩)

def invalidatePathChecked (nixStore path : Path) : DbM PUnit := do
  ofExcept (assertStorePath nixStore path)
  transaction do
    let db ← get
    if db.isValidPath path then do
      -- self-references do not count
      let referrers := (db.queryReferrers_ path).filter (· ≠ path)
      if referrers ≠ [] then throw (.pathInUse path referrers)
      else invalidatePath path
    else pure ⟨⟩

end Guix.LibStore
