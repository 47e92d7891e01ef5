import Guix.LibStore.Derivations

/-!
# Goals

What derivation goals and substitution goals of `build.cc` have in common. A goal works in
turns. During a turn it changes its own data and what all goals share, and it asks things
of the worker; since it never looks at what the worker makes of them before its turn is
over, they are collected in the order in which they are asked.

The store is given by what goals ask it. Messages for the user, log files, build users and
the files themselves are not modelled.
-/

namespace Guix.LibStore.Building

open Derivations (Derivation StringSet)

abbrev Pid := Nat

structure Settings where
  readOnlyMode : Bool := false
  useSubstitutes : Bool := true
  tryFallback : Bool := false
  keepGoing : Bool := false
  maxBuildJobs : Nat := 1
  cacheFailure : Bool := false
  useBuildHook : Bool := false
  buildRepeat : Nat := 0
  thisSystem : Bytes := ascii "x86_64-linux"

inductive ExitCode
  | ecBusy
  | ecSuccess
  | ecFailed
  | ecNoSubstituters
  | ecIncompleteClosure
  deriving DecidableEq, Repr

inductive BuildMode
  | bmNormal
  | bmRepair
  | bmCheck
  deriving DecidableEq, Repr

/-- How an exception or a failed assertion ends the worker. -/
inductive Failure
  | error (message : Bytes)
  | assertion
  deriving DecidableEq, Repr

/-! ### The store -/

structure SubstitutablePathInfo where
  deriver : Path := []
  references : List Path := []
  deriving DecidableEq, Repr

/-- The answers of the store; queries that may throw give the message. -/
structure Store where
  isValidPath : Path → Bool
  pathContentsGood : Path → Bool
  hasPathFailed : Path → Bool
  derivationFromPath : Path → Except Bytes Derivation
  querySubstitutablePathInfos : Path → Except Bytes (Option SubstitutablePathInfo)
  computeFSClosure : Path → Except Bytes (List Path)
  tempRoots : List Path := []

namespace Store

def addTempRoot (store : Store) (path : Path) : Store :=
  { store with tempRoots := store.tempRoots.insert path }

def addTempRoots (store : Store) (paths : List Path) : Store := paths.foldl addTempRoot store

def registerValidPaths (store : Store) (paths : List Path) : Store :=
  { store with isValidPath := fun path => paths.contains path || store.isValidPath path }

def markContentsGood (store : Store) (path : Path) : Store :=
  { store with pathContentsGood := fun other => other == path || store.pathContentsGood other }

def registerFailedPaths (store : Store) (paths : List Path) : Store :=
  { store with hasPathFailed := fun path => paths.contains path || store.hasPathFailed path }

@[simp] theorem mem_tempRoots_addTempRoots (store : Store) (paths : List Path) (path : Path) :
    path ∈ (store.addTempRoots paths).tempRoots ↔ path ∈ paths ∨ path ∈ store.tempRoots := by
  induction paths generalizing store with
  | nil => simp [addTempRoots]
  | cons first rest ih =>
    have step : store.addTempRoots (first :: rest) = (store.addTempRoot first).addTempRoots rest := rfl
    rw [step, ih]
    simp only [addTempRoot, List.mem_insert_iff, List.mem_cons]
    tauto

@[simp] theorem isValidPath_addTempRoots (store : Store) (paths : List Path) :
    (store.addTempRoots paths).isValidPath = store.isValidPath := by
  induction paths generalizing store with
  | nil => rfl
  | cons first rest ih => exact ih (store.addTempRoot first)

end Store

/-! ### What goals share -/

/-- `hook` and `substituter` are the agents that no goal has borrowed; `lockedPaths` are the
paths that goals of this process have locked. -/
structure Shared where
  store : Store
  nrLocalBuilds : Nat := 0
  hook : Option Pid := none
  substituter : Option Pid := none
  lockedPaths : List Path := []
  permanentFailure : Bool := false
  timedOut : Bool := false

/-- Which goal `makeDerivationGoal` or `makeSubstitutionGoal` is to make or to find. -/
inductive Request
  | derivation (drvPath : Path) (wantedOutputs : StringSet) (buildMode : BuildMode)
  | substitution (storePath : Path) (repair : Bool)
  deriving DecidableEq

/-- The file descriptors of a child that the worker watches. -/
inductive Fd
  | fromAgent
  | builderOut
  deriving DecidableEq, Repr

/-- What a goal asks of the worker. -/
inductive Action
  | addWaitee (waitee : Request)
  | wakeUp
  | waitForBuildSlot
  | waitForAnyGoal
  | waitForAWhile
  | childStarted (pid : Pid) (fds : List Fd) (inBuildSlot : Bool)
  | childTerminated (pid : Pid)
  | amDone (result : ExitCode)
  deriving DecidableEq

/-- The result of the goal, if a turn with these actions has ended it. -/
def ended (log : List Action) : Option ExitCode :=
  log.findSome? fun action => match action with
    | .amDone result => some result
    | _ => none

@[simp] theorem ended_nil : ended [] = none := rfl

@[simp] theorem ended_append (log later : List Action) :
    ended (log ++ later) = (ended log).or (ended later) :=
  List.findSome?_append

@[simp] theorem ended_amDone (result : ExitCode) : ended [.amDone result] = some result := rfl

@[simp] theorem ended_addWaitees (waitees : List Request) : ended (waitees.map .addWaitee) = none := by
  simp [ended]

/-! ### A goal at work -/

structure Counts where
  nrFailed : Nat := 0
  nrNoSubstituters : Nat := 0
  nrIncompleteClosure : Nat := 0
  deriving DecidableEq, Repr

/-- What `waiteeDone` adds to the counts. -/
def Counts.add (counts : Counts) (result : ExitCode) : Counts where
  nrFailed :=
    if result = .ecFailed ∨ result = .ecNoSubstituters ∨ result = .ecIncompleteClosure then
      counts.nrFailed + 1
    else counts.nrFailed
  nrNoSubstituters :=
    if result = .ecNoSubstituters then counts.nrNoSubstituters + 1 else counts.nrNoSubstituters
  nrIncompleteClosure :=
    if result = .ecIncompleteClosure then counts.nrIncompleteClosure + 1
    else counts.nrIncompleteClosure

/-- A goal during its turn; `waiting` says that `waitees` is not empty. -/
structure Turn (G : Type) where
  goal : G
  counts : Counts := {}
  waiting : Bool := false
  shared : Shared
  log : List Action := []

namespace Turn

variable {G : Type}

def ask (turn : Turn G) (action : Action) : Turn G :=
  { turn with log := turn.log ++ [action] }

def addWaitee (turn : Turn G) (waitee : Request) : Turn G :=
  { turn.ask (.addWaitee waitee) with waiting := true }

def addWaitees (turn : Turn G) (waitees : List Request) : Turn G := waitees.foldl addWaitee turn

def setStore (turn : Turn G) (store : Store) : Turn G :=
  { turn with shared := { turn.shared with store } }

/-- `lockPaths`, once it is known that no process holds one of the locks. -/
def lock (turn : Turn G) (paths : List Path) : Turn G :=
  { turn with shared := { turn.shared with lockedPaths := paths ++ turn.shared.lockedPaths } }

def unlock (turn : Turn G) (paths : List Path) : Turn G :=
  { turn with shared :=
      { turn.shared with lockedPaths := turn.shared.lockedPaths.filter (!paths.contains ·) } }

/-- Everything but the log and `waiting` is as before. -/
theorem addWaitees_eq (turn : Turn G) (waitees : List Request) :
    turn.addWaitees waitees =
      { turn with waiting := turn.waiting || !waitees.isEmpty,
                  log := turn.log ++ waitees.map .addWaitee } := by
  induction waitees generalizing turn with
  | nil => simp [addWaitees]
  | cons first rest ih =>
    have step : turn.addWaitees (first :: rest) = (turn.addWaitee first).addWaitees rest := rfl
    rw [step, ih]
    simp [addWaitee, ask]

end Turn

/-- How a state function ends: it returns to the worker, or calls another one as the last
thing it does, or throws. -/
inductive Outcome (S G : Type)
  | returns (turn : Turn G)
  | calls (state : S) (turn : Turn G)
  | throws (failure : Failure) (turn : Turn G)

end Guix.LibStore.Building
