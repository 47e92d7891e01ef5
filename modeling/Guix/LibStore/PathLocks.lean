import Guix.LibUtil.PathSet
import Guix.Lib.Machine
import Guix.Lib.SharedFiles

/-!
# Locks on store paths

`PathLocks` of `pathlocks.cc`, as processes run it on one machine. Each system call
is a step of its own, so that other processes may act between any two of them. A
descriptor stands for the inode it is open on.

The deletion token is always written in full and a process does not die between
`unlink` and that write. `unlink` itself may fail, since its result is ignored.
-/

namespace Guix.LibStore

open SharedFiles Function

abbrev Pid := Nat

abbrev Inode := Nat

/-- Which of its `PathLocks` objects a process means. -/
abbrev Handle := Nat

def lockPathOf (path : Path) : Path := path ++ ascii ".lock"

structure PathLocks where
  fds : List (Inode × Path) := []
  deletePaths : Bool := false

namespace PathLocks

inductive Error
  | deadlock
  | interrupted
  | opening (lockPath : Path)
  | locking
  | statting (lockPath : Path)
  deriving DecidableEq, Repr

/-- A call of `lockPaths`: its object and sorted paths, those left to do, and `wait`. -/
structure Call where
  object : Handle
  paths : List Path
  rest : List Path
  wait : Bool

/-- Where `unlock` is with one lock file. -/
inductive Phase
  | start
  | token
  | close
  deriving DecidableEq, Repr

/-- The next system call of a process. -/
inductive Pc
  | idle
  | loop (call : Call)
  | opening (call : Call) (lockPath : Path) (stale : Option Inode)
  | closing (call : Call) (lockPath : Path) (stale fd : Inode)
  | locking (call : Call) (lockPath : Path) (fd : Inode)
  | waiting (call : Call) (lockPath : Path) (fd : Inode)
  | statting (call : Call) (lockPath : Path) (fd : Inode)
  -- `failed` is the descriptor of a `lockPaths` call that gave up
  | unlocking (object : Handle) (todo : List (Inode × Path)) (phase : Phase)
      (failed : Option (Inode × Path))
  | failing (object : Handle) (lockPath : Path) (fd : Inode)

/-- After `openLockFile`: assigning to an `AutoCloseFD` closes the descriptor it had. -/
def Pc.assigned (call : Call) (lockPath : Path) (fd : Inode) : Option Inode → Pc
  | none => .locking call lockPath fd
  | some stale => .closing call lockPath stale fd

/-- `owned` is what the users of an object hold: the paths of a `lockPaths` call that
returned true, until `unlock` starts. -/
structure Process where
  lockedPaths : Finset Path := ∅
  objects : Handle → PathLocks := fun _ => {}
  pc : Pc := .idle
  owned : Handle → List Path := fun _ => []

structure State where
  files : Directory Path UInt8
  locks : Inode → Holders Pid
  proc : Pid → Process

def State.init : State where
  files := .empty
  locks _ := .free
  proc _ := {}

inductive Action
  | lockPaths (object : Handle) (paths : List Path) (wait : Bool)
  | setDeletion (object : Handle) (deletePaths : Bool)
  | unlock (object : Handle)
  -- the next system call succeeds, or it fails or is interrupted
  | proceed
  | fail (interrupted : Bool)
  | die

inductive Event
  | internal
  | called
  | returned (success : Bool)
  | unlocked
  | threw (error : Error)
  | died
  deriving DecidableEq, Repr

def State.set (s : State) (p : Pid) (proc : Process) : State :=
  { s with proc := update s.proc p proc }

def State.setFiles (s : State) (files : Directory Path UInt8) : State :=
  { s with files }

def State.close (s : State) (p : Pid) (fd : Inode) : State :=
  { s with locks := update s.locks fd ((s.locks fd).release p) }

def State.lock (s : State) (fd : Inode) (holders : Holders Pid) : State :=
  { s with locks := update s.locks fd holders }

def Process.setFds (proc : Process) (object : Handle) (fds : List (Inode × Path)) : Process :=
  { proc with objects :=
      Function.update proc.objects object { proc.objects object with fds := fds } }

def Process.setOwned (proc : Process) (object : Handle) (paths : List Path) : Process :=
  { proc with owned := update proc.owned object paths }

def Process.goto (proc : Process) (pc : Pc) : Process :=
  { proc with pc := pc }

/-- The entry of `lockPaths`: the `assert` and the sorted copy of the path set. -/
def lockPaths (s : State) (p : Pid) (object : Handle) (paths : List Path) (wait : Bool) :
    Option (State × Event) :=
  let proc := s.proc p
  match proc.pc, (proc.objects object).fds with
  | .idle, [] =>
    let sorted := paths.insertionSort comparePaths
    some (s.set p (proc.goto (.loop ⟨object, sorted, sorted, wait⟩)), .called)
  | _, _ => none

def setDeletion (s : State) (p : Pid) (object : Handle) (deletePaths : Bool) :
    Option (State × Event) :=
  let proc := s.proc p
  match proc.pc with
  | .idle =>
    let changed := { proc.objects object with deletePaths := deletePaths }
    some (s.set p { proc with objects := update proc.objects object changed }, .internal)
  | _ => none

/-- The entry of `unlock`, called by the user of the object or by its destructor. -/
def unlock (s : State) (p : Pid) (object : Handle) : Option (State × Event) :=
  let proc := s.proc p
  match proc.pc with
  | .idle =>
    some (s.set p ((proc.setOwned object []).goto
      (.unlocking object (proc.objects object).fds .start none)), .called)
  | _ => none

/-- What follows `lockFile(fd, ltWrite, ...)` in `lockPaths`. -/
def tryLock (s : State) (p : Pid) (lockPath : Path) (fd : Inode) (call : Call)
    (refused : Option (State × Event)) : Option (State × Event) :=
  match (s.locks fd).acquire p .write with
  | some holders =>
    some ((s.lock fd holders).set p ((s.proc p).goto (.statting call lockPath fd)), .internal)
  | none => refused

/-- The loop body of `unlock` for one lock file. -/
def unlockOne (s : State) (p : Pid) (object : Handle) (fd : Inode) (lockPath : Path)
    (rest : List (Inode × Path)) (phase : Phase) (failed : Option (Inode × Path)) : State :=
  let proc := s.proc p
  let at' := fun phase => proc.goto (.unlocking object ((fd, lockPath) :: rest) phase failed)
  match phase with
  | .start =>
    if (proc.objects object).deletePaths then
      (s.setFiles (s.files.unlink lockPath)).set p (at' .token)
    else s.set p (at' .close)
  | .token => (s.setFiles (s.files.write fd 0 (ascii "d"))).set p (at' .close)
  | .close =>
    let erased := { proc with lockedPaths := proc.lockedPaths.erase lockPath }
    (s.close p fd).set p (erased.goto (.unlocking object rest .start failed))

/-- The next system call of `p`, when it succeeds. -/
def proceed (s : State) (p : Pid) : Option (State × Event) :=
  let proc := s.proc p
  match proc.pc with
  | .idle => none
  | .loop call =>
    match call.rest with
    | [] => some (s.set p ((proc.setOwned call.object call.paths).goto .idle), .returned true)
    | path :: rest =>
      if lockPathOf path ∈ proc.lockedPaths then some (s.set p (proc.goto .idle), .threw .deadlock)
      else some (s.set p (proc.goto (.opening { call with rest } (lockPathOf path) none)), .internal)
  | .opening call lockPath stale =>
    let (files, fd) := s.files.openOrCreate lockPath
    some ((s.setFiles files).set p (proc.goto (.assigned call lockPath fd stale)), .internal)
  | .closing call lockPath stale fd =>
    some ((s.close p stale).set p (proc.goto (.locking call lockPath fd)), .internal)
  | .locking call lockPath fd =>
    let refused :=
      if call.wait then Pc.waiting call lockPath fd
      else Pc.unlocking call.object (proc.objects call.object).fds .start (some (fd, lockPath))
    tryLock s p lockPath fd call (some (s.set p (proc.goto refused), .internal))
  | .waiting call lockPath fd => tryLock s p lockPath fd call none
  | .statting call lockPath fd =>
    if s.files.content fd = [] then
      let fds := (proc.objects call.object).fds ++ [(fd, lockPath)]
      let pushed := { proc.setFds call.object fds with lockedPaths := insert lockPath proc.lockedPaths }
      some (s.set p (pushed.goto (.loop call)), .internal)
    else some (s.set p (proc.goto (.opening call lockPath (some fd))), .internal)
  | .unlocking object [] _ failed =>
    match failed with
    | none => some (s.set p ((proc.setFds object []).goto .idle), .unlocked)
    | some (fd, lockPath) =>
      some (s.set p ((proc.setFds object []).goto (.failing object lockPath fd)), .internal)
  | .unlocking object ((fd, lockPath) :: rest) phase failed =>
    some (unlockOne s p object fd lockPath rest phase failed, .internal)
  | .failing _ _ fd => some ((s.close p fd).set p (proc.goto .idle), .returned false)

/-- The next system call of `p`, when it fails or is interrupted. An exception closes
the descriptor that `lockPaths` has not yet added to `fds`. -/
def fail (s : State) (p : Pid) (interrupted : Bool) : Option (State × Event) :=
  let proc := s.proc p
  match proc.pc with
  | .loop _ => some (s.set p (proc.goto .idle), .threw .interrupted)
  | .opening _ lockPath none => some (s.set p (proc.goto .idle), .threw (.opening lockPath))
  | .opening _ lockPath (some fd) =>
    some ((s.close p fd).set p (proc.goto .idle), .threw (.opening lockPath))
  | .locking _ _ fd | .waiting _ _ fd =>
    let error := if interrupted then Error.interrupted else Error.locking
    some ((s.close p fd).set p (proc.goto .idle), .threw error)
  | .statting _ lockPath fd =>
    some ((s.close p fd).set p (proc.goto .idle), .threw (.statting lockPath))
  | .unlocking object ((fd, lockPath) :: rest) .start failed =>
    if (proc.objects object).deletePaths then
      some (s.set p (proc.goto (.unlocking object ((fd, lockPath) :: rest) .token failed)), .internal)
    else none
  | _ => none

/-- The kernel closes the descriptors of a process that dies; its pid may be used again. -/
def die (s : State) (p : Pid) : Option (State × Event) :=
  let freed := { s with locks := fun fd => (s.locks fd).release p }
  match (s.proc p).pc with
  | .unlocking _ _ .token _ => none
  | _ => some (freed.set p {}, .died)

def step (s : State) (move : Pid × Action) : Option (State × (Pid × Event)) :=
  let (p, action) := move
  let result := match action with
    | .lockPaths object paths wait => lockPaths s p object paths wait
    | .setDeletion object deletePaths => setDeletion s p object deletePaths
    | .unlock object => unlock s p object
    | .proceed => proceed s p
    | .fail interrupted => fail s p interrupted
    | .die => die s p
  result.map fun (next, event) => (next, (p, event))

end PathLocks

end Guix.LibStore
