import Guix.LibStore.PathLocks
import Guix.LibStore.StorePaths

/-!
# Temporary roots

`addTempRoot` of `gc.cc` in any number of client processes, and the collector's side
of it: the GC lock, `readTempRoots`, the deletion phase and the release of the locks.
Collectors are other processes than the clients. Each system call is a step.

A client may die at any moment, and a new process may get its pid. Closing a store
(`~LocalStore`) gives up its temporary roots and counts as the end of the client. A
collector may stop with an exception or return early. `unlink` may fail, since its
result is ignored; the other system calls succeed, and a collector does not die.
-/

namespace Guix.LibStore.TempRoots

open SharedFiles Function

inductive Party
  | client (pid : Pid)
  | collector (id : Nat)
  deriving DecidableEq, Repr

structure Fd where
  inode : Inode
  offset : Nat
  deriving DecidableEq, Repr

/-- The next system call of a client. -/
inductive ClientPc
  | idle
  | gcLocking (path : Path)
  | unlinking (path : Path)
  | opening (path : Path)
  | closing (path : Path) (old : Inode)
  | gcUnlocking (path : Path)
  | readLocking (path : Path)
  | statting (path : Path)
  | writeLocking (path : Path)
  | writing (path : Path)
  | downgrading (path : Path)
  -- `~LocalStore` has closed the descriptor
  | destroying
  deriving DecidableEq, Repr

/-- `returned` lists the paths whose `addTempRoot` has returned in this process. -/
structure Client where
  fdTempRoots : Option Fd := none
  pc : ClientPc := .idle
  returned : List Path := []

/-- The next system call of a collector. `name` is the file `readTempRoots` is at. -/
inductive CollectorPc
  | idle
  | listing
  | scanning (todo : List Pid)
  | tryLocking (name : Pid) (fd : Inode) (todo : List Pid)
  | unlinking (name : Pid) (fd : Inode) (todo : List Pid)
  | marking (name : Pid) (fd : Inode) (todo : List Pid)
  | closing (fd : Inode) (todo : List Pid)
  | readLocking (name : Pid) (fd : Inode) (todo : List Pid)
  | reading (name : Pid) (fd : Inode) (todo : List Pid)
  | deleting
  -- the GC lock is closed, `fds.clear()` is under way
  | releasing (fds : List Inode)
  -- an exception or an early return destroys `fds` before `fdGCLock`
  | unwinding (fds : List Inode)
  deriving DecidableEq, Repr

structure Collector where
  pc : CollectorPc := .idle
  tempRoots : Finset Path := ∅
  fds : List Inode := []

structure State where
  files : Directory Pid UInt8
  gcLock : Holders Party
  locks : Inode → Holders Party
  client : Pid → Client
  collector : Nat → Collector

def State.init : State where
  files := .empty
  gcLock := .free
  locks _ := .free
  client _ := {}
  collector _ := {}

inductive Move
  | addTempRoot (pid : Pid) (path : Path)
  | client (pid : Pid) (unlinks : Bool)
  | die (pid : Pid)
  | destroy (pid : Pid)
  | collectGarbage (id : Nat)
  -- the names that `readDirectory` gave
  | list (id : Nat) (names : List Pid)
  | collector (id : Nat) (unlinks : Bool)
  | finish (id : Nat)
  | unwind (id : Nat)

inductive Event
  | internal
  | returned (pid : Pid) (path : Path)
  deriving DecidableEq, Repr

def State.setClient (s : State) (pid : Pid) (c : Client) : State :=
  { s with client := update s.client pid c }

def State.setCollector (s : State) (id : Nat) (c : Collector) : State :=
  { s with collector := update s.collector id c }

def State.setFiles (s : State) (files : Directory Pid UInt8) : State :=
  { s with files }

def State.setGcLock (s : State) (holders : Holders Party) : State :=
  { s with gcLock := holders }

def State.setLock (s : State) (fd : Inode) (holders : Holders Party) : State :=
  { s with locks := update s.locks fd holders }

def State.close (s : State) (party : Party) (fd : Inode) : State :=
  s.setLock fd ((s.locks fd).release party)

/-- The string that `addTempRoot` appends. -/
def terminated (path : Path) : Bytes := path ++ [0]

/-- The roots in a file: what stands before each NUL. -/
def extractRoots (current : Bytes) : Bytes → List Path
  | [] => []
  | c :: rest => if c = 0 then current :: extractRoots [] rest else extractRoots (current ++ [c]) rest

def addTempRoot (s : State) (pid : Pid) (path : Path) : Option State :=
  let c := s.client pid
  match c.pc, c.fdTempRoots with
  | .idle, none => some (s.setClient pid { c with pc := .gcLocking path })
  | .idle, some _ => some (s.setClient pid { c with pc := .writeLocking path })
  | _, _ => none

def clientStep (s : State) (pid : Pid) (unlinks : Bool) : Option (State × Event) :=
  let c := s.client pid
  let me := Party.client pid
  match c.pc, c.fdTempRoots with
  | .gcLocking path, _ =>
    match s.gcLock.acquire me .read with
    | none => none
    | some holders =>
      some ((s.setGcLock holders).setClient pid { c with pc := .unlinking path }, .internal)
  | .unlinking path, _ =>
    -- the file is unlinked if `pathExists` found it
    let files := if unlinks then s.files.unlink pid else s.files
    some ((s.setFiles files).setClient pid { c with pc := .opening path }, .internal)
  | .opening path, old =>
    let (files, inode) := s.files.openOrCreate pid
    let next := match old with
      | none => ClientPc.gcUnlocking path
      | some fd => ClientPc.closing path fd.inode
    some ((s.setFiles files).setClient pid
      { c with fdTempRoots := some ⟨inode, 0⟩, pc := next }, .internal)
  | .closing path old, _ =>
    some ((s.close me old).setClient pid { c with pc := .gcUnlocking path }, .internal)
  | .gcUnlocking path, _ =>
    some ((s.setGcLock (s.gcLock.release me)).setClient pid { c with pc := .readLocking path }, .internal)
  | .readLocking path, some fd =>
    match (s.locks fd.inode).acquire me .read with
    | none => none
    | some holders =>
      some ((s.setLock fd.inode holders).setClient pid { c with pc := .statting path }, .internal)
  | .statting path, some fd =>
    let next := if s.files.content fd.inode = [] then ClientPc.writeLocking path
      else ClientPc.gcLocking path
    some (s.setClient pid { c with pc := next }, .internal)
  | .writeLocking path, some fd =>
    match (s.locks fd.inode).acquire me .write with
    | none => none
    | some holders =>
      some ((s.setLock fd.inode holders).setClient pid { c with pc := .writing path }, .internal)
  | .writing path, some fd =>
    let data := terminated path
    some ((s.setFiles (s.files.write fd.inode fd.offset data)).setClient pid
      { c with fdTempRoots := some ⟨fd.inode, fd.offset + data.length⟩, pc := .downgrading path },
      .internal)
  | .downgrading path, some fd =>
    match (s.locks fd.inode).acquire me .read with
    | none => none
    | some holders =>
      some ((s.setLock fd.inode holders).setClient pid
        { c with pc := .idle, returned := c.returned ++ [path] }, .returned pid path)
  | .destroying, _ =>
    let files := if unlinks then s.files.unlink pid else s.files
    some ((s.setFiles files).setClient pid {}, .internal)
  | _, _ => none

/-- The kernel closes all descriptors of a process that dies. -/
def die (s : State) (pid : Pid) : State :=
  { s with
    gcLock := s.gcLock.release (.client pid)
    locks := fun fd => (s.locks fd).release (.client pid)
    client := update s.client pid {} }

/-- `~LocalStore`. -/
def destroy (s : State) (pid : Pid) : Option State :=
  let c := s.client pid
  match c.pc, c.fdTempRoots with
  | .idle, some fd => some ((s.close (.client pid) fd.inode).setClient pid { pc := .destroying })
  | _, _ => none

/-- `openGCLock(ltWrite)` of a collector. -/
def collectGarbage (s : State) (id : Nat) : Option State :=
  match (s.collector id).pc, s.gcLock.acquire (.collector id) .write with
  | .idle, some holders =>
    some ((s.setGcLock holders).setCollector id { pc := .listing })
  | _, _ => none

/-- `readDirectory`, in any order. A name may be listed that goes away before it is opened. -/
def list (s : State) (id : Nat) (names : List Pid) : Option State :=
  let c := s.collector id
  match c.pc with
  | .listing =>
    if s.files.names ⊆ names.toFinset then
      some (s.setCollector id { c with pc := .scanning names })
    else none
  | _ => none

def collectorStep (nixStore : Path) (s : State) (id : Nat) (unlinks : Bool) : Option State :=
  let c := s.collector id
  let me := Party.collector id
  match c.pc with
  | .scanning [] => some (s.setCollector id { c with pc := .deleting })
  | .scanning (name :: todo) =>
    match s.files.link name with
    | none => some (s.setCollector id { c with pc := .scanning todo })
    | some fd => some (s.setCollector id { c with pc := .tryLocking name fd todo })
  | .tryLocking name fd todo =>
    match (s.locks fd).acquire me .write with
    | some holders =>
      some ((s.setLock fd holders).setCollector id { c with pc := .unlinking name fd todo })
    | none => some (s.setCollector id { c with pc := .readLocking name fd todo })
  | .unlinking name fd todo =>
    let files := if unlinks then s.files.unlink name else s.files
    some ((s.setFiles files).setCollector id { c with pc := .marking name fd todo })
  | .marking _ fd todo =>
    some ((s.setFiles (s.files.write fd 0 (ascii "d"))).setCollector id { c with pc := .closing fd todo })
  | .closing fd todo => some ((s.close me fd).setCollector id { c with pc := .scanning todo })
  | .readLocking name fd todo =>
    match (s.locks fd).acquire me .read with
    | none => none
    | some holders =>
      some ((s.setLock fd holders).setCollector id { c with pc := .reading name fd todo })
  | .reading _ fd todo =>
    let roots := extractRoots [] (s.files.content fd)
    -- `assertStorePath` throws
    if roots.all (isStorePath nixStore) then
      some (s.setCollector id
        ⟨.scanning todo, c.tempRoots ∪ roots.toFinset, c.fds ++ [fd]⟩)
    else some (s.setCollector id { c with pc := .unwinding (fd :: c.fds) })
  | .releasing [] => some (s.setCollector id {})
  | .releasing (fd :: fds) =>
    some ((s.close me fd).setCollector id { c with pc := .releasing fds })
  | .unwinding [] => some ((s.setGcLock (s.gcLock.release me)).setCollector id {})
  | .unwinding (fd :: fds) =>
    some ((s.close me fd).setCollector id { c with pc := .unwinding fds })
  | _ => none

/-- The end of the deletion phase: `fdGCLock.close()`. -/
def finish (s : State) (id : Nat) : Option State :=
  let c := s.collector id
  match c.pc with
  | .deleting =>
    some ((s.setGcLock (s.gcLock.release (.collector id))).setCollector id
      { c with pc := .releasing c.fds })
  | _ => none

/-- An exception between two files or in the deletion phase, or an early return. -/
def unwind (s : State) (id : Nat) : Option State :=
  let c := s.collector id
  match c.pc with
  | .scanning _ | .deleting => some (s.setCollector id { c with pc := .unwinding c.fds })
  | _ => none

def step (nixStore : Path) (s : State) (move : Move) : Option (State × Event) :=
  let silent := fun next : State => (next, Event.internal)
  match move with
  | .addTempRoot pid path => (addTempRoot s pid path).map silent
  | .client pid unlinks => clientStep s pid unlinks
  | .die pid => some (silent (die s pid))
  | .destroy pid => (destroy s pid).map silent
  | .collectGarbage id => (collectGarbage s id).map silent
  | .list id names => (list s id names).map silent
  | .collector id unlinks => (collectorStep nixStore s id unlinks).map silent
  | .finish id => (finish s id).map silent
  | .unwind id => (unwind s id).map silent

end Guix.LibStore.TempRoots
