import Guix.Lib.FileSystem
import Guix.Lib.OrdMap
import Guix.LibUtil.PathSet
import Guix.LibUtil.Serialise

/-!
# Archives

`archive.cc`: `dumpPath` writes the files at a path as an archive, `parseDump` reads one and
gives what it reads to a sink, and `restorePath` does so with a `RestoreSink`, which creates
the files.
-/

namespace Guix

open FileSystem

abbrev ArchiveError := SerialiseError Errno

def archiveVersion1 : Bytes := ascii "nix-archive-1"

def bufferSize : Nat := 65536

/-! ### Dumping -/

section Dump

variable (files : Files)

/-- The loop of `dumpContents` over what is left of the file. -/
def dumpLoop (left : Nat) (file : Bytes) : Except ArchiveError Bytes :=
  if left = 0 then .ok []
  else if file.length < min left bufferSize then .error (.endOfFile (ascii "unexpected end-of-file"))
  else do
    let rest ← dumpLoop (left - min left bufferSize) (file.drop (min left bufferSize))
    return file.take (min left bufferSize) ++ rest
termination_by left
decreasing_by
  simp only [bufferSize]
  omega

def dumpContents (size : Nat) (file : Bytes) : Except ArchiveError Bytes := do
  let contents ← dumpLoop size file
  return writeString (ascii "contents") ++ writeLongLong size ++ contents ++ writePadding size

/-- `unhacked` maps each name to itself. -/
def unhackedNames (names : List Name) : List (Bytes × Bytes) :=
  (OrdMap.ofList (names.map fun name => (name, name))).entries

def dump (filter : Path → Bool) : Nat → Path → Except ArchiveError Bytes
  | 0, _ => .error .outOfFuel
  | fuel + 1, path =>
    match files.lstat (cstr path) with
    | .error errno => .error (.sys (ascii "getting attributes of path `" ++ path ++ ascii "'") errno)
    | .ok (_, .regular executable file) => do
      let contents ← dumpContents file.length file
      return writeString (ascii "(") ++ writeString (ascii "type") ++ writeString (ascii "regular") ++
        (if executable then writeString (ascii "executable") ++ writeString [] else []) ++ contents ++
        writeString (ascii ")")
    | .ok (loc, .directory) => do
      let selected := (unhackedNames (files.entries loc)).filter fun name => filter (path ++ ascii "/" ++ name.1)
      let entries ← selected.mapM fun name => do
        let node ← dump filter fuel (path ++ ascii "/" ++ name.2)
        return writeString (ascii "entry") ++ writeString (ascii "(") ++ writeString (ascii "name") ++
          writeString name.1 ++ writeString (ascii "node") ++ node ++ writeString (ascii ")")
      return writeString (ascii "(") ++ writeString (ascii "type") ++ writeString (ascii "directory") ++
        entries.flatten ++ writeString (ascii ")")
    | .ok (_, .symlink target) =>
      return writeString (ascii "(") ++ writeString (ascii "type") ++ writeString (ascii "symlink") ++
        writeString (ascii "target") ++ writeString target ++ writeString (ascii ")")

def dumpPath (filter : Path → Bool) (fuel : Nat) (path : Path) : Except ArchiveError Bytes := do
  let node ← dump files filter fuel path
  return writeString archiveVersion1 ++ node

end Dump

/-! ### Parsing -/

/-- What a `ParseSink` does with the files, on its own state `ω`. -/
structure ParseSink (ω : Type) where
  createDirectory : Path → EStateM ArchiveError ω Unit
  createRegularFile : Path → EStateM ArchiveError ω Unit
  isExecutable : EStateM ArchiveError ω Unit
  preallocateContents : Nat → EStateM ArchiveError ω Unit
  receiveContents : Bytes → EStateM ArchiveError ω Unit
  createSymlink : Path → Bytes → EStateM ArchiveError ω Unit

inductive FileType
  | tpUnknown
  | tpRegular
  | tpDirectory
  | tpSymlink
  deriving DecidableEq

def badArchive (s : Bytes) : ArchiveError := .serialisation (ascii "bad archive: " ++ s)

section Parse

variable {σ ω : Type} (source : Source σ) (sink : ParseSink ω)

def onSink {α : Type} (x : EStateM ArchiveError ω α) : Reading σ ω Errno α :=
  Hoare.focus Prod.snd (fun st w => (st.1, w)) id x

def contentsLoop (left : Nat) : Reading σ ω Errno Unit :=
  if left = 0 then return ⟨⟩
  else do
    let data ← readBytes source (min bufferSize left)
    onSink (sink.receiveContents data)
    contentsLoop (left - min bufferSize left)
termination_by left
decreasing_by
  simp only [bufferSize]
  omega

def parseContents : Reading σ ω Errno Unit := do
  let size ← readLongLong source
  onSink (sink.preallocateContents size)
  contentsLoop source sink size
  readPadding source size

/-- The check of entry names. -/
def invalidFileName (name : Bytes) : Bool :=
  name = [] || name = ascii "." || name = ascii ".." || name.contains 47 || name.contains 0

mutual

def parse : Nat → Path → Reading σ ω Errno Unit
  | 0, _ => throw .outOfFuel
  | fuel + 1, path => do
    let s ← readString source
    if s = ascii "(" then parseFields fuel path .tpUnknown
    else throw (badArchive (ascii "expected open tag"))

def parseFields : Nat → Path → FileType → Reading σ ω Errno Unit
  | 0, _, _ => throw .outOfFuel
  | fuel + 1, path, type => do
    let s ← readString source
    if s = ascii ")" then return ⟨⟩
    else if s = ascii "type" then
      if type = .tpUnknown then do
        let t ← readString source
        if t = ascii "regular" then do
          onSink (sink.createRegularFile path)
          parseFields fuel path .tpRegular
        else if t = ascii "directory" then do
          onSink (sink.createDirectory path)
          parseFields fuel path .tpDirectory
        else if t = ascii "symlink" then parseFields fuel path .tpSymlink
        else throw (badArchive (ascii "unknown file type " ++ t))
      else throw (badArchive (ascii "multiple type fields"))
    else if s = ascii "contents" ∧ type = .tpRegular then do
      parseContents source sink
      parseFields fuel path type
    else if s = ascii "executable" ∧ type = .tpRegular then do
      let _ ← readString source
      onSink sink.isExecutable
      parseFields fuel path type
    else if s = ascii "entry" ∧ type = .tpDirectory then do
      let s ← readString source
      if s = ascii "(" then do
        parseEntry fuel path [] []
        parseFields fuel path type
      else throw (badArchive (ascii "expected open tag"))
    else if s = ascii "target" ∧ type = .tpSymlink then do
      let target ← readString source
      onSink (sink.createSymlink path target)
      parseFields fuel path type
    else throw (badArchive (ascii "unknown field " ++ s))

def parseEntry : Nat → Path → Bytes → Bytes → Reading σ ω Errno Unit
  | 0, _, _, _ => throw .outOfFuel
  | fuel + 1, path, name, prevName => do
    let s ← readString source
    if s = ascii ")" then return ⟨⟩
    else if s = ascii "name" then do
      let name ← readString source
      if invalidFileName name then
        throw (.error (ascii "NAR contains invalid file name `" ++ name ++ ascii "'"))
      else if prevName < name then parseEntry fuel path name name
      else throw (.error (ascii "NAR directory is not sorted"))
    else if s = ascii "node" then
      -- the source tests `s`, which is not empty here, and not `name`
      if s = [] then throw (badArchive (ascii "entry name missing"))
      else do
        parse fuel (path ++ ascii "/" ++ name)
        parseEntry fuel path name prevName
    else throw (badArchive (ascii "unknown field " ++ s))

end

/-- The version, or nothing when it could not be decoded. -/
def readVersion : Reading σ ω Errno Bytes :=
  tryCatch (readString source) fun e =>
    match e with
    | .serialisation _ => return []
    | e => throw e

def parseDump (fuel : Nat) : Reading σ ω Errno Unit := do
  let version ← readVersion source
  if version = archiveVersion1 then parse source sink fuel []
  else throw (badArchive (ascii "input doesn't look like a normalized archive"))

end Parse

/-! ### Restoring -/

/-- The state of a `RestoreSink`: its descriptor is a file and an offset. -/
structure Restore where
  files : Files
  fd : Option (Loc × Nat)

/-- A call on the file system that must not fail. -/
def sysCall (message : Bytes) (call : Files → Except Errno (Files × Loc)) : EStateM ArchiveError Restore Loc :=
  fun st =>
    match call st.files with
    | .ok done => .ok done.2 { st with files := done.1 }
    | .error errno => .error (.sys message errno) st

/-- A call on the descriptor. -/
def fdCall (message : Bytes) (call : Files → Loc × Nat → Files × Nat) : EStateM ArchiveError Restore Unit :=
  fun st =>
    match st.fd with
    | some fd => .ok ⟨⟩ { files := (call st.files fd).1, fd := some (fd.1, (call st.files fd).2) }
    | none => .error (.sys message .badDescriptor) st

section RestoreSink

variable (dstPath : Path)

def RestoreSink.createDirectory (path : Path) : EStateM ArchiveError Restore Unit := do
  let _ ← sysCall (ascii "creating directory `" ++ (dstPath ++ path) ++ ascii "'")
    fun files => files.mkdir (cstr (dstPath ++ path))
  return ⟨⟩

def RestoreSink.createRegularFile (path : Path) : EStateM ArchiveError Restore Unit := do
  modify fun st => { st with fd := none }
  let loc ← sysCall (ascii "creating file `" ++ (dstPath ++ path) ++ ascii "'")
    fun files => files.openExclusive (cstr (dstPath ++ path))
  modify fun st => { st with fd := some (loc, 0) }

def RestoreSink.isExecutable : EStateM ArchiveError Restore Unit :=
  fdCall (ascii "fstat") fun files fd => (files.setExecutable fd.1 true, fd.2)

/-- `posix_fallocate` takes a signed length; `EINVAL` is ignored. -/
def RestoreSink.preallocateContents (len : Nat) : EStateM ArchiveError Restore Unit :=
  if len = 0 then return ⟨⟩
  else fdCall (ascii "preallocating file of " ++ ascii (toString len) ++ ascii " bytes") fun files fd =>
    (if len < 2 ^ 63 then files.allocate fd.1 len else files, fd.2)

def RestoreSink.receiveContents (data : Bytes) : EStateM ArchiveError Restore Unit :=
  fdCall (ascii "writing to file") fun files fd => (files.write fd.1 fd.2 data, fd.2 + data.length)

def RestoreSink.createSymlink (path : Path) (target : Bytes) : EStateM ArchiveError Restore Unit := do
  let _ ← sysCall (ascii "creating symlink from `" ++ (dstPath ++ path) ++ ascii "' to `" ++ target ++ ascii "'")
    fun files => files.symlink (cstr target) (cstr (dstPath ++ path))
  return ⟨⟩

def RestoreSink : ParseSink Restore where
  createDirectory := RestoreSink.createDirectory dstPath
  createRegularFile := RestoreSink.createRegularFile dstPath
  isExecutable := RestoreSink.isExecutable
  preallocateContents := RestoreSink.preallocateContents
  receiveContents := RestoreSink.receiveContents
  createSymlink := RestoreSink.createSymlink dstPath

end RestoreSink

def restorePath {σ : Type} (source : Source σ) (fuel : Nat) (path : Path) : Reading σ Restore Errno Unit :=
  parseDump source (RestoreSink path) fuel

end Guix
