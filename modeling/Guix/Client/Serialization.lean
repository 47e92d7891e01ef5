import Guix.Client.Derivations
import Guix.Lib.FileSystem
import Guix.Lib.Hoare
import Guix.Lib.LittleEndian
import Guix.Lib.SortBy

/-!
# Archives in the client

`(guix serialization)`: `write-file-tree` and `write-file` write archives, `fold-archive` reads
them and `restore-file` creates the files they hold. What is written to a port is given as
bytes; a port that is read from has bytes left. Guile's `make-bytevector` fills with zeros.
-/

namespace Guix.Client.Serialization

open FileSystem LittleEndian List MonadExcept
open Sorting (sortBy)

inductive NarError
  /-- `&nar-error` of `get-bytevector-n*`. -/
  | short (file : Option Str)
  /-- `&nar-error` with a message. -/
  | nar (message file : Str)
  /-- `&nar-read-error`. -/
  | read (message : Str) (file : Option Str) (token : List Str)
  /-- `utf8->string` of other bytes. -/
  | decoding
  /-- A number that does not fit. -/
  | outOfRange
  /-- No pattern matches. -/
  | noMatch
  /-- A file name with a NUL character. -/
  | nulCharacter
  | system (errno : Errno)
  | outOfFuel
  deriving DecidableEq

/-! ### Writing -/

def padding (len : Nat) : Nat := if len % 8 = 0 then 0 else 8 - len % 8

def writeLongLong (n : Nat) : Except NarError Bytes :=
  if n < 2 ^ 64 then .ok (LittleEndian.encode 8 n) else .error .outOfRange

def writePadding (n : Nat) : Bytes := if n % 8 = 0 then [] else replicate (8 - n % 8) 0

def writeBytevector (s : Bytes) : Except NarError Bytes :=
  if s.length < 2 ^ 32 then
    .ok (LittleEndian.encode 4 s.length ++ replicate 4 0 ++ s ++ replicate (padding s.length) 0)
  else .error .outOfRange

def writeString (s : Str) : Except NarError Bytes := writeBytevector (encode s)

/-- `write-literal-strings` computes the bytes when it is expanded. -/
def writeLiteralStrings (strings : List Str) : Bytes :=
  strings.flatMap fun s => LittleEndian.encode 4 (encode s).length ++ replicate 4 0 ++ encode s ++
    replicate (padding (encode s).length) 0

def bufSize : Nat := 65536

/-- What `dump` copies, and how many bytes were missing. -/
def dump (left : Nat) (input : Bytes) : Bytes × Nat :=
  if left = 0 then ([], 0)
  else if input.take (min left bufSize) = [] then ([], left)
  else
    let rest := dump (left - (input.take (min left bufSize)).length) (input.drop (min left bufSize))
    (input.take (min left bufSize) ++ rest.1, rest.2)
termination_by left
decreasing_by
  next _ eof =>
  have := length_pos_of_ne_nil eof
  omega

/-- `sendfile` is used between file ports. -/
def writeContentsFromPort (filePorts : Bool) (input : Bytes) (size : Nat) : Except NarError Bytes := do
  let field ← writeString (str "contents")
  let length ← writeLongLong size
  return field ++ length ++ (if filePorts then input.take size else (dump size input).1) ++ writePadding size

inductive FileType
  | regular
  | executable
  | directory
  | symlink
  | other

/-- The procedures given to `write-file-tree`; a port to read from is given by its bytes. -/
structure Callbacks where
  fileTypeSize : Str → Except NarError (FileType × Nat)
  filePort : Str → Except NarError Bytes
  symlinkTarget : Str → Except NarError Str
  directoryEntries : Str → Except NarError (List Str)
  postprocessEntries : List Str → List Str

def filterSortDirectoryEntries (lst : List Str) : List Str :=
  (sortBy id (lst.filter fun entry => entry ∉ [str ".", str ".."])).eraseDups

section WriteFileTree

variable (callbacks : Callbacks) (filePorts : Bool)

def writeNode : Nat → Str → Except NarError Bytes
  | 0, _ => .error .outOfFuel
  | fuel + 1, file => do
    let info ← callbacks.fileTypeSize file
    match info.1 with
    | .regular => do
      let input ← callbacks.filePort file
      let contents ← writeContentsFromPort filePorts input info.2
      return writeLiteralStrings [str "("] ++ writeLiteralStrings [str "type", str "regular"] ++ contents ++
        writeLiteralStrings [str ")"]
    | .executable => do
      let input ← callbacks.filePort file
      let contents ← writeContentsFromPort filePorts input info.2
      return writeLiteralStrings [str "("] ++ writeLiteralStrings [str "type", str "regular"] ++
        writeLiteralStrings [str "executable", str ""] ++ contents ++ writeLiteralStrings [str ")"]
    | .directory => do
      let lst ← callbacks.directoryEntries file
      let entries ← (callbacks.postprocessEntries lst).mapM fun e => do
        let name ← writeString e
        let node ← writeNode fuel (file ++ str "/" ++ e)
        return writeLiteralStrings [str "entry", str "(", str "name"] ++ name ++
          writeLiteralStrings [str "node"] ++ node ++ writeLiteralStrings [str ")"]
      return writeLiteralStrings [str "("] ++ writeLiteralStrings [str "type", str "directory"] ++
        entries.flatten ++ writeLiteralStrings [str ")"]
    | .symlink => do
      let target ← callbacks.symlinkTarget file
      let target ← writeString target
      return writeLiteralStrings [str "("] ++ writeLiteralStrings [str "type", str "symlink", str "target"] ++
        target ++ writeLiteralStrings [str ")"]
    | .other => .error (.nar (str "unsupported file type") file)

def archiveVersion1 : Str := str "nix-archive-1"

def writeFileTree (fuel : Nat) (file : Str) : Except NarError Bytes := do
  let version ← writeString archiveVersion1
  let node ← writeNode callbacks filePorts fuel file
  return version ++ node

end WriteFileTree

section WriteFile

variable (files : Files)

/-- A string read from the system, in a UTF-8 locale. -/
def fromLocale (s : Bytes) : Except NarError Str :=
  match Utf8.decode s with
  | some s => .ok s
  | none => .error .decoding

/-- A string given to the system. -/
def toLocale (s : Str) : Except NarError Bytes :=
  if '\x00' ∈ s then .error .nulCharacter else .ok (encode s)

def lstat (file : Str) : Except NarError (Loc × Node) := do
  let path ← toLocale file
  match files.lstat path with
  | .ok found => return found
  | .error errno => .error (.system errno)

/-- `scandir`, with the entries in the order of `string<?`. -/
def scandir (loc : Loc) (select : Str → Bool) : Except NarError (List Str) := do
  let names ← ([dot, dotDot] ++ files.entries loc).mapM fromLocale
  return sortBy id (names.filter select)

def selectEntries (select : Str → Node → Bool) (directory : Str) : List Str → Except NarError (List Str)
  | [] => .ok []
  | base :: rest => do
    let found ← lstat files (directory ++ str "/" ++ base)
    let others ← selectEntries select directory rest
    return if select (directory ++ str "/" ++ base) found.2 then base :: others else others

def writeFileCallbacks (select : Str → Node → Bool) : Callbacks where
  fileTypeSize := fun file => do
    let found ← lstat files file
    match found.2 with
    | .directory => return (.directory, 0)
    | .regular executable contents => return (if executable then .executable else .regular, contents.length)
    | .symlink target => return (.symlink, target.length)
  filePort := fun file => do
    let found ← lstat files file
    match found.2 with
    | .regular _ contents => return contents
    | _ => .error (.system .isDirectory)
  symlinkTarget := fun file => do
    let found ← lstat files file
    match found.2 with
    | .symlink target => fromLocale target
    | _ => .error (.system .noEntry)
  directoryEntries := fun directory => do
    let found ← lstat files directory
    let basenames ← scandir files found.1 fun entry => entry ∉ [str ".", str ".."]
    selectEntries files select directory basenames
  postprocessEntries := id

def writeFile (select : Str → Node → Bool) (filePorts : Bool) (fuel : Nat) (file : Str) :
    Except NarError Bytes :=
  writeFileTree (writeFileCallbacks files select) filePorts fuel file

end WriteFile

/-! ### Reading -/

/-- The state while an archive is read; `ω` is what the procedure changes. -/
structure NarPort (ω : Type) where
  rest : Bytes
  currentlyRestoredFile : Option Str
  world : ω

abbrev NarM (ω : Type) := EStateM NarError (NarPort ω)

section Read

variable {ω α : Type}

/-- `get-bytevector-n*`. -/
def getBytevectorN (count : Nat) : NarM ω Bytes := fun port =>
  if port.rest.length < count then .error (.short port.currentlyRestoredFile) { port with rest := [] }
  else .ok (port.rest.take count) { port with rest := port.rest.drop count }

def readInt : NarM ω Nat := do
  let b ← getBytevectorN 8
  return decode (b.take 4)

def readLongLong : NarM ω Nat := do
  let b ← getBytevectorN 8
  return decode b

def readByteString : NarM ω Bytes := do
  let len ← readInt
  let bv ← getBytevectorN (len + padding len)
  return bv.take len

def readString : NarM ω Str := do
  let bv ← readByteString
  match Utf8.decode bv with
  | some s => return s
  | none => throw .decoding

/-- `read-file-type`: whether the file is executable. -/
def readFileType : NarM ω Bool := do
  let tag ← readString
  if tag = str "contents" then return false
  else if tag = str "executable" then do
    let first ← readString
    let second ← readString
    if first = [] ∧ second = str "contents" then return true
    else throw (.read (str "unexpected executable file marker") none [first, second])
  else throw (.read (str "unsupported nar file type") none [tag])

/-- The type and contents that the procedure is called with; the contents of a regular file are
still on the port. -/
inductive Content
  | regular (executable : Bool) (size : Nat)
  | symlink (target : Str)
  | directory
  | directoryComplete
  deriving DecidableEq

variable (proc : Str → Content → α → NarM ω α)

def readEofMarker (file : Str) : NarM ω Unit := do
  let x ← readString
  if x = str ")" then return ⟨⟩
  else throw (.read (str "invalid nar end-of-file marker") (some file) [x])

def readRegular (file : Str) (result : α) : NarM ω α := do
  let executable ← readFileType
  let size ← readLongLong
  -- the procedure must read exactly SIZE bytes
  let result ← proc file (.regular executable size) result
  let _ ← getBytevectorN (padding size)
  readEofMarker file
  return result

def readSymlink (file : Str) (result : α) : NarM ω α := do
  let first ← readString
  let target ← readString
  if first = str "target" then do
    let result ← proc file (.symlink target) result
    readEofMarker file
    return result
  else throw (.read (str "invalid symlink tokens") (some file) [first, target])

/-- The four strings before the node of an entry: its name. -/
def readEntryName : NarM ω Str := do
  let a ← readString
  let b ← readString
  let name ← readString
  let d ← readString
  if a = str "(" ∧ b = str "name" ∧ d = str "node" then return name else throw .noMatch

def readEntryEnd (file : Str) : NarM ω Unit := do
  let x ← readString
  if x = str ")" then return ⟨⟩
  else throw (.read (str "unexpected directory entry termination") (some file) [x])

mutual

def readNode : Nat → Str → α → NarM ω α
  | 0, _, _ => throw .outOfFuel
  | fuel + 1, file, result => do
    modify fun port => { port with currentlyRestoredFile := some file }
    let a ← readString
    let b ← readString
    let c ← readString
    if a = str "(" ∧ b = str "type" ∧ c = str "regular" then readRegular proc file result
    else if a = str "(" ∧ b = str "type" ∧ c = str "symlink" then readSymlink proc file result
    else if a = str "(" ∧ b = str "type" ∧ c = str "directory" then do
      let marker ← readString
      let result ← proc file .directory result
      readEntries fuel file marker result
    else throw (.read (str "unsupported nar entry type") (some file) [a, b, c])

def readEntries : Nat → Str → Str → α → NarM ω α
  | 0, _, _, _ => throw .outOfFuel
  | fuel + 1, dir, marker, result => do
    if marker = str "entry" then do
      let name ← readEntryName
      let result ← readNode fuel (dir ++ str "/" ++ name) result
      readEntryEnd name
      let marker ← readString
      readEntries fuel dir marker result
    else if marker = str ")" then proc dir .directoryComplete result
    else throw (.read (str "unexpected directory inter-entry marker") (some dir) [marker])

end

def readArchive (fuel : Nat) (seed : α) (file : Str) : NarM ω α := do
  let signature ← readString
  if signature = archiveVersion1 then readNode proc fuel file seed
  else throw (.read (str "invalid nar signature") none [signature])

def foldArchive (fuel : Nat) (seed : α) (file : Str) : NarM ω α :=
  -- `parameterize` sets the parameter while the body runs
  Hoare.focus (fun port => { port with currentlyRestoredFile := some file })
    (fun port after => { after with currentlyRestoredFile := port.currentlyRestoredFile }) id
    (readArchive proc fuel seed file)

end Read

/-! ### Restoring -/

/-- A call on the file system with a file name. -/
def fileCall (file : Str) (call : Files → Bytes → Except Errno (Files × Loc)) : EStateM NarError Files Loc := do
  let path ← ofExcept (toLocale file)
  fun files =>
    match call files path with
    | .ok done => .ok done.2 done.1
    | .error errno => .error (.system errno) files

/-- A program that does not read from the port. -/
def onWorld {ω α : Type} (x : EStateM NarError ω α) : NarM ω α :=
  Hoare.focus NarPort.world (fun port w => { port with world := w }) id x

/-- `dump-file`: as much of SIZE bytes as there is goes to the file. -/
def dumpFile (file : Str) (size : Nat) (_executable : Bool) : NarM Files Unit := do
  let loc ← onWorld (fileCall file Files.openTruncate)
  modify fun port =>
    { port with
      rest := port.rest.drop size
      world := port.world.write loc 0 (dump size port.rest).1 }

section RestoreFile

variable (dumpFile : Str → Nat → Bool → NarM Files Unit)

/-- The procedure of `restore-file`. Times are left out. -/
def restoreProc (file : Str) (content : Content) (_ : Unit) : NarM Files Unit :=
  match content with
  | .directory => do
    let _ ← onWorld (fileCall file Files.mkdir)
    return ⟨⟩
  | .directoryComplete => do
    let _ ← onWorld (fileCall file fun files path => files.chmod path true)
    return ⟨⟩
  | .symlink target => do
    let target ← ofExcept (toLocale target)
    let _ ← onWorld (fileCall file fun files path => files.symlink target path)
    return ⟨⟩
  | .regular executable size => do
    dumpFile file size executable
    let _ ← onWorld (fileCall file fun files path => files.chmod path executable)
    return ⟨⟩

def restoreFile (fuel : Nat) (file : Str) : NarM Files Unit :=
  foldArchive (restoreProc dumpFile) fuel ⟨⟩ file

end RestoreFile

end Guix.Client.Serialization
