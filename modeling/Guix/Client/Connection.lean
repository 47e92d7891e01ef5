import Guix.Client.FoldArchive

/-!
# The messages of the daemon while it works

While the daemon works on a request it sends log lines, and at the end says that it is done or
has failed. `process-stderr` of `(guix store)` reads one message. `open-connection` and
`set-build-options` have to read all of them, but the loop they do it in never comes to a second
turn: they read two messages at most.
-/

namespace Guix.Client.Serialization.Connection

open Hoare List

attribute [local irreducible] wp

inductive ConnectionError
  | nar (error : NarError)
  /-- `&store-connection-error`. -/
  | handshakeFailed
  /-- `&store-protocol-error`. -/
  | storeProtocol (message : Str) (status : Nat)

/-- What has been displayed and sent. -/
structure Output where
  log : List Str
  sent : Bytes

abbrev ConnM := EStateM ConnectionError (NarPort Output)

def onPort {α : Type} (x : NarM Output α) : ConnM α := EStateM.adaptExcept .nar x

def send (bytes : Bytes) : ConnM Unit :=
  modify fun port => { port with world := { port.world with sent := port.world.sent ++ bytes } }

def stderrNext : Nat := 0x6f6c6d67
def stderrRead : Nat := 0x64617461
def stderrWrite : Nat := 0x64617416
def stderrLast : Nat := 0x616c7473
def stderrError : Nat := 0x63787470

/-- How bytes are displayed as text, and what is done with the data of a user's port. -/
structure Environment where
  permissive : Bytes → Str
  writeData : ConnM Unit
  readData : ConnM Unit

section Model

variable (env : Environment)

/-- Daemons fail to send the status of early errors. -/
def readStatus (minor : Nat) : ConnM Nat := do
  if minor ≥ 8 ∧ (← get).rest ≠ [] then onPort readInt else return 1

/-- Whether the daemon is done. -/
def processStderr (minor : Nat) : ConnM Bool := do
  let k ← onPort readInt
  if k = stderrWrite then do
    env.writeData
    return false
  else if k = stderrRead then do
    env.readData
    return false
  else if k = stderrNext then do
    let s ← onPort readByteString
    modify fun port => { port with world := { port.world with log := port.world.log ++ [env.permissive s] } }
    return false
  else if k = stderrError then do
    let error ← onPort readByteString
    throw (.storeProtocol (env.permissive error) (← readStatus minor))
  else if k = stderrLast then return true
  else throw (.storeProtocol (str "invalid error code") k)

/-- The `let loop` of both operations, which calls `process-stderr` but not itself. -/
def loop (minor : Nat) : ConnM Bool := do
  if ← processStderr env minor then return true
  else processStderr env minor

def protocolVersion : Nat := 0x164
def workerMagic1 : Nat := 0x6e697863
def workerMagic2 : Nat := 0x6478696f
def protocolMajor (magic : Nat) : Nat := magic &&& 0xff00
def protocolMinor (magic : Nat) : Nat := magic &&& 0x00ff

def handshake (reserveSpace : Bool) (cpuAffinity : Option Nat) : ConnM Nat := do
  send (writeInt workerMagic1)
  let r ← onPort readInt
  if r ≠ workerMagic2 then throw .handshakeFailed
  else do
    let v ← onPort readInt
    if protocolMajor protocolVersion ≠ protocolMajor v then throw .handshakeFailed
    else do
      send (writeInt protocolVersion ++
        (if protocolMinor v ≥ 14 then
          writeInt (if cpuAffinity.isSome then 1 else 0) ++ (cpuAffinity.map writeInt).getD [] else []) ++
        if protocolMinor v ≥ 11 then writeInt (if reserveSpace then 1 else 0) else [])
      return protocolMinor v

/-- The minor version of the connection; errors of the reading procedures are those of the
handshake. -/
def openConnection (reserveSpace : Bool) (cpuAffinity : Option Nat) : ConnM Nat :=
  tryCatch (do
    let minor ← handshake reserveSpace cpuAffinity
    let _ ← loop env minor
    return minor)
    fun
    | .nar _ => throw .handshakeFailed
    | e => throw e

/-- `request` is what is written for the options. -/
def setBuildOptions (minor : Nat) (request : Bytes) : ConnM Bool := do
  send request
  loop env minor

end Model

/-! ### What the daemon sends -/

/-- The length of a line is sent in 32 bits. -/
abbrev Line := { line : Bytes // line.length < 2 ^ 32 }

def nextMessage (line : Line) : Bytes := writeInt stderrNext ++ Guix.writeString line.1

/-- What `stopWork` sends to a client that knows about the status of an error, which is not 0. -/
inductive Terminator
  | last
  | error (message : Line) (status : { n : Nat // n ≠ 0 ∧ n < 2 ^ 32 })

def Terminator.bytes : Terminator → Bytes
  | .last => writeInt stderrLast
  | .error message status => writeInt stderrError ++ (Guix.writeString message.1 ++ writeInt status.1)

def messages (terminator : Terminator) : List Line → Bytes
  | [] => terminator.bytes
  | line :: lines => nextMessage line ++ messages terminator lines

/-- A version that `open-connection` accepts. -/
abbrev DaemonVersion := { v : Nat // v < 2 ^ 32 ∧ protocolMajor protocolVersion = protocolMajor v }

variable {α : Type} {env : Environment} {minor : Nat} {more : Bytes}
  {lines : List Line} {terminator : Terminator}

variable (env) in
/-- An operation reads all messages before it returns, or raises the error that the daemon has
sent. -/
def Finishes (terminator : Terminator) (more : Bytes) (operation : ConnM α) : NarPort Output → Prop :=
  wp operation (fun _ port => terminator = .last ∧ port.rest = more) fun e _ => ∃ message status status',
    terminator = .error message status ∧ e = .storeProtocol (env.permissive message.1) status'

/-! ### Reading messages -/

section Messages

variable {post : Bool → NarPort Output → Prop} {fails : ConnectionError → NarPort Output → Prop} {output : Output}

theorem wp_onPort {post : α → NarPort Output → Prop} (x : NarM Output α) (port : NarPort Output) :
    wp (onPort x) post fails port ↔ wp x post (fun e => fails (.nar e)) port := by
  simp only [wp, onPort, EStateM.adaptExcept]
  cases x port <;> rfl

theorem wp_processStderr_next (line : Line) (next : ∀ output, post false ⟨more, none, output⟩) :
    wp (processStderr env minor) post fails ⟨nextMessage line ++ more, none, output⟩ := by
  rw [nextMessage, append_assoc, processStderr, wp_bind, wp_onPort]
  apply wp_readInt_of_eq (by decide)
  rw [if_neg (by decide), if_neg (by decide), if_pos rfl, wp_bind, wp_onPort]
  apply wp_readByteString_of_eq line.2
  rw [wp_bind, wp_modify, wp_pure]
  exact next _

theorem wp_processStderr_end (returns : terminator = .last → post true ⟨more, none, output⟩)
    (raises : ∀ message status status' port, terminator = .error message status →
      fails (.storeProtocol (env.permissive message.1) status') port) :
    wp (processStderr env minor) post fails ⟨terminator.bytes ++ more, none, output⟩ := by
  rw [processStderr, wp_bind, wp_onPort]
  cases terminator with
  | last =>
    apply wp_readInt_of_eq (by decide)
    rw [if_neg (by decide), if_neg (by decide), if_neg (by decide), if_neg (by decide), if_pos rfl, wp_pure]
    exact returns rfl
  | error message status =>
    rw [Terminator.bytes, append_assoc, append_assoc]
    apply wp_readInt_of_eq (by decide)
    rw [if_neg (by decide), if_neg (by decide), if_neg (by decide), if_pos rfl, wp_bind, wp_onPort]
    apply wp_readByteString_of_eq message.2
    rw [wp_bind, readStatus, wp_bind, wp_get, wp_ite, wp_onPort, wp_pure]
    refine ⟨fun _ => wp_readInt_of_eq status.2.2 ?_, fun _ => ?_⟩
    · exact (wp_throw _ _ _ _).mpr (raises message status _ _ rfl)
    · exact (wp_throw _ _ _ _).mpr (raises message status _ _ rfl)

end Messages

variable (env) in
/-- The operation reads what comes with the loop; an error of the daemon is passed on. -/
def ReadsWithLoop (operation : ConnM α) (port : NarPort Output) (incoming : Bytes) : Prop :=
  ∀ post fails, (∀ minor output, wp (loop env minor) (fun _ => post)
      (fun e port => (∃ message status, e = .storeProtocol message status) ∧ fails e port) ⟨incoming, none, output⟩) →
    wp operation (fun _ => post) fails port

/-- Two messages are read, so that all are if there is one line at most. -/
theorem ReadsWithLoop.finishes_iff {operation : ConnM α} {port : NarPort Output}
    (reads : ReadsWithLoop env operation port (messages terminator lines ++ more)) :
    Finishes env terminator more operation port ↔ lines.length ≤ 1 := by
  match lines with
  | [] =>
    refine iff_of_true (reads _ _ fun minor output => ?_) (Nat.zero_le 1)
    rw [loop, wp_bind]
    exact wp_processStderr_end (fun isLast => (wp_pure _ _ _ _).mpr ⟨isLast, rfl⟩)
      fun message status status' _ isError => ⟨⟨_, _, rfl⟩, message, status, status', isError, rfl⟩
  | [line] =>
    refine iff_of_true (reads _ _ fun minor output => ?_) (Nat.le_refl 1)
    rw [loop, wp_bind, messages, append_assoc]
    exact wp_processStderr_next line fun output => wp_processStderr_end (fun isLast => ⟨isLast, rfl⟩)
      fun message status status' _ isError => ⟨⟨_, _, rfl⟩, message, status, status', isError, rfl⟩
  | first :: second :: rest =>
    refine iff_of_false (fun finishes => ?_) (by simp)
    have left := reads (fun port => port.rest = messages terminator rest ++ more) (fun _ _ => False)
      fun minor output => by
        rw [loop, wp_bind, messages, messages, append_assoc, append_assoc]
        exact wp_processStderr_next first fun _ => wp_processStderr_next second fun _ => rfl
    obtain ⟨_, _, ran, isLeft⟩ := wp_returns left
    have nothing := congrArg length (isLeft.symm.trans (wp_ok finishes ran).2)
    obtain rfl := (wp_ok finishes ran).1
    cases rest with
    | nil => simp [messages, Terminator.bytes] at nothing
    | cons line rest =>
      simp only [messages, nextMessage, length_append, length_writeInt] at nothing
      omega

/-- Both operations leave no message behind exactly when the daemon sends one line at most. -/
theorem operations_finish_iff (env : Environment) (reserveSpace : Bool)
    (cpuAffinity : Option Nat) (v : DaemonVersion) (minor : Nat) (request : Bytes) (output : Output)
    (lines : List Line) (terminator : Terminator) (more : Bytes) :
    (Finishes env terminator more (openConnection env reserveSpace cpuAffinity)
      ⟨writeInt workerMagic2 ++ (writeInt v.1 ++ (messages terminator lines ++ more)), none, output⟩ ↔
        lines.length ≤ 1) ∧
    (Finishes env terminator more (setBuildOptions env minor request)
      ⟨messages terminator lines ++ more, none, output⟩ ↔ lines.length ≤ 1) := by
  constructor
  · refine ReadsWithLoop.finishes_iff fun post fails loops => ?_
    rw [openConnection, wp_tryCatch, handshake, wp_bind, wp_bind, send, wp_modify, wp_bind, wp_onPort]
    apply wp_readInt_of_eq (by decide)
    rw [if_neg (by decide), wp_bind, wp_onPort]
    apply wp_readInt_of_eq v.2.1
    rw [if_neg (not_not.mpr v.2.2), wp_bind, send, wp_modify, wp_pure, wp_bind]
    refine wp_mono (loops _ _) (fun _ _ holds => ?_) fun e port failed => ?_
    · rw [wp_pure]
      exact holds
    · obtain ⟨⟨message, status, rfl⟩, failed⟩ := failed
      exact (wp_throw _ _ _ _).mpr failed
  · refine ReadsWithLoop.finishes_iff fun post fails loops => ?_
    rw [setBuildOptions, wp_bind, send, wp_modify]
    exact wp_mono (loops minor _) (fun _ _ holds => holds) fun _ _ failed => failed.2

/-- After two lines the message that says that the daemon is done is left. -/
theorem operations_leave_message :
    let env : Environment := ⟨fun _ => [], pure (), pure ()⟩
    let sent := messages .last [⟨[], by decide⟩, ⟨[], by decide⟩]
    (∃ port, setBuildOptions env 100 [] ⟨sent, none, ⟨[], []⟩⟩ = .ok false port ∧
      port.rest = writeInt stderrLast) ∧
    ∃ port, openConnection env true none
        ⟨writeInt workerMagic2 ++ (writeInt protocolVersion ++ sent), none, ⟨[], []⟩⟩ = .ok 100 port ∧
      port.rest = writeInt stderrLast :=
  ⟨⟨_, rfl, rfl⟩, ⟨_, rfl, rfl⟩⟩

end Guix.Client.Serialization.Connection
