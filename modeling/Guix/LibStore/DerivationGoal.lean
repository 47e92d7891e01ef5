import Guix.LibStore.Goal

/-!
# Derivation goals

The states of `DerivationGoal` in `build.cc`. What the builder, the build hook and other
processes do is given by the `Answers` to a turn.
-/

namespace Guix.LibStore.Building

open Derivations (Derivation StringSet)

/-- `BuildResult::Status`. -/
inductive BuildStatus
  | built
  | substituted
  | alreadyValid
  | permanentFailure
  | inputRejected
  | outputRejected
  | transientFailure
  | cachedFailure
  | timedOut
  | miscFailure
  | dependencyFailed
  deriving DecidableEq, Repr

def BuildStatus.success (status : BuildStatus) : Bool :=
  status == .built || status == .substituted || status == .alreadyValid

inductive DerivationState
  | init
  | haveDerivation
  | outputsSubstituted
  | closureRepaired
  | inputsRealised
  | tryToBuild
  | buildDone
  deriving DecidableEq, Repr

/-- `pid` is gone once the process has been waited for. -/
structure Agent where
  pid : Option Pid
  deriving DecidableEq, Repr

/-- The fields of `ValidPathInfo` by which two rounds of a build are compared. -/
structure OutputInfo where
  path : Path
  hash : Bytes
  references : List Path
  deriving DecidableEq, Repr

/-- The derivation of a goal that has not loaded one. -/
def noDerivation : Derivation := ⟨.empty, .empty, .empty, [], [], [], .empty⟩

structure DerivationGoal where
  drvPath : Path
  wantedOutputs : StringSet
  buildMode : BuildMode
  state : DerivationState := .init
  needRestart : Bool := false
  retrySubstitution : Bool := false
  drv : Derivation := noDerivation
  inputPaths : List Path := []
  allPaths : List Path := []
  fixedOutput : Bool := false
  curRound : Nat := 1
  nrRounds : Nat := 1
  prevInfos : List OutputInfo := []
  missingPaths : List Path := []
  outputLocks : List Path := []
  pid : Option Pid := none
  hook : Option Agent := none
  logSize : Nat := 0
  result : BuildStatus := .miscFailure

/-! ### The answers of the outside -/

/-- What comes of the part of `startBuilder` that is not about goals. -/
inductive Start
  -- a `BuildError`
  | rejected
  -- any other exception before the child is known to the worker
  | failed (message : Bytes) (forked : Option Pid)
  -- the child runs; it reports what went wrong with its environment
  | started (pid : Pid) (report : Bytes)
  deriving DecidableEq, Repr

inductive WaitStatus
  | exited (code : Nat)
  | killed
  deriving DecidableEq, Repr

def statusOk (status : WaitStatus) : Bool := status == .exited 0

/-- Why `registerOutputs` throws. -/
inductive OutputFailure
  | buildError
  | assertion
  | error (message : Bytes)
  deriving DecidableEq, Repr

structure Answers where
  /-- Whether no other process holds one of the locks. -/
  lockPaths : List Path → Bool := fun _ => true
  /-- The process of an agent that is started. -/
  agent : Pid := 0
  /-- The reply of the hook. -/
  hookReply : Except Bytes Bytes := .ok (ascii "decline")
  /-- An exception while the hook is told what to do. -/
  hookInputs : Except Bytes Unit := .ok ⟨⟩
  startBuilder : Start := .rejected
  status : WaitStatus := .exited 0
  diskFull : Bool := false
  /-- The hash and the references that `registerOutputs` finds at an output path, given the
  paths it may refer to. -/
  output : Path → List Path → Except OutputFailure (Bytes × List Path) := fun _ _ => .error .buildError
  registerValidPaths : Except Bytes Unit := .ok ⟨⟩

/-! ### Derivations -/

def wantOutput (output : Bytes) (wanted : StringSet) : Bool :=
  wanted.entries.isEmpty || wanted.keys.contains output

def outputPaths (drv : Derivation) : List Path := pathSet (drv.outputs.entries.map (·.2.path))

def isDerivation (path : Path) : Bool := hasSuffix path (ascii ".drv")

/-- `get` on the environment of a derivation. -/
def getEnv (drv : Derivation) (key default : Bytes) : Bytes := (drv.env.find key).getD default

def substitutesAllowed (drv : Derivation) : Bool :=
  getEnv drv (ascii "allowSubstitutes") (ascii "1") == ascii "1"

section

variable (settings : Settings)

def canBuildLocally (platform : Bytes) : Bool :=
  platform == settings.thisSystem
    || (platform == ascii "i686-linux" && settings.thisSystem == ascii "x86_64-linux")
    || (platform == ascii "armhf-linux" && settings.thisSystem == ascii "aarch64-linux")

def willBuildLocally (drv : Derivation) : Bool :=
  getEnv drv (ascii "preferLocalBuild") [] == ascii "1" && canBuildLocally settings drv.platform

end

namespace DerivationGoal

abbrev Turn := Building.Turn DerivationGoal

abbrev Outcome := Building.Outcome DerivationState DerivationGoal

def addWantedOutputs (goal : DerivationGoal) (outputs : StringSet) : DerivationGoal :=
  if goal.wantedOutputs.entries.isEmpty then goal
  else if outputs.entries.isEmpty then { goal with wantedOutputs := .empty, needRestart := true }
  else outputs.keys.foldl (fun goal output =>
    if goal.wantedOutputs.keys.contains output then goal
    else { goal with wantedOutputs := goal.wantedOutputs.insert output ⟨⟩, needRestart := true }) goal

section Parts

variable (turn : Turn)

def goto (state : DerivationState) : Turn := { turn with goal := { turn.goal with state } }

def done (status : BuildStatus) : Turn :=
  { turn.ask (.amDone (if status.success then .ecSuccess else .ecFailed)) with
    goal := { turn.goal with result := status }
    shared := { turn.shared with
      timedOut := turn.shared.timedOut || status == .timedOut
      permanentFailure := turn.shared.permanentFailure || status == .permanentFailure ||
        status == .cachedFailure } }

def isGood (checkHash : Bool) (path : Path) : Bool :=
  turn.shared.store.isValidPath path && (!checkHash || turn.shared.store.pathContentsGood path)

def checkPathValidity (returnValid checkHash : Bool) : List Path :=
  pathSet ((turn.goal.drv.outputs.entries.filter fun i =>
    wantOutput i.1 turn.goal.wantedOutputs && isGood turn checkHash i.2.path == returnValid).map
      (·.2.path))

def unlock : Turn :=
  { Turn.unlock turn turn.goal.outputLocks with goal := { turn.goal with outputLocks := [] } }

def killBuilder : Turn :=
  match turn.goal.pid with
  | none => turn
  | some pid => { turn.ask (.childTerminated pid) with goal := { turn.goal with pid := none } }

def killHook : Turn :=
  match turn.goal.hook.bind (·.pid) with
  | none => { turn with goal := { turn.goal with hook := none } }
  | some pid => { turn.ask (.childTerminated pid) with goal := { turn.goal with hook := none } }

/-- Kill the builder or the hook; the worker forgets it. -/
def killChild : Turn := killHook (killBuilder turn)

/-- The locks on the outputs are kept until the goal is destroyed. -/
def timedOut : Turn := done (killChild turn) .timedOut

end Parts

section States

variable (settings : Settings) (answers : Answers) (turn : Turn)

def pathFailed (path : Path) : Bool :=
  settings.cacheFailure && turn.shared.store.hasPathFailed path

def init : Outcome :=
  if settings.readOnlyMode then
    .throws (.error (ascii "cannot build derivation `" ++ turn.goal.drvPath
      ++ ascii "' - no write access to the store")) turn
  else if turn.goal.buildMode = .bmNormal ∧ turn.shared.store.isValidPath turn.goal.drvPath then
    .calls .haveDerivation turn
  else .returns (goto (turn.addWaitee (.substitution turn.goal.drvPath false)) .haveDerivation)

/-- `haveDerivation` once the derivation is loaded. -/
def checkOutputs : Outcome :=
  let repair := turn.goal.buildMode == .bmRepair
  let invalidOutputs := checkPathValidity turn false repair
  if invalidOutputs.isEmpty ∧ turn.goal.buildMode = .bmNormal then
    .returns (done turn .alreadyValid)
  else if invalidOutputs.any (pathFailed settings turn) then .returns (done turn .cachedFailure)
  else
    let turn :=
      if settings.useSubstitutes && substitutesAllowed turn.goal.drv then
        turn.addWaitees (invalidOutputs.map (.substitution · repair))
      else turn
    if turn.waiting then .returns (goto turn .outputsSubstituted)
    else .calls .outputsSubstituted turn

def loadDerivation (drv : Derivation) : Turn :=
  { turn.setStore (turn.shared.store.addTempRoots (drv.outputs.entries.map (·.2.path))) with
    goal := { turn.goal with drv } }

def haveDerivation : Outcome :=
  if turn.counts.nrFailed ≠ 0 then .returns (done turn .miscFailure)
  else
    let turn := turn.setStore (turn.shared.store.addTempRoot turn.goal.drvPath)
    if turn.shared.store.isValidPath turn.goal.drvPath then
      match turn.shared.store.derivationFromPath turn.goal.drvPath with
      | .error message => .throws (.error message) turn
      | .ok drv => checkOutputs settings (loadDerivation turn drv)
    else .throws .assertion turn

/-- The derivation that makes a path, if it is among those the goal depends on. -/
def repairRequest (drvs : List (Path × Derivation)) (path : Path) : Request :=
  match drvs.reverse.find? fun drv => (outputPaths drv.2).contains path with
  | none => .substitution path true
  | some drv => .derivation drv.1 .empty .bmRepair

/-- The paths in the closure of the wanted outputs that have to be repaired, and how. -/
def brokenPaths : Except Bytes (List Request) := do
  let store := turn.shared.store
  let wanted := turn.goal.drv.outputs.entries.filter (wantOutput ·.1 turn.goal.wantedOutputs)
  let closures ← wanted.mapM (store.computeFSClosure ·.2.path)
  let outputClosure :=
    (pathSet closures.flatten).filter (!(outputPaths turn.goal.drv).contains ·)
  let inputClosure ← store.computeFSClosure turn.goal.drvPath
  let drvs ← ((pathSet inputClosure).filter isDerivation).mapM fun path => do
    let drv ← store.derivationFromPath path
    pure (path, drv)
  pure ((outputClosure.filter (!store.pathContentsGood ·)).map (repairRequest drvs))

def repairClosure : Outcome :=
  match brokenPaths turn with
  | .error message => .throws (.error message) turn
  | .ok broken =>
    let turn := turn.addWaitees broken
    if turn.waiting then .returns (goto turn .closureRepaired) else .returns (done turn .alreadyValid)

/-- The requests for the inputs of the derivation. -/
def inputs : List Request :=
  let mode : BuildMode := if turn.goal.buildMode = .bmRepair then .bmRepair else .bmNormal
  (turn.goal.drv.inputDrvs.entries.map fun i => .derivation i.1 i.2 mode) ++
    turn.goal.drv.inputSrcs.keys.map (.substitution · false)

/-- `outputsSubstituted` from where the outputs are checked. -/
def checkSubstituted : Outcome :=
  let nrInvalid := (checkPathValidity turn false (turn.goal.buildMode == .bmRepair)).length
  if turn.goal.buildMode = .bmNormal ∧ nrInvalid = 0 then .returns (done turn .substituted)
  else if turn.goal.buildMode = .bmRepair ∧ nrInvalid = 0 then repairClosure turn
  else if turn.goal.buildMode = .bmCheck ∧ nrInvalid > 0 then
    .throws (.error (ascii "`" ++ turn.goal.drvPath
      ++ ascii "' is missing outputs; build it normally before using `--check'")) turn
  else
    -- from now on all outputs are wanted
    let turn : Turn := { turn with goal := { turn.goal with wantedOutputs := .empty } }
    let turn := turn.addWaitees (inputs turn)
    if turn.waiting then .returns (goto turn .inputsRealised) else .calls .inputsRealised turn

/-- A failure of a substituter that is not about substitutes that do not exist. -/
def substitutersFailed (counts : Counts) : Bool :=
  counts.nrFailed > 0 && counts.nrFailed > counts.nrNoSubstituters + counts.nrIncompleteClosure

def outputsSubstituted : Outcome :=
  if substitutersFailed turn.counts && !settings.tryFallback then
    .throws (.error (ascii "some substitutes for the outputs of derivation `" ++ turn.goal.drvPath
      ++ ascii "' failed (usually happens due to networking issues); try `--fallback' to build derivation from source "))
      turn
  else
    -- the flag is never cleared
    let retry := turn.goal.retrySubstitution || turn.counts.nrIncompleteClosure > 0
    let turn : Turn :=
      { turn with goal := { turn.goal with retrySubstitution := retry }, counts := {} }
    if turn.goal.needRestart then
      .calls .haveDerivation { turn with goal := { turn.goal with needRestart := false } }
    else checkSubstituted turn

def closureRepaired : Outcome :=
  if turn.counts.nrFailed > 0 then
    .throws (.error (utf8 "some paths in the output closure of derivation ‘" ++ turn.goal.drvPath
      ++ utf8 "’ could not be repaired")) turn
  else .returns (done turn .alreadyValid)

/-- The closure of one wanted output of an input derivation. -/
def inputClosure (input : Path) (inDrv : Derivation) (output : Bytes) : Except Bytes (List Path) :=
  match inDrv.outputs.find output with
  | some found => turn.shared.store.computeFSClosure found.path
  | none => .error (ascii "derivation `" ++ turn.goal.drvPath ++ ascii "' requires non-existent output `"
      ++ output ++ ascii "' from input derivation `" ++ input ++ ascii "'")

/-- The closures of the wanted outputs of an input derivation. -/
def inputClosures (input : Path) (outputs : StringSet) : Except Failure (List Path) := do
  if !turn.shared.store.isValidPath input then throw .assertion
  let inDrv ← (turn.shared.store.derivationFromPath input).mapError .error
  let closures ← (outputs.keys.mapM (inputClosure turn input inDrv)).mapError .error
  pure closures.flatten

def allInputPaths : Except Failure (List Path) := do
  let fromDrvs ← turn.goal.drv.inputDrvs.entries.mapM fun i => inputClosures turn i.1 i.2
  let fromSrcs ←
    (turn.goal.drv.inputSrcs.keys.mapM turn.shared.store.computeFSClosure).mapError .error
  pure (pathSet (turn.goal.inputPaths ++ fromDrvs.flatten ++ fromSrcs.flatten))

def isFixedOutput (drv : Derivation) : Bool := drv.outputs.entries.all (!·.2.hash.isEmpty)

def inputsRealised : Outcome :=
  if turn.counts.nrFailed ≠ 0 then .returns (done turn .dependencyFailed)
  else if turn.goal.retrySubstitution then .calls .haveDerivation turn
  else match allInputPaths turn with
    | .error failure => .throws failure turn
    | .ok inputPaths =>
      let fixedOutput := isFixedOutput turn.goal.drv
      let goal :=
        { turn.goal with
          inputPaths
          allPaths := pathSet (turn.goal.allPaths ++ outputPaths turn.goal.drv ++ inputPaths)
          fixedOutput
          nrRounds := if fixedOutput then 1 else settings.buildRepeat + 1
          state := .tryToBuild }
      .returns (Turn.ask { turn with goal } .wakeUp)

/-! ### Building -/

/-- The hook of the worker. -/
def setHook (hook : Option Pid) : Turn := { turn with shared := { turn.shared with hook } }

/-- The hook has taken the job. -/
def acceptHook (pid : Pid) : Outcome :=
  let turn : Turn :=
    { setHook turn none with goal := { turn.goal with hook := some ⟨some pid⟩ } }
  match answers.hookInputs with
  | .error message => .throws (.error message) turn
  | .ok _ =>
    .returns (goto (turn.ask (.childStarted pid [.fromAgent, .builderOut] false)) .buildDone)

def failPermanently : Turn :=
  { turn with shared := { turn.shared with permanentFailure := true } }

def startBuilder : Outcome :=
  match answers.startBuilder with
  | .rejected => .returns (done (failPermanently (unlock turn)) .inputRejected)
  | .failed message forked =>
    .throws (.error message) { turn with goal := { turn.goal with pid := forked } }
  | .started pid report =>
    let turn : Turn := { turn with goal := { turn.goal with pid := some pid } }
    let turn := turn.ask (.childStarted pid [.builderOut] true)
    if report.isEmpty then .returns (goto turn .buildDone) else .throws (.error report) turn

/-- Build here, if there is a slot. -/
def buildHere (buildLocally : Bool) : Outcome :=
  let curBuilds := turn.shared.nrLocalBuilds
  if curBuilds ≥ settings.maxBuildJobs ∧ ¬(buildLocally ∧ curBuilds = 0) then
    .returns (unlock (turn.ask .waitForBuildSlot))
  else startBuilder answers turn

/-- `tryBuildHook`, and what is done with the reply. -/
def tryBuildHook : Outcome :=
  if !settings.useBuildHook then buildHere settings answers turn false
  else
    let pid := turn.shared.hook.getD answers.agent
    let turn := setHook turn (some pid)
    match answers.hookReply with
    | .error message => .throws (.error message) turn
    | .ok reply =>
      if reply = ascii "decline" then buildHere settings answers turn false
      else if reply = ascii "postpone" then .returns (unlock (turn.ask .waitForAWhile))
      else if reply = ascii "accept" then acceptHook answers turn pid
      else .throws (.error (ascii "bad hook reply `" ++ reply ++ ascii "'")) turn

/-- `tryToBuild` once it is known which outputs are missing. -/
def buildMissing : Outcome :=
  let drv := turn.goal.drv
  -- the locks are kept
  if (outputPaths drv).any (pathFailed settings turn) then .returns (done turn .cachedFailure)
  else if turn.goal.buildMode ≠ .bmNormal || willBuildLocally settings drv then
    buildHere settings answers turn true
  else tryBuildHook settings answers turn

def setMissing (missingPaths : List Path) : Turn :=
  { turn with goal := { turn.goal with missingPaths } }

/-- `tryToBuild` once the outputs are locked. -/
def buildLocked : Outcome :=
  let drv := turn.goal.drv
  let validPaths := checkPathValidity turn true (turn.goal.buildMode == .bmRepair)
  if turn.goal.buildMode = .bmCheck then
    buildMissing settings answers (setMissing turn (outputPaths drv))
  else if validPaths.length = drv.outputs.entries.length then
    .returns (done (unlock turn) .alreadyValid)
  else
    buildMissing settings answers
      (setMissing turn ((outputPaths drv).filter (!validPaths.contains ·)))

def tryToBuild : Outcome :=
  let outputs := outputPaths turn.goal.drv
  if outputs.any turn.shared.lockedPaths.contains then .returns (turn.ask .waitForAnyGoal)
  else if answers.lockPaths outputs then
    buildLocked settings answers
      { Turn.lock turn outputs with goal := { turn.goal with outputLocks := outputs } }
  else .returns (turn.ask .waitForAWhile)

/-- The outputs that were to be built. -/
def builtPaths : List Path :=
  (turn.goal.drv.outputs.entries.map (·.2.path)).filter turn.goal.missingPaths.contains

/-- In the last round the outputs that pass the checks are known to be good. -/
def markOutputs : Turn :=
  if turn.goal.curRound = turn.goal.nrRounds ∧ turn.goal.buildMode ≠ .bmCheck then
    let passed := (builtPaths turn).takeWhile fun path =>
      (answers.output path turn.goal.allPaths).isOk
    turn.setStore (passed.foldl Store.markContentsGood turn.shared.store)
  else turn

/-- What two rounds have to agree on. In check mode the outputs are only compared with the
valid ones. -/
def outputInfos : Except OutputFailure (List OutputInfo) := do
  let infos ← (builtPaths turn).mapM fun path => do
    let found ← answers.output path turn.goal.allPaths
    pure { path, hash := found.1, references := found.2 }
  pure (if turn.goal.buildMode = .bmCheck then [] else infos)

def registerInfos (infos : List OutputInfo) : Turn × Except OutputFailure Unit :=
  if turn.goal.curRound > 1 ∧ turn.goal.prevInfos ≠ infos then
    (turn, .error (if turn.goal.prevInfos.length = infos.length then .buildError else .assertion))
  else if turn.goal.curRound < turn.goal.nrRounds then
    ({ turn with goal := { turn.goal with prevInfos := infos } }, .ok ⟨⟩)
  else match answers.registerValidPaths with
    | .error message => (turn, .error (.error message))
    | .ok _ => (turn.setStore (turn.shared.store.registerValidPaths (infos.map (·.path))), .ok ⟨⟩)

def registerOutputs : Turn × Except OutputFailure Unit :=
  if turn.goal.hook.isSome ∧ (outputPaths turn.goal.drv).all turn.shared.store.isValidPath then
    (turn, .ok ⟨⟩)
  else
    let turn := markOutputs answers turn
    match outputInfos answers turn with
    | .error failure => (turn, .error failure)
    | .ok infos => registerInfos answers turn infos

/-- The child is gone. -/
def waited : Except Failure Turn :=
  match turn.goal.hook with
  | some hook =>
    match hook.pid with
    | none => .error .assertion
    | some pid =>
      .ok { turn.ask (.childTerminated pid) with goal := { turn.goal with hook := some ⟨none⟩ } }
  | none =>
    match turn.goal.pid with
    | none => .error .assertion
    | some pid => .ok { turn.ask (.childTerminated pid) with goal := { turn.goal with pid := none } }

/-- The status of a build that ended with a `BuildError`. -/
def failedStatus : BuildStatus :=
  if turn.goal.hook.isSome ∧ answers.status = .exited 101 then .timedOut
  else if turn.goal.hook.isSome ∧ answers.status ≠ .exited 100 then .miscFailure
  else if statusOk answers.status then .outputRejected
  else if turn.goal.fixedOutput ∨ answers.diskFull then .transientFailure
  else .permanentFailure

/-- The outputs of a build that failed for good are remembered. -/
def cacheFailure : Turn :=
  if (turn.goal.hook.isNone ∨ answers.status = .exited 100) ∧ settings.cacheFailure ∧
      ¬turn.goal.fixedOutput ∧ ¬answers.diskFull then
    turn.setStore (turn.shared.store.registerFailedPaths (outputPaths turn.goal.drv))
  else turn

def buildFailed : Outcome :=
  let turn := unlock turn
  .returns (done (cacheFailure settings answers turn) (failedStatus answers turn))

/-- The next round, or the end. -/
def nextRound : Outcome :=
  let again : Bool := turn.goal.curRound < turn.goal.nrRounds
  let turn : Turn := { turn with goal := { turn.goal with curRound := turn.goal.curRound + 1 } }
  if again then .returns (goto ((unlock turn).ask .wakeUp) .tryToBuild)
  else .returns (done (unlock turn) .built)

def buildDone : Outcome :=
  match waited turn with
  | .error failure => .throws failure turn
  | .ok turn =>
    if statusOk answers.status then
      match registerOutputs answers turn with
      | (turn, .error .buildError) => buildFailed settings answers turn
      | (turn, .error .assertion) => .throws .assertion turn
      | (turn, .error (.error message)) => .throws (.error message) turn
      | (turn, .ok _) => nextRound turn
    else buildFailed settings answers turn

/-- Call a state function. -/
def call : DerivationState → Outcome
  | .init => init settings turn
  | .haveDerivation => haveDerivation settings turn
  | .outputsSubstituted => outputsSubstituted settings turn
  | .closureRepaired => closureRepaired turn
  | .inputsRealised => inputsRealised settings turn
  | .tryToBuild => tryToBuild settings answers turn
  | .buildDone => buildDone settings answers turn

end States

end DerivationGoal

end Guix.LibStore.Building
