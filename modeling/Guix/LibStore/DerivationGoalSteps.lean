import Guix.Lib.Fallible
import Guix.LibStore.DerivationGoalRun

/-!
# What the state functions of a derivation goal do

`Leads` says which state function can follow which, `Succeeds` how each of them can end the
goal with success, and `Kept` what all of them respect. Everything about runs of the goal is
derived from these three.
-/

namespace Guix.LibStore.Building

open List Turn Fallible Store Derivations

/-- No path stops to be valid or a temporary root. -/
structure Store.Grows (old new : Store) : Prop where
  roots : ∀ path ∈ old.tempRoots, path ∈ new.tempRoots
  valid : ∀ path, old.isValidPath path = true → new.isValidPath path = true

namespace Store.Grows

theorem refl (store : Store) : store.Grows store := ⟨fun _ root => root, fun _ valid => valid⟩

theorem trans {store store' store'' : Store} (first : store.Grows store')
    (second : store'.Grows store'') : store.Grows store'' :=
  ⟨fun path root => second.roots path (first.roots path root),
    fun path valid => second.valid path (first.valid path valid)⟩

theorem addTempRoots (store : Store) (paths : List Path) : store.Grows (store.addTempRoots paths) :=
  ⟨fun path root => (mem_tempRoots_addTempRoots store paths path).mpr (.inr root),
    fun path valid => by rwa [isValidPath_addTempRoots]⟩

theorem registerValidPaths (store : Store) (paths : List Path) :
    store.Grows (store.registerValidPaths paths) :=
  ⟨fun _ root => root, fun path valid => by simp [Store.registerValidPaths, valid]⟩

end Store.Grows

theorem Store.marked_same (store : Store) (paths : List Path) :
    (paths.foldl markContentsGood store).tempRoots = store.tempRoots ∧
      (paths.foldl markContentsGood store).isValidPath = store.isValidPath := by
  induction paths generalizing store with
  | nil => exact ⟨rfl, rfl⟩
  | cons first rest ih => exact ih (store.markContentsGood first)

namespace DerivationGoal

/-- The outputs are temporary roots. -/
def Rooted (goal : DerivationGoal) (store : Store) : Prop :=
  ∀ output ∈ goal.drv.outputs.entries, output.2.path ∈ store.tempRoots

/-- The wanted outputs are valid. -/
def AllValid (goal : DerivationGoal) (store : Store) : Prop :=
  ∀ output ∈ goal.drv.outputs.entries, wantOutput output.1 goal.wantedOutputs = true →
    store.isValidPath output.2.path = true

/-- What all state functions respect. -/
structure Kept (turn next : Turn) : Prop where
  buildMode : next.goal.buildMode = turn.goal.buildMode
  wants : ∀ name, wantOutput name turn.goal.wantedOutputs = true →
    wantOutput name next.goal.wantedOutputs = true
  restart : next.goal.needRestart = true → turn.goal.needRestart = true
  retry : turn.goal.retrySubstitution = true → next.goal.retrySubstitution = true
  grows : turn.shared.store.Grows next.shared.store

/-- One state function leads to another one, without ending the goal. -/
inductive Leads (turn next : Turn) : DerivationState → DerivationState → Prop
  | init : Leads turn next .init .haveDerivation
  | load (rooted : next.goal.Rooted next.shared.store) :
      Leads turn next .haveDerivation .outputsSubstituted
  | restart (flagged : turn.goal.needRestart = true) (cleared : next.goal.needRestart = false) :
      Leads turn next .outputsSubstituted .haveDerivation
  | repair (drv : next.goal.drv = turn.goal.drv) (notFlagged : turn.goal.needRestart = false)
      (valid : next.goal.AllValid next.shared.store) :
      Leads turn next .outputsSubstituted .closureRepaired
  | inputs (drv : next.goal.drv = turn.goal.drv) (notFlagged : turn.goal.needRestart = false)
      (all : ∀ name, wantOutput name next.goal.wantedOutputs = true)
      (invalid : turn.goal.buildMode = .bmCheck ∨
        checkPathValidity turn false (turn.goal.buildMode == .bmRepair) ≠ []) :
      Leads turn next .outputsSubstituted .inputsRealised
  | retry (flagged : turn.goal.retrySubstitution = true) :
      Leads turn next .inputsRealised .haveDerivation
  | build (drv : next.goal.drv = turn.goal.drv) : Leads turn next .inputsRealised .tryToBuild
  | sleep (drv : next.goal.drv = turn.goal.drv) : Leads turn next .tryToBuild .tryToBuild
  | start (drv : next.goal.drv = turn.goal.drv)
      (covered : turn.goal.buildMode ≠ .bmCheck → ∀ output ∈ next.goal.drv.outputs.entries,
        output.2.path ∈ next.goal.missingPaths ∨
          next.shared.store.isValidPath output.2.path = true) :
      Leads turn next .tryToBuild .buildDone
  | again (drv : next.goal.drv = turn.goal.drv) : Leads turn next .buildDone .tryToBuild

/-- A state function can end the goal with success. -/
inductive Succeeds (turn next : Turn) : DerivationState → Prop
  | found (rooted : next.goal.Rooted next.shared.store)
      (valid : next.goal.AllValid next.shared.store) : Succeeds turn next .haveDerivation
  | substituted (drv : next.goal.drv = turn.goal.drv) (notFlagged : turn.goal.needRestart = false)
      (valid : next.goal.AllValid next.shared.store) : Succeeds turn next .outputsSubstituted
  | repaired (drv : next.goal.drv = turn.goal.drv)
      (wanted : next.goal.wantedOutputs = turn.goal.wantedOutputs) :
      Succeeds turn next .closureRepaired
  | beaten (drv : next.goal.drv = turn.goal.drv)
      (valid : next.goal.AllValid next.shared.store) : Succeeds turn next .tryToBuild
  | built (drv : next.goal.drv = turn.goal.drv)
      (made : turn.goal.buildMode ≠ .bmCheck → ∀ output ∈ next.goal.drv.outputs.entries,
        output.2.path ∈ turn.goal.missingPaths →
          next.shared.store.isValidPath output.2.path = true) :
      Succeeds turn next .buildDone

/-- What a call of a state function may come to. -/
def Steps (turn : Turn) (state : DerivationState) : Outcome → Prop
  | .returns next =>
    match ended next.log with
    | none => Kept turn next ∧ Leads turn next state next.goal.state
    | some result => result = .ecFailed ∨ result = .ecSuccess ∧ Kept turn next ∧ Succeeds turn next state
  | .calls after next => after ≠ .tryToBuild ∧ Kept turn next ∧ Leads turn next state after
  | .throws _ _ => True

variable {turn : Turn}

theorem Kept.trans {turn' turn'' : Turn} (first : Kept turn turn') (second : Kept turn' turn'') :
    Kept turn turn'' where
  buildMode := second.buildMode.trans first.buildMode
  wants name wanted := second.wants name (first.wants name wanted)
  restart flagged := first.restart (second.restart flagged)
  retry flagged := second.retry (first.retry flagged)
  grows := first.grows.trans second.grows

variable {next : Turn}

/-- A turn that leaves the wanted outputs and the flags alone. -/
theorem Kept.of_eq (buildMode : next.goal.buildMode = turn.goal.buildMode)
    (wanted : next.goal.wantedOutputs = turn.goal.wantedOutputs)
    (restart : next.goal.needRestart = turn.goal.needRestart)
    (retry : next.goal.retrySubstitution = turn.goal.retrySubstitution)
    (grows : turn.shared.store.Grows next.shared.store) : Kept turn next :=
  ⟨buildMode, fun name wants => by rwa [wanted], fun flagged => by rwa [← restart],
    fun flagged => by rwa [retry], grows⟩

theorem Kept.refl (turn : Turn) : Kept turn turn := .of_eq rfl rfl rfl rfl (.refl _)

variable {start : Turn}

/-- What a turn does to anything else does not matter. -/
theorem Kept.also (kept : Kept start turn)
    (goal : (next.goal.buildMode, next.goal.wantedOutputs, next.goal.needRestart,
      next.goal.retrySubstitution) = (turn.goal.buildMode, turn.goal.wantedOutputs,
      turn.goal.needRestart, turn.goal.retrySubstitution))
    (store : next.shared.store = turn.shared.store) : Kept start next := by
  simp only [Prod.mk.injEq] at goal
  obtain ⟨buildMode, wanted, restart, retry⟩ := goal
  exact kept.trans (.of_eq buildMode wanted restart retry (store ▸ .refl _))

/-! ### Checking outputs -/

theorem mem_checkPathValidity (turn : Turn) (returnValid checkHash : Bool) (path : Path) :
    path ∈ checkPathValidity turn returnValid checkHash ↔
      ∃ output ∈ turn.goal.drv.outputs.entries, wantOutput output.1 turn.goal.wantedOutputs = true ∧
        isGood turn checkHash output.2.path = returnValid ∧ output.2.path = path := by
  simp only [checkPathValidity, mem_pathSet, mem_map, mem_filter, Bool.and_eq_true, beq_iff_eq, and_assoc]

variable {checkHash : Bool} {path : Path}

theorem isValidPath_of_isGood
    (good : isGood turn checkHash path = true) : turn.shared.store.isValidPath path = true := by
  simp only [isGood, Bool.and_eq_true] at good
  exact good.1

/-- If no wanted output is found invalid, all are valid. -/
theorem allValid_of_check
    (none : checkPathValidity turn false checkHash = []) : turn.goal.AllValid turn.shared.store := by
  intro output listed wanted
  by_contra invalid
  have bad : isGood turn checkHash output.2.path = false := by
    simp [isGood, Bool.eq_false_iff.mpr invalid]
  have found := (mem_checkPathValidity turn false checkHash output.2.path).mpr
    ⟨output, listed, wanted, bad, rfl⟩
  rw [none] at found
  exact absurd found not_mem_nil

theorem length_pathSet_le (paths : List Path) : (pathSet paths).length ≤ paths.length := by
  calc (paths.insertionSort comparePaths).dedup.length
      ≤ (paths.insertionSort comparePaths).length := (dedup_sublist _).length_le
    _ = paths.length := length_insertionSort _ _

/-- As many good paths as outputs: all outputs are good. -/
theorem allValid_of_length
    (all : (checkPathValidity turn true checkHash).length = turn.goal.drv.outputs.entries.length) :
    turn.goal.AllValid turn.shared.store := by
  intro output listed wanted
  set good := fun i : Bytes × Derivations.DerivationOutput =>
    wantOutput i.1 turn.goal.wantedOutputs && isGood turn checkHash i.2.path == true with isGoodOutput
  have few := length_pathSet_le ((turn.goal.drv.outputs.entries.filter good).map (·.2.path))
  have most := length_filter_le good turn.goal.drv.outputs.entries
  have every : (turn.goal.drv.outputs.entries.filter good).length =
      turn.goal.drv.outputs.entries.length := by
    rw [length_map] at few
    have same : (checkPathValidity turn true checkHash).length =
        (pathSet ((turn.goal.drv.outputs.entries.filter good).map (·.2.path))).length := rfl
    omega
  have isGood := length_filter_eq_length_iff.mp every output listed
  simp only [isGoodOutput, Bool.and_eq_true, beq_iff_eq] at isGood
  exact isValidPath_of_isGood isGood.2

/-! ### The state functions -/

variable {status : BuildStatus}

theorem steps_failed (state : DerivationState) (busy : ended next.log = none)
    (failure : status.success = false) : Steps turn state (.returns (done next status)) := by
  have result : ended (done next status).log = some .ecFailed := by
    simp [done, ask, busy, failure]
  simp only [Steps, result]
  exact .inl trivial

variable {state : DerivationState}

theorem steps_succeeded (busy : ended next.log = none) (success : status.success = true)
    (kept : Kept turn next) (succeeds : Succeeds turn (done next status) state) :
    Steps turn state (.returns (done next status)) := by
  have result : ended (done next status).log = some .ecSuccess := by
    simp [done, ask, busy, success]
  simp only [Steps, result]
  exact .inr ⟨trivial, kept.also rfl rfl, succeeds⟩

variable {after : DerivationState}

theorem steps_busy (busy : ended next.log = none) (isAfter : next.goal.state = after)
    (kept : Kept turn next) (leads : Leads turn next state after) :
    Steps turn state (.returns next) := by
  simp only [Steps, busy, isAfter]
  exact ⟨kept, leads⟩

theorem steps_goto (busy : ended next.log = none) (kept : Kept turn next)
    (leads : Leads turn (goto next after) state after) : Steps turn state (.returns (goto next after)) :=
  steps_busy busy rfl (kept.also rfl rfl) leads

/-- The goal waits for what it has asked for, if that is anything. -/
theorem steps_wait (busy : ended turn.log = none) (kept : Kept start turn) (waitees : List Request)
    (notBuild : after ≠ .tryToBuild)
    (leads : ∀ next : Turn, next.goal = { turn.goal with state := next.goal.state } →
      next.shared = turn.shared → Leads start next state after) :
    Steps start state (if (turn.addWaitees waitees).waiting then .returns (goto (turn.addWaitees waitees) after)
      else .calls after (turn.addWaitees waitees)) := by
  rw [addWaitees_eq]
  split
  · exact steps_goto (by simp [busy]) (kept.also rfl rfl) (leads _ rfl rfl)
  · exact ⟨notBuild, kept.also rfl rfl, leads _ rfl rfl⟩

section States

variable (settings : Settings) (answers : Answers) (turn : Turn) (fresh : ended turn.log = none)

include fresh

theorem init_steps : Steps turn .init (init settings turn) := by
  unfold init
  split
  · trivial
  · split
    · exact ⟨by decide, .refl turn, .init⟩
    · refine steps_goto ?_ ((Kept.refl turn).also rfl rfl) .init
      simp [addWaitee, ask, fresh]
      rfl

theorem checkOutputs_steps (kept : Kept start turn) (rooted : turn.goal.Rooted turn.shared.store) :
    Steps start .haveDerivation (checkOutputs settings turn) := by
  simp only [checkOutputs]
  split
  next allFound =>
    have valid : turn.goal.AllValid turn.shared.store :=
      allValid_of_check (isEmpty_iff.mp allFound.1)
    exact steps_succeeded fresh rfl kept (.found rooted valid)
  next =>
    split
    · exact steps_failed _ fresh rfl
    · have leads : ∀ next : Turn, next.goal = { turn.goal with state := next.goal.state } →
          next.shared = turn.shared → Leads start next .haveDerivation .outputsSubstituted := by
        intro next goal shared
        refine .load ?_
        rw [goal, shared]
        exact rooted
      split
      · exact steps_wait fresh kept _ (by decide) leads
      · exact steps_wait fresh kept [] (by decide) leads

theorem haveDerivation_steps : Steps turn .haveDerivation (haveDerivation settings turn) := by
  simp only [haveDerivation]
  split
  · exact steps_failed _ fresh rfl
  · split
    · split
      · trivial
      · next drv _ =>
        refine checkOutputs_steps settings (loadDerivation
          (turn.setStore (turn.shared.store.addTempRoot turn.goal.drvPath)) drv) fresh ?_ ?_
        · refine .of_eq rfl rfl rfl rfl ?_
          exact (Store.Grows.addTempRoots turn.shared.store [turn.goal.drvPath]).trans
            (.addTempRoots _ _)
        · intro output listed
          refine (mem_tempRoots_addTempRoots _ _ _).mpr (.inl ?_)
          exact mem_map_of_mem listed
    · trivial

theorem repairClosure_steps (kept : Kept start turn) (drv : turn.goal.drv = start.goal.drv)
    (notFlagged : start.goal.needRestart = false) (valid : turn.goal.AllValid turn.shared.store) :
    Steps start .outputsSubstituted (repairClosure turn) := by
  unfold repairClosure
  split
  · trivial
  · next broken _ =>
    simp only [addWaitees_eq]
    split
    · exact steps_goto (by simp [fresh]) (kept.also rfl rfl) (.repair drv notFlagged valid)
    · exact steps_succeeded (by simp [fresh]) rfl (kept.also rfl rfl) (.substituted drv notFlagged valid)

theorem checkSubstituted_steps (kept : Kept start turn) (drv : turn.goal.drv = start.goal.drv)
    (wanted : turn.goal.wantedOutputs = start.goal.wantedOutputs)
    (store : turn.shared.store = start.shared.store) (notFlagged : start.goal.needRestart = false) :
    Steps start .outputsSubstituted (checkSubstituted turn) := by
  have sameCheck : checkPathValidity turn false (turn.goal.buildMode == .bmRepair) =
      checkPathValidity start false (start.goal.buildMode == .bmRepair) := by
    simp only [checkPathValidity, isGood, drv, wanted, store, kept.buildMode]
  simp only [checkSubstituted]
  split
  next allFound =>
    have valid : turn.goal.AllValid turn.shared.store :=
      allValid_of_check (length_eq_zero_iff.mp allFound.2)
    exact steps_succeeded fresh rfl kept (.substituted drv notFlagged valid)
  next notNormal =>
    split
    next allFound =>
      exact repairClosure_steps turn fresh kept drv notFlagged
        (allValid_of_check (length_eq_zero_iff.mp allFound.2))
    next notRepair =>
      split
      · trivial
      · -- the outputs have to be built
        have invalid : start.goal.buildMode = .bmCheck ∨
            checkPathValidity start false (start.goal.buildMode == .bmRepair) ≠ [] := by
          rw [← sameCheck, ← kept.buildMode]
          cases mode : turn.goal.buildMode with
          | bmCheck => exact .inl rfl
          | bmNormal =>
            refine .inr fun none => notNormal ⟨mode, ?_⟩
            rw [mode, none]
            rfl
          | bmRepair =>
            refine .inr fun none => notRepair ⟨mode, ?_⟩
            rw [mode, none]
            rfl
        have keptAll : Kept turn { turn with goal := { turn.goal with wantedOutputs := .empty } } :=
          ⟨rfl, fun _ _ => rfl, fun flagged => flagged, fun flagged => flagged, .refl _⟩
        refine steps_wait ?_ (kept.trans keptAll) _ (by decide) fun next goal _ => ?_
        · exact fresh
        refine .inputs ?_ notFlagged ?_ invalid
        · rw [goal]
          exact drv
        · rw [goal]
          exact fun _ => rfl

theorem outputsSubstituted_steps :
    Steps turn .outputsSubstituted (outputsSubstituted settings turn) := by
  simp only [outputsSubstituted]
  split
  · trivial
  · split
    next flagged =>
      refine ⟨by decide,
        ⟨rfl, fun _ wanted => wanted, fun flagged => ?_, fun retry => ?_, .refl _⟩, .restart flagged rfl⟩
      · exact absurd flagged Bool.false_ne_true
      · simp [retry]
    next notFlagged =>
      refine checkSubstituted_steps _ ?_ ?_ rfl rfl rfl (Bool.eq_false_iff.mpr notFlagged)
      · exact fresh
      refine ⟨rfl, fun _ wanted => wanted, fun flagged => flagged, fun retry => ?_, .refl _⟩
      simp [retry]

theorem closureRepaired_steps : Steps turn .closureRepaired (closureRepaired turn) := by
  unfold closureRepaired
  split
  · trivial
  · exact steps_succeeded fresh rfl (.refl turn) (.repaired rfl rfl)

theorem inputsRealised_steps : Steps turn .inputsRealised (inputsRealised settings turn) := by
  simp only [inputsRealised]
  split
  · exact steps_failed _ fresh rfl
  · split
    next flagged => exact ⟨by decide, .refl turn, .retry flagged⟩
    next =>
      split
      · trivial
      · refine steps_busy ?_ rfl ((Kept.refl turn).also rfl rfl) (.build rfl)
        simp [ask, fresh]
        rfl

end States

/-! ### Building -/

variable {output : Bytes × Derivations.DerivationOutput} {infos : List OutputInfo}

section Build

variable (settings : Settings) (answers : Answers)

/-- How far `tryToBuild` has come, from `start`, when it is about to build. -/
structure Ready (start turn : Turn) : Prop where
  fresh : ended turn.log = none
  kept : Kept start turn
  drv : turn.goal.drv = start.goal.drv
  state : turn.goal.state = .tryToBuild
  covered : start.goal.buildMode ≠ .bmCheck → ∀ output ∈ turn.goal.drv.outputs.entries,
    output.2.path ∈ turn.goal.missingPaths ∨ turn.shared.store.isValidPath output.2.path = true

variable {start turn : Turn}

section

variable (ready : Ready start turn)
include ready

theorem Ready.setHook (hook : Option Pid) : Ready start (setHook turn hook) :=
  ⟨ready.fresh, ready.kept.also rfl rfl, ready.drv, ready.state, ready.covered⟩

theorem sleep_steps {action : Action} (notDone : ended [action] = none) :
    Steps start .tryToBuild (.returns (unlock (turn.ask action))) := by
  refine steps_busy ?_ ready.state (ready.kept.also rfl rfl) (.sleep ready.drv)
  simp [unlock, Turn.unlock, Turn.ask, ready.fresh, notDone]

theorem startBuilder_steps : Steps start .tryToBuild (startBuilder answers turn) := by
  unfold startBuilder
  split
  · exact steps_failed _ ready.fresh rfl
  · trivial
  · simp only
    split
    · refine steps_goto ?_ (ready.kept.also rfl rfl) (.start ready.drv ready.covered)
      simp [ask, ready.fresh]
      rfl
    · trivial

theorem buildHere_steps (buildLocally : Bool) :
    Steps start .tryToBuild (buildHere settings answers turn buildLocally) := by
  simp only [buildHere]
  split
  · exact sleep_steps ready rfl
  · exact startBuilder_steps answers ready

theorem acceptHook_steps (pid : Pid) : Steps start .tryToBuild (acceptHook answers turn pid) := by
  simp only [acceptHook]
  split
  · trivial
  · refine steps_goto ?_ (ready.kept.also rfl rfl) (.start ready.drv ready.covered)
    simp [ask, DerivationGoal.setHook, ready.fresh]
    rfl

theorem tryBuildHook_steps : Steps start .tryToBuild (tryBuildHook settings answers turn) := by
  simp only [tryBuildHook]
  split
  · exact buildHere_steps settings answers ready false
  · have asked := ready.setHook (some (turn.shared.hook.getD answers.agent))
    split
    · trivial
    · split
      · exact buildHere_steps settings answers asked false
      · split
        · exact sleep_steps asked rfl
        · split
          · exact acceptHook_steps answers asked _
          · trivial

theorem buildMissing_steps : Steps start .tryToBuild (buildMissing settings answers turn) := by
  simp only [buildMissing]
  split
  · exact steps_failed _ ready.fresh rfl
  · split
    · exact buildHere_steps settings answers ready true
    · exact tryBuildHook_steps settings answers ready

end

theorem missing_or_valid (listed : output ∈ turn.goal.drv.outputs.entries) (checkHash : Bool) :
    output.2.path ∈ (outputPaths turn.goal.drv).filter
        (!(checkPathValidity turn true checkHash).contains ·) ∨
      turn.shared.store.isValidPath output.2.path = true := by
  by_cases good : isGood turn checkHash output.2.path = true
  · exact .inr (isValidPath_of_isGood good)
  · refine .inl (mem_filter.mpr ⟨?_, ?_⟩)
    · exact (mem_pathSet _ _).mpr (mem_map_of_mem listed)
    · have notFound : output.2.path ∉ checkPathValidity turn true checkHash := by
        rw [mem_checkPathValidity]
        rintro ⟨other, _, _, otherGood, same⟩
        exact good (same ▸ otherGood)
      simpa using notFound

theorem buildLocked_steps (fresh : ended turn.log = none) (kept : Kept start turn)
    (drv : turn.goal.drv = start.goal.drv) (state : turn.goal.state = .tryToBuild) :
    Steps start .tryToBuild (buildLocked settings answers turn) := by
  have keptMissing : ∀ paths, Kept start (setMissing turn paths) :=
    fun paths => kept.also rfl rfl
  simp only [buildLocked]
  split
  next check =>
    refine buildMissing_steps settings answers ⟨fresh, keptMissing _, drv, state, ?_⟩
    intro notCheck
    exact absurd (kept.buildMode ▸ check) notCheck
  next =>
    split
    next allFound =>
      exact steps_succeeded fresh rfl (kept.also rfl rfl)
        (.beaten drv (allValid_of_length allFound))
    next =>
      refine buildMissing_steps settings answers ⟨fresh, keptMissing _, drv, state, ?_⟩
      intro _ output listed
      exact missing_or_valid listed _

theorem tryToBuild_steps (fresh : ended turn.log = none) (state : turn.goal.state = .tryToBuild) :
    Steps turn .tryToBuild (tryToBuild settings answers turn) := by
  have sleeps : ∀ action, ended [action] = none → Steps turn .tryToBuild (.returns (turn.ask action)) := by
    intro action notDone
    refine steps_busy ?_ state ((Kept.refl turn).also rfl rfl) (.sleep rfl)
    simp [ask, fresh, notDone]
  simp only [tryToBuild]
  split
  · exact sleeps _ rfl
  · split
    · exact buildLocked_steps settings answers fresh ((Kept.refl turn).also rfl rfl) rfl state
    · exact sleeps _ rfl

/-! ### After the build -/

theorem waited_kept (waits : waited turn = .ok next) :
    ended next.log = ended turn.log ∧ Kept turn next ∧ next.goal.drv = turn.goal.drv ∧
      next.goal.missingPaths = turn.goal.missingPaths := by
  unfold waited at waits
  split at waits <;> split at waits <;> cases waits
  all_goals
    refine ⟨?_, (Kept.refl turn).also rfl rfl, rfl, rfl⟩
    simp [ask, ended]

theorem mem_outputInfos (notCheck : turn.goal.buildMode ≠ .bmCheck)
    (found : outputInfos answers turn = .ok infos) (built : path ∈ builtPaths turn) :
    path ∈ infos.map (·.path) := by
  obtain ⟨scanned, scan, isInfos⟩ := bind_ok.mp found
  rw [if_neg notCheck] at isInfos
  cases isInfos
  obtain ⟨info, listed, isInfo⟩ := mapM_ok_of_mem scan path built
  obtain ⟨_, _, made⟩ := bind_ok.mp isInfo
  cases made
  exact mem_map_of_mem listed

theorem markOutputs_kept : (markOutputs answers turn).goal = turn.goal ∧
    (markOutputs answers turn).log = turn.log ∧
    (markOutputs answers turn).shared.store.tempRoots = turn.shared.store.tempRoots ∧
    (markOutputs answers turn).shared.store.isValidPath = turn.shared.store.isValidPath := by
  unfold markOutputs
  split
  · exact ⟨rfl, rfl, marked_same _ _⟩
  · exact ⟨rfl, rfl, rfl, rfl⟩

/-- What registering outputs does not touch, and that the paths are valid if all of them are
accepted in the last round. -/
structure Registers (turn : Turn) (paths : List Path) (outcome : Turn × Except OutputFailure Unit) :
    Prop where
  log : outcome.1.log = turn.log
  kept : Kept turn outcome.1
  drv : outcome.1.goal.drv = turn.goal.drv
  rounds : outcome.1.goal.curRound = turn.goal.curRound ∧ outcome.1.goal.nrRounds = turn.goal.nrRounds
  valid : outcome.2 = .ok ⟨⟩ → ¬turn.goal.curRound < turn.goal.nrRounds →
    turn.goal.buildMode ≠ .bmCheck → ∀ path ∈ paths, outcome.1.shared.store.isValidPath path = true

theorem registerInfos_registers (infos : List OutputInfo) :
    Registers turn (infos.map (·.path)) (registerInfos answers turn infos) := by
  unfold registerInfos
  split
  · exact ⟨rfl, .refl _, rfl, ⟨rfl, rfl⟩, nofun⟩
  · split
    next more => exact ⟨rfl, (Kept.refl turn).also rfl rfl, rfl, ⟨rfl, rfl⟩, fun _ last => absurd more last⟩
    next =>
      split
      · exact ⟨rfl, .refl _, rfl, ⟨rfl, rfl⟩, nofun⟩
      · refine ⟨rfl, .of_eq rfl rfl rfl rfl (.registerValidPaths _ _), rfl, ⟨rfl, rfl⟩, ?_⟩
        intro _ _ _ path listed
        simp only [setStore, registerValidPaths, Bool.or_eq_true]
        exact .inl (contains_iff_mem.mpr listed)

/-- After the last round the outputs that were missing are valid. -/
theorem registerOutputs_registers :
    Registers turn (builtPaths turn) (registerOutputs answers turn) := by
  simp only [registerOutputs]
  split
  next allValid =>
    refine ⟨rfl, .refl _, rfl, ⟨rfl, rfl⟩, fun _ _ _ path listed => ?_⟩
    exact all_eq_true.mp allValid.2 path ((mem_pathSet _ _).mpr (mem_filter.mp listed).1)
  next =>
    obtain ⟨goal, log, roots, valid⟩ := @markOutputs_kept answers turn
    have kept : Kept turn (markOutputs answers turn) := by
      refine .of_eq (by rw [goal]) (by rw [goal]) (by rw [goal]) (by rw [goal]) ?_
      exact ⟨fun path root => by rwa [roots], fun path isValid => by rwa [valid]⟩
    split
    · exact ⟨log, kept, by rw [goal], by rw [goal]; exact ⟨rfl, rfl⟩, nofun⟩
    · next infos found =>
      have registered := @registerInfos_registers answers (markOutputs answers turn) infos
      have same := registered.drv
      have rounds := registered.rounds
      have made := registered.valid
      rw [goal] at same rounds made
      refine ⟨registered.log.trans log, kept.trans registered.kept, same, rounds, ?_⟩
      intro accepted last notCheck path listed
      refine made accepted last notCheck path (mem_outputInfos answers (by rwa [goal]) found ?_)
      rwa [builtPaths, goal]

section

variable (fresh : ended turn.log = none)
include fresh

theorem buildFailed_steps {start : Turn} :
    Steps start .buildDone (buildFailed settings answers turn) := by
  have busy : ended (cacheFailure settings answers (unlock turn)).log = none := by
    unfold cacheFailure
    split
    · exact fresh
    · exact fresh
  have failure : (failedStatus answers (unlock turn)).success = false := by
    unfold failedStatus
    repeat' split
    all_goals rfl
  exact steps_failed _ busy failure

theorem nextRound_steps {start : Turn} (kept : Kept start turn)
    (drv : turn.goal.drv = start.goal.drv)
    (made : start.goal.buildMode ≠ .bmCheck → ¬turn.goal.curRound < turn.goal.nrRounds →
      ∀ output ∈ turn.goal.drv.outputs.entries, output.2.path ∈ start.goal.missingPaths →
        turn.shared.store.isValidPath output.2.path = true) :
    Steps start .buildDone (nextRound turn) := by
  simp only [nextRound]
  split
  · refine steps_goto ?_ (kept.also rfl rfl) (.again drv)
    simp [unlock, Turn.unlock, Turn.ask, fresh]
    rfl
  · next last =>
    refine steps_succeeded fresh rfl (kept.also rfl rfl) (.built drv ?_)
    intro notCheck
    exact made notCheck (by simpa using last)

theorem buildDone_steps : Steps turn .buildDone (buildDone settings answers turn) := by
  unfold buildDone
  split
  · trivial
  · next waitedTurn waits =>
    obtain ⟨log, kept, drv, missing⟩ := waited_kept waits
    rw [fresh] at log
    split
    · have registers := @registerOutputs_registers answers waitedTurn
      have busy : ended (registerOutputs answers waitedTurn).1.log = none := by
        rw [registers.log, log]
      split
      · next registered isBuildError =>
        rw [isBuildError] at busy
        exact buildFailed_steps settings answers busy
      · trivial
      · trivial
      · next registered accepted =>
        rw [accepted] at registers busy
        refine nextRound_steps busy (kept.trans registers.kept) (registers.drv.trans drv) ?_
        intro notCheck last output listed isMissing
        rw [registers.rounds.1, registers.rounds.2] at last
        exact registers.valid rfl last (kept.buildMode ▸ notCheck) _ <| mem_filter.mpr ⟨mem_map_of_mem (registers.drv ▸ listed),
          contains_iff_mem.mpr (missing ▸ isMissing)⟩
    · exact buildFailed_steps settings answers log

/-- What a call of any state function may come to. -/
theorem call_steps (state : DerivationState)
    (atBuild : state = .tryToBuild → turn.goal.state = .tryToBuild) :
    Steps turn state (call settings answers turn state) := by
  cases state with
  | init => exact init_steps settings turn fresh
  | haveDerivation => exact haveDerivation_steps settings turn fresh
  | outputsSubstituted => exact outputsSubstituted_steps settings turn fresh
  | closureRepaired => exact closureRepaired_steps turn fresh
  | inputsRealised => exact inputsRealised_steps settings turn fresh
  | tryToBuild => exact tryToBuild_steps settings answers fresh (atBuild rfl)
  | buildDone => exact buildDone_steps settings answers fresh

end

end Build

end DerivationGoal

end Guix.LibStore.Building
