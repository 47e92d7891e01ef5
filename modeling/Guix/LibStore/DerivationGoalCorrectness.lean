import Guix.LibStore.DerivationGoalSteps

/-!
# Derivation goals serve what is asked of them

A derivation goal that succeeds has made every output valid that it was ever asked for,
provided that it is not asked for more while it waits for the closure of its outputs to be
repaired. It goes through its states only so often, provided that a second attempt to
substitute the outputs does not leave any of them invalid.
-/

namespace Guix.LibStore.Building

open List Derivations Machine Option OrdMap

variable {store store' : Store} {run : Run} {event : Event}

namespace DerivationGoal

/-! ### Requests for outputs -/

/-- The goal is asked for an output that it does not want yet. -/
def Lacks (goal : DerivationGoal) (outputs : StringSet) : Prop :=
  ∃ name, wantOutput name outputs = true ∧ wantOutput name goal.wantedOutputs = false

theorem wantOutput_eq_true (name : Bytes) (wanted : StringSet) :
    wantOutput name wanted = true ↔ wanted.entries = [] ∨ name ∈ wanted.keys := by
  simp [wantOutput]

/-- What a request does to a goal. -/
structure Asked (goal : DerivationGoal) (outputs : StringSet) (next : DerivationGoal) :
    Prop where
  rest : ∃ wantedOutputs needRestart, next = { goal with wantedOutputs, needRestart }
  wants : ∀ name, wantOutput name next.wantedOutputs = true ↔
    wantOutput name goal.wantedOutputs = true ∨ wantOutput name outputs = true
  restart : goal.needRestart = true ∨ goal.Lacks outputs → next.needRestart = true

theorem Asked.state {goal next : DerivationGoal} {outputs : StringSet}
    (asked : Asked goal outputs next) : next.state = goal.state := by
  obtain ⟨wanted, flag, rfl⟩ := asked.rest
  rfl

/-- The loop of `addWantedOutputs`, when not all outputs are wanted. -/
theorem addWantedOutputs_loop (names : List Bytes) (goal next : DerivationGoal)
    (some' : goal.wantedOutputs.entries ≠ [])
    (isNext : next = names.foldl (fun goal output =>
      if goal.wantedOutputs.keys.contains output then goal
      else { goal with wantedOutputs := goal.wantedOutputs.insert output ⟨⟩, needRestart := true }) goal) :
    (∃ wantedOutputs needRestart, next = { goal with wantedOutputs, needRestart }) ∧
      next.wantedOutputs.entries ≠ [] ∧
      (∀ name, name ∈ next.wantedOutputs.keys ↔ name ∈ goal.wantedOutputs.keys ∨ name ∈ names) ∧
      (goal.needRestart = true ∨ (∃ name ∈ names, name ∉ goal.wantedOutputs.keys) →
        next.needRestart = true) := by
  induction names generalizing goal with
  | nil =>
    subst isNext
    refine ⟨⟨_, _, rfl⟩, some', by simp, ?_⟩
    rintro (flagged | ⟨name, listed, _⟩)
    · exact flagged
    · exact absurd listed not_mem_nil
  | cons first names ih =>
    rw [foldl_cons] at isNext
    split at isNext
    next known =>
      have known' : first ∈ goal.wantedOutputs.keys := contains_iff_mem.mp known
      obtain ⟨rest, nonempty, keys, restart⟩ := ih goal some' isNext
      refine ⟨rest, nonempty, ?_, ?_⟩
      · intro name
        have same : name = first → name ∈ goal.wantedOutputs.keys := fun same => same ▸ known'
        rw [keys, mem_cons]
        tauto
      · rintro (flagged | ⟨name, listed, isNew⟩)
        · exact restart (.inl flagged)
        · rcases mem_cons.mp listed with rfl | listed
          · exact absurd known' isNew
          · exact restart (.inr ⟨name, listed, isNew⟩)
    next =>
      have inserted : (goal.wantedOutputs.insert first ⟨⟩).entries ≠ [] :=
        ne_nil_of_mem ((mem_insert _ _ _ (first, ⟨⟩)).mpr (.inl rfl))
      obtain ⟨⟨wanted, flag, rest⟩, nonempty, keys, restart⟩ := ih _ inserted isNext
      refine ⟨⟨wanted, flag, rest⟩, nonempty, ?_, fun _ => restart (.inl rfl)⟩
      intro name
      rw [keys, mem_keys_insert, mem_cons]
      tauto

theorem addWantedOutputs_asked (goal : DerivationGoal) (outputs : StringSet) :
    Asked goal outputs (goal.addWantedOutputs outputs) := by
  unfold addWantedOutputs
  split
  next all =>
    -- nothing is left to ask for
    have wantsAll : ∀ name, wantOutput name goal.wantedOutputs = true := fun name =>
      (wantOutput_eq_true name _).mpr (.inl (isEmpty_iff.mp all))
    refine ⟨⟨_, _, rfl⟩, fun name => by simp [wantsAll name], ?_⟩
    rintro (flagged | ⟨name, _, isNew⟩)
    · exact flagged
    · rw [wantsAll name] at isNew
      exact absurd isNew.symm Bool.false_ne_true
  next notAll =>
    have nonempty : goal.wantedOutputs.entries ≠ [] := by simpa using notAll
    split
    next asksAll =>
      have wantsAll : ∀ name, wantOutput name outputs = true := fun name =>
        (wantOutput_eq_true name _).mpr (.inl (isEmpty_iff.mp asksAll))
      exact ⟨⟨_, _, rfl⟩, fun name => ⟨fun _ => .inr (wantsAll name), fun _ => rfl⟩, fun _ => rfl⟩
    next asksSome =>
      have someOutputs : outputs.entries ≠ [] := by simpa using asksSome
      obtain ⟨rest, stillSome, keys, restart⟩ :=
        addWantedOutputs_loop outputs.keys goal _ nonempty rfl
      refine ⟨rest, fun name => ?_, ?_⟩
      · rw [wantOutput_eq_true, wantOutput_eq_true, wantOutput_eq_true, keys]
        simp only [stillSome, nonempty, someOutputs, false_or]
      · rintro (flagged | ⟨name, asked, isNew⟩)
        · exact restart (.inl flagged)
        · refine restart (.inr ⟨name, ?_, ?_⟩)
          · exact ((wantOutput_eq_true name _).mp asked).resolve_left someOutputs
          · intro known
            rw [(wantOutput_eq_true name _).mpr (.inr known)] at isNew
            exact absurd isNew.symm Bool.false_ne_true

/-! ### What is known in each state -/

/-- What has been checked when a state function is called. -/
def Stage (goal : DerivationGoal) (store : Store) : DerivationState → Prop
  | .init => True
  | .haveDerivation => True
  | .outputsSubstituted => goal.Rooted store
  | .closureRepaired => goal.Rooted store ∧ goal.AllValid store
  | .inputsRealised => goal.Rooted store ∧ ∀ name, wantOutput name goal.wantedOutputs = true
  | .tryToBuild => goal.Rooted store ∧ ∀ name, wantOutput name goal.wantedOutputs = true
  | .buildDone => goal.Rooted store ∧ (∀ name, wantOutput name goal.wantedOutputs = true) ∧
      ∀ output ∈ goal.drv.outputs.entries,
        output.2.path ∈ goal.missingPaths ∨ store.isValidPath output.2.path = true

theorem Rooted.grows {goal next : DerivationGoal} (rooted : goal.Rooted store) (drv : next.drv = goal.drv)
    (grows : store.Grows store') : next.Rooted store' := by
  intro output listed
  rw [drv] at listed
  exact grows.roots _ (rooted output listed)

variable {turn : Turn} {state after : DerivationState}

theorem Leads.stage {next : Turn} (leads : Leads turn next state after) (kept : Kept turn next)
    (notCheck : turn.goal.buildMode ≠ .bmCheck) (stage : Stage turn.goal turn.shared.store state) :
    Stage next.goal next.shared.store after := by
  cases leads with
  | init => trivial
  | load rooted => exact rooted
  | restart _ _ => trivial
  | repair drv _ valid => exact ⟨Rooted.grows stage drv kept.grows, valid⟩
  | inputs drv _ all _ => exact ⟨Rooted.grows stage drv kept.grows, all⟩
  | retry _ => trivial
  | build drv | sleep drv => exact ⟨stage.1.grows drv kept.grows, fun name => kept.wants name (stage.2 name)⟩
  | start drv covered =>
    exact ⟨stage.1.grows drv kept.grows, fun name => kept.wants name (stage.2 name),
      covered notCheck⟩
  | again drv => exact ⟨stage.1.grows drv kept.grows, fun name => kept.wants name (stage.2.1 name)⟩

theorem Succeeds.valid {next : Turn} (succeeds : Succeeds turn next state) (kept : Kept turn next)
    (notCheck : turn.goal.buildMode ≠ .bmCheck) (stage : Stage turn.goal turn.shared.store state) :
    next.goal.Rooted next.shared.store ∧ next.goal.AllValid next.shared.store := by
  cases succeeds with
  | found rooted valid => exact ⟨rooted, valid⟩
  | substituted drv _ valid => exact ⟨Rooted.grows stage drv kept.grows, valid⟩
  | repaired drv wanted =>
    refine ⟨stage.1.grows drv kept.grows, ?_⟩
    intro output listed wants
    rw [drv] at listed
    rw [wanted] at wants
    exact kept.grows.valid _ (stage.2 output listed wants)
  | beaten drv valid => exact ⟨stage.1.grows drv kept.grows, valid⟩
  | built drv made =>
    refine ⟨stage.1.grows drv kept.grows, ?_⟩
    intro output listed _
    -- an output was missing, and has been registered, or it was valid before
    rcases stage.2.2 output (drv ▸ listed) with missing | wasValid
    · exact made notCheck output listed missing
    · exact kept.grows.valid _ wasValid

/-- A stage is left neither by requests for outputs, if they do not come too late, nor by what
others do to the store. -/
theorem Stage.mono {goal next : DerivationGoal} (stage : Stage goal store state)
    (rest : ∃ wantedOutputs needRestart, next = { goal with wantedOutputs, needRestart })
    (wants : ∀ name, wantOutput name goal.wantedOutputs = true →
      wantOutput name next.wantedOutputs = true) (keeps : store.keeps store' = true)
    (timely : state = .closureRepaired → ∀ name, wantOutput name next.wantedOutputs = true →
      wantOutput name goal.wantedOutputs = true) : Stage next store' state := by
  have kept := (Store.keeps_iff _ _).mp keeps
  have drv : next.drv = goal.drv := by
    obtain ⟨wanted, flag, rfl⟩ := rest
    rfl
  have rooted : goal.Rooted store → next.Rooted store' := by
    intro rooted output listed
    exact (kept _ (rooted output (drv ▸ listed))).1
  have valid : goal.Rooted store → ∀ output ∈ goal.drv.outputs.entries,
      store.isValidPath output.2.path = true → store'.isValidPath output.2.path = true :=
    fun rooted output listed isValid => (kept _ (rooted output listed)).2 isValid
  cases state with
  | init | haveDerivation => trivial
  | outputsSubstituted => exact rooted stage
  | closureRepaired =>
    refine ⟨rooted stage.1, ?_⟩
    intro output listed wanted
    rw [drv] at listed
    exact valid stage.1 output listed (stage.2 output listed (timely rfl _ wanted))
  | inputsRealised | tryToBuild => exact ⟨rooted stage.1, fun name => wants name (stage.2 name)⟩
  | buildDone =>
    refine ⟨rooted stage.1, fun name => wants name (stage.2.1 name), ?_⟩
    obtain ⟨wanted, flag, rfl⟩ := rest
    exact fun output listed => (stage.2.2 output listed).imp_right (valid stage.1 output listed)

theorem Store.keeps_refl (store : Store) : store.keeps store = true :=
  (Store.keeps_iff _ _).mpr fun _ root => ⟨root, fun valid => valid⟩

/-! ### What a step can do -/

theorem ended_killChild (turn : Turn) : ended (killChild turn).log = ended turn.log := by
  have builder : ended (killBuilder turn).log = ended turn.log := by
    unfold killBuilder
    split
    · rfl
    · simp [Turn.ask, ended]
  rw [killChild, ← builder]
  unfold killHook
  split
  · rfl
  · simp [Turn.ask, ended]

theorem ended_timedOut (turn : Turn) (fresh : ended turn.log = none) :
    ended (timedOut turn).log = some .ecFailed := by
  have log : (timedOut turn).log = (killChild turn).log ++ [.amDone .ecFailed] := rfl
  rw [log, ended_append, ended_killChild, fresh]
  rfl

theorem exitCode_of_busy (busy : run.busy = true) : run.exitCode = .ecBusy := by
  simp only [Run.busy, Bool.and_eq_true, beq_iff_eq] at busy
  exact busy.1

/-- Only a function that is called by the worker can be `tryToBuild`. -/
theorem state_of_current (calling : run.calling ≠ some .tryToBuild)
    (current : run.current = .tryToBuild) : run.goal.state = .tryToBuild := by
  unfold Run.current at current
  cases called : run.calling with
  | none => simpa [called] using current
  | some state =>
    rw [called, getD_some] at current
    exact absurd (called.trans (congrArg some current)) calling

/-- A state function has been called, and the goal is as it leaves it. -/
structure Follows (run next : Run) (turn : Turn) : Prop where
  busy : run.busy = true
  kept : Kept run.turn turn
  goal : next.goal = turn.goal
  shared : next.shared = turn.shared
  requested : next.requested = run.requested

inductive Moves (run : Run) : Event → Run → Prop
  | request (outputs : StringSet) (busy : run.busy = true) (calling : run.calling = none) :
      Moves run (.request outputs) { run with
        goal := run.goal.addWantedOutputs outputs
        requested := outputs :: run.requested }
  | waiteeDone (result : ExitCode) (last : Bool) (counts : Counts) (waiting : Bool) :
      Moves run (.waiteeDone result last) { run with counts, waiting }
  | others (shared : Shared) (keeps : run.shared.store.keeps shared.store = true) :
      Moves run (.others shared) { run with shared }
  -- the goal has failed, thrown or timed out
  | ends {event : Event} {next : Run} (busy : run.busy = true) (isOver : next.busy = false)
      (failed : next.exitCode ≠ .ecSuccess) : Moves run event next
  | leads {answers : Answers} {next : Run} {turn : Turn} (follows : Follows run next turn)
      (stillBusy : next.exitCode = .ecBusy)
      (leads : Leads run.turn turn run.current next.current) : Moves run (.call answers) next
  | succeeds {answers : Answers} {next : Run} {turn : Turn} (follows : Follows run next turn)
      (succeeded : next.exitCode = .ecSuccess) (succeeds : Succeeds run.turn turn run.current) :
      Moves run (.call answers) next

variable {settings : Settings}

theorem moves_call (busy : run.busy = true) (calling : run.calling ≠ some .tryToBuild) (answers : Answers) :
    Moves run (.call answers) (run.finish (call settings answers run.turn run.current)) ∧
      (run.finish (call settings answers run.turn run.current)).calling ≠ some .tryToBuild := by
  have steps := @call_steps settings answers run.turn rfl run.current (state_of_current calling)
  have isBusy := exitCode_of_busy busy
  generalize call settings answers run.turn run.current = outcome at steps ⊢
  cases outcome with
  | throws failure next =>
    refine ⟨.ends busy (by simp [Run.finish, Run.busy]) ?_, calling⟩
    exact fun succeeded => nomatch isBusy.symm.trans succeeded
  | calls after next =>
    obtain ⟨notBuild, kept, leads⟩ := steps
    exact ⟨.leads ⟨busy, kept, rfl, rfl, rfl⟩ isBusy leads, fun called => notBuild (some.inj called)⟩
  | returns next =>
    refine ⟨?_, nofun⟩
    simp only [Steps] at steps
    split at steps
    next unfinished =>
      refine .leads ⟨busy, steps.1, rfl, rfl, rfl⟩ ?_ steps.2
      simp [Run.finish, unfinished]
    next result finished =>
      rcases steps with rfl | ⟨rfl, kept, succeeds⟩
      · exact .ends busy (by simp [Run.finish, Run.busy, finished]) (by simp [Run.finish, finished])
      · exact .succeeds ⟨busy, kept, rfl, rfl, rfl⟩ (by simp [Run.finish, finished]) succeeds

variable {next : Run}

theorem moves_of_next (calling : run.calling ≠ some .tryToBuild)
    (stepped : run.next settings event = some next) :
    Moves run event next ∧ next.calling ≠ some .tryToBuild := by
  cases event with
  | request outputs =>
    obtain ⟨⟨busy, called⟩, isNext⟩ := ite_none_right_eq_some.mp stepped
    cases isNext
    exact ⟨.request outputs busy called, calling⟩
  | waiteeDone result last =>
    obtain ⟨_, isNext⟩ := ite_none_right_eq_some.mp stepped
    cases isNext
    exact ⟨.waiteeDone result last _ _, calling⟩
  | others shared =>
    obtain ⟨keeps, isNext⟩ := ite_none_right_eq_some.mp stepped
    cases isNext
    exact ⟨.others shared keeps, calling⟩
  | timeout =>
    obtain ⟨⟨busy, _⟩, isNext⟩ := ite_none_right_eq_some.mp stepped
    cases isNext
    have failed := ended_timedOut run.turn rfl
    exact ⟨.ends busy (by simp [Run.finish, Run.busy, failed]) (by simp [Run.finish, failed]), nofun⟩
  | call answers =>
    obtain ⟨⟨busy, _⟩, isNext⟩ := ite_none_right_eq_some.mp stepped
    cases isNext
    exact moves_call busy calling answers

/-! ### Runs -/

/-- Every set of outputs that was asked for is wanted, and what the state says has been
checked. A goal that has succeeded has its outputs. -/
structure Sound (run : Run) : Prop where
  notCheck : run.goal.buildMode ≠ .bmCheck
  wants : ∀ outputs ∈ run.requested, ∀ name, wantOutput name outputs = true →
    wantOutput name run.goal.wantedOutputs = true
  stage : run.exitCode = .ecBusy → Stage run.goal run.shared.store run.current
  valid : run.exitCode = .ecSuccess →
    run.goal.Rooted run.shared.store ∧ run.goal.AllValid run.shared.store

/-- The goal has failed or thrown, so that it will not succeed, or it is sound. -/
def Holds (run : Run) : Prop :=
  run.calling ≠ some .tryToBuild ∧ (run.busy = false ∧ run.exitCode ≠ .ecSuccess ∨ Sound run)

theorem holds_start (drvPath : Path) (wantedOutputs : StringSet) {buildMode : BuildMode}
    (shared : Shared) (notCheck : buildMode ≠ .bmCheck) :
    Holds (.start drvPath wantedOutputs buildMode shared) := by
  refine ⟨nofun, .inr ⟨notCheck, ?_, fun _ => trivial, nofun⟩⟩
  intro outputs listed name wanted
  rw [mem_singleton.mp listed] at wanted
  exact wanted

theorem Holds.sound (holds : Holds run) (busy : run.busy = true) : Sound run := by
  rcases holds.2 with ⟨done, _⟩ | sound
  · exact nomatch done.symm.trans busy
  · exact sound

theorem Sound.follows (sound : Sound run) (follows : Follows run next turn)
    (stage : next.exitCode = .ecBusy → Stage turn.goal turn.shared.store next.current)
    (valid : next.exitCode = .ecSuccess →
      turn.goal.Rooted turn.shared.store ∧ turn.goal.AllValid turn.shared.store) : Sound next := by
  refine ⟨?_, ?_, ?_, ?_⟩
  · rw [follows.goal, follows.kept.buildMode]
    exact sound.notCheck
  · rw [follows.goal, follows.requested]
    exact fun outputs listed name wanted =>
      follows.kept.wants name (sound.wants outputs listed name wanted)
  · rw [follows.goal, follows.shared]
    exact stage
  · rw [follows.goal, follows.shared]
    exact valid

/-- More is asked of a goal than it wants while it waits for its closure to be repaired. -/
def AsksLate (run : Run) (event : Event) : Prop :=
  ∃ outputs, event = .request outputs ∧ run.goal.state = .closureRepaired ∧ run.goal.Lacks outputs

theorem Sound.after_request (sound : Sound run) (busy : run.exitCode = .ecBusy)
    (calling : run.calling = none) {outputs : StringSet}
    (timely : ¬AsksLate run (.request outputs)) :
    Sound { run with
      goal := run.goal.addWantedOutputs outputs
      requested := outputs :: run.requested } := by
  obtain ⟨rest, wants, _⟩ := addWantedOutputs_asked run.goal outputs
  have grown : ∀ name, wantOutput name run.goal.wantedOutputs = true →
      wantOutput name (run.goal.addWantedOutputs outputs).wantedOutputs = true :=
    fun name wanted => (wants name).mpr (.inl wanted)
  refine ⟨?_, ?_, fun _ => ?_, fun succeeded => nomatch busy.symm.trans succeeded⟩
  · obtain ⟨wanted, flag, isNext⟩ := rest
    rw [isNext]
    exact sound.notCheck
  · intro asked listed name isWanted
    rcases mem_cons.mp listed with rfl | earlier
    · exact (wants name).mpr (.inr isWanted)
    · exact grown name (sound.wants asked earlier name isWanted)
  · have stage := sound.stage busy
    simp only [Run.current, calling, getD_none] at stage
    simp only [Run.current, calling, getD_none,
      (addWantedOutputs_asked run.goal outputs).state]
    refine stage.mono rest grown (Store.keeps_refl _) ?_
    -- only outputs that were wanted before
    intro repairs name isWanted
    rcases (wants name).mp isWanted with old | asked
    · exact old
    · by_contra isNew
      exact timely ⟨outputs, rfl, repairs, name, asked, Bool.eq_false_iff.mpr isNew⟩

/-- Valid outputs stay valid, since they are temporary roots. -/
theorem Sound.after_others (sound : Sound run) {shared : Shared}
    (keeps : run.shared.store.keeps shared.store = true) : Sound { run with shared } := by
  refine ⟨sound.notCheck, sound.wants, ?_, ?_⟩
  · exact fun busy => (sound.stage busy).mono ⟨_, _, rfl⟩ (fun _ wanted => wanted) keeps
      fun _ _ wanted => wanted
  · intro succeeded
    -- a goal that has succeeded is at the stage where the outputs have been found valid
    have stage : Stage run.goal run.shared.store .closureRepaired := sound.valid succeeded
    exact stage.mono ⟨_, _, rfl⟩ (fun _ wanted => wanted) keeps fun _ _ wanted => wanted

/-- A step keeps a goal sound, if it does not ask for more too late. -/
theorem holds_next (holds : Holds run) (stepped : run.next settings event = some next)
    (timely : ¬AsksLate run event) : Holds next := by
  obtain ⟨moves, calling⟩ := moves_of_next holds.1 stepped
  refine ⟨calling, ?_⟩
  cases moves with
  | request outputs busy called =>
    exact .inr ((holds.sound busy).after_request (exitCode_of_busy busy) called timely)
  | waiteeDone =>
    exact holds.2.imp_right fun sound => ⟨sound.notCheck, sound.wants, sound.stage, sound.valid⟩
  | others shared keeps => exact holds.2.imp_right fun sound => sound.after_others keeps
  | ends _ isOver failed => exact .inl ⟨isOver, failed⟩
  | leads follows stillBusy leads =>
    have sound := holds.sound follows.busy
    have stage := sound.stage (exitCode_of_busy follows.busy)
    refine .inr (sound.follows follows (fun _ => leads.stage follows.kept sound.notCheck stage) ?_)
    exact fun succeeded => nomatch stillBusy.symm.trans succeeded
  | succeeds follows succeeded succeeds =>
    have sound := holds.sound follows.busy
    have stage := sound.stage (exitCode_of_busy follows.busy)
    refine .inr (sound.follows follows (fun busy => ?_) fun _ =>
      succeeds.valid follows.kept sound.notCheck stage)
    exact nomatch busy.symm.trans succeeded

/-! ### Restarts -/

/-- The state functions that lead to `haveDerivation` before anything else. -/
def Due (state : DerivationState) (needRestart : Bool) : Prop :=
  state = .init ∨ state = .haveDerivation ∨ state = .outputsSubstituted ∧ needRestart = true

theorem Leads.of_due {next : Turn} (leads : Leads turn next state after)
    (due : Due state turn.goal.needRestart) (notLoad : state ≠ .haveDerivation) :
    after = .haveDerivation := by
  cases leads with
  | init => rfl
  | restart => rfl
  | load => exact absurd rfl notLoad
  | repair _ notFlagged => simp [Due, notFlagged] at due
  | inputs _ notFlagged => simp [Due, notFlagged] at due
  | _ => simp [Due] at due

theorem Succeeds.not_due {next : Turn} (succeeds : Succeeds turn next state)
    (notLoad : state ≠ .haveDerivation) : ¬Due state turn.goal.needRestart := by
  intro due
  cases succeeds with
  | found => exact notLoad rfl
  | substituted _ notFlagged => simp [Due, notFlagged] at due
  | _ => simp [Due] at due

/-- The step calls this state function. -/
def calls (state : DerivationState) (seen : Run × Event) : Bool :=
  match seen.2 with
  | .call _ => seen.1.current == state
  | _ => false

/-- The goal cannot succeed before it has called `haveDerivation` again. -/
structure Pending (run : Run) : Prop where
  calling : run.calling ≠ some .tryToBuild
  notSuccess : run.exitCode ≠ .ecSuccess
  due : run.busy = false ∨ Due run.current run.goal.needRestart

theorem pending_next (pending : Pending run) (stepped : run.next settings event = some next)
    (noRestart : calls .haveDerivation (run, event) = false) : Pending next := by
  obtain ⟨moves, calling⟩ := moves_of_next pending.calling stepped
  have due := pending.due
  cases moves with
  | request outputs busy called =>
    have asked := addWantedOutputs_asked run.goal outputs
    refine ⟨calling, pending.notSuccess, due.imp_right fun due => ?_⟩
    simp only [Run.current, asked.state]
    exact due.imp_right (Or.imp_right fun due => ⟨due.1, asked.restart (.inl due.2)⟩)
  | waiteeDone | others => exact ⟨calling, pending.notSuccess, due⟩
  | ends _ isOver failed => exact ⟨calling, failed, .inl isOver⟩
  | leads follows stillBusy leads =>
    refine ⟨calling, (fun succeeded => nomatch stillBusy.symm.trans succeeded), .inr (.inr (.inl ?_))⟩
    rcases due with done | due
    · exact nomatch done.symm.trans follows.busy
    · exact leads.of_due due (by simpa [calls] using noRestart)
  | succeeds follows succeeded succeeds =>
    rcases due with done | due
    · exact nomatch done.symm.trans follows.busy
    · exact absurd due (succeeds.not_due (by simpa [calls] using noRestart))

/-- A request for an output that is not wanted yet makes a restart due. -/
theorem pending_of_request {outputs : StringSet} (holds : Holds run)
    (stepped : run.next settings (.request outputs) = some next) (timely : ¬AsksLate run (.request outputs))
    (lacks : run.goal.Lacks outputs) : Pending next := by
  obtain ⟨⟨busy, called⟩, isNext⟩ := ite_none_right_eq_some.mp stepped
  cases isNext
  have isBusy := exitCode_of_busy busy
  have asked := addWantedOutputs_asked run.goal outputs
  have stage := (holds.sound busy).stage isBusy
  have notAll : ¬∀ name, wantOutput name run.goal.wantedOutputs = true := by
    intro all
    obtain ⟨name, _, isNew⟩ := lacks
    exact nomatch isNew.symm.trans (all name)
  refine ⟨holds.1, (fun succeeded => nomatch isBusy.symm.trans succeeded), .inr ?_⟩
  simp only [Run.current, called, getD_none] at stage
  simp only [Run.current, called, getD_none, asked.state]
  cases state : run.goal.state with
  | init => exact .inl rfl
  | haveDerivation => exact .inr (.inl rfl)
  | outputsSubstituted => exact .inr (.inr ⟨rfl, asked.restart (.inr lacks)⟩)
  | closureRepaired => exact absurd ⟨outputs, rfl, state, lacks⟩ timely
  | inputsRealised | tryToBuild =>
    rw [state] at stage
    exact absurd stage.2 notAll
  | buildDone =>
    rw [state] at stage
    exact absurd stage.2.1 notAll

theorem step_eq_some {seen : Run × Event} (stepped : run.step settings event = some (next, seen)) :
    run.next settings event = some next ∧ seen = (run, event) := by
  obtain ⟨next', isNext, same⟩ := map_eq_some_iff.mp stepped
  cases same
  exact ⟨isNext, rfl⟩

/-- A goal that succeeds, in normal or repair mode, has made every output valid that it was
ever asked for, and has gone back to `haveDerivation` after every request for an output that
it did not want by then, if no such request comes while its closure is being repaired. -/
theorem success_serves_requests (settings : Settings) (drvPath : Path)
    (wantedOutputs : StringSet) (buildMode : BuildMode) (shared : Shared)
    (events : List Event) (last : Run) (history : List (Run × Event))
    (notCheck : buildMode ≠ .bmCheck)
    (ran : Machine.run (Run.step settings) (.start drvPath wantedOutputs buildMode shared) events =
      some (last, history))
    (timely : ∀ seen ∈ history, ¬AsksLate seen.1 seen.2)
    (succeeded : last.exitCode = .ecSuccess) :
    (∀ outputs ∈ last.requested, ∀ output ∈ last.goal.drv.outputs.entries,
      wantOutput output.1 outputs = true → last.shared.store.isValidPath output.2.path = true) ∧
    ∀ before run outputs after, history = before ++ (run, .request outputs) :: after →
      run.goal.Lacks outputs → ∃ seen ∈ after, calls .haveDerivation seen = true := by
  have preserved : ∀ run event next seen, Holds run → run.step settings event = some (next, seen) →
      ¬AsksLate seen.1 seen.2 → Holds next := by
    intro run event next seen holds stepped isTimely
    obtain ⟨isNext, rfl⟩ := step_eq_some stepped
    exact holds_next holds isNext isTimely
  have start := holds_start drvPath wantedOutputs shared notCheck
  refine ⟨?_, ?_⟩
  · have holds := run_preserves _ Holds _ preserved start ran timely
    rcases holds.2 with ⟨_, notSuccess⟩ | sound
    · exact absurd succeeded notSuccess
    · intro outputs listed output isOutput wanted
      exact (sound.valid succeeded).2 output isOutput (sound.wants outputs listed _ wanted)
  · intro before run outputs after split lacks
    rw [split] at ran timely
    obtain ⟨events₁, event, events₂, middle, next, front, stepped, back⟩ :=
      run_split _ ran
    obtain ⟨isNext, same⟩ := step_eq_some stepped
    cases same
    have holds := Machine.run_preserves _ Holds _ preserved start front
      fun seen listed => timely seen (mem_append_left _ listed)
    have pending := pending_of_request holds isNext (timely (run, .request outputs) (by simp)) lacks
    by_contra never
    have pendingLast : Pending last := by
      refine run_preserves (Run.step settings) Pending
        (fun seen => calls .haveDerivation seen = false) ?_ pending back ?_
      · intro run event next seen pending stepped noRestart
        obtain ⟨isNext, rfl⟩ := step_eq_some stepped
        exact pending_next pending isNext noRestart
      · intro seen listed
        by_contra isCall
        exact never ⟨seen, listed, by simpa using isCall⟩
    exact pendingLast.notSuccess succeeded

/-! ### A derivation with two outputs -/

def outOnly : StringSet := ofList [(ascii "out", ⟨⟩)]

def docOnly : StringSet := ofList [(ascii "doc", ⟨⟩)]

def twoOutputs : Derivation :=
  { noDerivation with
    outputs := ofList
      [(ascii "doc", ⟨ascii "/doc", [], []⟩), (ascii "out", ⟨ascii "/out", [], []⟩)] }

/-- The output `/out` is good, but it refers to `/dep`, whose contents are not. -/
def damaged : Shared where
  store :=
    { isValidPath := fun path => [ascii "/d.drv", ascii "/out", ascii "/dep"].contains path
      pathContentsGood := fun path => path == ascii "/out"
      hasPathFailed := fun _ => false
      derivationFromPath := fun _ => .ok twoOutputs
      querySubstitutablePathInfos := fun _ => .ok none
      computeFSClosure := fun path =>
        .ok (if path = ascii "/out" then [path, ascii "/dep"] else [path]) }

/-- The second output is asked for while `/dep` is being repaired. -/
def lateRequest : List Event :=
  [.call {}, .waiteeDone .ecSuccess true, .call {}, .call {}, .request docOnly,
    .waiteeDone .ecSuccess true, .call {}]

theorem late_request_ignored :
    (Machine.run (Run.step {}) (.start (ascii "/d.drv") outOnly .bmRepair damaged) lateRequest).map
      (fun ran => (ran.1.exitCode, decide (docOnly ∈ ran.1.requested),
        ran.1.shared.store.isValidPath (ascii "/doc"))) = some (.ecSuccess, true, false) := by
  decide +kernel

/-- The second output is asked for while the first is being substituted. -/
def earlyRequest : List Event :=
  let store := damaged.store
  let valid (paths : List Path) : Shared :=
    { store := { store with
        isValidPath := fun path => paths.contains path
        tempRoots := [ascii "/out", ascii "/doc", ascii "/d.drv"] } }
  [.others (valid [ascii "/d.drv"]), .call {}, .call {}, .request docOnly,
    .others (valid [ascii "/d.drv", ascii "/out"]), .waiteeDone .ecSuccess true, .call {}, .call {},
    .others (valid [ascii "/d.drv", ascii "/out", ascii "/doc"]), .waiteeDone .ecSuccess true, .call {}]

theorem success_serves_requests_early :
    ∃ last history,
      Machine.run (Run.step {}) (.start (ascii "/d.drv") outOnly .bmNormal damaged) earlyRequest =
        some (last, history) ∧ last.exitCode = .ecSuccess ∧ docOnly ∈ last.requested ∧
      ∀ outputs ∈ last.requested, ∀ output ∈ last.goal.drv.outputs.entries,
        wantOutput output.1 outputs = true →
          last.shared.store.isValidPath output.2.path = true := by
  have facts : (Machine.run (Run.step {}) (.start (ascii "/d.drv") outOnly .bmNormal damaged)
      earlyRequest).map (fun ran => (ran.1.exitCode, decide (docOnly ∈ ran.1.requested),
        ran.2.all (·.1.goal.state != .closureRepaired))) = some (.ecSuccess, true, true) := by
    decide +kernel
  obtain ⟨⟨last, history⟩, ran, isFact⟩ := map_eq_some_iff.mp facts
  simp only [Prod.mk.injEq, decide_eq_true_eq] at isFact
  obtain ⟨succeeded, requested, noRepair⟩ := isFact
  refine ⟨last, history, ran, succeeded, requested, ?_⟩
  refine (success_serves_requests {} (ascii "/d.drv") outOnly .bmNormal damaged earlyRequest last
    history (by decide) ran ?_ succeeded).1
  rintro seen listed ⟨_, _, atRepair, _⟩
  have notRepair := all_eq_true.mp noRepair seen listed
  simp [atRepair] at notRepair

/-! ### Passes -/

/-- The outputs have been tried again after an attempt that found an incomplete closure, and
some wanted output is still invalid. -/
def Stuck (seen : Run × Event) : Prop :=
  calls .outputsSubstituted seen = true ∧ seen.1.goal.retrySubstitution = true ∧
    seen.1.goal.needRestart = false ∧ (seen.1.goal.buildMode = .bmCheck ∨
      checkPathValidity seen.1.turn false (seen.1.goal.buildMode == .bmRepair) ≠ [])
  deriving Decidable

def isRequest (seen : Run × Event) : Bool :=
  match seen.2 with
  | .request _ => true
  | _ => false

/-- How often a goal may still call `haveDerivation`: because it is about to, because a
restart is due, and once for a retry. -/
def allowanceOf (current : DerivationState) (needRestart retrySubstitution : Bool) : Nat :=
  (if current = .init ∨ current = .haveDerivation then 1 else 0) + (if needRestart then 1 else 0) +
    (if retrySubstitution = false ∨ current = .inputsRealised then 1 else 0)

def allowance (run : Run) : Nat :=
  if run.busy then allowanceOf run.current run.goal.needRestart run.goal.retrySubstitution else 0

theorem allowanceOf_restart (current : DerivationState) (needRestart flag retrySubstitution : Bool) :
    allowanceOf current flag retrySubstitution ≤ allowanceOf current needRestart retrySubstitution + 1 := by
  have one : (if flag = true then 1 else 0) ≤ 1 := by split <;> simp
  simp only [allowanceOf]
  omega

/-- The retry is paid for where the flag is set; only then can the inputs lead back. -/
theorem allowance_leads {next : Turn} (leads : Leads turn next state after) (kept : Kept turn next)
    (notStuck : state = .outputsSubstituted → turn.goal.retrySubstitution = true →
      turn.goal.needRestart = false → turn.goal.buildMode ≠ .bmCheck ∧
        checkPathValidity turn false (turn.goal.buildMode == .bmRepair) = []) :
    allowanceOf after next.goal.needRestart next.goal.retrySubstitution +
        (if state = .haveDerivation then 1 else 0) ≤
      allowanceOf state turn.goal.needRestart turn.goal.retrySubstitution := by
  have restart : (if next.goal.needRestart then 1 else 0) ≤ if turn.goal.needRestart then 1 else 0 := by
    by_cases flagged : next.goal.needRestart = true
    · simp [flagged, kept.restart flagged]
    · simp [flagged]
  have retry : (if next.goal.retrySubstitution = false then 1 else 0) ≤
      if turn.goal.retrySubstitution = false then 1 else 0 := by
    cases flag : turn.goal.retrySubstitution with
    | true => simp [kept.retry flag]
    | false => split <;> simp
  have one : (if next.goal.retrySubstitution = false then 1 else 0) ≤ 1 := by split <;> simp
  simp only [allowanceOf]
  cases leads with
  | restart flagged cleared =>
    simp [flagged, cleared]
    exact retry
  | inputs _ notFlagged _ invalid =>
    have noRetry : turn.goal.retrySubstitution = false := by
      by_contra flagged
      obtain ⟨notCheck, none⟩ := notStuck rfl (by simpa using flagged) notFlagged
      exact invalid.elim notCheck fun some' => some' none
    simpa [noRetry] using restart
  | retry flagged =>
    simp [kept.retry flagged]
    omega
  | _ =>
    simp
    omega

/-- A step that calls `haveDerivation` is paid for by the allowance, which only requests
raise. -/
theorem allowance_next (calling : run.calling ≠ some .tryToBuild)
    (stepped : run.next settings event = some next) (notStuck : ¬Stuck (run, event)) :
    next.calling ≠ some .tryToBuild ∧
      allowance next + (if calls .haveDerivation (run, event) then 1 else 0) ≤
        allowance run + if isRequest (run, event) then 1 else 0 := by
  obtain ⟨moves, notBuild⟩ := moves_of_next calling stepped
  refine ⟨notBuild, ?_⟩
  -- a goal that is done needs no allowance, and the last call has been paid for
  have done : next.busy = false ∨ next.exitCode = .ecSuccess → run.busy = true →
      allowance next + (if calls .haveDerivation (run, event) then 1 else 0) ≤ allowance run := by
    intro isOver busy
    have nothing : allowance next = 0 := by
      refine if_neg fun stillBusy => ?_
      rcases isOver with isOver | succeeded
      · exact nomatch isOver.symm.trans stillBusy
      · exact nomatch (exitCode_of_busy stillBusy).symm.trans succeeded
    rw [nothing, Nat.zero_add]
    split
    · next called =>
      have isLoad : run.current = .haveDerivation := by
        unfold calls at called
        split at called
        · exact beq_iff_eq.mp called
        · cases called
      simp only [allowance, busy, allowanceOf, isLoad, or_true, if_true]
      omega
    · exact Nat.zero_le _
  cases moves with
  | request outputs busy _ =>
    obtain ⟨⟨wanted, flag, isNext⟩, _, _⟩ := addWantedOutputs_asked run.goal outputs
    rw [isNext]
    have busy' : (run.exitCode == .ecBusy && run.failure.isNone) = true := busy
    simp only [allowance, Run.busy, busy', if_true, calls, isRequest, Bool.false_eq_true, if_false,
      Nat.add_zero]
    exact allowanceOf_restart _ _ _ _
  | waiteeDone | others => exact Nat.le_refl _
  | ends busy isOver _ => exact Nat.le_trans (done (.inl isOver) busy) (Nat.le_add_right _ _)
  | leads follows stillBusy leads =>
    have checked : run.current = .outputsSubstituted → run.goal.retrySubstitution = true →
        run.goal.needRestart = false → run.goal.buildMode ≠ .bmCheck ∧
          checkPathValidity run.turn false (run.goal.buildMode == .bmRepair) = [] := by
      intro isOutputs flagged noRestart
      by_contra bad
      rw [not_and_or, not_not] at bad
      exact notStuck ⟨by simp [calls, isOutputs], flagged, noRestart, bad⟩
    have paid := allowance_leads leads follows.kept checked
    have bound : allowance next ≤
        allowanceOf next.current next.goal.needRestart next.goal.retrySubstitution := by
      unfold allowance
      split
      · exact Nat.le_refl _
      · exact Nat.zero_le _
    rw [follows.goal] at bound
    simp only [calls, isRequest, beq_iff_eq, Bool.false_eq_true, if_false, Nat.add_zero, allowance,
      follows.busy, if_true] at bound ⊢
    exact Nat.le_trans (Nat.add_le_add_right bound _) paid
  | succeeds follows succeeded _ =>
    exact Nat.le_trans (done (.inr succeeded) follows.busy) (Nat.le_add_right _ _)

/-- The goal calls `haveDerivation` at most twice, and once more for every request, if a
second attempt to substitute the outputs does not leave it stuck. -/
theorem passes_bounded (settings : Settings) (drvPath : Path) (wantedOutputs : StringSet)
    (buildMode : BuildMode) (shared : Shared) (events : List Event) (last : Run)
    (history : List (Run × Event))
    (ran : Machine.run (Run.step settings) (.start drvPath wantedOutputs buildMode shared) events =
      some (last, history))
    (notStuck : ∀ seen ∈ history, ¬Stuck seen) :
    history.countP (calls .haveDerivation) ≤ 2 + history.countP isRequest := by
  have paid := Machine.run_potential (Run.step settings) (fun run => run.calling ≠ some .tryToBuild)
    (fun seen => ¬Stuck seen) allowance (calls .haveDerivation) isRequest
    (fun run event next seen calling stepped isFine => by
      obtain ⟨isNext, rfl⟩ := step_eq_some stepped
      exact allowance_next calling isNext isFine) (by simp [Run.start]) ran notStuck
  have start : allowance (.start drvPath wantedOutputs buildMode shared) = 2 := rfl
  omega

/-- Only the derivation is valid. -/
def unavailable : Shared where
  store :=
    { isValidPath := fun path => path == ascii "/d.drv"
      pathContentsGood := fun _ => false
      hasPathFailed := fun _ => false
      derivationFromPath := fun _ =>
        .ok { noDerivation with outputs := ofList [(ascii "out", ⟨ascii "/out", [], []⟩)] }
      querySubstitutablePathInfos := fun _ => .ok none
      computeFSClosure := fun path => .ok [path] }

/-- A substituter offers the output, but not what it refers to. -/
def attempt : List Event :=
  [.call {}, .waiteeDone .ecIncompleteClosure true, .call {}, .call {}]

/-- At the second attempt there is a substitute. -/
def secondAttempt : List Event :=
  .call {} :: attempt ++ [.call {},
    .others { store := { unavailable.store with
      isValidPath := fun _ => true
      tempRoots := [ascii "/out", ascii "/d.drv"] } },
    .waiteeDone .ecSuccess true, .call {}]

theorem passes_bounded_secondAttempt :
    ∃ last history,
      Machine.run (Run.step {}) (.start (ascii "/d.drv") outOnly .bmNormal unavailable) secondAttempt =
        some (last, history) ∧ last.exitCode = .ecSuccess ∧ last.goal.retrySubstitution = true ∧
      history.countP (calls .haveDerivation) ≤ 2 + history.countP isRequest := by
  have facts : (Machine.run (Run.step {}) (.start (ascii "/d.drv") outOnly .bmNormal unavailable)
      secondAttempt).map (fun ran => (ran.1.exitCode, ran.1.goal.retrySubstitution,
        decide (∀ seen ∈ ran.2, ¬Stuck seen))) = some (.ecSuccess, true, true) := by
    decide +kernel
  obtain ⟨⟨last, history⟩, ran, isFact⟩ := map_eq_some_iff.mp facts
  simp only [Prod.mk.injEq, decide_eq_true_eq] at isFact
  exact ⟨last, history, ran, isFact.1, isFact.2.1, passes_bounded {} (ascii "/d.drv") outOnly .bmNormal
    unavailable secondAttempt last history ran isFact.2.2⟩

/-- The goal after its first attempt, and after every other one. -/
def retrying : Run where
  goal :=
    { drvPath := ascii "/d.drv"
      wantedOutputs := .empty
      buildMode := .bmNormal
      state := .outputsSubstituted
      retrySubstitution := true
      drv := { noDerivation with outputs := ofList [(ascii "out", ⟨ascii "/out", [], []⟩)] } }
  shared :=
    { store := { unavailable.store with tempRoots := [ascii "/out", ascii "/d.drv"] } }
  calling := some .haveDerivation
  requested := [outOnly]

theorem retrying_again (n : Nat) :
    ∃ history, Machine.run (Run.step {}) retrying (List.replicate n attempt).flatten =
      some (retrying, history) ∧
      history.countP isRequest = 0 ∧ n ≤ history.countP (calls .haveDerivation) := by
  have once : (Machine.run (Run.step {}) retrying attempt).map (fun ran =>
      (ran.1, ran.2.countP isRequest, ran.2.countP (calls .haveDerivation))) =
      some (retrying, 0, 1) := rfl
  obtain ⟨⟨next, seen⟩, ran, facts⟩ := map_eq_some_iff.mp once
  simp only [Prod.mk.injEq] at facts
  obtain ⟨rfl, noRequest, called⟩ := facts
  induction n with
  | zero => exact ⟨[], rfl, rfl, Nat.le_refl _⟩
  | succ n ih =>
    obtain ⟨history, again, noRequests, calledAgain⟩ := ih
    refine ⟨seen ++ history, ?_, ?_, ?_⟩
    · rw [replicate_succ, flatten_cons]
      exact Machine.run_append _ ran again
    · rw [countP_append, noRequest, noRequests]
    · rw [countP_append, called]
      omega

theorem retries_unbounded :
    ¬∃ bound, ∀ events last history,
      Machine.run (Run.step {}) (.start (ascii "/d.drv") outOnly .bmNormal unavailable) events =
        some (last, history) → history.countP isRequest = 0 →
      history.countP (calls .haveDerivation) ≤ bound := by
  rintro ⟨bound, bounded⟩
  have first : (Machine.run (Run.step {}) (.start (ascii "/d.drv") outOnly .bmNormal unavailable)
      (.call {} :: attempt)).map (fun ran => (ran.1, ran.2.countP isRequest)) = some (retrying, 0) := rfl
  obtain ⟨⟨next, seen⟩, ran, facts⟩ := map_eq_some_iff.mp first
  simp only [Prod.mk.injEq] at facts
  obtain ⟨rfl, noRequest⟩ := facts
  obtain ⟨history, again, noRequests, many⟩ := retrying_again (bound + 1)
  have few := bounded _ _ _ (Machine.run_append _ ran again)
    (by rw [countP_append, noRequest, noRequests])
  rw [countP_append] at few
  omega

end DerivationGoal

end Guix.LibStore.Building
