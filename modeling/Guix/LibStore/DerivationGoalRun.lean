import Guix.Lib.Machine
import Guix.LibStore.DerivationGoal

/-!
# Runs of a derivation goal

A derivation goal among other goals and processes. These finish the goals it waits for,
ask it for more outputs, and change the store, except that a valid path that is a temporary
root stays valid. A state function is one step, also if another one calls it.
-/

namespace Guix.LibStore.Building

open Derivations (Derivation StringSet)

/-- Valid temporary roots stay valid, and stay roots. -/
def Store.keeps (old new : Store) : Bool :=
  old.tempRoots.all fun path =>
    new.tempRoots.contains path && (!old.isValidPath path || new.isValidPath path)

theorem Store.keeps_iff (old new : Store) :
    old.keeps new = true ↔ ∀ path ∈ old.tempRoots,
      path ∈ new.tempRoots ∧ (old.isValidPath path = true → new.isValidPath path = true) := by
  simp [keeps, imp_iff_not_or]

namespace DerivationGoal

/-- `calling` is a state function that has been called by another one. `requested` are the
sets of outputs that the goal has been asked for. -/
structure Run where
  goal : DerivationGoal
  counts : Counts := {}
  waiting : Bool := false
  shared : Shared
  exitCode : ExitCode := .ecBusy
  calling : Option DerivationState := none
  failure : Option Failure := none
  requested : List StringSet

namespace Run

/-- `makeDerivationGoal` for a derivation that has no goal. -/
def start (drvPath : Path) (wantedOutputs : StringSet) (buildMode : BuildMode) (shared : Shared) :
    Run where
  goal := { drvPath, wantedOutputs, buildMode }
  shared := { shared with store := shared.store.addTempRoot drvPath }
  requested := [wantedOutputs]

def turn (run : Run) : Turn where
  goal := run.goal
  counts := run.counts
  waiting := run.waiting
  shared := run.shared

/-- The state function that is called next. -/
def current (run : Run) : DerivationState := run.calling.getD run.goal.state

def busy (run : Run) : Bool := run.exitCode == .ecBusy && run.failure.isNone

/-- The goal after its turn. -/
def resume (run : Run) (turn : Turn) : Run :=
  { run with
    goal := turn.goal
    counts := turn.counts
    waiting := turn.waiting
    shared := turn.shared }

end Run

inductive Event
  -- `makeDerivationGoal` finds this goal
  | request (outputs : StringSet)
  -- a goal that this one waits for is done
  | waiteeDone (result : ExitCode) (last : Bool)
  | others (shared : Shared)
  | timeout
  | call (answers : Answers)

def Run.finish (run : Run) : Outcome → Run
  | .returns turn => { run.resume turn with exitCode := (ended turn.log).getD .ecBusy, calling := none }
  | .calls state turn => { run.resume turn with calling := some state }
  | .throws failure turn => { run.resume turn with failure := some failure }

variable (settings : Settings)

def Run.next (run : Run) : Event → Option Run
  | .request outputs =>
    if run.busy ∧ run.calling = none then
      some { run with
        goal := run.goal.addWantedOutputs outputs
        requested := outputs :: run.requested }
    else none
  | .waiteeDone result last =>
    if run.busy ∧ run.calling = none ∧ run.waiting then
      some { run with
        counts := run.counts.add result
        waiting := !(last || result == .ecFailed && !settings.keepGoing) }
    else none
  | .others shared => if run.shared.store.keeps shared.store then some { run with shared } else none
  | .timeout =>
    if run.busy ∧ run.calling = none then some (run.finish (.returns (timedOut run.turn))) else none
  | .call answers =>
    if run.busy ∧ run.waiting = false then
      some (run.finish (call settings answers run.turn run.current))
    else none

/-- A step, which an observer sees with the situation before it. -/
def Run.step (run : Run) (event : Event) : Option (Run × (Run × Event)) :=
  (run.next settings event).map fun next => (next, (run, event))

end DerivationGoal

end Guix.LibStore.Building
