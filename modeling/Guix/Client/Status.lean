import Guix.Client.Derivations
import Mathlib.Data.List.Perm.Basic

/-!
# The status of ongoing builds

`compute-status` of `(guix status)`, which follows builds and downloads from the events of the
daemon. Each element of a list is an object of its own, so `delq` of what `find` gives removes
the first match. Numbers, times, derivations on disk and regular expressions are parameters.
-/

namespace Guix.Client.Status

open List Option

/-- `wrong-type-arg`: a record accessor or modifier was given `#f`. -/
inductive StatusError
  | wrongType
  deriving DecidableEq

structure StatusLibrary (Number : Type) where
  stringToNumber : Str → Option Number
  zero : Number
  /-- `=`. -/
  isEqual : Number → Int → Bool
  /-- 100 times the quotient of two numbers in decimal, 0 if there is none. -/
  progress : Str → Str → Number
  /-- The groups of the match. -/
  regexpExec : Str → Str → Option (List Str)
  /-- `none` is an exception. -/
  derivationPathToOutputPath : Str → Option Str

structure Build (Number : Type) where
  derivation : Str
  id : Option Number
  system : Str
  logFile : Option Str
  phase : Option Str := none
  completion : Option Number := none

structure Download (Number Time : Type) where
  item : Str
  uri : Str
  size : Option Number
  start : Time
  finish : Option Time := none
  transferred : Option Number

structure BuildStatus (Number Time : Type) where
  building : List (Build Number) := []
  downloading : List (Download Number Time) := []
  buildsCompleted : List (Build Number) := []
  downloadsCompleted : List (Download Number Time) := []

inductive Event
  | buildStarted (drv system logFile : Str) (rest : List Str)
  | buildSucceeded (drv : Str)
  | buildFailed (drv : Str)
  | downloadStarted (item uri size : Str)
  | downloadSucceeded (item uri size : Str)
  | substituterSucceeded (item : Str)
  | downloadProgress (item uri size transferred : Str)
  | buildLog (pid : Int) (line : Str)
  | other

def phaseStartRx : Str := str "^starting phase [`']([^']+)'"
def percentageLineRx : Str := str "^[[:space:]]*\\[ *([0-9]+)%\\]"
def fractionLineRx : Str := str "^[[:space:]]*\\[ *([0-9]+) *(/|of) *([0-9]+)\\]"

section Model

variable {Number Time : Type} (lib : StatusLibrary Number)

def matchingBuild (drv : Str) (build : Build Number) : Bool := drv = build.derivation

def matchingDownload (item : Str) (download : Download Number Time) : Bool := item = download.item

def hasId (id : Int) (build : Build Number) : Bool :=
  match build.id with
  | some number => lib.isEqual number id
  | none => false

/-- The first build that matches, changed and moved to the front. -/
def changeBuild (status : BuildStatus Number Time) (id : Int) (change : Build Number → Build Number) :
    Option (BuildStatus Number Time) :=
  (status.building.find? (hasId lib id)).map fun build =>
    { status with building := change build :: status.building.eraseP (hasId lib id) }

def updateBuild (status : BuildStatus Number Time) (id : Int) (line : Str) :
    Except StatusError (BuildStatus Number Time) :=
  -- there may be no build to set the completion of
  let update (completion : Option Number) :=
    match changeBuild lib status id ({ · with completion }) with
    | some status => .ok status
    | none => .error .wrongType
  if '\x00' ∈ line then .ok status
  else match lib.regexpExec percentageLineRx line with
    | some groups => update (lib.stringToNumber (groups.getD 0 []))
    | none => match lib.regexpExec fractionLineRx line with
      | some groups => update (some (lib.progress (groups.getD 0 []) (groups.getD 2 [])))
      | none => match lib.regexpExec phaseStartRx line with
        | some groups => .ok ((changeBuild lib status id
            ({ · with completion := none, phase := some (groups.getD 0 []) })).getD status)
        | none => .ok status

/-- The first download of the item becomes `completed`. -/
def completeDownload (status : BuildStatus Number Time) (item : Str) (completed : Download Number Time) :
    BuildStatus Number Time :=
  { status with
    downloading := status.downloading.eraseP (matchingDownload item)
    downloadsCompleted := completed :: status.downloadsCompleted }

def endBuild (status : BuildStatus Number Time) (drv : Str) : BuildStatus Number Time :=
  match status.building.find? (matchingBuild drv) with
  | some build =>
    { status with
      building := status.building.eraseP (matchingBuild drv)
      buildsCompleted := build :: status.buildsCompleted }
  | none => status

def computeStatus (event : Event) (now : Time) (status : BuildStatus Number Time) :
    Except StatusError (BuildStatus Number Time) :=
  match event with
  | .buildStarted drv system logFile rest =>
    .ok { status with
      building := {
        derivation := drv
        id := rest.head?.bind lib.stringToNumber
        system
        logFile := if logFile = [] then none else some logFile } :: status.building }
  | .buildSucceeded drv | .buildFailed drv => .ok (endBuild status drv)
  | .downloadStarted item uri size =>
    .ok { status with
      building := status.building.filter fun build =>
        lib.derivationPathToOutputPath build.derivation ≠ some item
      downloading := ⟨item, uri, lib.stringToNumber size, now, none, some lib.zero⟩ :: status.downloading }
  | .downloadSucceeded item uri size =>
    match status.downloading.find? (matchingDownload item) with
    | none => .error .wrongType
    | some current =>
      let size := lib.stringToNumber size
      .ok (completeDownload status item ⟨item, uri, size, current.start, some now, size⟩)
  | .substituterSucceeded item =>
    match status.downloading.find? (matchingDownload item) with
    | none => .ok status
    | some current =>
      .ok (completeDownload status item
        ⟨item, current.uri, current.size, current.start, some now, current.size⟩)
  | .downloadProgress item uri size transferred =>
    let start := match status.downloading.find? (matchingDownload item) with
      | some current => current.start
      | none => now
    .ok { status with
      downloading := ⟨item, uri, lib.stringToNumber size, start, none, lib.stringToNumber transferred⟩ ::
        status.downloading.filter fun download => !matchingDownload item download }
  | .buildLog pid line => updateBuild lib status pid line
  | .other => .ok status

/-- The events with the times at which they are processed. -/
def computeStatuses : List (Event × Time) → BuildStatus Number Time →
    Except StatusError (BuildStatus Number Time)
  | [], status => .ok status
  | (event, now) :: later, status => computeStatus lib event now status >>= computeStatuses later

/-! ### Events that find what they are about -/

/-- The items with the start of each download, in progress or completed. -/
def BuildStatus.starts (status : BuildStatus Number Time) : List (Str × Time) :=
  (status.downloading ++ status.downloadsCompleted).map fun download => (download.item, download.start)

/-- The line tells how far a build is. -/
def Reports (line : Str) : Prop :=
  '\x00' ∉ line ∧ (lib.regexpExec percentageLineRx line ≠ none ∨ lib.regexpExec fractionLineRx line ≠ none)

/-- The event has what it is about in the status: what starts is new, and what succeeds or
advances is there. -/
def Timely (status : BuildStatus Number Time) (now : Time) : Event → Prop
  | .buildStarted drv _ _ _ => ∀ build ∈ status.building, build.derivation ≠ drv
  | .downloadStarted item _ _ => (item, now) ∉ status.starts
  | .downloadSucceeded item _ _ => ∃ download ∈ status.downloading, download.item = item
  | .downloadProgress item _ _ _ =>
    (∀ download ∈ status.downloading, download.item ≠ item) → (item, now) ∉ status.starts
  | .buildLog pid line => Reports lib line → ∃ build ∈ status.building, hasId lib pid build = true
  | _ => True

/-- Every event is timely when its turn comes. -/
def Orderly : List (Event × Time) → BuildStatus Number Time → Prop
  | [], _ => True
  | (event, now) :: later, status => Timely lib status now event ∧
    ∀ next, computeStatus lib event now status = .ok next → Orderly later next

structure Consistent (status : BuildStatus Number Time) : Prop where
  builds : (status.building.map Build.derivation).Nodup
  starts : status.starts.Nodup

end Model

theorem perm_of_find? {α : Type} {p : α → Bool} {l : List α} {a : α} (found : l.find? p = some a) :
    l ~ a :: l.eraseP p := by
  obtain ⟨holds, front, back, rfl, before⟩ := find?_eq_some_iff_append.mp found
  rw [eraseP_append_right _ (by simpa using before), eraseP_cons_of_pos holds]
  exact perm_middle

section Proofs

variable {Number Time : Type} {lib : StatusLibrary Number} {status next : BuildStatus Number Time}
  {now : Time} {item : Str} {id : Int}

theorem item_of_find? {current : Download Number Time}
    (found : status.downloading.find? (matchingDownload item) = some current) : current.item = item := by
  simpa [matchingDownload, eq_comm] using find?_some found

namespace Consistent

theorem apart (consistent : Consistent status) : ∀ download ∈ status.downloading,
    ∀ completed ∈ status.downloadsCompleted,
      download.item = completed.item → download.start ≠ completed.start := by
  intro download inProgress completed done sameItem sameStart
  have starts := consistent.starts
  rw [BuildStatus.starts, map_append] at starts
  refine (nodup_append.mp starts).2.2 _ (mem_map_of_mem inProgress) _ (mem_map_of_mem done) ?_
  rw [sameItem, sameStart]

theorem changeBuild (consistent : Consistent status) {change : Build Number → Build Number}
    (changed : changeBuild lib status id change = some next)
    (keeps : ∀ build, (change build).derivation = build.derivation) : Consistent next := by
  obtain ⟨build, found, rfl⟩ := map_eq_some_iff.mp changed
  refine ⟨?_, consistent.starts⟩
  have perm := (perm_of_find? found).map Build.derivation
  rw [map_cons, ← keeps build] at perm
  exact perm.nodup_iff.mp consistent.builds

theorem endBuild (consistent : Consistent status) (drv : Str) : Consistent (endBuild status drv) := by
  unfold Status.endBuild
  split
  next => exact ⟨consistent.builds.sublist (eraseP_sublist.map _), consistent.starts⟩
  next => exact consistent

theorem completeDownload (consistent : Consistent status) {current completed : Download Number Time}
    (found : status.downloading.find? (matchingDownload item) = some current)
    (sameItem : completed.item = item) (sameStart : completed.start = current.start) :
    Consistent (completeDownload status item completed) := by
  refine ⟨consistent.builds, ?_⟩
  -- the download moves from one list to the other
  have perm := ((perm_of_find? found).append_right status.downloadsCompleted).map
    fun download => (download.item, download.start)
  rw [cons_append, map_cons, item_of_find? found, ← sameStart] at perm
  refine (Perm.nodup_iff ?_).mp consistent.starts
  refine perm.trans ?_
  simp only [BuildStatus.starts, Status.completeDownload, map_append, map_cons, sameItem]
  exact perm_middle.symm

theorem updateBuild (consistent : Consistent status) (line : Str)
    (timely : Reports lib line → ∃ build ∈ status.building, hasId lib id build = true) :
    ∃ next, updateBuild lib status id line = .ok next ∧ Consistent next := by
  have update : Reports lib line → ∀ completion, ∃ next,
      Status.changeBuild lib status id ({ · with completion }) = some next ∧ Consistent next := by
    intro reports completion
    obtain ⟨build, found⟩ := isSome_iff_exists.mp (find?_isSome.mpr (timely reports))
    have changed : Status.changeBuild lib status id ({ · with completion }) = some _ :=
      map_eq_some_iff.mpr ⟨build, found, rfl⟩
    exact ⟨_, changed, consistent.changeBuild changed fun _ => rfl⟩
  unfold Status.updateBuild
  split
  next => exact ⟨_, rfl, consistent⟩
  next noNul =>
    split
    next groups percentage =>
      obtain ⟨next, changed, kept⟩ := update ⟨noNul, .inl (by simp [percentage])⟩
        (lib.stringToNumber (groups.getD 0 []))
      exact ⟨next, by simp only [changed], kept⟩
    next =>
      split
      next groups fraction =>
        obtain ⟨next, changed, kept⟩ := update ⟨noNul, .inr (by simp [fraction])⟩
          (some (lib.progress (groups.getD 0 []) (groups.getD 2 [])))
        exact ⟨next, by simp only [changed], kept⟩
      next =>
        split
        next groups _ =>
          refine ⟨_, rfl, ?_⟩
          cases changed : Status.changeBuild lib status id _ with
          | none => exact consistent
          | some next => exact consistent.changeBuild changed fun _ => rfl
        next => exact ⟨_, rfl, consistent⟩

end Consistent

theorem computeStatus_step (consistent : Consistent status) (event : Event)
    (timely : Timely lib status now event) :
    ∃ next, computeStatus lib event now status = .ok next ∧ Consistent next := by
  cases event with
  | buildStarted drv system logFile rest =>
    refine ⟨_, rfl, ?_, consistent.starts⟩
    refine nodup_cons.mpr ⟨?_, consistent.builds⟩
    rintro listed
    obtain ⟨build, member, same⟩ := mem_map.mp listed
    exact timely build member same
  | buildSucceeded drv | buildFailed drv => exact ⟨_, rfl, consistent.endBuild drv⟩
  | downloadStarted item uri size =>
    refine ⟨_, rfl, consistent.builds.sublist (filter_sublist.map _), ?_⟩
    exact nodup_cons.mpr ⟨timely, consistent.starts⟩
  | downloadSucceeded item uri size =>
    obtain ⟨download, member, isItem⟩ := timely
    have isMatch : matchingDownload item download = true := decide_eq_true isItem.symm
    obtain ⟨current, found⟩ := isSome_iff_exists.mp (find?_isSome.mpr ⟨download, member, isMatch⟩)
    refine ⟨_, by rw [computeStatus, found], ?_⟩
    exact consistent.completeDownload found rfl rfl
  | substituterSucceeded item =>
    cases found : status.downloading.find? (matchingDownload item) with
    | none => exact ⟨_, by rw [computeStatus, found], consistent⟩
    | some current =>
      refine ⟨_, by rw [computeStatus, found], ?_⟩
      exact consistent.completeDownload found rfl rfl
  | downloadProgress item uri size transferred =>
    refine ⟨_, rfl, consistent.builds, ?_⟩
    -- the other downloads of the item are gone
    refine nodup_cons.mpr ⟨?_, consistent.starts.sublist ((filter_sublist.append_right _).map _)⟩
    intro listed
    obtain ⟨download, member, same⟩ := mem_map.mp listed
    obtain ⟨sameItem, sameStart⟩ := Prod.mk.inj same
    rcases mem_append.mp member with other | completed
    · have := (mem_filter.mp other).2
      simp [matchingDownload, sameItem] at this
    · split at sameStart
      next current found =>
        refine consistent.apart current (mem_of_find?_eq_some found) download completed ?_ sameStart.symm
        exact (item_of_find? found).trans sameItem.symm
      next missing =>
        refine timely ?_ ?_
        · intro download inProgress isItem
          exact find?_eq_none.mp missing download inProgress (decide_eq_true isItem.symm)
        · subst sameItem sameStart
          exact mem_map_of_mem (mem_append_right _ completed)
  | buildLog pid line => exact consistent.updateBuild line timely
  | other => exact ⟨_, rfl, consistent⟩

theorem computeStatuses_consistent {events : List (Event × Time)} (consistent : Consistent status)
    (orderly : Orderly lib events status) :
    ∃ last, computeStatuses lib events status = .ok last ∧ Consistent last := by
  induction events generalizing status with
  | nil => exact ⟨status, rfl, consistent⟩
  | cons event events ih =>
    obtain ⟨timely, later⟩ := orderly
    obtain ⟨next, computed, kept⟩ := computeStatus_step consistent event.1 timely
    rw [computeStatuses, computed]
    exact ih kept (later next computed)

/-- A run of timely events raises no error; no derivation is then listed twice, and no item is
both being downloaded and already downloaded with the same start. -/
theorem computeStatus_orderly (events : List (Event × Time)) (orderly : Orderly lib events {}) :
    ∃ status, computeStatuses lib events {} = .ok status ∧
      (status.building.map Build.derivation).Nodup ∧
      ∀ download ∈ status.downloading, ∀ completed ∈ status.downloadsCompleted,
        download.item = completed.item → download.start ≠ completed.start := by
  have empty : Consistent ({} : BuildStatus Number Time) := ⟨nodup_nil, nodup_nil⟩
  obtain ⟨last, ran, consistent⟩ := computeStatuses_consistent empty orderly
  exact ⟨last, ran, consistent.builds, consistent.apart⟩

end Proofs

/-- Natural numbers, and a `regexp-exec` that knows one line. -/
def lineLibrary : StatusLibrary Nat where
  stringToNumber digits := some (Nat.ofDigitChars 10 digits 0)
  zero := 0
  isEqual number id := number = id
  progress _ _ := 0
  regexpExec rx line := if rx = percentageLineRx ∧ line = str "[ 10%]" then some [str "10"] else none
  derivationPathToOutputPath _ := none

theorem computeStatus_orderly_example :
    ∃ status, computeStatuses lineLibrary [(.buildStarted (str "a.drv") [] [] [str "7"], 0),
        (.buildLog 7 (str "[ 10%]"), 1)] {} = .ok status ∧
      (status.building.map Build.derivation).Nodup ∧
      ∀ download ∈ status.downloading, ∀ completed ∈ status.downloadsCompleted,
        download.item = completed.item → download.start ≠ completed.start := by
  refine computeStatus_orderly _ ⟨nofun, ?_⟩
  rintro _ ⟨⟩
  exact ⟨fun _ => ⟨_, mem_cons_self, rfl⟩, fun _ _ => trivial⟩

/-- Events that find nothing raise an error, and one that repeats another is counted twice. -/
theorem computeStatus_untimely :
    computeStatuses lineLibrary [(.downloadSucceeded (str "a") [] [], 0)] {} = .error .wrongType ∧
    computeStatuses lineLibrary [(.buildLog 7 (str "[ 10%]"), 0)] {} = .error .wrongType ∧
    ∃ status, computeStatuses lineLibrary [(.buildStarted (str "a.drv") [] [] [], 0),
        (.buildStarted (str "a.drv") [] [] [], 1)] {} = .ok status ∧
      ¬ (status.building.map Build.derivation).Nodup := by
  refine ⟨rfl, rfl, _, rfl, ?_⟩
  decide

end Guix.Client.Status
