import Guix.LibStore.PathLocks

/-!
# The invariant of path locks

A lock file is deleted while other processes may wait for its inode. What keeps
them apart is that an unlinked lock file is either marked, or still locked by the
process that is about to mark it.

The invariant is stated for one process against the shared files, and this module
says what each system call does to it.
-/

namespace Guix.LibStore.PathLocks

open SharedFiles List Function Process Phase

/-! ### What a process has -/

/-- Descriptors that are not in `fds`, with the lock path they were opened at. -/
def Pc.opened : Pc → List (Inode × Path)
  | .opening _ lockPath (some fd) => [(fd, lockPath)]
  | .closing _ lockPath stale fd => [(stale, lockPath), (fd, lockPath)]
  | .locking _ lockPath fd => [(fd, lockPath)]
  | .waiting _ lockPath fd => [(fd, lockPath)]
  | .statting _ lockPath fd => [(fd, lockPath)]
  | .unlocking _ _ _ (some pair) => [pair]
  | .failing _ lockPath fd => [(fd, lockPath)]
  | _ => []

/-- The lock path that a call of `lockPaths` is working on. -/
def Pc.target : Pc → Option Path
  | .opening _ lockPath _ => some lockPath
  | .closing _ lockPath _ _ => some lockPath
  | .locking _ lockPath _ => some lockPath
  | .waiting _ lockPath _ => some lockPath
  | .statting _ lockPath _ => some lockPath
  | .unlocking _ _ _ (some pair) => some pair.2
  | .failing _ lockPath _ => some lockPath
  | _ => none

/-- The inode that a process has locked but not put into `fds`. -/
def Pc.taken : Pc → Option Inode
  | .opening _ _ stale => stale
  | .closing _ _ stale _ => some stale
  | .statting _ _ fd => some fd
  | _ => none

def Pc.call : Pc → Option Call
  | .loop call => some call
  | .opening call _ _ => some call
  | .closing call _ _ _ => some call
  | .locking call _ _ => some call
  | .waiting call _ _ => some call
  | .statting call _ _ => some call
  | _ => none

/-- The object whose method runs. -/
def Pc.object : Pc → Option Handle
  | .idle => none
  | .loop call => some call.object
  | .opening call _ _ => some call.object
  | .closing call _ _ _ => some call.object
  | .locking call _ _ => some call.object
  | .waiting call _ _ => some call.object
  | .statting call _ _ => some call.object
  | .unlocking object _ _ _ => some object
  | .failing object _ _ => some object

/-- The part of `fds` whose locks are not yet given up. -/
def Process.live (proc : Process) (object : Handle) : List (Inode × Path) :=
  match proc.pc with
  | .unlocking unlocked todo _ _ =>
    if object = unlocked then todo else (proc.objects object).fds
  | _ => (proc.objects object).fds

/-- The part of `fds` whose lock files `unlock` has not begun to delete. -/
def Process.secure (proc : Process) (object : Handle) : List (Inode × Path) :=
  match proc.pc with
  | .unlocking unlocked todo phase _ =>
    if object = unlocked then (if phase = .start then todo else todo.tail)
    else (proc.objects object).fds
  | _ => (proc.objects object).fds

/-- The inode exists and has no name but this one. -/
structure Known (files : Directory Path UInt8) (i : Inode) (lockPath : Path) : Prop where
  exists_inode : i < files.next
  only_name : ∀ n, files.link n = some i → n = lockPath

/-- The locks behind `fds`, for one process. `mode` is its own lock on each inode. -/
structure Held (files : Directory Path UInt8) (mode : Inode → Option LockMode)
    (live secure : Handle → List (Inode × Path)) (lockedPaths : Finset Path) : Prop where
  writes : ∀ o i lp, (i, lp) ∈ live o → mode i = some .write
  known : ∀ o i lp, (i, lp) ∈ live o → Known files i lp
  secure_live : ∀ o, secure o ⊆ live o
  linked : ∀ o i lp, (i, lp) ∈ secure o → files.link lp = some i
  blank : ∀ o i lp, (i, lp) ∈ secure o → files.content i = []
  locked_iff : ∀ lp, lp ∈ lockedPaths ↔ ∃ o i, (i, lp) ∈ live o
  distinct : ∀ o, ((live o).map Prod.snd).Nodup
  separate : ∀ o o' i i' lp, (i, lp) ∈ live o → (i', lp) ∈ live o' → o = o'

/-- The descriptor a call works on. -/
structure Working (files : Directory Path UInt8) (mode : Inode → Option LockMode)
    (live : Handle → List (Inode × Path)) (lockedPaths : Finset Path) (pc : Pc) : Prop where
  opened : ∀ i lp, (i, lp) ∈ pc.opened → Known files i lp ∧ pc.target = some lp
  unlisted : ∀ lp, pc.target = some lp → lp ∉ lockedPaths
  taken : ∀ i, pc.taken = some i → mode i = some .write
  only : ∀ i, mode i ≠ none → (∃ o lp, (i, lp) ∈ live o) ∨ pc.taken = some i

/-- What the users of the objects rely on. -/
structure Granted (proc : Process) : Prop where
  owned : ∀ o path, path ∈ proc.owned o → ∃ i, (i, lockPathOf path) ∈ proc.secure o
  busy : ∀ o, proc.pc.object = some o → proc.owned o = []
  progress : ∀ call, proc.pc.call = some call → ∀ path ∈ call.paths,
    path ∈ call.rest ∨ proc.pc.target = some (lockPathOf path) ∨
      ∃ i, (i, lockPathOf path) ∈ (proc.objects call.object).fds
  cleared : ∀ o lp fd, proc.pc = .failing o lp fd → (proc.objects o).fds = []

structure Process.Ok (files : Directory Path UInt8) (mode : Inode → Option LockMode)
    (proc : Process) : Prop where
  held : Held files mode proc.live proc.secure proc.lockedPaths
  working : Working files mode proc.live proc.lockedPaths proc.pc
  granted : Granted proc

def State.mode (s : State) (p : Pid) (i : Inode) : Option LockMode := (s.locks i).mode p

/-- Process `p` has unlinked lock file `i` and is about to mark it. -/
def Process.Marking (proc : Process) (i : Inode) : Prop :=
  ∃ o lp rest failed, proc.pc = .unlocking o ((i, lp) :: rest) .token failed

structure Inv (s : State) : Prop where
  ok : ∀ p, (s.proc p).Ok s.files (s.mode p)
  marked : ∀ i, i < s.files.next → (∀ n, s.files.link n ≠ some i) → s.files.content i = [] →
    ∃ p, (s.proc p).Marking i

/-! ### System calls of one process, seen by another -/

variable {i : Inode} {lp : Path} {o : Handle}

section Frame

variable {files : Directory Path UInt8} {mode : Inode → Option LockMode}
  {live secure : Handle → List (Inode × Path)} {lockedPaths : Finset Path}

theorem Known.openOrCreate (known : Known files i lp) (n : Path) :
    Known (files.openOrCreate n).1 i lp where
  exists_inode := Nat.lt_of_lt_of_le known.exists_inode (files.next_le_openOrCreate n)
  only_name m found :=
    known.only_name m (files.openOrCreate_link_old known.exists_inode found)

theorem known_opened (n : Path) : Known (files.openOrCreate n).1 (files.openOrCreate n).2 n where
  exists_inode := (files.openOrCreate n).1.link_lt n _ (files.link_openOrCreate n)
  only_name m found :=
    (files.openOrCreate n).1.link_injective m n _ found (files.link_openOrCreate n)

theorem Known.unlink (known : Known files i lp) (n : Path) :
    Known (files.unlink n) i lp where
  exists_inode := known.exists_inode
  only_name m found := known.only_name m (files.link_unlink found).2

theorem Known.write (known : Known files i lp) (j offset : Nat) (data : Bytes) :
    Known (files.write j offset data) i lp :=
  ⟨known.exists_inode, known.only_name⟩

section

variable (held : Held files mode live secure lockedPaths)
include held

theorem Held.known_secure (member : (i, lp) ∈ secure o) : Known files i lp :=
  held.known o i lp (held.secure_live o member)

theorem Held.openOrCreate (n : Path) : Held (files.openOrCreate n).1 mode live secure lockedPaths :=
  { held with
    known := fun o i lp member => (held.known o i lp member).openOrCreate n
    linked := fun o i lp member =>
      files.openOrCreate_keeps_link lp n (held.linked o i lp member)
    blank := fun o i lp member => by
      rw [files.openOrCreate_keeps_content n i (held.known_secure member).exists_inode]
      exact held.blank o i lp member }

theorem Held.unlink (n : Path)
    (absent : ∀ o i, (i, n) ∉ secure o) : Held (files.unlink n) mode live secure lockedPaths :=
  { held with
    known := fun o i lp member => (held.known o i lp member).unlink n
    linked := fun o i lp member => by
      have other : lp ≠ n := fun same => absent o i (same ▸ member)
      rw [files.link_unlink_of_ne other]
      exact held.linked o i lp member }

theorem Held.write (j offset : Nat) (data : Bytes) (absent : ∀ o lp, (j, lp) ∉ secure o) :
    Held (files.write j offset data) mode live secure lockedPaths :=
  { held with
    known := fun o i lp member => (held.known o i lp member).write j offset data
    blank := fun o i lp member => by
      have other : i ≠ j := fun same => absent o lp (same ▸ member)
      rw [files.content_write_of_ne j i offset data other]
      exact held.blank o i lp member }

end

theorem Working.keepsFiles {files' : Directory Path UInt8} {pc : Pc}
    (working : Working files mode live lockedPaths pc)
    (known : ∀ i lp, Known files i lp → Known files' i lp) :
    Working files' mode live lockedPaths pc :=
  { working with
    opened := fun i lp member =>
      ⟨known i lp (working.opened i lp member).1, (working.opened i lp member).2⟩ }

theorem Working.one {pc : Pc} (opened : pc.opened = [(i, lp)]) (target : pc.target = some lp)
    (known : Known files i lp) (unlisted : lp ∉ lockedPaths)
    (taken : ∀ j, pc.taken = some j → mode j = some .write)
    (only : ∀ j, mode j ≠ none → (∃ o lp, (j, lp) ∈ live o) ∨ pc.taken = some j) :
    Working files mode live lockedPaths pc := by
  refine ⟨?_, ?_, taken, only⟩
  · rw [opened, target]
    intro j lp' member
    cases mem_singleton.mp member
    exact ⟨known, rfl⟩
  · rw [target]
    rintro _ ⟨⟩
    exact unlisted

/-! ### Changes of the locks behind `fds` -/

theorem Held.keepsMode {mode' : Inode → Option LockMode}
    (held : Held files mode live secure lockedPaths)
    (same : ∀ o i lp, (i, lp) ∈ live o → mode' i = mode i) :
    Held files mode' live secure lockedPaths :=
  { held with writes := fun o i lp member => by rw [same o i lp member, held.writes o i lp member] }

theorem Held.shrink {secure' : Handle → List (Inode × Path)}
    (held : Held files mode live secure lockedPaths) (fewer : ∀ o, secure' o ⊆ secure o) :
    Held files mode live secure' lockedPaths :=
  { held with
    secure_live := fun o => List.Subset.trans (fewer o) (held.secure_live o)
    linked := fun o i lp member => held.linked o i lp (fewer o member)
    blank := fun o i lp member => held.blank o i lp (fewer o member) }

/-- A descriptor that is not in `fds` has another inode than those in `fds`. -/
theorem Held.not_opened (held : Held files mode live live lockedPaths) (known : Known files i lp)
    (unlisted : lp ∉ lockedPaths) (o : Handle) (lp' : Path) : (i, lp') ∉ live o := by
  intro member
  have same : lp' = lp := known.only_name lp' (held.linked o i lp' member)
  exact unlisted ((held.locked_iff lp).mpr ⟨o, i, same ▸ member⟩)

theorem mem_update_append {fds : Handle → List (Inode × Path)} {o' : Handle} {pair new : Inode × Path} :
    pair ∈ update fds o (fds o ++ [new]) o' ↔ pair ∈ fds o' ∨ (o' = o ∧ pair = new) := by
  by_cases same : o' = o
  · subst same
    simp
  · simp [same]

theorem mem_update_tail {fds : Handle → List (Inode × Path)} {o' : Handle} {pair first : Inode × Path}
    {rest : List (Inode × Path)} (member : pair ∈ update fds o (first :: rest) o')
    (other : pair ≠ first) : pair ∈ update fds o rest o' := by
  by_cases same : o' = o
  · subst same
    rw [update_self] at member ⊢
    exact (mem_cons.mp member).resolve_left other
  · rwa [update_of_ne same] at member ⊢

theorem Held.push (held : Held files mode live live lockedPaths) (o : Handle) (i : Inode) (lp : Path)
    (writes : mode i = some .write) (known : Known files i lp) (linked : files.link lp = some i)
    (blank : files.content i = []) (unlisted : lp ∉ lockedPaths) :
    Held files mode (update live o (live o ++ [(i, lp)]))
      (update live o (live o ++ [(i, lp)])) (insert lp lockedPaths) := by
  have fresh : ∀ o' j, (j, lp) ∉ live o' := fun o' j member =>
    unlisted ((held.locked_iff lp).mpr ⟨o', j, member⟩)
  have all {P : Inode → Path → Prop} (old : ∀ o' j lp', (j, lp') ∈ live o' → P j lp') (new : P i lp) :
      ∀ o' j lp', (j, lp') ∈ update live o (live o ++ [(i, lp)]) o' → P j lp' := by
    intro o' j lp' member
    rcases mem_update_append.mp member with member | ⟨_, ⟨⟩⟩
    · exact old o' j lp' member
    · exact new
  refine ⟨all held.writes writes, all held.known known, fun _ => List.Subset.refl _, all held.linked linked,
    all held.blank blank, ?_, ?_, ?_⟩
  · intro lp'
    simp only [Finset.mem_insert, held.locked_iff lp', mem_update_append]
    constructor
    · rintro (rfl | ⟨o', j, old⟩)
      · exact ⟨o, i, .inr ⟨rfl, rfl⟩⟩
      · exact ⟨o', j, .inl old⟩
    · rintro ⟨o', j, old | ⟨_, ⟨⟩⟩⟩
      · exact .inr ⟨o', j, old⟩
      · exact .inl rfl
  · intro o'
    by_cases same : o' = o
    · subst same
      rw [update_self, map_append, map_singleton, ← concat_eq_append]
      refine (held.distinct o').concat fun old => ?_
      obtain ⟨⟨j, _⟩, member, rfl⟩ := mem_map.mp old
      exact fresh o' j member
    · rw [update_of_ne same]
      exact held.distinct o'
  · intro o₁ o₂ j₁ j₂ lp' first second
    rcases mem_update_append.mp first with old | ⟨rfl, ⟨⟩⟩
    · rcases mem_update_append.mp second with old' | ⟨_, ⟨⟩⟩
      · exact held.separate o₁ o₂ j₁ j₂ lp' old old'
      · exact absurd old (fresh o₁ j₁)
    · rcases mem_update_append.mp second with old' | ⟨rfl, _⟩
      · exact absurd old' (fresh o₂ j₂)
      · rfl

/-- Closing the first descriptor of `fds` gives up its lock and no other. -/
theorem Held.pop (held : Held files mode live secure lockedPaths) {o : Handle} {i : Inode} {lp : Path}
    {rest : List (Inode × Path)} (first : live o = (i, lp) :: rest)
    (secured : secure = update live o rest) :
    Held files (update mode i none) secure secure (lockedPaths.erase lp) := by
  have head : (i, lp) ∈ live o := first ▸ mem_cons_self
  have unique : lp ∉ rest.map Prod.snd := by
    have nodup := held.distinct o
    rw [first] at nodup
    exact (nodup_cons.mp nodup).1
  have older : ∀ o' j lp', (j, lp') ∈ secure o' → (j, lp') ∈ live o' := fun o' j lp' member =>
    held.secure_live o' member
  have other : ∀ o' j lp', (j, lp') ∈ secure o' → lp' ≠ lp := by
    intro o' j lp' member same
    have here := held.separate o' o j i lp (same ▸ older o' j lp' member) head
    subst here
    rw [secured, update_self] at member
    exact unique (mem_map.mpr ⟨(j, lp'), member, same⟩)
  have inode : ∀ o' j lp', (j, lp') ∈ secure o' → j ≠ i := by
    intro o' j lp' member same
    have linked := held.linked o' j lp' member
    exact other o' j lp' member ((held.known o i lp head).only_name lp' (same ▸ linked))
  constructor
  · intro o' j lp' member
    rw [update_of_ne (inode o' j lp' member)]
    exact held.writes o' j lp' (older o' j lp' member)
  · exact fun o' j lp' member => held.known_secure member
  · exact fun _ => List.Subset.refl _
  · exact held.linked
  · exact held.blank
  · intro lp'
    rw [Finset.mem_erase, held.locked_iff lp']
    constructor
    · rintro ⟨ne, o', j, member⟩
      rw [← update_eq_self o live, first] at member
      exact ⟨o', j, secured ▸ mem_update_tail member fun same => ne (congrArg Prod.snd same)⟩
    · rintro ⟨o', j, member⟩
      exact ⟨other o' j lp' member, o', j, older o' j lp' member⟩
  · intro o'
    by_cases same : o' = o
    · subst same
      have nodup := held.distinct o'
      rw [first] at nodup
      rw [secured, update_self]
      exact (nodup_cons.mp nodup).2
    · rw [secured, update_of_ne same]
      exact held.distinct o'
  · exact fun o₁ o₂ j₁ j₂ lp' m₁ m₂ =>
      held.separate o₁ o₂ j₁ j₂ lp' (older o₁ j₁ lp' m₁) (older o₂ j₂ lp' m₂)

end Frame

/-! ### Control states outside of `unlock` -/

def Pc.Calm (pc : Pc) : Prop := ∀ o todo phase failed, pc ≠ .unlocking o todo phase failed

theorem calm_idle : Pc.idle.Calm := by
  exact nofun

def Process.fds (proc : Process) (o : Handle) : List (Inode × Path) := (proc.objects o).fds

theorem Process.live_of_calm (proc : Process) (calm : proc.pc.Calm) : proc.live = proc.fds := by
  unfold live
  split
  next o' todo phase failed at_ => exact absurd at_ (calm o' todo phase failed)
  next => rfl

theorem Process.secure_of_calm (proc : Process) (calm : proc.pc.Calm) : proc.secure = proc.fds := by
  unfold secure
  split
  next o' todo phase failed at_ => exact absurd at_ (calm o' todo phase failed)
  next => rfl

variable {fd : Inode}

namespace Process.Ok

variable {files : Directory Path UInt8} {mode mode' : Inode → Option LockMode} {proc : Process} {pc : Pc}
  (ok : proc.Ok files mode) (calm : proc.pc.Calm)

include ok calm

theorem held_fds : Held files mode proc.fds proc.fds proc.lockedPaths := by
  have held := ok.held
  rw [proc.live_of_calm calm, proc.secure_of_calm calm] at held
  exact held

theorem only_fds (i : Inode) (locked : mode i ≠ none) :
    (∃ o lp, (i, lp) ∈ proc.fds o) ∨ proc.pc.taken = some i := by
  have only := ok.working.only i locked
  rw [proc.live_of_calm calm] at only
  exact only

theorem only_free (free : proc.pc.taken = none) (i : Inode) (locked : mode i ≠ none) :
    ∃ o lp, (i, lp) ∈ proc.fds o := by
  refine (ok.only_fds calm i locked).resolve_right ?_
  rw [free]
  nofun

theorem owned_fds {o : Handle} {path : Path} (member : path ∈ proc.owned o) :
    ∃ i, (i, lockPathOf path) ∈ proc.fds o := by
  have owned := ok.granted.owned o path member
  rw [proc.secure_of_calm calm] at owned
  exact owned

/-- A step inside `lockPaths` that leaves `fds` alone. -/
theorem goto (calm' : pc.Calm)
    (kept : ∀ o i lp, (i, lp) ∈ proc.fds o → mode' i = mode i)
    (working : Working files mode' proc.fds proc.lockedPaths pc)
    (busy : ∀ o, pc.object = some o → proc.owned o = [])
    (progress : ∀ call, pc.call = some call → ∀ path ∈ call.paths,
      path ∈ call.rest ∨ pc.target = some (lockPathOf path) ∨
        ∃ i, (i, lockPathOf path) ∈ proc.fds call.object)
    (cleared : ∀ o lp fd, pc = .failing o lp fd → proc.fds o = []) :
    (proc.goto pc).Ok files mode' where
  held := by
    rw [live_of_calm _ calm', secure_of_calm _ calm']
    exact (ok.held_fds calm).keepsMode kept
  working := by
    rw [live_of_calm _ calm']
    exact working
  granted := {
    owned := by
      intro o path member
      rw [secure_of_calm _ calm']
      exact ok.owned_fds calm member
    busy := busy
    progress := progress
    cleared := cleared }

theorem goto_idle (kept : ∀ o i lp, (i, lp) ∈ proc.fds o → mode' i = mode i)
    (only : ∀ i, mode' i ≠ none → ∃ o lp, (i, lp) ∈ proc.fds o) :
    (proc.goto .idle).Ok files mode' := by
  apply ok.goto calm calm_idle kept
  · exact ⟨nofun, nofun, nofun, fun i locked => .inl (only i locked)⟩
  · nofun
  · nofun
  · nofun

theorem goto_idle_free (free : proc.pc.taken = none) : (proc.goto .idle).Ok files mode :=
  ok.goto_idle calm (fun _ _ _ _ => rfl) (ok.only_free calm free)

/-- The inode of a descriptor outside `fds` is not behind `fds`. -/
theorem not_in_fds (opened : (fd, lp) ∈ proc.pc.opened) (o : Handle)
    (lp' : Path) : (fd, lp') ∉ proc.fds o := by
  obtain ⟨known, target⟩ := ok.working.opened fd lp opened
  exact (ok.held_fds calm).not_opened known (ok.working.unlisted lp target) o lp'

theorem kept_of_opened (opened : (fd, lp) ∈ proc.pc.opened) (m : Option LockMode) (o : Handle)
    (i : Inode) (lp' : Path) (member : (i, lp') ∈ proc.fds o) : update mode fd m i = mode i := by
  apply update_of_ne
  intro same
  exact ok.not_in_fds calm opened o lp' (same ▸ member)

/-- After the descriptor is closed, the process has only the locks behind `fds`. -/
theorem only_after_close (taken : proc.pc.taken = none ∨ proc.pc.taken = some fd) (i : Inode)
    (locked : update mode fd none i ≠ none) : ∃ o lp, (i, lp) ∈ proc.fds o := by
  have other : i ≠ fd := by
    intro same
    rw [same, update_self] at locked
    exact locked rfl
  rw [update_of_ne other] at locked
  rcases taken with none | some
  · exact ok.only_free calm none i locked
  · refine (ok.only_fds calm i locked).resolve_right fun here => ?_
    rw [some] at here
    exact other (Option.some.inj here).symm

theorem goto_closed (opened : (fd, lp) ∈ proc.pc.opened)
    (taken : proc.pc.taken = none ∨ proc.pc.taken = some fd) :
    (proc.goto .idle).Ok files (update mode fd none) :=
  ok.goto_idle calm (ok.kept_of_opened calm opened none) (ok.only_after_close calm taken)

theorem of_same_fds (proc' : Process) (pc' : proc'.pc = proc.pc)
    (fds : proc'.fds = proc.fds) (locked : proc'.lockedPaths = proc.lockedPaths)
    (owned : ∀ o, proc'.owned o = proc.owned o ∨ proc'.owned o = []) : proc'.Ok files mode := by
  have calm' : proc'.pc.Calm := pc'.symm ▸ calm
  refine ⟨?_, ?_, ?_, ?_, ?_, ?_⟩
  · rw [proc'.live_of_calm calm', proc'.secure_of_calm calm', fds, locked]
    exact ok.held_fds calm
  · have working := ok.working
    rw [proc.live_of_calm calm] at working
    rw [proc'.live_of_calm calm', fds, locked, pc']
    exact working
  · intro o path member
    rw [proc'.secure_of_calm calm', fds]
    rcases owned o with same | empty
    · exact ok.owned_fds calm (same ▸ member)
    · rw [empty] at member
      cases member
  · intro o at_
    rcases owned o with same | empty
    · rw [same]
      exact ok.granted.busy o (pc' ▸ at_)
    · exact empty
  · intro call at_ path member
    rw [pc'] at at_ ⊢
    have progress := ok.granted.progress call at_ path member
    have same : (proc'.objects call.object).fds = (proc.objects call.object).fds := congrFun fds call.object
    rw [same]
    exact progress
  · intro o lp fd at_
    exact (congrFun fds o).trans (ok.granted.cleared o lp fd (pc'.symm.trans at_))

end Process.Ok

/-! ### The steps of one process -/

section Own

variable {files : Directory Path UInt8} {mode mode' : Inode → Option LockMode} {proc : Process} {pc : Pc}
  {call : Call} {lp : Path} {fd : Inode}

theorem calm_of_call (calling : pc.call = some call) : pc.Calm := by
  rintro o todo phase failed rfl
  cases calling

theorem object_of_call (calling : pc.call = some call) : pc.object = some call.object := by
  cases pc <;> cases calling <;> rfl

theorem Process.fds_setFds (proc : Process) (o : Handle) (fds : List (Inode × Path)) :
    (proc.setFds o fds).fds = update proc.fds o fds := by
  funext o'
  by_cases same : o' = o
  · subst same
    simp [Process.fds, Process.setFds]
  · simp [Process.fds, Process.setFds, same]

variable (ok : proc.Ok files mode)

include ok

/-- As long as a call works on the same lock file, only the descriptor matters. -/
theorem Process.Ok.goto_same (calling : proc.pc.call = some call) (calling' : pc.call = some call)
    (target : pc.target = proc.pc.target)
    (kept : ∀ o i lp, (i, lp) ∈ proc.fds o → mode' i = mode i)
    (working : Working files mode' proc.fds proc.lockedPaths pc) : (proc.goto pc).Ok files mode' := by
  apply ok.goto (calm_of_call calling) (calm_of_call calling') kept working
  · intro o at_
    cases (object_of_call calling').symm.trans at_
    exact ok.granted.busy call.object (object_of_call calling)
  · intro c at_ path member
    rw [target]
    exact ok.granted.progress c (calling.trans (calling'.symm.trans at_)) path member
  · rintro o lp fd rfl
    cases calling'

theorem Process.Ok.relabel (calling : proc.pc.call = some call) (calling' : pc.call = some call)
    (target : pc.target = proc.pc.target) (opened : pc.opened = proc.pc.opened)
    (taken : pc.taken = proc.pc.taken) : (proc.goto pc).Ok files mode := by
  have working := ok.working
  rw [proc.live_of_calm (calm_of_call calling)] at working
  apply ok.goto_same calling calling' target (fun _ _ _ _ => rfl)
  refine ⟨?_, ?_, ?_, ?_⟩
  · rw [opened, target]
    exact working.opened
  · rw [target]
    exact working.unlisted
  · rw [taken]
    exact working.taken
  · rw [taken]
    exact working.only

theorem Process.Ok.lockPaths (at_ : proc.pc = .idle) (empty : proc.fds call.object = [])
    (all : call.rest = call.paths) : (proc.goto (.loop call)).Ok files mode := by
  have calm : proc.pc.Calm := at_.symm ▸ calm_idle
  apply ok.goto calm (calm_of_call rfl) (fun _ _ _ _ => rfl)
  · refine ⟨nofun, nofun, nofun, ?_⟩
    intro i locked
    have only := ok.only_fds calm i locked
    rw [at_] at only
    exact only
  · rintro o ⟨⟩
    apply eq_nil_iff_forall_not_mem.mpr
    intro path member
    obtain ⟨i, found⟩ := ok.owned_fds calm member
    rw [empty] at found
    cases found
  · rintro c ⟨⟩ path member
    exact .inl (all ▸ member)
  · rintro _ _ _ ⟨⟩

theorem Process.Ok.loop_return (at_ : proc.pc = .loop call) (done : call.rest = []) :
    ((proc.setOwned call.object call.paths).goto .idle).Ok files mode := by
  have calm : proc.pc.Calm := calm_of_call (by rw [at_]; rfl)
  have idle := ok.goto_idle_free calm (by rw [at_]; rfl)
  refine ⟨idle.held, idle.working, ?_, nofun, nofun, nofun⟩
  intro o path member
  by_cases same : o = call.object
  · subst same
    simp only [Process.goto, Process.setOwned, update_self] at member
    rcases ok.granted.progress call (by rw [at_]; rfl) path member with left | target | found
    · rw [done] at left
      cases left
    · rw [at_] at target
      cases target
    · exact found
  · simp only [Process.goto, Process.setOwned, update_of_ne same] at member
    exact idle.granted.owned o path member

theorem Process.Ok.loop_open (at_ : proc.pc = .loop call) (path : Path) (rest : List Path)
    (left : call.rest = path :: rest) (free : lockPathOf path ∉ proc.lockedPaths) :
    (proc.goto (.opening { call with rest } (lockPathOf path) none)).Ok files mode := by
  have calm : proc.pc.Calm := calm_of_call (by rw [at_]; rfl)
  apply ok.goto calm (calm_of_call rfl) (fun _ _ _ _ => rfl)
  · refine ⟨nofun, by rintro _ ⟨⟩; exact free, nofun, ?_⟩
    intro i locked
    have only := ok.only_fds calm i locked
    rw [at_] at only
    exact only
  · rintro o ⟨⟩
    exact ok.granted.busy call.object (by rw [at_]; rfl)
  · rintro c ⟨⟩ other member
    rcases ok.granted.progress call (by rw [at_]; rfl) other member with later | target | found
    · rw [left] at later
      rcases mem_cons.mp later with rfl | later
      · exact .inr (.inl rfl)
      · exact .inl later
    · rw [at_] at target
      cases target
    · exact .inr (.inr found)
  · rintro _ _ _ ⟨⟩

theorem Process.Ok.open (stale : Option Inode) (at_ : proc.pc = .opening call lp stale) :
    (proc.goto (.assigned call lp (files.openOrCreate lp).2 stale)).Ok (files.openOrCreate lp).1 mode := by
  have calling : proc.pc.call = some call := by rw [at_]; rfl
  have opened : proc.Ok (files.openOrCreate lp).1 mode :=
    ⟨ok.held.openOrCreate lp, ok.working.keepsFiles (fun _ _ known => known.openOrCreate lp), ok.granted⟩
  have unlisted : lp ∉ proc.lockedPaths := ok.working.unlisted lp (by rw [at_]; rfl)
  have only := ok.only_fds (calm_of_call calling)
  rw [at_] at only
  cases stale with
  | none =>
    apply opened.goto_same calling rfl (by rw [at_]; rfl) (fun _ _ _ _ => rfl)
    exact .one rfl rfl (known_opened lp) unlisted nofun only
  | some old =>
    apply opened.goto_same calling rfl (by rw [at_]; rfl) (fun _ _ _ _ => rfl)
    refine ⟨?_, by rintro _ ⟨⟩; exact unlisted, ?_, only⟩
    · intro i lp' member
      rcases mem_cons.mp member with first | second
      · cases first
        exact ⟨(opened.working.opened old lp (by rw [at_]; exact mem_cons_self)).1, rfl⟩
      · cases mem_singleton.mp second
        exact ⟨known_opened lp, rfl⟩
    · rintro i ⟨⟩
      exact ok.working.taken old (by rw [at_]; rfl)

theorem Process.Ok.close_stale (stale : Inode) (at_ : proc.pc = .closing call lp stale fd) :
    (proc.goto (.locking call lp fd)).Ok files (update mode stale none) := by
  have calling : proc.pc.call = some call := by rw [at_]; rfl
  have calm := calm_of_call calling
  have first : (stale, lp) ∈ proc.pc.opened := by rw [at_]; exact mem_cons_self
  have second : (fd, lp) ∈ proc.pc.opened := by
    rw [at_]
    exact mem_cons_of_mem _ mem_cons_self
  apply ok.goto_same calling rfl (by rw [at_]; rfl) (ok.kept_of_opened calm first none)
  exact .one rfl rfl (ok.working.opened fd lp second).1 (ok.working.unlisted lp (by rw [at_]; rfl)) nofun
    fun i locked => .inl (ok.only_after_close calm (.inr (by rw [at_]; rfl)) i locked)

/-- A call at `locking` or `waiting` gets its lock. -/
theorem Process.Ok.locked (at_ : proc.pc = .locking call lp fd ∨ proc.pc = .waiting call lp fd) :
    (proc.goto (.statting call lp fd)).Ok files (update mode fd (some .write)) := by
  have calling : proc.pc.call = some call := by rcases at_ with at_ | at_ <;> rw [at_] <;> rfl
  have target : proc.pc.target = some lp := by rcases at_ with at_ | at_ <;> rw [at_] <;> rfl
  have taken : proc.pc.taken = none := by rcases at_ with at_ | at_ <;> rw [at_] <;> rfl
  have opened : (fd, lp) ∈ proc.pc.opened := by
    rcases at_ with at_ | at_ <;> rw [at_] <;> exact mem_cons_self
  have calm : proc.pc.Calm := calm_of_call calling
  refine ok.goto_same calling rfl target.symm (ok.kept_of_opened calm opened _) ?_
  refine .one rfl rfl (ok.working.opened fd lp opened).1 (ok.working.unlisted lp target) ?_ ?_
  · rintro _ ⟨⟩
    exact update_self _ _ _
  · intro i locked
    by_cases same : i = fd
    · exact .inr (congrArg some same.symm)
    · rw [update_of_ne same] at locked
      exact .inl (ok.only_free calm taken i locked)

theorem Process.Ok.wait (at_ : proc.pc = .locking call lp fd) :
    (proc.goto (.waiting call lp fd)).Ok files mode := by
  refine ok.relabel ?_ rfl ?_ ?_ ?_ <;> rw [at_] <;> rfl

theorem Process.Ok.retry (at_ : proc.pc = .statting call lp fd) :
    (proc.goto (.opening call lp (some fd))).Ok files mode := by
  refine ok.relabel ?_ rfl ?_ ?_ ?_ <;> rw [at_] <;> rfl

/-- The lock file is not stale: it joins `fds`. -/
theorem Process.Ok.push (at_ : proc.pc = .statting call lp fd)
    (linked : files.link lp = some fd) (blank : files.content fd = []) :
    Ok files mode
      { proc.setFds call.object (proc.fds call.object ++ [(fd, lp)]) with
        lockedPaths := insert lp proc.lockedPaths
        pc := .loop call } := by
  have calm : proc.pc.Calm := calm_of_call (by rw [at_]; rfl)
  have calm' : (Pc.loop call).Calm := calm_of_call rfl
  have known : Known files fd lp := (ok.working.opened fd lp (by rw [at_]; exact mem_cons_self)).1
  have writes : mode fd = some .write := ok.working.taken fd (by rw [at_]; rfl)
  have unlisted : lp ∉ proc.lockedPaths := ok.working.unlisted lp (by rw [at_]; rfl)
  have fdsEq := proc.fds_setFds call.object (proc.fds call.object ++ [(fd, lp)])
  have pushed := (ok.held_fds calm).push call.object fd lp writes known linked blank unlisted
  -- an old entry is still there
  have older : ∀ o i lp', (i, lp') ∈ proc.fds o →
      (i, lp') ∈ (proc.setFds call.object (proc.fds call.object ++ [(fd, lp)])).fds o :=
    fun o i lp' member => fdsEq ▸ mem_update_append.mpr (.inl member)
  have newer : (fd, lp) ∈ (proc.setFds call.object (proc.fds call.object ++ [(fd, lp)])).fds
      call.object := fdsEq ▸ mem_update_append.mpr (.inr ⟨rfl, rfl⟩)
  refine ⟨?_, ⟨nofun, nofun, nofun, ?_⟩, ?_, ?_, ?_, nofun⟩
  · rw [live_of_calm _ calm', secure_of_calm _ calm']
    rw [← fdsEq] at pushed
    exact pushed
  · intro i locked
    rcases ok.only_fds calm i locked with ⟨o, lp', found⟩ | here
    · exact .inl ⟨o, lp', older o i lp' found⟩
    · rw [at_] at here
      cases here
      exact .inl ⟨call.object, lp, newer⟩
  · intro o path member
    obtain ⟨i, found⟩ := ok.owned_fds calm member
    exact ⟨i, older o i _ found⟩
  · rintro o ⟨⟩
    exact ok.granted.busy call.object (by rw [at_]; rfl)
  · rintro c ⟨⟩ path member
    rcases ok.granted.progress call (by rw [at_]; rfl) path member with left | target | ⟨i, found⟩
    · exact .inl left
    · rw [at_] at target
      cases target
      exact .inr (.inr ⟨fd, newer⟩)
    · exact .inr (.inr ⟨i, older _ i _ found⟩)

end Own

/-! ### The steps of `unlock` -/

section Unlock

variable {files files' : Directory Path UInt8} {mode : Inode → Option LockMode} {proc : Process}
  {object : Handle} {todo rest : List (Inode × Path)} {phase : Phase} {failed : Option (Inode × Path)}
  {lp : Path} {fd : Inode}

/-- The entries of `fds` that `unlock` still has to delete or close. -/
def Phase.pending (phase : Phase) (todo : List (Inode × Path)) : List (Inode × Path) :=
  if phase = .start then todo else todo.tail

theorem Process.live_unlocking (at_ : proc.pc = .unlocking object todo phase failed) :
    proc.live = update proc.fds object todo := by
  funext o
  by_cases same : o = object
  · subst same
    simp [live, at_]
  · simp [live, at_, same, fds]

theorem Process.secure_unlocking (at_ : proc.pc = .unlocking object todo phase failed) :
    proc.secure = update proc.fds object (phase.pending todo) := by
  funext o
  by_cases same : o = object
  · subst same
    simp [secure, at_, pending]
  · simp [secure, at_, same, fds]

theorem Working.unlocking {live : Handle → List (Inode × Path)} {lockedPaths : Finset Path}
    (opened : ∀ pair, failed = some pair → Known files pair.1 pair.2 ∧ pair.2 ∉ lockedPaths)
    (only : ∀ i, mode i ≠ none → ∃ o lp, (i, lp) ∈ live o) :
    Working files mode live lockedPaths (.unlocking object todo phase failed) := by
  cases failed with
  | none =>
    exact ⟨nofun, nofun, nofun, fun i locked => .inl (only i locked)⟩
  | some pair =>
    obtain ⟨known, unlisted⟩ := opened pair rfl
    exact .one rfl rfl known unlisted nofun fun i locked => .inl (only i locked)

namespace Process.Ok

variable (ok : proc.Ok files mode)

include ok

section

variable (at_ : proc.pc = .unlocking object todo phase failed)
include at_

theorem failed_known {pair : Inode × Path} (some_ : failed = some pair) :
    Known files pair.1 pair.2 ∧ pair.2 ∉ proc.lockedPaths := by
  subst some_
  have opened := ok.working.opened pair.1 pair.2 (by rw [at_]; exact mem_cons_self)
  exact ⟨opened.1, ok.working.unlisted pair.2 opened.2⟩

theorem only_live (i : Inode)
    (locked : mode i ≠ none) : ∃ o lp, (i, lp) ∈ proc.live o := by
  rcases ok.working.only i locked with found | here
  · exact found
  · rw [at_] at here
    cases here

/-- Nothing is owned through the object that is being unlocked. -/
theorem owned_elsewhere {path : Path} (member : path ∈ proc.owned o) :
    o ≠ object ∧ ∃ i, (i, lockPathOf path) ∈ proc.fds o := by
  have other : o ≠ object := by
    rintro rfl
    rw [ok.granted.busy o (by rw [at_]; rfl)] at member
    cases member
  have found := ok.granted.owned o path member
  rw [secure_unlocking at_, update_of_ne other] at found
  exact ⟨other, found⟩

omit at_ in
/-- `unlock` begins, in a call of its own or in a `lockPaths` that gives up. -/
theorem unlock_start (calm : proc.pc.Calm)
    (free : proc.pc.taken = none) (released : proc.owned object = [])
    (opened : ∀ pair, failed = some pair → Known files pair.1 pair.2 ∧ pair.2 ∉ proc.lockedPaths) :
    (proc.goto (.unlocking object (proc.fds object) .start failed)).Ok files mode := by
  have same : update proc.fds object (proc.fds object) = proc.fds :=
    update_eq_self object proc.fds
  have live : (proc.goto (.unlocking object (proc.fds object) .start failed)).live = proc.fds :=
    (live_unlocking rfl).trans same
  have secure : (proc.goto (.unlocking object (proc.fds object) .start failed)).secure = proc.fds := by
    rw [secure_unlocking rfl]
    exact same
  refine ⟨?_, Working.unlocking opened ?_, ?_, ?_, nofun, nofun⟩
  · rw [live, secure]
    exact ok.held_fds calm
  · rw [live]
    exact ok.only_free calm free
  · intro o path member
    rw [secure]
    exact ok.owned_fds calm member
  · rintro o ⟨⟩
    exact released

theorem unlock_on
    {todo' : List (Inode × Path)} {phase' : Phase} {lockedPaths : Finset Path} {mode' : Inode → Option LockMode}
    (fewer : lockedPaths ⊆ proc.lockedPaths) (known : ∀ i lp, Known files i lp → Known files' i lp)
    (held : Held files' mode' (update proc.fds object todo')
      (update proc.fds object (phase'.pending todo')) lockedPaths)
    (only : ∀ i, mode' i ≠ none → ∃ o lp, (i, lp) ∈ update proc.fds object todo' o) :
    Ok files' mode' { proc with lockedPaths, pc := .unlocking object todo' phase' failed } := by
  refine ⟨?_, Working.unlocking ?_ ?_, ?_, ?_, nofun, nofun⟩
  · rw [live_unlocking rfl, secure_unlocking rfl]
    exact held
  · intro pair some_
    obtain ⟨known', unlisted⟩ := ok.failed_known at_ some_
    exact ⟨known _ _ known', fun member => unlisted (fewer member)⟩
  · rw [live_unlocking rfl]
    exact only
  · intro o path member
    obtain ⟨other, found⟩ := ok.owned_elsewhere at_ member
    rw [secure_unlocking rfl, update_of_ne other]
    exact found
  · rintro o ⟨⟩
    exact ok.granted.busy object (by rw [at_]; rfl)

omit at_ in
theorem next_phase
    (at_ : proc.pc = .unlocking object ((fd, lp) :: rest) phase failed) {phase' : Phase}
    (known : ∀ i lp, Known files i lp → Known files' i lp)
    (held : Held files' mode (update proc.fds object ((fd, lp) :: rest))
      (update proc.fds object (phase'.pending ((fd, lp) :: rest))) proc.lockedPaths) :
    (proc.goto (.unlocking object ((fd, lp) :: rest) phase' failed)).Ok files' mode := by
  apply ok.unlock_on at_ (Finset.Subset.refl _) known held
  rw [← live_unlocking at_]
  exact ok.only_live at_

omit at_ in
/-- The other entries of `fds` have other names and inodes than the first. -/
theorem head_apart (at_ : proc.pc = .unlocking object ((fd, lp) :: rest) phase failed)
    {o : Handle} {i : Inode} {lp' : Path}
    (member : (i, lp') ∈ update proc.fds object rest o) : lp' ≠ lp ∧ i ≠ fd := by
  have live := live_unlocking at_
  have head : (fd, lp) ∈ proc.live object := by
    rw [live, update_self]
    exact mem_cons_self
  have nodup := ok.held.distinct object
  rw [live, update_self] at nodup
  -- entries behind the first are secure in every phase
  have secure : (i, lp') ∈ proc.secure o := by
    rw [secure_unlocking at_]
    by_cases same : o = object
    · subst same
      rw [update_self] at member ⊢
      unfold pending
      split
      next => exact mem_cons_of_mem _ member
      next => exact member
    · rw [update_of_ne same] at member ⊢
      exact member
  have name : lp' ≠ lp := by
    intro same
    subst same
    have here := ok.held.separate o object i fd lp' (ok.held.secure_live o secure) head
    subst here
    rw [update_self] at member
    exact (nodup_cons.mp nodup).1 (mem_map.mpr ⟨(i, lp'), member, rfl⟩)
  refine ⟨name, ?_⟩
  intro same
  subst same
  exact name ((ok.held.known object i lp head).only_name lp' (ok.held.linked o i lp' secure))

theorem held_unlocking :
    Held files mode (update proc.fds object todo)
      (update proc.fds object (phase.pending todo)) proc.lockedPaths := by
  have held := ok.held
  rw [live_unlocking at_, secure_unlocking at_] at held
  exact held

end

/-- Whatever the phase, the lock files behind the first are untouched. -/
theorem held_rest (at_ : proc.pc = .unlocking object ((fd, lp) :: rest) phase failed) :
    Held files mode (update proc.fds object ((fd, lp) :: rest))
      (update proc.fds object rest) proc.lockedPaths := by
  apply (ok.held_unlocking at_).shrink
  intro o
  by_cases same : o = object
  · subst same
    rw [update_self, update_self]
    unfold pending
    split
    next => exact subset_cons_self _ _
    next => exact List.Subset.refl _
  · rw [update_of_ne same, update_of_ne same]
    exact List.Subset.refl _

theorem skip_unlink (at_ : proc.pc = .unlocking object ((fd, lp) :: rest) .start failed)
    (phase' : Phase) (later : phase' ≠ .start) :
    (proc.goto (.unlocking object ((fd, lp) :: rest) phase' failed)).Ok files mode := by
  apply ok.next_phase at_ (fun _ _ known => known)
  rw [pending, if_neg later]
  exact ok.held_rest at_

theorem unlink (at_ : proc.pc = .unlocking object ((fd, lp) :: rest) .start failed) :
    (proc.goto (.unlocking object ((fd, lp) :: rest) .token failed)).Ok (files.unlink lp) mode := by
  apply ok.next_phase at_ (fun _ _ known => known.unlink lp)
  apply (ok.held_rest at_).unlink
  intro o i member
  exact (ok.head_apart at_ member).1 rfl

theorem token
    (at_ : proc.pc = .unlocking object ((fd, lp) :: rest) .token failed) (offset : Nat) (data : Bytes) :
    (proc.goto (.unlocking object ((fd, lp) :: rest) .close failed)).Ok
      (files.write fd offset data) mode := by
  apply ok.next_phase at_ (fun _ _ known => known.write fd offset data)
  apply (ok.held_rest at_).write
  intro o lp' member
  exact (ok.head_apart at_ member).2 rfl

theorem close (at_ : proc.pc = .unlocking object ((fd, lp) :: rest) phase failed) :
    Ok files (update mode fd none)
      { proc with lockedPaths := proc.lockedPaths.erase lp, pc := .unlocking object rest .start failed } := by
  have popped := (ok.held_rest at_).pop (update_self _ _ _) (by rw [update_idem])
  refine ok.unlock_on at_ (Finset.erase_subset _ _) (fun _ _ known => known) popped fun i locked => ?_
  have other : i ≠ fd := by
    rintro rfl
    exact locked (update_self _ _ _)
  rw [update_of_ne other] at locked
  obtain ⟨o, lp', found⟩ := ok.only_live at_ i locked
  rw [live_unlocking at_] at found
  exact ⟨o, lp', mem_update_tail found fun same => other (congrArg Prod.fst same)⟩

/-- `fds.clear()`, and the return to the user. -/
theorem clear (at_ : proc.pc = .unlocking object [] phase failed) :
    ((proc.setFds object []).goto .idle).Ok files mode := by
  have calm := calm_idle
  have nothing : phase.pending [] = [] := by cases phase <;> rfl
  have cleared : ((proc.setFds object []).goto .idle).fds = update proc.fds object [] :=
    proc.fds_setFds object []
  have live : proc.live = update proc.fds object [] := live_unlocking at_
  have held := ok.held_unlocking at_
  rw [nothing] at held
  refine ⟨?_, ⟨nofun, nofun, nofun, ?_⟩, ?_, nofun, nofun, nofun⟩
  · rw [live_of_calm _ calm, secure_of_calm _ calm, cleared]
    exact held
  · intro i locked
    rw [live_of_calm _ calm, cleared, ← live]
    exact .inl (ok.only_live at_ i locked)
  · intro o path member
    rw [secure_of_calm _ calm, cleared]
    have found := ok.granted.owned o path member
    rw [secure_unlocking at_, nothing] at found
    exact found

theorem clear_failed (at_ : proc.pc = .unlocking object [] phase (some (fd, lp))) :
    ((proc.setFds object []).goto (.failing object lp fd)).Ok files mode := by
  have cleared := ok.clear at_
  have calm := calm_idle
  obtain ⟨known, unlisted⟩ := ok.failed_known at_ rfl
  have empty : ((proc.setFds object []).goto .idle).fds object = [] := by
    simp [Process.fds, Process.setFds, Process.goto]
  apply cleared.goto calm (by rintro _ _ _ _ ⟨⟩) (fun _ _ _ _ => rfl)
  · exact .one rfl rfl known unlisted nofun (cleared.only_fds calm)
  · rintro o ⟨⟩
    exact ok.granted.busy object (by rw [at_]; rfl)
  · rintro _ ⟨⟩
  · rintro o _ _ ⟨⟩
    exact empty

end Process.Ok

end Unlock

end Guix.LibStore.PathLocks
