import Guix.LibStore.PathLocksInvariant

/-!
# Mutual exclusion of path locks

Every step of every process keeps the invariant. Two owners of one path would both
write-lock the one inode that is linked at its lock path.
-/

namespace Guix.LibStore.PathLocks

open SharedFiles List State Function Option Machine Process

variable {s : State} {p : Pid}

/-! ### Locks of the other processes -/

@[simp] theorem proc_set_self (proc : Process) : (s.set p proc).proc p = proc :=
  update_self _ _ _

theorem proc_set_other (proc : Process) (q : Pid) (other : q ≠ p) : (s.set p proc).proc q = s.proc q :=
  update_of_ne other _ _

theorem mode_close_self (fd : Inode) : (s.close p fd).mode p = update (s.mode p) fd none := by
  funext i
  by_cases same : i = fd
  · subst same
    simp [mode, close, Holders.mode_release]
  · simp [mode, close, same]

theorem mode_close_other (fd : Inode) (q : Pid) (other : q ≠ p) : (s.close p fd).mode q = s.mode q := by
  funext i
  by_cases same : i = fd
  · subst same
    simp [mode, close, Holders.mode_release, other]
  · simp [mode, close, same]

theorem mode_lock_self {fd : Inode} {m : LockMode} {holders : Holders Pid}
    (taken : (s.locks fd).acquire p m = some holders) :
    (s.lock fd holders).mode p = update (s.mode p) fd (some m) := by
  funext i
  by_cases same : i = fd
  · subst same
    simp [mode, lock, Holders.mode_acquire _ _ taken]
  · simp [mode, lock, same]

theorem mode_lock_other (fd : Inode) (m : LockMode) (holders : Holders Pid)
    (taken : (s.locks fd).acquire p m = some holders) (q : Pid) (other : q ≠ p) :
    (s.lock fd holders).mode q = s.mode q := by
  funext i
  by_cases same : i = fd
  · subst same
    simp [mode, lock, Holders.mode_acquire _ _ taken, other]
  · simp [mode, lock, same]

/-! ### Steps and the invariant of the system -/

/-- A step of `p` keeps the invariant if it keeps what the other processes rely on. -/
theorem Inv.step_of (inv : Inv s) (t : State)
    (others : ∀ q, q ≠ p → t.proc q = s.proc q) (modes : ∀ q, q ≠ p → t.mode q = s.mode q)
    (known : ∀ i lp, Known s.files i lp → Known t.files i lp)
    (held : ∀ q, q ≠ p → Held t.files (s.mode q) (s.proc q).live (s.proc q).secure
      (s.proc q).lockedPaths)
    (own : (t.proc p).Ok t.files (t.mode p))
    (marked : ∀ i, i < t.files.next → (∀ n, t.files.link n ≠ some i) → t.files.content i = [] →
      ∃ q, (t.proc q).Marking i) : Inv t := by
  refine ⟨?_, marked⟩
  intro q
  by_cases same : q = p
  · subst same
    exact own
  · rw [others q same, modes q same]
    exact ⟨held q same, (inv.ok q).working.keepsFiles known, (inv.ok q).granted⟩

theorem Inv.step_files (inv : Inv s) (files : Directory Path UInt8) (proc : Process)
    (known : ∀ i lp, Known s.files i lp → Known files i lp)
    (held : ∀ q, q ≠ p → Held files (s.mode q) (s.proc q).live (s.proc q).secure (s.proc q).lockedPaths)
    (own : proc.Ok files (s.mode p))
    (marked : ∀ i, i < files.next → (∀ n, files.link n ≠ some i) → files.content i = [] →
      proc.Marking i ∨ ∃ q, q ≠ p ∧ (s.proc q).Marking i) : Inv ((s.setFiles files).set p proc) := by
  apply inv.step_of ((s.setFiles files).set p proc) (proc_set_other proc) (fun _ _ => rfl) known held
  · rw [proc_set_self]
    exact own
  · intro i exists_ unlinked blank
    rcases marked i exists_ unlinked blank with mine | ⟨q, other, marking⟩
    · exact ⟨p, (proc_set_self (s := s.setFiles files) (p := p) proc).symm ▸ mine⟩
    · exact ⟨q, (proc_set_other (s := s.setFiles files) proc q other).symm ▸ marking⟩

theorem Inv.step_same_files (inv : Inv s) (t : State) (files : t.files = s.files)
    (others : ∀ q, q ≠ p → t.proc q = s.proc q) (modes : ∀ q, q ≠ p → t.mode q = s.mode q)
    (own : (t.proc p).Ok s.files (t.mode p)) (quiet : ∀ i, ¬ (s.proc p).Marking i) : Inv t := by
  apply inv.step_of t others modes
  · intro i lp known
    rw [files]
    exact known
  · intro q _
    rw [files]
    exact (inv.ok q).held
  · rw [files]
    exact own
  · rw [files]
    intro i exists_ unlinked blank
    obtain ⟨q, marking⟩ := inv.marked i exists_ unlinked blank
    have other : q ≠ p := fun same => quiet i (same ▸ marking)
    exact ⟨q, (others q other).symm ▸ marking⟩

theorem Inv.set (inv : Inv s) (proc : Process) (own : proc.Ok s.files (s.mode p))
    (quiet : ∀ i, ¬ (s.proc p).Marking i) : Inv (s.set p proc) := by
  apply inv.step_same_files (s.set p proc) rfl (proc_set_other proc) (fun _ _ => rfl) _ quiet
  rw [proc_set_self]
  exact own

theorem Inv.close (inv : Inv s) (fd : Inode) (proc : Process)
    (own : proc.Ok s.files (update (s.mode p) fd none))
    (quiet : ∀ i, ¬ (s.proc p).Marking i) : Inv ((s.close p fd).set p proc) := by
  apply inv.step_same_files ((s.close p fd).set p proc) rfl (proc_set_other proc)
    (mode_close_other fd) _ quiet
  rw [proc_set_self]
  exact mode_close_self (s := s) (p := p) fd ▸ own

theorem Inv.lock (inv : Inv s) (fd : Inode) (holders : Holders Pid)
    (taken : (s.locks fd).acquire p .write = some holders) (proc : Process)
    (own : proc.Ok s.files (update (s.mode p) fd (some .write)))
    (quiet : ∀ i, ¬ (s.proc p).Marking i) : Inv ((s.lock fd holders).set p proc) := by
  apply inv.step_same_files ((s.lock fd holders).set p proc) rfl (proc_set_other proc)
    (mode_lock_other fd .write holders taken) _ quiet
  rw [proc_set_self]
  exact mode_lock_self taken ▸ own

theorem quiet_of_pc {pc : Pc} (at_ : (s.proc p).pc = pc)
    (elsewhere : ∀ o pair rest failed, pc ≠ .unlocking o (pair :: rest) .token failed) (i : Inode) :
    ¬ (s.proc p).Marking i := by
  rintro ⟨o, lp, rest, failed, marking⟩
  exact elsewhere o (i, lp) rest failed (at_.symm.trans marking)

section

variable (inv : Inv s)
include inv

theorem Inv.open (n : Path) (proc : Process)
    (own : proc.Ok (s.files.openOrCreate n).1 (s.mode p)) (quiet : ∀ i, ¬ (s.proc p).Marking i) :
    Inv ((s.setFiles (s.files.openOrCreate n).1).set p proc) := by
  apply inv.step_files
  · exact fun i lp known => known.openOrCreate n
  · exact fun q _ => (inv.ok q).held.openOrCreate n
  · exact own
  · intro i exists_ unlinked blank
    -- the file that may have been made is linked
    rcases s.files.openOrCreate_inode n i exists_ with old | here
    · have unlinked' : ∀ m, s.files.link m ≠ some i := fun m found =>
        unlinked m (s.files.openOrCreate_keeps_link m n found)
      have blank' : s.files.content i = [] :=
        (s.files.openOrCreate_keeps_content n i old).symm.trans blank
      obtain ⟨q, marking⟩ := inv.marked i old unlinked' blank'
      have other : q ≠ p := fun same => quiet i (same ▸ marking)
      exact .inr ⟨q, other, marking⟩
    · exact absurd (here ▸ s.files.link_openOrCreate n) (unlinked n)

section Unlock

variable {object : Handle} {fd : Inode} {lp : Path} {rest : List (Inode × Path)} {phase : Phase}
  {failed : Option (Inode × Path)}

theorem Inv.head_writes (at_ : (s.proc p).pc = .unlocking object ((fd, lp) :: rest) phase failed) :
    s.mode p fd = some .write := by
  apply (inv.ok p).held.writes object fd lp
  rw [live_unlocking at_, update_self]
  exact mem_cons_self

/-- Nobody else has the inode behind a lock that `p` gives up. -/
theorem Inv.others_apart (writes : s.mode p fd = some .write) {q : Pid} (other : q ≠ p)
    (o : Handle) (lp' : Path) : (fd, lp') ∉ (s.proc q).live o := by
  intro member
  have locked : s.mode q fd ≠ none := by
    rw [(inv.ok q).held.writes o fd lp' member]
    exact some_ne_none _
  exact other (Holders.eq_of_write (s.locks fd) p q writes locked)

theorem Inv.unlink (at_ : (s.proc p).pc = .unlocking object ((fd, lp) :: rest) .start failed) :
    Inv ((s.setFiles (s.files.unlink lp)).set p
      ((s.proc p).goto (.unlocking object ((fd, lp) :: rest) .token failed))) := by
  have linked : s.files.link lp = some fd := by
    apply (inv.ok p).held.linked object fd lp
    rw [secure_unlocking at_, update_self]
    exact mem_cons_self
  have writes := inv.head_writes at_
  apply inv.step_files
  · exact fun i lp' known => known.unlink lp
  · intro q other
    apply (inv.ok q).held.unlink
    intro o i member
    have same := (inv.ok q).held.linked o i lp member
    rw [linked] at same
    cases same
    exact inv.others_apart writes other o lp ((inv.ok q).held.secure_live o member)
  · exact (inv.ok p).unlink at_
  · intro i exists_ unlinked blank
    by_cases here : i = fd
    · exact .inl ⟨object, lp, rest, failed, by rw [here]; rfl⟩
    · have unlinked' : ∀ n, s.files.link n ≠ some i := by
        intro n found
        have other : n ≠ lp := by
          rintro rfl
          rw [linked] at found
          exact here (some.inj found).symm
        exact unlinked n ((s.files.link_unlink_of_ne other).trans found)
      obtain ⟨q, marking⟩ := inv.marked i exists_ unlinked' blank
      have other : q ≠ p := by
        rintro rfl
        exact quiet_of_pc at_ nofun i marking
      exact .inr ⟨q, other, marking⟩

theorem Inv.token (at_ : (s.proc p).pc = .unlocking object ((fd, lp) :: rest) .token failed) :
    Inv ((s.setFiles (s.files.write fd 0 (ascii "d"))).set p
      ((s.proc p).goto (.unlocking object ((fd, lp) :: rest) .close failed))) := by
  have writes := inv.head_writes at_
  apply inv.step_files
  · exact fun i lp' known => known.write fd 0 _
  · intro q other
    apply (inv.ok q).held.write
    intro o lp' member
    exact inv.others_apart writes other o lp' ((inv.ok q).held.secure_live o member)
  · exact (inv.ok p).token at_ 0 _
  · intro i exists_ unlinked blank
    by_cases here : i = fd
    · -- the token is there
      subst here
      simp [Directory.write, ascii] at blank
    · have blank' : s.files.content i = [] :=
        (s.files.content_write_of_ne fd i 0 (ascii "d") here).symm.trans blank
      obtain ⟨q, marking⟩ := inv.marked i exists_ unlinked blank'
      have other : q ≠ p := by
        rintro rfl
        obtain ⟨o, lp', rest', failed', at'⟩ := marking
        rw [at_] at at'
        cases at'
        exact here rfl
      exact .inr ⟨q, other, marking⟩

end Unlock

variable {call : Call} {lp : Path} {fd : Inode}

/-- A lock file that its locker finds empty is the one linked at its path. -/
theorem Inv.linked_of_blank (at_ : (s.proc p).pc = .statting call lp fd)
    (blank : s.files.content fd = []) : s.files.link lp = some fd := by
  obtain ⟨known, _⟩ := (inv.ok p).working.opened fd lp (by rw [at_]; exact mem_cons_self)
  by_contra missing
  have unlinked : ∀ n, s.files.link n ≠ some fd := by
    intro n found
    rw [known.only_name n found] at found
    exact missing found
  -- the process about to mark it would hold the lock too
  obtain ⟨q, o, lp', rest, failed, marking⟩ := inv.marked fd known.exists_inode unlinked blank
  have mine : s.mode p fd = some .write := (inv.ok p).working.taken fd (by rw [at_]; rfl)
  have locked : s.mode q fd ≠ none := by
    rw [inv.head_writes marking]
    exact some_ne_none _
  have same : q = p := Holders.eq_of_write (s.locks fd) p q mine locked
  subst same
  rw [at_] at marking
  cases marking

/-! ### Every step keeps the invariant -/

variable {next : State} {event : Event}
variable {paths : List Path} {wait : Bool}
variable {object : Handle}

theorem lockPaths_inv
    (called : lockPaths s p object paths wait = some (next, event)) : Inv next := by
  simp only [lockPaths] at called
  split at called
  next at_ empty =>
    cases called
    exact inv.set _ ((inv.ok p).lockPaths at_ empty rfl) (quiet_of_pc at_ nofun)
  next => cases called

theorem setDeletion_inv {deletePaths : Bool}
    (called : setDeletion s p object deletePaths = some (next, event)) : Inv next := by
  simp only [setDeletion] at called
  split at called
  next at_ =>
    cases called
    apply inv.set _ _ (quiet_of_pc at_ nofun)
    refine (inv.ok p).of_same_fds (at_.symm ▸ calm_idle) _ rfl ?_ rfl (fun _ => .inl rfl)
    funext o
    by_cases same : o = object
    · subst same
      simp [Process.fds]
    · simp [Process.fds, same]
  next => cases called

theorem unlock_inv {object : Handle}
    (called : unlock s p object = some (next, event)) : Inv next := by
  simp only [unlock] at called
  split at called
  next at_ =>
    cases called
    have calm : (s.proc p).pc.Calm := at_.symm ▸ calm_idle
    have dropped : ((s.proc p).setOwned object []).Ok s.files (s.mode p) := by
      refine (inv.ok p).of_same_fds calm _ rfl rfl rfl ?_
      intro o
      by_cases same : o = object
      · exact .inr (by rw [same]; exact update_self _ _ _)
      · exact .inl (update_of_ne same _ _)
    apply inv.set _ _ (quiet_of_pc at_ nofun)
    apply dropped.unlock_start calm
    · change (s.proc p).pc.taken = none
      rw [at_]
      rfl
    · exact update_self _ _ _
    · rintro _ ⟨⟩
  next => cases called

end

theorem ok_fresh (files : Directory Path UInt8) : ({} : Process).Ok files (fun _ => none) := by
  have calm : ({} : Process).pc.Calm := calm_idle
  have empty : ∀ o, ({} : Process).fds o = [] := fun _ => rfl
  refine ⟨?_, ⟨?_, ?_, ?_, ?_⟩, ⟨?_, ?_, ?_, ?_⟩⟩
  · rw [live_of_calm _ calm, secure_of_calm _ calm]
    constructor <;> simp [empty]
  · exact nofun
  · exact nofun
  · exact nofun
  · intro i locked
    exact absurd rfl locked
  · exact nofun
  · intro o _
    rfl
  · exact nofun
  · intro o lp fd _
    rfl

theorem init_inv : Inv init := by
  refine ⟨?_, ?_⟩
  · intro p
    exact ok_fresh _
  · intro i exists_
    exact absurd exists_ (Nat.not_lt_zero i)

variable {next : State} {event : Event} {object : Handle} {lp : Path} {fd : Inode}

theorem die_inv (inv : Inv s) (died : die s p = some (next, event)) : Inv next := by
  simp only [die] at died
  split at died
  next => cases died
  next alive =>
    cases died
    refine inv.step_same_files (p := p) _ rfl (proc_set_other _) ?_ ?_ ?_
    · intro q other
      funext i
      simp [State.mode, State.set, Holders.mode_release, other]
    · have freed : State.mode ({ s with locks := fun fd => (s.locks fd).release p }.set p {}) p =
          fun _ => none := by
        funext i
        simp [State.mode, State.set, Holders.mode_release]
      rw [freed, proc_set_self]
      exact ok_fresh _
    · exact quiet_of_pc rfl (fun o _ _ failed at_ => alive o _ failed at_)

theorem tryLock_inv (inv : Inv s)
    (at_ : (s.proc p).pc = .locking call lp fd ∨ (s.proc p).pc = .waiting call lp fd)
    {refused : Option (State × Event)} (rest : refused = some (next, event) → Inv next)
    (tried : tryLock s p lp fd call refused = some (next, event)) : Inv next := by
  simp only [tryLock] at tried
  split at tried
  next holders taken =>
    cases tried
    apply inv.lock fd holders taken _ ((inv.ok p).locked at_)
    rcases at_ with at_ | at_
    · exact quiet_of_pc at_ nofun
    · exact quiet_of_pc at_ nofun
  next => exact rest tried

variable {failed : Option (Inode × Path)}

theorem unlockOne_inv (inv : Inv s) {rest : List (Inode × Path)} {phase : Phase}
    (at_ : (s.proc p).pc = .unlocking object ((fd, lp) :: rest) phase failed) :
    Inv (unlockOne s p object fd lp rest phase failed) := by
  cases phase with
  | start =>
    simp only [unlockOne]
    split
    next => exact inv.unlink at_
    next =>
      exact inv.set _ ((inv.ok p).skip_unlink at_ .close nofun) (quiet_of_pc at_ nofun)
  | token => exact inv.token at_
  | close => exact inv.close fd _ ((inv.ok p).close at_) (quiet_of_pc at_ nofun)

theorem proceed_inv (inv : Inv s) (stepped : proceed s p = some (next, event)) : Inv next := by
  have ok := inv.ok p
  simp only [proceed] at stepped
  split at stepped
  next => cases stepped
  next call at_ =>
    have quiet := quiet_of_pc at_ nofun
    split at stepped
    next done =>
      cases stepped
      exact inv.set _ (ok.loop_return at_ done) quiet
    next path rest left =>
      split at stepped
      next =>
        cases stepped
        exact inv.set _ (ok.goto_idle_free (calm_of_call (by rw [at_]; rfl)) (by rw [at_]; rfl)) quiet
      next free =>
        cases stepped
        exact inv.set _ (ok.loop_open at_ path rest left free) quiet
  next call lp stale at_ =>
    cases stepped
    exact inv.open lp _ (ok.open stale at_) (quiet_of_pc at_ nofun)
  next call lp stale fd at_ =>
    cases stepped
    exact inv.close stale _ (ok.close_stale stale at_) (quiet_of_pc at_ nofun)
  next call lp fd at_ =>
    have quiet := quiet_of_pc at_ nofun
    apply tryLock_inv inv (.inl at_) _ stepped
    intro refused
    cases refused
    apply inv.set _ _ quiet
    split
    next => exact ok.wait at_
    next =>
      obtain ⟨known, target⟩ := ok.working.opened fd lp (by rw [at_]; exact mem_cons_self)
      apply ok.unlock_start (calm_of_call (by rw [at_]; rfl)) (by rw [at_]; rfl)
      · exact ok.granted.busy call.object (by rw [at_]; rfl)
      · rintro pair ⟨⟩
        exact ⟨known, ok.working.unlisted lp target⟩
  next call lp fd at_ =>
    apply tryLock_inv inv (.inr at_) _ stepped
    exact nofun
  next call lp fd at_ =>
    have quiet := quiet_of_pc at_ nofun
    split at stepped
    next blank =>
      cases stepped
      exact inv.set _ (ok.push at_ (inv.linked_of_blank at_ blank) blank) quiet
    next =>
      cases stepped
      exact inv.set _ (ok.retry at_) quiet
  next object phase failed at_ =>
    have quiet := quiet_of_pc at_ nofun
    split at stepped
    next =>
      cases stepped
      exact inv.set _ (ok.clear at_) quiet
    next fd lp =>
      cases stepped
      exact inv.set _ (ok.clear_failed at_) quiet
  next object fd lp rest phase failed at_ =>
    cases stepped
    exact unlockOne_inv inv at_
  next object lp fd at_ =>
    cases stepped
    have calm : (s.proc p).pc.Calm := by rw [at_]; rintro _ _ _ _ ⟨⟩
    exact inv.close fd _ (ok.goto_closed calm (by rw [at_]; exact mem_cons_self)
      (.inl (by rw [at_]; rfl))) (quiet_of_pc at_ nofun)

variable {interrupted : Bool}

theorem fail_inv (inv : Inv s) (stepped : fail s p interrupted = some (next, event)) : Inv next := by
  have ok := inv.ok p
  -- an exception closes the descriptor that the call works on
  have closed : ∀ pc fd lp, (s.proc p).pc = pc → pc.Calm → (fd, lp) ∈ pc.opened →
      (pc.taken = none ∨ pc.taken = some fd) → Inv ((s.close p fd).set p ((s.proc p).goto .idle)) := by
    intro pc fd lp at_ calm opened taken
    subst at_
    exact inv.close fd _ (ok.goto_closed calm opened taken)
      (quiet_of_pc rfl (fun o _ _ failed => calm o _ _ failed))
  simp only [fail] at stepped
  split at stepped
  next call at_ =>
    cases stepped
    exact inv.set _ (ok.goto_idle_free (calm_of_call (by rw [at_]; rfl)) (by rw [at_]; rfl))
      (quiet_of_pc at_ nofun)
  next call lp at_ =>
    cases stepped
    exact inv.set _ (ok.goto_idle_free (calm_of_call (by rw [at_]; rfl)) (by rw [at_]; rfl))
      (quiet_of_pc at_ nofun)
  next call lp fd at_ =>
    cases stepped
    exact closed _ fd lp at_ (calm_of_call rfl) mem_cons_self (.inr rfl)
  next call lp fd at_ =>
    cases stepped
    exact closed _ fd lp at_ (calm_of_call rfl) mem_cons_self (.inl rfl)
  next call lp fd at_ =>
    cases stepped
    exact closed _ fd lp at_ (calm_of_call rfl) mem_cons_self (.inl rfl)
  next call lp fd at_ =>
    cases stepped
    exact closed _ fd lp at_ (calm_of_call rfl) mem_cons_self (.inr rfl)
  next object fd lp rest failed at_ =>
    split at stepped
    next =>
      cases stepped
      exact inv.set _ (ok.skip_unlink at_ .token nofun) (quiet_of_pc at_ nofun)
    next => cases stepped
  next => cases stepped

theorem step_inv (s : State) (move : Pid × Action) (next : State) (event : Pid × Event) (inv : Inv s)
    (stepped : step s move = some (next, event)) : Inv next := by
  obtain ⟨p, action⟩ := move
  simp only [step, map_eq_some_iff] at stepped
  obtain ⟨⟨next', event'⟩, happened, same⟩ := stepped
  cases same
  cases action with
  | lockPaths object paths wait => exact lockPaths_inv inv happened
  | setDeletion object deletePaths => exact setDeletion_inv inv happened
  | unlock object => exact unlock_inv inv happened
  | proceed => exact proceed_inv inv happened
  | fail interrupted => exact fail_inv inv happened
  | die => exact die_inv inv happened

/-! ### A call that gives up -/

/-- The object of the `lockPaths` call that runs. -/
def Pc.calling (pc : Pc) : Option Handle :=
  match pc with
  | .unlocking object _ _ failed => failed.map fun _ => object
  | .failing object _ _ => some object
  | _ => pc.call.map Call.object

/-- Process `p` is in a call of `lockPaths` on `object`; its other objects have `fds`. -/
def During (p : Pid) (object : Handle) (fds : Handle → List (Inode × Path)) (s : State) : Prop :=
  (s.proc p).pc.calling = some object ∧ ∀ o, o ≠ object → (s.proc p).fds o = fds o

theorem step_other {s next : State} {q : Pid} {action : Action} {event : Pid × Event}
    (stepped : step s (q, action) = some (next, event)) {p : Pid} (other : p ≠ q) :
    next.proc p = s.proc p := by
  simp only [step, map_eq_some_iff] at stepped
  obtain ⟨⟨next', event'⟩, happened, same⟩ := stepped
  cases same
  cases action <;>
    simp only [lockPaths, setDeletion, unlock, proceed, fail, die, tryLock, unlockOne] at happened
  -- every branch ends by setting the state of `q`
  all_goals
    repeat' split at happened
    all_goals cases happened
    all_goals exact proc_set_other _ p other

theorem calling_assigned (call : Call) (lp : Path) (fd : Inode) (stale : Option Inode) :
    (Pc.assigned call lp fd stale).calling = some call.object := by
  cases stale <;> rfl

theorem fds_setFds_other (proc : Process) {object o : Handle} (fds : List (Inode × Path))
    (other : o ≠ object) : (proc.setFds object fds).fds o = proc.fds o := by
  rw [proc.fds_setFds, update_of_ne other]

variable {fds : Handle → List (Inode × Path)}

theorem unlockOne_during {object' : Handle} (fd : Inode) (lp : Path) (rest : List (Inode × Path))
    (phase : Phase) (calling : failed.map (fun _ => object') = some object)
    (kept : ∀ o, o ≠ object → (s.proc p).fds o = fds o) :
    During p object fds (unlockOne s p object' fd lp rest phase failed) := by
  cases phase with
  | start =>
    simp only [unlockOne]
    split
    all_goals rw [During, proc_set_self]
    all_goals exact ⟨calling, kept⟩
  | token | close =>
    rw [During, unlockOne, proc_set_self]
    exact ⟨calling, kept⟩

theorem proceed_during (during : During p object fds s) (stepped : proceed s p = some (next, .internal)) :
    During p object fds next := by
  obtain ⟨calling, kept⟩ := during
  -- most steps of the call move its control state only
  have moved : ∀ pc, pc.calling = some object → ∀ t : State,
      During p object fds (t.set p ((s.proc p).goto pc)) := by
    intro pc goes t
    rw [During, proc_set_self]
    exact ⟨goes, kept⟩
  simp only [proceed, tryLock] at stepped
  split at stepped
  next => cases stepped
  next call at_ =>
    rw [at_] at calling
    split at stepped
    next => cases stepped
    next =>
      split at stepped <;> cases stepped
      apply moved
      exact calling
  next call lp stale at_ =>
    rw [at_] at calling
    cases stepped
    apply moved
    exact (calling_assigned call lp _ stale).trans calling
  next call lp stale fd at_ =>
    rw [at_] at calling
    cases stepped
    apply moved
    exact calling
  next call lp fd at_ =>
    rw [at_] at calling
    split at stepped <;> cases stepped
    · apply moved
      exact calling
    · apply moved
      split
      · exact calling
      · exact calling
  next call lp fd at_ =>
    rw [at_] at calling
    split at stepped <;> cases stepped
    apply moved
    exact calling
  next call lp fd at_ =>
    rw [at_] at calling
    split at stepped <;> cases stepped
    · rw [During, proc_set_self]
      obtain rfl : call.object = object := some.inj calling
      exact ⟨rfl, fun o other => (fds_setFds_other _ _ other).trans (kept o other)⟩
    · apply moved
      exact calling
  next object' phase failed at_ =>
    rw [at_] at calling
    split at stepped <;> cases stepped
    next fd lp =>
      rw [During, proc_set_self]
      obtain rfl : object' = object := some.inj calling
      exact ⟨rfl, fun o other => (fds_setFds_other _ _ other).trans (kept o other)⟩
  next object' fd lp rest phase failed at_ =>
    rw [at_] at calling
    cases stepped
    exact unlockOne_during fd lp rest phase calling kept
  next => cases stepped

theorem fail_during (during : During p object fds s)
    (stepped : fail s p interrupted = some (next, .internal)) : During p object fds next := by
  obtain ⟨calling, kept⟩ := during
  simp only [fail] at stepped
  repeat' split at stepped
  all_goals cases stepped
  next object' fd lp rest failed at_ _ =>
    rw [During, proc_set_self]
    rw [at_] at calling
    exact ⟨calling, kept⟩

theorem step_during {s : State} {move : Pid × Action} {next : State} {event : Pid × Event} {p : Pid}
    {object : Handle} {fds : Handle → List (Inode × Path)} (during : During p object fds s)
    (stepped : step s move = some (next, event)) (going : event.1 = p → event.2 = .internal) :
    During p object fds next := by
  obtain ⟨q, action⟩ := move
  by_cases same : p = q
  · subst same
    obtain ⟨⟨next', event'⟩, happened, rfl, rfl⟩ := map_eq_some_iff.mp stepped
    obtain rfl : event' = .internal := going rfl
    have calling := during.1
    cases action with
    | lockPaths =>
      simp only [lockPaths] at happened
      split at happened <;> cases happened
    | setDeletion =>
      simp only [setDeletion] at happened
      split at happened
      next at_ =>
        rw [at_] at calling
        cases calling
      next => cases happened
    | unlock =>
      simp only [unlock] at happened
      split at happened <;> cases happened
    | proceed => exact proceed_during during happened
    | fail interrupted => exact fail_during during happened
    | die =>
      simp only [die] at happened
      split at happened <;> cases happened
  · rw [During, step_other stepped same]
    exact during

/-- Outside of calls, `fds` determines what the process has locked. -/
theorem determined_by_fds {files files' : Directory Path UInt8} {mode mode' : Inode → Option LockMode}
    {proc proc' : Process} (ok : proc.Ok files mode) (ok' : proc'.Ok files' mode')
    (idle : proc.pc = .idle) (idle' : proc'.pc = .idle) (fds : proc'.fds = proc.fds) :
    proc'.lockedPaths = proc.lockedPaths ∧ ∀ i, mode' i = mode i := by
  have calm : proc.pc.Calm := idle.symm ▸ calm_idle
  have calm' : proc'.pc.Calm := idle'.symm ▸ calm_idle
  have held := ok.held_fds calm
  have held' := ok'.held_fds calm'
  rw [fds] at held'
  constructor
  · ext lp
    rw [held.locked_iff lp, held'.locked_iff lp]
  · intro i
    by_cases found : ∃ o lp, (i, lp) ∈ proc.fds o
    · obtain ⟨o, lp, member⟩ := found
      rw [held.writes o i lp member, held'.writes o i lp member]
    · have unlocked : mode i = none := by
        by_contra locked
        rcases ok.only_fds calm i locked with here | taken
        · exact found here
        · rw [idle] at taken
          cases taken
      have unlocked' : mode' i = none := by
        by_contra locked
        rcases ok'.only_fds calm' i locked with here | taken
        · exact found (fds ▸ here)
        · rw [idle'] at taken
          cases taken
      rw [unlocked, unlocked']

theorem called_idle (called : step s (p, .lockPaths object paths wait) = some (next, (p, .called))) :
    (s.proc p).pc = .idle ∧ (s.proc p).fds object = [] ∧
      ∃ call, call.object = object ∧ next.proc p = (s.proc p).goto (.loop call) := by
  obtain ⟨⟨next', event'⟩, happened, same⟩ := map_eq_some_iff.mp called
  cases same
  simp only [lockPaths] at happened
  split at happened
  next at_ empty =>
    cases happened
    exact ⟨at_, empty, _, rfl, proc_set_self _⟩
  next => cases happened

/-- Only a call that has closed all its descriptors returns false. -/
theorem returned_false {action : Action}
    (stepped : step s (p, action) = some (next, (p, .returned false))) :
    ∃ o lp fd, (s.proc p).pc = .failing o lp fd ∧ next.proc p = (s.proc p).goto .idle := by
  obtain ⟨⟨next', event'⟩, happened, same⟩ := map_eq_some_iff.mp stepped
  cases same
  cases action <;>
    simp only [lockPaths, setDeletion, unlock, proceed, fail, die, tryLock] at happened
  all_goals
    repeat' split at happened
    all_goals cases happened
  next o lp fd at_ => exact ⟨o, lp, fd, at_, proc_set_self _⟩

/-! ### Main results -/

theorem reachable_inv {moves : List (Pid × Action)} {events : List (Pid × Event)}
    (ran : run step init moves = some (s, events)) : Inv s :=
  run_invariant step Inv step_inv init_inv ran

/-- Two owners of one path are the same object of the same process; and a call that
returns false leaves the process with the locks and the `lockedPaths` it had before. -/
theorem lockPaths_mutual_exclusion :
    (∀ (moves : List (Pid × Action)) (events : List (Pid × Event)) (s : State),
      run step init moves = some (s, events) →
      ∀ (p q : Pid) (o r : Handle) (path : Path),
        path ∈ (s.proc p).owned o → path ∈ (s.proc q).owned r → p = q ∧ o = r) ∧
    (∀ (moves during : List (Pid × Action)) (events seen : List (Pid × Event)) (s s' t t' : State)
      (p : Pid) (object : Handle) (paths : List Path) (action : Action),
      run step init moves = some (s, events) →
      step s (p, .lockPaths object paths false) = some (s', (p, .called)) →
      run step s' during = some (t, seen) → (∀ e ∈ seen, e.1 = p → e.2 = .internal) →
      step t (p, action) = some (t', (p, .returned false)) →
      (t'.proc p).lockedPaths = (s.proc p).lockedPaths ∧
        ∀ i, (t'.locks i).mode p = (s.locks i).mode p) := by
  constructor
  · intro moves events s ran p q o r path mine yours
    have inv := reachable_inv ran
    obtain ⟨i, first⟩ := (inv.ok p).granted.owned o path mine
    obtain ⟨j, second⟩ := (inv.ok q).granted.owned r path yours
    -- one inode is linked at the lock path, and both write-lock it
    have same : i = j := by
      have linked := (inv.ok p).held.linked o i _ first
      rw [(inv.ok q).held.linked r j _ second] at linked
      exact (some.inj linked).symm
    subst same
    have live := (inv.ok p).held.secure_live o first
    have live' := (inv.ok q).held.secure_live r second
    obtain rfl : p = q := by
      by_contra other
      exact inv.others_apart ((inv.ok q).held.writes r i _ live') other o _ live
    exact ⟨rfl, (inv.ok p).held.separate o r i i _ live live'⟩
  · intro moves during events seen s s' t t' p object paths action ran called going internal returned
    have inv := reachable_inv ran
    have inv' := step_inv s _ s' _ inv called
    have last := run_invariant step Inv step_inv inv' going
    have last' := step_inv t _ t' _ last returned
    obtain ⟨idle, empty, call, rfl, began⟩ := called_idle called
    have started : During p call.object (s.proc p).fds s' := by
      rw [During, began]
      exact ⟨rfl, fun _ _ => rfl⟩
    obtain ⟨calling, kept⟩ := run_preserves step (During p call.object (s.proc p).fds)
      (fun e => e.1 = p → e.2 = .internal)
      (fun s m next e during stepped quiet =>
        step_during during stepped quiet)
      started going internal
    obtain ⟨o, lp, fd, failing, ended⟩ := returned_false returned
    obtain rfl : o = call.object := by
      rw [failing] at calling
      exact some.inj calling
    have cleared : (t.proc p).fds call.object = [] := (last.ok p).granted.cleared _ lp fd failing
    apply determined_by_fds (inv.ok p) (last'.ok p) idle (by rw [ended]; rfl)
    funext o'
    rw [ended]
    by_cases same : o' = call.object
    · subst same
      exact cleared.trans empty.symm
    · exact kept o' same

/-- Process 0 locks one path. -/
def lockOne (path : Path) : List (Pid × Action) :=
  (0, .lockPaths 0 [path] true) :: replicate 5 (0, .proceed)

/-- While process 0 holds the second path, process 1 locks the first and gives up. -/
theorem lockPaths_mutual_exclusion_contended :
    ∃ (s s' t t' : State) (events seen : List (Pid × Event)),
      run step init (lockOne (ascii "/b")) = some (s, events) ∧
      ascii "/b" ∈ (s.proc 0).owned 0 ∧
      (∀ q r, ascii "/b" ∈ (s.proc q).owned r → 0 = q ∧ 0 = r) ∧
      step s (1, .lockPaths 0 [ascii "/b", ascii "/a"] false) = some (s', (1, .called)) ∧
      run step s' (replicate 10 (1, .proceed)) = some (t, seen) ∧
      (∀ e ∈ seen, e.1 = 1 → e.2 = .internal) ∧
      step t (1, .proceed) = some (t', (1, .returned false)) ∧
      (t'.proc 1).lockedPaths = (s.proc 1).lockedPaths ∧
      ∀ i, (t'.locks i).mode 1 = (s.locks i).mode 1 := by
  refine ⟨_, _, _, _, _, _, rfl, ?_, ?_, rfl, rfl, ?_, rfl, ?_⟩
  · decide
  · exact fun q r owned => lockPaths_mutual_exclusion.1 (lockOne (ascii "/b")) _ _ rfl 0 q 0 r
      _ (by decide) owned
  · decide
  · refine lockPaths_mutual_exclusion.2 (lockOne (ascii "/b")) (replicate 10 (1, .proceed))
      _ _ _ _ _ _ 1 0 [ascii "/b", ascii "/a"] .proceed rfl rfl rfl ?_ rfl
    decide

/-- The file that other processes open to lock the path is the one its owner locks, and not a stale
one. -/
theorem owned_effective {moves : List (Pid × Action)} {events : List (Pid × Event)}
    (ran : run step init moves = some (s, events)) {path : Path} (mine : path ∈ (s.proc p).owned object) :
    ∃ i, s.files.link (lockPathOf path) = some i ∧ s.files.content i = [] ∧
      (s.locks i).mode p = some .write ∧ ∀ q ≠ p, (s.locks i).mode q = none := by
  have ok := (reachable_inv ran).ok p
  obtain ⟨i, secure⟩ := ok.granted.owned object path mine
  have writes := ok.held.writes object i _ (ok.held.secure_live object secure)
  refine ⟨i, ok.held.linked object i _ secure, ok.held.blank object i _ secure, writes, fun q other => ?_⟩
  by_contra locked
  exact other ((s.locks i).eq_of_write p q writes locked)

theorem owned_effective_one :
    ∃ s events i, run step init (lockOne (ascii "/b")) = some (s, events) ∧
      s.files.link (ascii "/b.lock") = some i ∧ (s.locks i).mode 0 = some .write := by
  have owned : ascii "/b" ∈ ([ascii "/b"] : List Path) := mem_singleton_self _
  obtain ⟨i, linked, _, writes, _⟩ := @owned_effective _ 0 0 (lockOne (ascii "/b")) _ rfl (ascii "/b") owned
  exact ⟨_, _, i, rfl, linked, writes⟩

end Guix.LibStore.PathLocks
