import Guix.LibStore.TempRootsInvariant

/-!
# No temporary root is lost

Every step keeps the invariant of the protocol. In the deletion phase the collector
has nothing left to look at, so it has the roots and a lock for every client.
-/

namespace Guix.LibStore.TempRoots

open SharedFiles List Holders Client State Function Option ClientPc Machine

variable {s : State} {pid : Pid}

/-! ### Locks -/

@[simp] theorem client_setClient (u : State) (c : Client) : (u.setClient pid c).client pid = c :=
  update_self _ _ _

theorem client_setClient_other (u : State) (c : Client) (q : Pid) (other : q ≠ pid) :
    (u.setClient pid c).client q = u.client q :=
  update_of_ne other _ _

@[simp] theorem collector_setCollector (u : State) (k : Nat) (c : Collector) :
    (u.setCollector k c).collector k = c :=
  update_self _ _ _

theorem collector_setCollector_other (u : State) {k l : Nat} (c : Collector) (other : l ≠ k) :
    (u.setCollector k c).collector l = u.collector l :=
  update_of_ne other _ _

section Taken

variable {me : Party} {fd : Inode} {m : LockMode} {holders : Holders Party}
  (taken : (s.locks fd).acquire me m = some holders)
include taken

theorem mode_setLock (party : Party) (i : Inode) :
    ((s.setLock fd holders).locks i).mode party =
      if party = me ∧ i = fd then some m else (s.locks i).mode party := by
  by_cases here : i = fd
  · subst here
    simp [setLock, mode_acquire _ _ taken]
  · simp [setLock, here]

theorem mode_setLock_other (i : Inode) (party : Party) (other : party ≠ me) :
    ((s.setLock fd holders).locks i).mode party = (s.locks i).mode party := by
  rw [mode_setLock taken, if_neg (fun both => other both.1)]

theorem mode_setLock_self : ((s.setLock fd holders).locks fd).mode me = some m := by
  rw [mode_setLock taken, if_pos ⟨rfl, rfl⟩]

end Taken

theorem mode_close (me party : Party) (fd i : Inode) :
    ((s.close me fd).locks i).mode party =
      if party = me ∧ i = fd then none else (s.locks i).mode party := by
  by_cases here : i = fd
  · subst here
    simp [close, setLock, mode_release]
  · simp [close, setLock, here]

theorem mode_close_other (me : Party) (fd i : Inode) (party : Party) (other : party ≠ me) :
    ((s.close me fd).locks i).mode party = (s.locks i).mode party := by
  rw [mode_close me party fd i, if_neg (fun both => other both.1)]

/-! ### Steps of a client that leave the files alone -/

/-- `u` is `s` with other locks of one process. -/
structure Relocked (s u : State) (me : Party) : Prop where
  files : u.files = s.files
  clients : u.client = s.client
  collectors : u.collector = s.collector
  gc : ∀ party, party ≠ me → u.gcLock.mode party = s.gcLock.mode party
  modes : ∀ i party, party ≠ me → (u.locks i).mode party = (s.locks i).mode party

theorem Relocked.refl (me : Party) : Relocked s s me := ⟨rfl, rfl, rfl, fun _ _ => rfl, fun _ _ _ => rfl⟩

variable {me : Party} {m : LockMode} {holders : Holders Party}

theorem Relocked.setLock {fd : Inode}
    (taken : (s.locks fd).acquire me m = some holders) : Relocked s (s.setLock fd holders) me :=
  ⟨rfl, rfl, rfl, fun _ _ => rfl, mode_setLock_other taken⟩

theorem Relocked.close (fd : Inode) : Relocked s (s.close me fd) me :=
  ⟨rfl, rfl, rfl, fun _ _ => rfl, mode_close_other _ fd⟩

theorem Relocked.setGcLock (m : LockMode) (holders : Holders Party)
    (taken : s.gcLock.acquire me m = some holders) : Relocked s (s.setGcLock holders) me := by
  refine ⟨rfl, rfl, rfl, ?_, fun _ _ _ => rfl⟩
  intro party other
  exact (mode_acquire _ party taken).trans (if_neg other)

theorem Relocked.releaseGc (me : Party) : Relocked s (s.setGcLock (s.gcLock.release me)) me := by
  refine ⟨rfl, rfl, rfl, ?_, fun _ _ _ => rfl⟩
  intro party other
  exact (mode_release _ _ party).trans (if_neg other)

variable {u t : State}

section Steps

variable (inv : Inv s)
include inv

theorem Inv.relocked (relocked : Relocked s u (.client pid)) (c : Client)
    (own : ClientOk (u.setClient pid c) pid) (covered : ∀ k, Covered (u.setClient pid c) k pid) :
    Inv (u.setClient pid c) := by
  refine inv.of_client_step ?_ relocked.collectors relocked.gc relocked.modes ?_ ?_ ?_ own covered
  · intro q other
    rw [client_setClient_other u c q other, relocked.clients]
  · intro q _ fd _
    apply FileFrame.of_eq (t := u.setClient pid c) relocked.files
    exact fun k about => .inr (.inr ⟨k, relocked.collectors ▸ about⟩)
  · exact fun k _ n i found => relocked.files ▸ found
  · exact fun k _ i marked => relocked.files.symm ▸ marked

theorem Inv.client_goto (relocked : Relocked s u (.client pid)) (pc : ClientPc)
    (returned : List Path) (gc : pc.inGc = true → u.gcLock.mode (.client pid) = some .read)
    (none_yet : pc.starting = true → returned = []) (no_file : (s.client pid).fdTempRoots = none →
      returned = [] ∧ pc.opened = false ∧ (pc.active = true → pc = .idle))
    (locked : ∀ fd, (s.client pid).fdTempRoots = some fd → ∀ m, pc.lock = some m →
      (u.locks fd.inode).mode (.client pid) = some m)
    (opened : pc.opened = true → (s.client pid).pc.opened = true)
    (active : pc.active = true → (s.client pid).pc.active = true ∧
      ({ (s.client pid) with pc, returned } : Client).recorded = (s.client pid).recorded)
    (covered : ∀ k, Covered (u.setClient pid { (s.client pid) with pc, returned }) k pid) :
    Inv (u.setClient pid { (s.client pid) with pc, returned }) := by
  apply inv.relocked relocked _ _ covered
  refine ⟨?_, ?_, ?_, ?_⟩
  all_goals rw [client_setClient]
  · exact gc
  · exact none_yet
  · exact no_file
  · intro fd file
    refine ((inv.client pid).file fd file).goto relocked.files relocked.collectors ?_ ?_ ?_
    all_goals rw [client_setClient]
    · exact locked fd file
    · exact opened
    · exact active

theorem Inv.covered_goto (relocked : Relocked s u (.client pid)) (pc : ClientPc)
    (exposed : ∀ i, Exposed (u.setClient pid { s.client pid with pc }) pid i → Exposed s pid i)
    (k : Nat) : Covered (u.setClient pid { s.client pid with pc }) k pid := by
  refine (inv.covered k pid).goto relocked.collectors ?_ ?_ ?_ ?_
  · exact fun i => relocked.modes i _ nofun
  · rw [client_setClient]
  · rw [client_setClient]
  · exact exposed

omit inv in
theorem covered_hidden (u : State) (c : Client) (hidden : c.pc.active = false ∧ c.pc.waiting = false)
    (k : Nat) : Covered (u.setClient pid c) k pid := by
  apply covered_of_hidden
  rw [client_setClient]
  exact hidden

omit inv in
theorem exposed_relocked (relocked : Relocked s u (.client pid)) (pc : ClientPc)
    (active : pc.active = true → (s.client pid).pc.active = true)
    (waiting : pc.waiting = true → (s.client pid).pc.waiting = true) (i : Inode)
    (exposed : Exposed (u.setClient pid { s.client pid with pc }) pid i) : Exposed s pid i := by
  obtain ⟨linked, used⟩ := exposed
  rw [client_setClient] at used
  have files : (u.setClient pid { s.client pid with pc }).files = s.files := relocked.files
  rw [files] at linked used
  refine ⟨linked, ?_⟩
  rcases used with here | ⟨here, blank⟩
  · exact .inl (active here)
  · exact .inr ⟨waiting here, blank⟩

theorem Inv.client_hidden (relocked : Relocked s u (.client pid)) (pc : ClientPc)
    (hidden : pc.active = false ∧ pc.waiting = false ∧ pc.lock = none)
    (gc : pc.inGc = true → u.gcLock.mode (.client pid) = some .read)
    (nothing : (s.client pid).returned = []) (opened : pc.opened = true → (s.client pid).pc.opened = true) :
    Inv (u.setClient pid { s.client pid with pc }) := by
  obtain ⟨inactive, unused, unlocked⟩ := hidden
  apply inv.client_goto relocked pc _ gc (fun _ => nothing)
  · intro none_
    obtain ⟨_, unopened, _⟩ := (inv.client pid).no_file none_
    refine ⟨nothing, ?_, by simp [inactive]⟩
    rw [← Bool.not_eq_true]
    intro here
    rw [opened here] at unopened
    cases unopened
  · simp [unlocked]
  · exact opened
  · simp [inactive]
  · exact covered_hidden u _ ⟨inactive, unused⟩

/-- While a client locks its file for writing, no collector has read it. -/
theorem Inv.covered_writing {fd : Fd} (collectors : t.collector = s.collector)
    (modes : ∀ k, (t.locks fd.inode).mode (.collector k) = (s.locks fd.inode).mode (.collector k))
    (file : (s.client pid).fdTempRoots = some fd) (active : (s.client pid).pc.active = true)
    (writes : (s.locks fd.inode).mode (.client pid) = some .write ∨
      (t.locks fd.inode).mode (.client pid) = some .write) (k : Nat) : Covered t k pid := by
  have linked := ((inv.client pid).file fd file).linked active
  intro todo pending _ _ _
  rw [collectors] at pending
  rcases inv.covered k pid todo pending fd file ⟨linked, .inl active⟩ with here | ⟨reads, _⟩
  · exact .inl here
  · rcases writes with before | after
    · exact (alone_of_write before reads nofun).elim
    · exact (alone_of_write after ((modes k).trans reads) nofun).elim

/-! ### Every step of a client -/

theorem addTempRoot_inv {path : Path} (called : addTempRoot s pid path = some t) : Inv t := by
  have ok := inv.client pid
  simp only [addTempRoot] at called
  split at called
  next at_ file =>
    cases called
    exact inv.client_hidden (.refl _) (.gcLocking path) ⟨rfl, rfl, rfl⟩ nofun
      (ok.no_file file).1 nofun
  next fd at_ file =>
    cases called
    apply inv.client_goto (.refl _) (.writeLocking path)
    · exact nofun
    · exact nofun
    · intro none_
      rw [file] at none_
      cases none_
    · rintro fd' file' m ⟨⟩
      exact (ok.file fd' file').locked .read (by rw [at_]; rfl)
    · exact nofun
    · intro _
      rw [recorded, recorded, at_]
      exact ⟨rfl, rfl⟩
    · apply inv.covered_goto (Relocked.refl _)
      apply exposed_relocked (Relocked.refl _)
      · rw [at_]
        exact fun _ => rfl
      · exact nofun
  next => cases called

section FileSteps

variable {fd : Fd} {path : Path}

theorem Inv.read_locked (at_ : (s.client pid).pc = .readLocking path)
    (file : (s.client pid).fdTempRoots = some fd) {holders : Holders Party}
    (taken : (s.locks fd.inode).acquire (.client pid) .read = some holders) :
    Inv ((s.setLock fd.inode holders).setClient pid { s.client pid with pc := .statting path }) := by
  have relocked : Relocked s (s.setLock fd.inode holders) (.client pid) := .setLock taken
  apply inv.client_goto relocked (.statting path)
  · exact nofun
  · exact fun _ => (inv.client pid).none_yet (by rw [at_]; rfl)
  · intro none_
    rw [file] at none_
    cases none_
  · rintro fd' file' m ⟨⟩
    rw [file] at file'
    cases file'
    exact mode_setLock_self taken
  · intro _
    rw [at_]
    rfl
  · exact nofun
  · apply inv.covered_goto relocked
    apply exposed_relocked relocked
    · exact nofun
    · rw [at_]
      exact fun _ => rfl

theorem Inv.write_locked (at_ : (s.client pid).pc = .writeLocking path)
    (file : (s.client pid).fdTempRoots = some fd) {holders : Holders Party}
    (taken : (s.locks fd.inode).acquire (.client pid) .write = some holders) :
    Inv ((s.setLock fd.inode holders).setClient pid { s.client pid with pc := .writing path }) := by
  have relocked : Relocked s (s.setLock fd.inode holders) (.client pid) := .setLock taken
  have writes := mode_setLock_self taken
  apply inv.client_goto relocked (.writing path)
  · exact nofun
  · exact nofun
  · intro none_
    rw [file] at none_
    cases none_
  · rintro fd' file' m ⟨⟩
    rw [file] at file'
    cases file'
    exact writes
  · exact nofun
  · intro _
    rw [recorded, recorded, at_]
    exact ⟨rfl, rfl⟩
  · exact inv.covered_writing rfl (fun k => relocked.modes fd.inode _ nofun) file
      (by rw [at_]; rfl) (.inr writes)

theorem Inv.downgraded (at_ : (s.client pid).pc = .downgrading path)
    (file : (s.client pid).fdTempRoots = some fd) {holders : Holders Party}
    (taken : (s.locks fd.inode).acquire (.client pid) .read = some holders) :
    Inv ((s.setLock fd.inode holders).setClient pid
      { s.client pid with pc := .idle, returned := (s.client pid).returned ++ [path] }) := by
  have relocked : Relocked s (s.setLock fd.inode holders) (.client pid) := .setLock taken
  apply inv.client_goto relocked .idle
  · exact nofun
  · exact nofun
  · intro none_
    rw [file] at none_
    cases none_
  · rintro fd' file' m ⟨⟩
    rw [file] at file'
    cases file'
    exact mode_setLock_self taken
  · exact nofun
  · intro _
    rw [recorded, recorded, at_]
    exact ⟨rfl, rfl⟩
  · exact inv.covered_writing rfl (fun k => relocked.modes fd.inode _ nofun) file
      (by rw [at_]; rfl) (.inl (((inv.client pid).file fd file).locked .write (by rw [at_]; rfl)))

/-- Leaving the GC lock, the client meets no collector. -/
theorem Inv.left_gc (at_ : (s.client pid).pc = .gcUnlocking path) :
    Inv ((s.setGcLock (s.gcLock.release (.client pid))).setClient pid
      { s.client pid with pc := .readLocking path }) := by
  apply inv.client_goto (.releaseGc _) (.readLocking path)
  · exact nofun
  · exact fun _ => (inv.client pid).none_yet (by rw [at_]; rfl)
  · intro none_
    obtain ⟨_, unopened, _⟩ := (inv.client pid).no_file none_
    rw [at_] at unopened
    cases unopened
  · exact nofun
  · intro _
    rw [at_]
    rfl
  · exact nofun
  · intro k todo pending
    have alone := inv.no_client_in_gc (inGc_of_pending pending) pid
    rw [at_] at alone
    cases alone

/-- The size check passes: the file is linked, since nobody is about to mark it. -/
theorem Inv.checked (at_ : (s.client pid).pc = .statting path)
    (file : (s.client pid).fdTempRoots = some fd) (blank : s.files.content fd.inode = []) :
    Inv (s.setClient pid { s.client pid with pc := .writeLocking path }) := by
  have ok := (inv.client pid).file fd file
  have reads := ok.locked .read (by rw [at_]; rfl)
  have nothing : (s.client pid).returned = [] := (inv.client pid).none_yet (by rw [at_]; rfl)
  have linked : s.files.link pid = some fd.inode := by
    rcases ok.fresh (by rw [at_]; rfl) with linked | marked | ⟨k, name, todo, marking⟩
    · exact linked
    · exact absurd blank marked
    · have writes := (inv.collector k).locked fd.inode .write (by rw [marking]; rfl)
      have unlocked := ok.not_write_locked writes
      rw [at_] at unlocked
      cases unlocked
  apply inv.relocked (.refl _)
  · refine ⟨?_, ?_, ?_, ?_⟩
    all_goals rw [client_setClient]
    · exact nofun
    · exact nofun
    · intro none_
      rw [file] at none_
      cases none_
    · intro fd' file'
      obtain rfl : fd = fd' := some.inj (file.symm.trans file')
      refine ⟨ok.exists_inode, ok.only_name, ?_, ?_, ?_, ?_, ?_, ?_⟩
      all_goals rw [client_setClient]
      · rintro m ⟨⟩
        exact reads
      · exact nofun
      · exact nofun
      · exact fun _ => linked
      · intro _
        rw [recorded, nothing]
        exact blank
      · intro _
        have start : fd.offset = 0 := ok.start (by rw [at_]; rfl)
        rw [start]
        exact (congrArg length blank).symm
  · apply inv.covered_goto (.refl _)
    rintro i ⟨linked', _⟩
    obtain rfl : fd.inode = i := some.inj (linked.symm.trans linked')
    refine ⟨linked, .inr ⟨?_, blank⟩⟩
    rw [at_]
    rfl

/-! ### Steps of a client that change the files -/

/-- A client unlinks its own name, which no other client uses. -/
theorem Inv.unlink_own (unlinks : Bool) {c : Client}
    (own : ∀ files, files = s.files ∨ files = s.files.unlink pid →
      ClientOk ((s.setFiles files).setClient pid c) pid)
    (hidden : c.pc.active = false ∧ c.pc.waiting = false ∨ c.fdTempRoots = none) :
    Inv ((s.setFiles (if unlinks then s.files.unlink pid else s.files)).setClient pid c) := by
  have covered : ∀ files k, Covered ((s.setFiles files).setClient pid c) k pid := by
    intro files k
    rcases hidden with hidden | none_
    · exact covered_hidden _ c hidden k
    · apply covered_of_no_file
      rw [client_setClient]
      exact none_
  cases unlinks with
  | false =>
    exact inv.relocked (.refl _) c (own _ (.inl rfl)) (covered _)
  | true =>
    refine inv.of_client_step (client_setClient_other _ c) rfl (fun _ _ => rfl)
      (fun _ _ _ => rfl) ?_ ?_ ?_ ?_ (covered _)
    · intro q other fd _
      exact .of_content le_rfl (fun n found => (s.files.link_unlink found).2)
        (s.files.link_unlink_of_ne other).trans rfl fun k about => .inr (.inr ⟨k, about⟩)
    · exact fun k _ n i found => (s.files.link_unlink found).2
    · exact fun k _ i marked => marked
    · exact own _ (.inr rfl)

omit inv in
theorem clientOk_no_file (none_ : (t.client pid).fdTempRoots = none)
    (nothing : (t.client pid).returned = [])
    (pc : (t.client pid).pc = .idle ∨ (t.client pid).pc = .destroying) : ClientOk t pid := by
  refine ⟨?_, fun _ => nothing, fun _ => ⟨nothing, ?_, ?_⟩, by simp [none_]⟩
  all_goals rcases pc with at_ | at_ <;> simp [at_, inGc, opened, active]

omit inv in
theorem clientOk_unused (unused : (t.client pid).pc.opened = false ∧ (t.client pid).pc.active = false ∧
      (t.client pid).pc.lock = none)
    (gc : (t.client pid).pc.inGc = true → t.gcLock.mode (.client pid) = some .read)
    (nothing : (t.client pid).returned = [])
    (known : ∀ fd, (t.client pid).fdTempRoots = some fd →
      fd.inode < t.files.next ∧ ∀ n, t.files.link n = some fd.inode → n = pid) : ClientOk t pid := by
  obtain ⟨unopened, inactive, unlocked⟩ := unused
  refine ⟨gc, fun _ => nothing, fun _ => ⟨nothing, unopened, by simp [inactive]⟩, fun fd file => ?_⟩
  refine ⟨(known fd file).1, (known fd file).2, ?_, ?_, ?_, ?_, ?_, ?_⟩
  all_goals simp [unlocked, unopened, inactive]

theorem Inv.opened (at_ : (s.client pid).pc = .opening path) (pc : ClientPc)
    (next : pc = .gcUnlocking path ∨ ∃ old, pc = .closing path old) :
    Inv ((s.setFiles (s.files.openOrCreate pid).1).setClient pid
      { s.client pid with fdTempRoots := some ⟨(s.files.openOrCreate pid).2, 0⟩, pc }) := by
  have inGc : (s.client pid).pc.inGc = true := by rw [at_]; rfl
  have alone : ∀ k, (s.collector k).pc.inGc ≠ true := by
    intro k running
    rw [inv.no_client_in_gc running pid] at inGc
    cases inGc
  have linked := s.files.link_openOrCreate pid
  refine inv.of_client_step (client_setClient_other _ _) rfl (fun _ _ => rfl)
    (fun _ _ _ => rfl) ?_ ?_ ?_ ?_ ?_
  · intro q other fd file
    have known := ((inv.client q).file fd file).exists_inode
    refine .of_content (s.files.next_le_openOrCreate pid) ?_ ?_ ?_ ?_
    · exact fun n found => s.files.openOrCreate_link_old known found
    · exact s.files.openOrCreate_keeps_link q pid
    · exact s.files.openOrCreate_keeps_content pid fd.inode known
    · exact fun k about => .inr (.inr ⟨k, about⟩)
  · exact fun k running => absurd running (alone k)
  · exact fun k running => absurd running (alone k)
  · refine ⟨?_, ?_, ?_, ?_⟩
    all_goals rw [client_setClient]
    · exact fun _ => (inv.client pid).gc inGc
    · exact fun _ => (inv.client pid).none_yet (by rw [at_]; rfl)
    · exact nofun
    · rintro fd ⟨⟩
      refine ⟨(s.files.openOrCreate pid).1.link_lt pid _ linked, ?_, ?_, fun _ => rfl,
        fun _ => .inl linked, ?_, ?_, ?_⟩
      · exact fun n found => (s.files.openOrCreate pid).1.link_injective n pid _ found linked
      all_goals rw [client_setClient]
      all_goals rcases next with rfl | ⟨old, rfl⟩ <;> exact nofun
  · apply covered_hidden
    rcases next with rfl | ⟨old, rfl⟩ <;> exact ⟨rfl, rfl⟩

omit inv in
theorem terminated_ne_nil (path : Path) : terminated path ≠ [] := by
  simp [terminated]

theorem Inv.written (at_ : (s.client pid).pc = .writing path)
    (file : (s.client pid).fdTempRoots = some fd) :
    Inv ((s.setFiles (s.files.write fd.inode fd.offset (terminated path))).setClient pid
      { s.client pid with
        fdTempRoots := some ⟨fd.inode, fd.offset + (terminated path).length⟩
        pc := .downgrading path }) := by
  have ok := (inv.client pid).file fd file
  have active : (s.client pid).pc.active = true := by rw [at_]; rfl
  have linked := ok.linked active
  have writes := ok.locked .write (by rw [at_]; rfl)
  have content := s.files.content_write_end (terminated path) (ok.offset active)
  refine inv.of_client_step (client_setClient_other _ _) rfl (fun _ _ => rfl)
    (fun _ _ _ => rfl) ?_ ?_ ?_ ?_ ?_
  · intro q other fd' file'
    -- the file of another client has another name, hence another inode
    have apart : fd'.inode ≠ fd.inode := by
      intro same
      exact other (((inv.client q).file fd' file').only_name pid (same ▸ linked)).symm
    have same := s.files.content_write_of_ne fd.inode fd'.inode fd.offset (terminated path) apart
    exact .of_content le_rfl (fun _ found => found) (fun found => found) same
      fun k about => .inr (.inr ⟨k, about⟩)
  · exact fun _ _ _ _ found => found
  · exact fun k _ i marked =>
      s.files.content_write_ne_nil fd.inode i fd.offset _ (terminated_ne_nil path) marked
  · refine ⟨?_, ?_, ?_, ?_⟩
    all_goals rw [client_setClient]
    · exact nofun
    · exact nofun
    · exact nofun
    · rintro fd' ⟨⟩
      refine ⟨ok.exists_inode, ok.only_name, ?_, ?_, ?_, fun _ => linked, ?_, ?_⟩
      all_goals rw [client_setClient]
      · rintro m ⟨⟩
        exact writes
      · exact nofun
      · exact nofun
      · intro _
        refine content.trans ?_
        rw [ok.content active]
        simp [recorded, at_, encode]
      · intro _
        refine Eq.trans ?_ (congrArg length content).symm
        rw [length_append, ← ok.offset active]
  · exact inv.covered_writing rfl (fun _ => rfl) file active (.inl writes)

end FileSteps

theorem clientStep_inv {unlinks : Bool} {event : Event}
    (stepped : clientStep s pid unlinks = some (t, event)) : Inv t := by
  have ok := inv.client pid
  simp only [clientStep] at stepped
  split at stepped
  next path at_ =>
    split at stepped
    next => cases stepped
    next holders taken =>
      cases stepped
      apply inv.client_hidden (.setGcLock .read holders taken) (.unlinking path) ⟨rfl, rfl, rfl⟩
      · intro _
        exact (mode_acquire _ _ taken).trans (if_pos rfl)
      · exact ok.none_yet (by rw [at_]; rfl)
      · exact nofun
  next path at_ =>
    cases stepped
    apply inv.unlink_own unlinks _ (.inl ⟨rfl, rfl⟩)
    intro files either
    apply clientOk_unused
    all_goals rw [client_setClient]
    · exact ⟨rfl, rfl, rfl⟩
    · exact fun _ => ok.gc (by rw [at_]; rfl)
    · exact ok.none_yet (by rw [at_]; rfl)
    · intro fd file
      have known := ok.file fd file
      rcases either with rfl | rfl
      · exact ⟨known.exists_inode, known.only_name⟩
      · exact ⟨known.exists_inode, fun n found =>
          known.only_name n (s.files.link_unlink found).2⟩
  next path at_ =>
    cases stepped
    apply inv.opened at_
    split
    · exact .inl rfl
    · exact .inr ⟨_, rfl⟩
  next path old at_ =>
    cases stepped
    apply inv.client_hidden (.close old) (.gcUnlocking path) ⟨rfl, rfl, rfl⟩
    · exact fun _ => ok.gc (by rw [at_]; rfl)
    · exact ok.none_yet (by rw [at_]; rfl)
    · intro _
      rw [at_]
      rfl
  next path at_ =>
    cases stepped
    exact inv.left_gc at_
  next path fd at_ file =>
    split at stepped
    next => cases stepped
    next holders taken =>
      cases stepped
      exact inv.read_locked at_ file taken
  next path fd at_ file =>
    cases stepped
    split
    next blank => exact inv.checked at_ file blank
    next =>
      apply inv.client_hidden (.refl _) (.gcLocking path) ⟨rfl, rfl, rfl⟩
      · exact nofun
      · exact ok.none_yet (by rw [at_]; rfl)
      · exact nofun
  next path fd at_ file =>
    split at stepped
    next => cases stepped
    next holders taken =>
      cases stepped
      exact inv.write_locked at_ file taken
  next path fd at_ file =>
    cases stepped
    exact inv.written at_ file
  next path fd at_ file =>
    split at stepped
    next => cases stepped
    next holders taken =>
      cases stepped
      exact inv.downgraded at_ file taken
  next at_ =>
    cases stepped
    apply inv.unlink_own unlinks _ (.inr rfl)
    intro files _
    apply clientOk_no_file
    all_goals rw [client_setClient]
    exact .inl rfl
  next => cases stepped

theorem die_inv : Inv (die s pid) := by
  have relocked : Relocked s
      { s with
        gcLock := s.gcLock.release (.client pid)
        locks := fun fd => (s.locks fd).release (.client pid) } (.client pid) := by
    refine ⟨rfl, rfl, rfl, ?_, ?_⟩
    · intro party other
      exact (mode_release _ _ party).trans (if_neg other)
    · intro i party other
      exact (mode_release _ _ party).trans (if_neg other)
  refine inv.relocked relocked {} ?_ ?_
  · apply clientOk_no_file
    all_goals rw [client_setClient]
    exact .inl rfl
  · intro k
    apply covered_of_no_file
    rw [client_setClient]

theorem destroy_inv (destroyed : destroy s pid = some t) : Inv t := by
  simp only [destroy] at destroyed
  split at destroyed
  next fd at_ file =>
    cases destroyed
    refine inv.relocked (.close fd.inode) _ ?_ ?_
    · apply clientOk_no_file
      all_goals rw [client_setClient]
      exact .inr rfl
    · intro k
      apply covered_of_no_file
      rw [client_setClient]
  next => cases destroyed

/-! ### Every step of a collector -/

section CollectorSteps

variable {k : Nat}

theorem Inv.collector_relocked (relocked : Relocked s u (.collector k)) {c : Collector}
    (quiet : ∀ i, ¬ (s.collector k).pc.Marking i) (own : CollectorOk (u.setCollector k c) k)
    (covered : ∀ pid, Covered (u.setCollector k c) k pid) : Inv (u.setCollector k c) := by
  have collectors : ∀ l, l ≠ k → (u.setCollector k c).collector l = s.collector l := by
    intro l other
    rw [collector_setCollector_other u c other, relocked.collectors]
  refine inv.of_collector_step relocked.clients collectors relocked.gc relocked.modes ?_ ?_ ?_ own
    covered
  · intro pid fd _
    apply FileFrame.of_eq (t := u.setCollector k c) relocked.files
    intro l about
    have other : l ≠ k := fun same => quiet _ (same ▸ about)
    exact .inr (.inr ⟨l, (collectors l other).symm ▸ about⟩)
  · exact fun n i found => relocked.files ▸ found
  · exact fun i marked => relocked.files.symm ▸ marked

/-- The collector moves on; `fd` is the file whose lock it may have changed. -/
theorem Inv.collector_goto (relocked : Relocked s u (.collector k)) (c : Collector)
    (quiet : ∀ i, ¬ (s.collector k).pc.Marking i)
    (gc : c.pc.inGc = true → u.gcLock.mode (.collector k) = some .write)
    (current : ∀ name fd, c.pc.current = some (name, fd) →
      ∀ n i, s.files.link n = some i → (n = name ↔ i = fd))
    (locked : ∀ fd m, c.pc.lock = some (fd, m) → (u.locks fd).mode (.collector k) = some m)
    (open_ : ∀ fd todo, c.pc ≠ .closing fd todo)
    (covered : ∀ todo, c.pc.pending = some todo → ∀ pid fd, (s.client pid).fdTempRoots = some fd →
      Exposed s pid fd.inode →
      pid ∈ todo ∨ ((u.locks fd.inode).mode (.collector k) = some .read ∧
        ∀ path ∈ (s.client pid).returned, (0 : UInt8) ∉ path → path ∈ c.tempRoots)) :
    Inv (u.setCollector k c) := by
  have files : (u.setCollector k c).files = s.files := relocked.files
  have clients : (u.setCollector k c).client = s.client := relocked.clients
  apply inv.collector_relocked relocked quiet
  · refine ⟨?_, ?_, ?_, ?_⟩
    all_goals rw [collector_setCollector]
    · exact gc
    · rw [files]
      exact current
    · exact locked
    · exact fun fd todo here => absurd here (open_ fd todo)
  · intro pid
    rw [Covered, collector_setCollector, clients]
    intro todo pending fd file exposed
    apply covered todo pending pid fd file
    rw [Exposed, files, clients] at exposed
    exact exposed

omit inv in
theorem not_marking {pc : CollectorPc} (at_ : (s.collector k).pc = pc)
    (elsewhere : ∀ name fd todo, pc ≠ .marking name fd todo) (i : Inode) :
    ¬ (s.collector k).pc.Marking i := by
  rintro ⟨name, todo, marking⟩
  exact elsewhere name i todo (at_.symm.trans marking)

/-- A collector that looks at no file. -/
theorem Inv.collector_idle (relocked : Relocked s u (.collector k)) (c : Collector)
    (unlisted : c.pc.pending = none) (quiet : ∀ i, ¬ (s.collector k).pc.Marking i)
    (gc : c.pc.inGc = true → u.gcLock.mode (.collector k) = some .write) : Inv (u.setCollector k c) := by
  apply inv.collector_goto relocked c quiet gc
  · intro name fd current
    cases at_ : c.pc <;> simp_all [CollectorPc.pending, CollectorPc.current]
  · intro fd m lock
    cases at_ : c.pc <;> simp_all [CollectorPc.pending, CollectorPc.lock]
  · rintro fd todo at_
    rw [at_] at unlisted
    cases unlisted
  · intro todo pending
    rw [unlisted] at pending
    cases pending

theorem collectGarbage_inv (called : collectGarbage s k = some t) : Inv t := by
  simp only [collectGarbage] at called
  split at called
  next holders at_ taken =>
    cases called
    exact inv.collector_idle (.setGcLock .write holders taken) _ rfl
      (not_marking at_ nofun)
      (fun _ => (mode_acquire _ _ taken).trans (if_pos rfl))
  next => cases called

theorem list_inv {names : List Pid} (listed : list s k names = some t) : Inv t := by
  simp only [list] at listed
  split at listed
  next at_ =>
    split at listed
    next all =>
      cases listed
      apply inv.collector_goto (.refl _) _ (not_marking at_ nofun)
      · exact fun _ => (inv.collector k).gc (by rw [at_]; rfl)
      · exact nofun
      · exact nofun
      · exact nofun
      · rintro todo ⟨⟩ pid fd _ ⟨linked, _⟩
        exact .inl (mem_toFinset.mp (all (s.files.mem_names pid _ linked)))
    next => cases listed
  next => cases listed

theorem finish_inv (finished : finish s k = some t) : Inv t := by
  simp only [finish] at finished
  split at finished
  next at_ =>
    cases finished
    exact inv.collector_idle (.releaseGc _) _ rfl (not_marking at_ nofun) nofun
  next => cases finished

theorem Inv.unwinding (fds : List Inode) (inGc : (s.collector k).pc.inGc = true)
    (quiet : ∀ i, ¬ (s.collector k).pc.Marking i) :
    Inv (s.setCollector k { s.collector k with pc := .unwinding fds }) :=
  inv.collector_idle (.refl _) _ rfl quiet (fun _ => (inv.collector k).gc inGc)

theorem unwind_inv (unwound : unwind s k = some t) : Inv t := by
  simp only [unwind] at unwound
  split at unwound
  next todo at_ =>
    cases unwound
    exact inv.unwinding _ (by rw [at_]; rfl) (not_marking at_ nofun)
  next at_ =>
    cases unwound
    exact inv.unwinding _ (by rw [at_]; rfl) (not_marking at_ nofun)
  next => cases unwound

section OneFile

variable {name : Pid} {fd : Inode} {todo : List Pid}

/-- Locking the file it is at, the collector changes nothing for the other files. -/
theorem Inv.covered_current (taken : (s.locks fd).acquire (.collector k) m = some holders)
    (current : (s.collector k).pc.current = some (name, fd))
    (pending : (s.collector k).pc.pending = some (name :: todo)) {pid : Pid} {file : Fd}
    (some_ : (s.client pid).fdTempRoots = some file) (exposed : Exposed s pid file.inode) :
    pid ∈ name :: todo ∨ (((s.setLock fd holders).locks file.inode).mode (.collector k) = some .read ∧
      ∀ path ∈ (s.client pid).returned, (0 : UInt8) ∉ path → path ∈ (s.collector k).tempRoots) := by
  by_cases here : file.inode = fd
  · have same := ((inv.collector k).current name fd current pid _ exposed.1).mpr here
    exact .inl (same ▸ mem_cons_self)
  · rw [mode_setLock taken, if_neg (fun both => here both.2)]
    exact inv.covered k pid _ pending file some_ exposed

theorem Inv.collector_locked {holders : Holders Party} {m : LockMode}
    (taken : (s.locks fd).acquire (.collector k) m = some holders)
    (current : (s.collector k).pc.current = some (name, fd))
    (pending : (s.collector k).pc.pending = some (name :: todo))
    (quiet : ∀ i, ¬ (s.collector k).pc.Marking i) {pc : CollectorPc}
    (current' : pc.current = some (name, fd)) (pending' : pc.pending = some (name :: todo))
    (lock : pc.lock = some (fd, m)) :
    Inv ((s.setLock fd holders).setCollector k { s.collector k with pc }) := by
  apply inv.collector_goto (.setLock taken) _ quiet
  · exact fun _ => (inv.collector k).gc (inGc_of_current current)
  · intro name' fd' at_
    exact (inv.collector k).current name' fd' (current.trans (current'.symm.trans at_))
  · intro fd' m' at_
    cases lock.symm.trans at_
    exact mode_setLock_self taken
  · rintro fd' todo' rfl
    cases current'
  · intro todo' at_ pid file some_ exposed
    cases pending'.symm.trans at_
    exact inv.covered_current taken current pending some_ exposed

theorem Inv.collector_unlinked (at_ : (s.collector k).pc = .unlinking name fd todo)
    (unlinks : Bool) :
    Inv ((s.setFiles (if unlinks then s.files.unlink name else s.files)).setCollector k
      { s.collector k with pc := .marking name fd todo }) := by
  have ok := inv.collector k
  have current := ok.current name fd (by rw [at_]; rfl)
  have writes := ok.locked fd .write (by rw [at_]; rfl)
  have quiet := not_marking at_ nofun
  -- a link that is left was there before
  have links : ∀ n i, ((s.setFiles (if unlinks then s.files.unlink name else s.files)).files.link n =
      some i) → s.files.link n = some i := by
    cases unlinks with
    | false => exact fun _ _ found => found
    | true => exact fun n i found => (s.files.link_unlink found).2
  have content : (if unlinks then s.files.unlink name else s.files).content = s.files.content := by
    cases unlinks <;> rfl
  refine inv.of_collector_step rfl (fun l other => collector_setCollector_other _ _ other)
    (fun _ _ => rfl) (fun _ _ _ => rfl) ?_ links ?_ ?_ ?_
  · intro pid file some_
    have kept : pid ≠ name → s.files.link pid = some file.inode →
        (if unlinks then s.files.unlink name else s.files).link pid = some file.inode := by
      intro other linked
      cases unlinks with
      | false => exact linked
      | true => exact (s.files.link_unlink_of_ne other).trans linked
    refine ⟨Nat.le_of_eq (by cases unlinks <;> rfl), fun n => links n _, ?_, ?_, ?_, ?_⟩
    · intro active linked
      refine kept ?_ linked
      intro same
      have here := (current pid _ linked).mp same
      rw [inv.not_exposed writes some_ here] at active
      cases active
    · exact fun _ _ => congrFun content _
    · rintro _ (linked | marked | ⟨l, about⟩)
      · by_cases same : pid = name
        · have here := (current pid _ linked).mp same
          refine .inr (.inr ⟨k, ?_⟩)
          rw [collector_setCollector, here]
          exact ⟨name, todo, rfl⟩
        · exact .inl (kept same linked)
      · exact .inr (.inl (fun blank => marked ((congrFun content _).symm.trans blank)))
      · have other : l ≠ k := fun same => quiet _ (same ▸ about)
        exact .inr (.inr ⟨l, (collector_setCollector_other _ _ other).symm ▸ about⟩)
    · exact fun blank => (congrFun content _).symm.trans blank
  · exact fun i marked blank => marked ((congrFun content i).symm.trans blank)
  · refine ⟨?_, ?_, ?_, ?_⟩
    all_goals rw [collector_setCollector]
    · exact fun _ => ok.gc (by rw [at_]; rfl)
    · rintro _ _ ⟨⟩ n i found
      exact current n i (links n i found)
    · rintro _ _ ⟨⟩
      exact writes
    · exact nofun
  · intro pid
    rw [Covered, collector_setCollector]
    rintro _ ⟨⟩ file some_ ⟨linked, used⟩
    apply inv.covered k pid _ (by rw [at_]; rfl) file some_
    refine ⟨links pid _ linked, ?_⟩
    rcases used with active | ⟨waiting, blank⟩
    · exact .inl active
    · exact .inr ⟨waiting, (congrFun content _).symm.trans blank⟩

theorem Inv.collector_marked (at_ : (s.collector k).pc = .marking name fd todo) :
    Inv ((s.setFiles (s.files.write fd 0 (ascii "d"))).setCollector k
      { s.collector k with pc := .closing fd todo }) := by
  have ok := inv.collector k
  have writes := ok.locked fd .write (by rw [at_]; rfl)
  have marked : (s.files.write fd 0 (ascii "d")).content fd ≠ [] := by
    simp [Directory.write, ascii]
  have same : ∀ i, i ≠ fd → (s.files.write fd 0 (ascii "d")).content i = s.files.content i :=
    fun i other => s.files.content_write_of_ne fd i 0 _ other
  have apart : ∀ i, (s.files.write fd 0 (ascii "d")).content i = [] → i ≠ fd :=
    fun i blank here => marked (here ▸ blank)
  refine inv.of_collector_step rfl (fun l other => collector_setCollector_other _ _ other)
    (fun _ _ => rfl) (fun _ _ _ => rfl) ?_ (fun _ _ found => found) ?_ ?_ ?_
  · intro pid file some_
    refine ⟨Nat.le_refl _, fun _ found => found, fun _ found => found, ?_, ?_, ?_⟩
    · intro active _
      apply same
      intro here
      rw [inv.not_exposed writes some_ here] at active
      cases active
    · rintro _ (linked | stale | ⟨l, about⟩)
      · exact .inl linked
      · exact .inr (.inl (fun blank => stale ((same _ (apart _ blank)).symm.trans blank)))
      · by_cases other : l = k
        · subst other
          obtain ⟨name', todo', at'⟩ := about
          rw [at_] at at'
          cases at'
          exact .inr (.inl marked)
        · exact .inr (.inr ⟨l, (collector_setCollector_other _ _ other).symm ▸ about⟩)
    · exact fun blank => (same _ (apart _ blank)).symm.trans blank
  · exact fun i stale blank => stale ((same i (apart i blank)).symm.trans blank)
  · refine ⟨?_, ?_, ?_, ?_⟩
    all_goals rw [collector_setCollector]
    · exact fun _ => ok.gc (by rw [at_]; rfl)
    · rintro _ _ ⟨⟩
    · rintro _ _ ⟨⟩
      exact writes
    · rintro _ _ ⟨⟩
      exact marked
  · intro pid
    rw [Covered, collector_setCollector]
    rintro _ ⟨⟩ file some_ ⟨linked, used⟩
    -- nobody uses the file that is now marked
    have here : file.inode ≠ fd := by
      intro here
      rcases used with active | ⟨_, blank⟩
      · change (s.client pid).pc.active = true at active
        rw [inv.not_exposed writes some_ here] at active
        cases active
      · exact apart _ blank here
    have exposed : Exposed s pid file.inode := by
      refine ⟨linked, ?_⟩
      rcases used with active | ⟨waiting, blank⟩
      · exact .inl active
      · exact .inr ⟨waiting, (same _ here).symm.trans blank⟩
    rcases inv.covered k pid _ (by rw [at_]; rfl) file some_ exposed with member | kept
    · rcases mem_cons.mp member with clash | later
      · exact absurd ((ok.current name fd (by rw [at_]; rfl) pid _ linked).mp clash) here
      · exact .inl later
    · exact .inr kept

theorem Inv.collector_closed (at_ : (s.collector k).pc = .closing fd todo) :
    Inv ((s.close (.collector k) fd).setCollector k { s.collector k with pc := .scanning todo }) := by
  have ok := inv.collector k
  have writes := ok.locked fd .write (by rw [at_]; rfl)
  apply inv.collector_goto (.close fd) _ (not_marking at_ nofun)
  · exact fun _ => ok.gc (by rw [at_]; rfl)
  · exact nofun
  · exact nofun
  · exact nofun
  · rintro _ ⟨⟩ pid file some_ exposed
    have here : file.inode ≠ fd := by
      intro here
      rcases exposed.2 with active | ⟨_, blank⟩
      · rw [inv.not_exposed writes some_ here] at active
        cases active
      · exact ok.marked fd todo at_ (here ▸ blank)
    rw [mode_close, if_neg (fun both => here both.2)]
    exact inv.covered k pid _ (by rw [at_]; rfl) file some_ exposed

/-! ### Reading the roots of one file -/

omit inv in
theorem extractRoots_terminated (current path rest : Bytes) :
    extractRoots current (path ++ 0 :: rest) =
      extractRoots current (path ++ [0]) ++ extractRoots [] rest := by
  induction path generalizing current with
  | nil => simp [extractRoots]
  | cons c path ih =>
    by_cases nul : c = 0
    · simp [extractRoots, nul, ih]
    · simp [extractRoots, nul, ih]

omit inv in
theorem extractRoots_path (current path : Bytes) (clean : (0 : UInt8) ∉ path) :
    extractRoots current (path ++ [0]) = [current ++ path] := by
  induction path generalizing current with
  | nil => simp [extractRoots]
  | cons c path ih =>
    rw [mem_cons, not_or] at clean
    simp [extractRoots, Ne.symm clean.1, ih _ clean.2]

omit inv in
/-- What a client has recorded, the collector extracts. -/
theorem mem_extractRoots_encode {paths : List Path} {path : Path} (member : path ∈ paths)
    (clean : (0 : UInt8) ∉ path) : path ∈ extractRoots [] (encode paths) := by
  induction paths with
  | nil => cases member
  | cons first paths ih =>
    have split : encode (first :: paths) = first ++ 0 :: encode paths := by
      simp [encode, terminated]
    rw [split, extractRoots_terminated, mem_append]
    rcases mem_cons.mp member with rfl | later
    · left
      rw [extractRoots_path [] path clean]
      exact mem_singleton_self _
    · exact .inr (ih later)

omit inv in
/-- A client whose file the collector may read has recorded what it returned, no more. -/
theorem FileOk.content_of_read {pid : Pid} {file : Fd} (ok : FileOk s pid file)
    (active : (s.client pid).pc.active = true)
    (reads : (s.locks file.inode).mode (.collector k) = some .read) :
    s.files.content file.inode = encode (s.client pid).returned := by
  have unlocked : ∀ path, (s.client pid).pc ≠ .downgrading path := by
    intro path at_
    have writes := ok.locked .write (by rw [at_]; rfl)
    exact alone_of_write writes reads nofun
  rw [ok.content active, recorded]
  split
  next path at_ => exact absurd at_ (unlocked path)
  next => rfl

theorem Inv.collector_read (at_ : (s.collector k).pc = .reading name fd todo) :
    Inv (s.setCollector k ⟨.scanning todo,
      (s.collector k).tempRoots ∪ (extractRoots [] (s.files.content fd)).toFinset,
      (s.collector k).fds ++ [fd]⟩) := by
  have ok := inv.collector k
  have reads := ok.locked fd .read (by rw [at_]; rfl)
  apply inv.collector_goto (.refl _) _ (not_marking at_ nofun)
  · exact fun _ => ok.gc (by rw [at_]; rfl)
  · exact nofun
  · exact nofun
  · exact nofun
  · rintro _ ⟨⟩ pid file some_ exposed
    by_cases same : pid = name
    · have here := (ok.current name fd (by rw [at_]; rfl) pid _ exposed.1).mp same
      subst here
      refine .inr ⟨reads, ?_⟩
      intro path member clean
      rcases exposed.2 with active | ⟨waiting, _⟩
      · apply Finset.mem_union_right
        rw [List.mem_toFinset, ((inv.client pid).file file some_).content_of_read active reads]
        exact mem_extractRoots_encode member clean
      · rw [(inv.client pid).none_yet (starting_of_waiting waiting)] at member
        cases member
    · rcases inv.covered k pid _ (by rw [at_]; rfl) file some_ exposed with listed | ⟨kept, roots⟩
      · exact .inl ((mem_cons.mp listed).resolve_left same)
      · exact .inr ⟨kept, fun path member clean =>
          Finset.mem_union_left _ (roots path member clean)⟩

end OneFile

theorem collectorStep_inv {nixStore : Path} {unlinks : Bool}
    (stepped : collectorStep nixStore s k unlinks = some t) : Inv t := by
  have ok := inv.collector k
  simp only [collectorStep] at stepped
  split at stepped
  next at_ =>
    cases stepped
    apply inv.collector_goto (.refl _) _ (not_marking at_ nofun)
    · exact fun _ => ok.gc (by rw [at_]; rfl)
    · exact nofun
    · exact nofun
    · exact nofun
    · rintro _ ⟨⟩ pid file some_ exposed
      exact inv.covered k pid _ (by rw [at_]; rfl) file some_ exposed
  next name todo at_ =>
    have gc := ok.gc (by rw [at_]; rfl)
    have quiet := not_marking at_ nofun
    split at stepped
    next gone =>
      cases stepped
      apply inv.collector_goto (.refl _) _ quiet (fun _ => gc)
      · exact nofun
      · exact nofun
      · exact nofun
      · rintro _ ⟨⟩ pid file some_ exposed
        rcases inv.covered k pid _ (by rw [at_]; rfl) file some_ exposed with listed | kept
        · rcases mem_cons.mp listed with rfl | later
          · rw [exposed.1] at gone
            cases gone
          · exact .inl later
        · exact .inr kept
    next fd found =>
      cases stepped
      apply inv.collector_goto (.refl _) _ quiet (fun _ => gc)
      · rintro _ _ ⟨⟩ n i linked
        constructor
        · rintro rfl
          exact some.inj (linked.symm.trans found)
        · rintro rfl
          exact s.files.link_injective n name i linked found
      · exact nofun
      · exact nofun
      · rintro _ ⟨⟩ pid file some_ exposed
        exact inv.covered k pid _ (by rw [at_]; rfl) file some_ exposed
  next name fd todo at_ =>
    have quiet := not_marking at_ nofun
    split at stepped
    next holders taken =>
      cases stepped
      exact inv.collector_locked taken (by rw [at_]; rfl) (by rw [at_]; rfl) quiet rfl rfl rfl
    next =>
      cases stepped
      apply inv.collector_goto (.refl _) _ quiet (fun _ => ok.gc (by rw [at_]; rfl))
      · rintro _ _ ⟨⟩
        exact ok.current name fd (by rw [at_]; rfl)
      · exact nofun
      · exact nofun
      · rintro _ ⟨⟩ pid file some_ exposed
        exact inv.covered k pid _ (by rw [at_]; rfl) file some_ exposed
  next name fd todo at_ =>
    cases stepped
    exact inv.collector_unlinked at_ unlinks
  next name fd todo at_ =>
    cases stepped
    exact inv.collector_marked at_
  next fd todo at_ =>
    cases stepped
    exact inv.collector_closed at_
  next name fd todo at_ =>
    split at stepped
    next => cases stepped
    next holders taken =>
      cases stepped
      exact inv.collector_locked taken (by rw [at_]; rfl) (by rw [at_]; rfl)
        (not_marking at_ nofun) rfl rfl rfl
  next name fd todo at_ =>
    split at stepped
    next =>
      cases stepped
      exact inv.collector_read at_
    next =>
      cases stepped
      exact inv.unwinding _ (by rw [at_]; rfl) (not_marking at_ nofun)
  next at_ =>
    cases stepped
    exact inv.collector_idle (.refl _) {} rfl (not_marking at_ nofun) nofun
  next fd fds at_ =>
    cases stepped
    exact inv.collector_idle (.close fd) _ rfl (not_marking at_ nofun) nofun
  next at_ =>
    cases stepped
    exact inv.collector_idle (.releaseGc _) {} rfl (not_marking at_ nofun) nofun
  next fd fds at_ =>
    cases stepped
    exact inv.collector_idle (.close fd) _ rfl (not_marking at_ nofun)
      (fun _ => ok.gc (by rw [at_]; rfl))
  next => cases stepped

end CollectorSteps

end Steps

/-! ### Main result -/

theorem init_inv : Inv init := by
  refine ⟨?_, ?_, ?_⟩
  · exact fun pid => clientOk_no_file rfl rfl (.inl rfl)
  · intro k
    refine ⟨?_, ?_, ?_, ?_⟩
    · exact nofun
    · exact nofun
    · exact nofun
    · exact nofun
  · exact fun k pid => covered_of_no_file rfl

theorem step_inv (nixStore : Path) (s : State) (move : Move) (t : State) (event : Event) (inv : Inv s)
    (stepped : step nixStore s move = some (t, event)) : Inv t := by
  -- most steps have nothing to report
  have silent : ∀ {called : Option State}, (∀ t, called = some t → Inv t) →
      called.map (·, Event.internal) = some (t, event) → Inv t := by
    intro called each stepped
    obtain ⟨t', isCalled, same⟩ := map_eq_some_iff.mp stepped
    cases same
    exact each _ isCalled
  cases move with
  | client pid unlinks => exact clientStep_inv inv stepped
  | die pid =>
    cases stepped
    exact die_inv inv
  | addTempRoot pid path => exact silent (fun _ => addTempRoot_inv inv) stepped
  | destroy pid => exact silent (fun _ => destroy_inv inv) stepped
  | collectGarbage id => exact silent (fun _ => collectGarbage_inv inv) stepped
  | list id names => exact silent (fun _ => list_inv inv) stepped
  | collector id unlinks => exact silent (fun _ => collectorStep_inv inv) stepped
  | finish id => exact silent (fun _ => finish_inv inv) stepped
  | unwind id => exact silent (fun _ => unwind_inv inv) stepped

/-- Only the downgrade of the lock lets `addTempRoot` return. -/
theorem returned_downgrading {nixStore : Path} {move : Move} {path : Path}
    (stepped : step nixStore s move = some (t, .returned pid path)) :
    ∃ fd, (s.client pid).pc = .downgrading path ∧ (s.client pid).fdTempRoots = some fd := by
  cases move with
  | client q unlinks =>
    simp only [step, clientStep] at stepped
    repeat' split at stepped
    all_goals cases stepped
    exact ⟨_, by assumption, by assumption⟩
  | die q => cases stepped
  | _ =>
    obtain ⟨t', _, same⟩ := map_eq_some_iff.mp stepped
    cases same

/-- A path whose `addTempRoot` has returned is a root of every collector that deletes, and
no `addTempRoot` returns while a collector deletes. -/
theorem addTempRoot_protects (nixStore : Path) (moves : List Move) (events : List Event) (s : State)
    (ran : run (step nixStore) init moves = some (s, events)) (k : Nat)
    (deleting : (s.collector k).pc = .deleting) :
    (∀ (pid : Pid) (path : Path), path ∈ (s.client pid).returned → (0 : UInt8) ∉ path →
      path ∈ (s.collector k).tempRoots) ∧
    ∀ (move : Move) (t : State) (pid : Pid) (path : Path),
      step nixStore s move ≠ some (t, .returned pid path) := by
  have inv := run_invariant (step nixStore) Inv (step_inv nixStore) init_inv ran
  -- nothing is left to look at, so every file in use has been read and is locked
  have covered : ∀ pid fd, (s.client pid).fdTempRoots = some fd → (s.client pid).pc.active = true →
      (s.locks fd.inode).mode (.collector k) = some .read ∧
        ∀ path ∈ (s.client pid).returned, (0 : UInt8) ∉ path → path ∈ (s.collector k).tempRoots := by
    intro pid fd file active
    have linked := ((inv.client pid).file fd file).linked active
    have either := inv.covered k pid [] (by rw [deleting]; rfl) fd file ⟨linked, .inl active⟩
    exact either.resolve_left not_mem_nil
  constructor
  · intro pid path member clean
    cases file : (s.client pid).fdTempRoots with
    | none =>
      rw [((inv.client pid).no_file file).1] at member
      cases member
    | some fd =>
      rcases starting_or_active (s.client pid).pc with starting | active
      · rw [(inv.client pid).none_yet starting] at member
        cases member
      · exact (covered pid fd file active).2 path member clean
  · intro move t pid path stepped
    obtain ⟨fd, at_, file⟩ := returned_downgrading stepped
    have writes := ((inv.client pid).file fd file).locked .write (by rw [at_]; rfl)
    have reads := (covered pid fd file (by rw [at_]; rfl)).1
    exact alone_of_write writes reads nofun

/-- Client 7 adds a root, then collector 0 gathers the roots. -/
def collectOne (path : Path) : List Move :=
  .addTempRoot 7 path :: replicate 9 (.client 7 true) ++
    .collectGarbage 0 :: .list 0 [7] :: replicate 5 (.collector 0 true)

theorem addTempRoot_protects_one :
    ∃ (s : State) (events : List Event),
      run (step (ascii "/s")) init (collectOne (ascii "/s/a")) = some (s, events) ∧
      (s.collector 0).pc = .deleting ∧ ascii "/s/a" ∈ (s.client 7).returned ∧
      ascii "/s/a" ∈ (s.collector 0).tempRoots := by
  refine ⟨_, _, rfl, by decide, by decide, ?_⟩
  exact (addTempRoot_protects (ascii "/s") (collectOne (ascii "/s/a")) _ _ rfl 0 (by decide)).1 7 _
    (by decide) (by decide)

end Guix.LibStore.TempRoots
