import Guix.LibStore.TempRoots

/-!
# The invariant of the temporary-root protocol

A client that has passed the size check keeps a lock on its file until it dies. So a
collector can neither delete that file nor miss it: under the GC lock the file is
listed, and from the moment its roots are read the collector's own read lock keeps
the client from adding another.
-/

namespace Guix.LibStore.TempRoots

open SharedFiles

/-! ### Control states -/

/-- The client has the GC lock. -/
def ClientPc.inGc : ClientPc → Bool
  | .unlinking _ | .opening _ | .closing _ _ | .gcUnlocking _ => true
  | _ => false

/-- The client is in the loop that makes its file, or has given up its roots. -/
def ClientPc.starting : ClientPc → Bool
  | .gcLocking _ | .unlinking _ | .opening _ | .closing _ _ | .gcUnlocking _ => true
  | .readLocking _ | .statting _ | .destroying => true
  | _ => false

/-- The file is opened and its size is not yet known to be 0. -/
def ClientPc.opened : ClientPc → Bool
  | .closing _ _ | .gcUnlocking _ | .readLocking _ | .statting _ => true
  | _ => false

/-- The client may go on to use its file without the GC lock. -/
def ClientPc.waiting : ClientPc → Bool
  | .readLocking _ | .statting _ => true
  | _ => false

/-- The size of the file has been checked. -/
def ClientPc.active : ClientPc → Bool
  | .idle | .writeLocking _ | .writing _ | .downgrading _ => true
  | _ => false

/-- The lock that the client has on its file. -/
def ClientPc.lock : ClientPc → Option LockMode
  | .idle | .statting _ | .writeLocking _ => some .read
  | .writing _ | .downgrading _ => some .write
  | _ => none

/-- The paths in the client's file. -/
def Client.recorded (c : Client) : List Path :=
  match c.pc with
  | .downgrading path => c.returned ++ [path]
  | _ => c.returned

def encode (paths : List Path) : Bytes := paths.flatMap terminated

/-- The collector has the GC lock. -/
def CollectorPc.inGc : CollectorPc → Bool
  | .idle | .releasing _ => false
  | _ => true

/-- The file that `readTempRoots` is at. -/
def CollectorPc.current : CollectorPc → Option (Pid × Inode)
  | .tryLocking name fd _ => some (name, fd)
  | .unlinking name fd _ => some (name, fd)
  | .marking name fd _ => some (name, fd)
  | .readLocking name fd _ => some (name, fd)
  | .reading name fd _ => some (name, fd)
  | _ => none

/-- The lock that the collector has on the file it is at. -/
def CollectorPc.lock : CollectorPc → Option (Inode × LockMode)
  | .unlinking _ fd _ => some (fd, .write)
  | .marking _ fd _ => some (fd, .write)
  | .closing fd _ => some (fd, .write)
  | .reading _ fd _ => some (fd, .read)
  | _ => none

/-- The files whose roots have not been read. -/
def CollectorPc.pending : CollectorPc → Option (List Pid)
  | .scanning todo => some todo
  | .tryLocking name _ todo => some (name :: todo)
  | .unlinking name _ todo => some (name :: todo)
  | .marking name _ todo => some (name :: todo)
  | .closing _ todo => some todo
  | .readLocking name _ todo => some (name :: todo)
  | .reading name _ todo => some (name :: todo)
  | .deleting => some []
  | _ => none

def CollectorPc.Marking (pc : CollectorPc) (i : Inode) : Prop :=
  ∃ name todo, pc = .marking name i todo

/-! ### The invariant -/

/-- An opened file is linked, marked, or about to be marked. -/
def Fresh (s : State) (pid : Pid) (i : Inode) : Prop :=
  s.files.link pid = some i ∨ s.files.content i ≠ [] ∨ ∃ k, (s.collector k).pc.Marking i

structure FileOk (s : State) (pid : Pid) (fd : Fd) : Prop where
  exists_inode : fd.inode < s.files.next
  only_name : ∀ n, s.files.link n = some fd.inode → n = pid
  locked : ∀ m, (s.client pid).pc.lock = some m → (s.locks fd.inode).mode (.client pid) = some m
  start : (s.client pid).pc.opened = true → fd.offset = 0
  fresh : (s.client pid).pc.opened = true → Fresh s pid fd.inode
  linked : (s.client pid).pc.active = true → s.files.link pid = some fd.inode
  content : (s.client pid).pc.active = true →
    s.files.content fd.inode = encode (s.client pid).recorded
  offset : (s.client pid).pc.active = true → fd.offset = (s.files.content fd.inode).length

structure ClientOk (s : State) (pid : Pid) : Prop where
  gc : (s.client pid).pc.inGc = true → s.gcLock.mode (.client pid) = some .read
  none_yet : (s.client pid).pc.starting = true → (s.client pid).returned = []
  no_file : (s.client pid).fdTempRoots = none →
    (s.client pid).returned = [] ∧ (s.client pid).pc.opened = false ∧
      ((s.client pid).pc.active = true → (s.client pid).pc = .idle)
  file : ∀ fd, (s.client pid).fdTempRoots = some fd → FileOk s pid fd

structure CollectorOk (s : State) (k : Nat) : Prop where
  gc : (s.collector k).pc.inGc = true → s.gcLock.mode (.collector k) = some .write
  current : ∀ name fd, (s.collector k).pc.current = some (name, fd) →
    ∀ n i, s.files.link n = some i → (n = name ↔ i = fd)
  locked : ∀ fd m, (s.collector k).pc.lock = some (fd, m) →
    (s.locks fd).mode (.collector k) = some m
  marked : ∀ fd todo, (s.collector k).pc = .closing fd todo → s.files.content fd ≠ []

/-- The client uses this file, or may come to use it. -/
def Exposed (s : State) (pid : Pid) (i : Inode) : Prop :=
  s.files.link pid = some i ∧
    ((s.client pid).pc.active = true ∨
      ((s.client pid).pc.waiting = true ∧ s.files.content i = []))

/-- Collector `k` has yet to look at the file, or keeps it locked and has its roots. -/
def Covered (s : State) (k : Nat) (pid : Pid) : Prop :=
  ∀ todo, (s.collector k).pc.pending = some todo → ∀ fd, (s.client pid).fdTempRoots = some fd →
    Exposed s pid fd.inode →
    pid ∈ todo ∨ ((s.locks fd.inode).mode (.collector k) = some .read ∧
      ∀ path ∈ (s.client pid).returned, (0 : UInt8) ∉ path → path ∈ (s.collector k).tempRoots)

structure Inv (s : State) : Prop where
  client : ∀ pid, ClientOk s pid
  collector : ∀ k, CollectorOk s k
  covered : ∀ k pid, Covered s k pid

/-! ### Who excludes whom -/

variable {s : State} {k : Nat}

theorem Inv.no_client_in_gc (inv : Inv s) (inGc : (s.collector k).pc.inGc = true)
    (pid : Pid) : (s.client pid).pc.inGc = false := by
  by_contra running
  have reads := (inv.client pid).gc (Bool.not_eq_false _ ▸ running)
  exact Holders.alone_of_write ((inv.collector k).gc inGc) reads nofun

theorem starting_or_active (pc : ClientPc) : pc.starting = true ∨ pc.active = true := by
  cases pc <;> simp [ClientPc.starting, ClientPc.active]

theorem starting_of_waiting {pc : ClientPc} (waiting : pc.waiting = true) : pc.starting = true := by
  cases pc <;> first | rfl | cases waiting

variable {pc : CollectorPc}

theorem inGc_of_pending {todo : List Pid} (pending : pc.pending = some todo) : pc.inGc = true := by
  cases pc <;> first | rfl | cases pending

theorem inGc_of_current {file : Pid × Inode} (current : pc.current = some file) :
    pc.inGc = true := by
  cases pc <;> first | rfl | cases current

variable {pid : Pid} {fd : Fd}

/-- A client does not lock a file that a collector locks for writing. -/
theorem FileOk.not_write_locked (ok : FileOk s pid fd)
    (writes : (s.locks fd.inode).mode (.collector k) = some .write) : (s.client pid).pc.lock = none := by
  cases lock : (s.client pid).pc.lock with
  | none => rfl
  | some m =>
    exact (Holders.alone_of_write writes (ok.locked m lock) nofun).elim

theorem lock_of_active {pc : ClientPc} (active : pc.active = true) : pc.lock ≠ none := by
  cases pc <;> simp_all [ClientPc.active, ClientPc.lock]

/-! ### What a step of another process may do to a file -/

/-- The files of `t` are as good for the file `i` of client `pid` as those of `s`. -/
structure FileFrame (s t : State) (pid : Pid) (i : Inode) : Prop where
  next_le : s.files.next ≤ t.files.next
  old_links : ∀ n, t.files.link n = some i → s.files.link n = some i
  linked : (s.client pid).pc.active = true → s.files.link pid = some i → t.files.link pid = some i
  content : (s.client pid).pc.active = true → s.files.link pid = some i →
    t.files.content i = s.files.content i
  fresh : (s.client pid).pc.opened = true → Fresh s pid i → Fresh t pid i
  blank : t.files.content i = [] → s.files.content i = []

variable {t : State}

theorem ClientOk.frame (ok : ClientOk s pid) (client : t.client pid = s.client pid)
    (gc : t.gcLock.mode (.client pid) = s.gcLock.mode (.client pid))
    (modes : ∀ i, (t.locks i).mode (.client pid) = (s.locks i).mode (.client pid))
    (files : ∀ fd, (s.client pid).fdTempRoots = some fd → FileFrame s t pid fd.inode) :
    ClientOk t pid := by
  refine ⟨?_, ?_, ?_, ?_⟩
  all_goals rw [client]
  · rw [gc]
    exact ok.gc
  · exact ok.none_yet
  · exact ok.no_file
  · intro fd some_
    have file := ok.file fd some_
    have frame := files fd some_
    refine ⟨Nat.lt_of_lt_of_le file.exists_inode frame.next_le, ?_, ?_, ?_, ?_, ?_, ?_, ?_⟩
    · exact fun n found => file.only_name n (frame.old_links n found)
    all_goals rw [client]
    · rw [modes]
      exact file.locked
    · exact file.start
    · exact fun opened => frame.fresh opened (file.fresh opened)
    · exact fun active => frame.linked active (file.linked active)
    · exact fun active => (frame.content active (file.linked active)).trans (file.content active)
    · intro active
      rw [frame.content active (file.linked active)]
      exact file.offset active

theorem Covered.frame (covered : Covered s k pid) (client : t.client pid = s.client pid)
    (collector : t.collector k = s.collector k)
    (modes : ∀ i, (t.locks i).mode (.collector k) = (s.locks i).mode (.collector k))
    (files : ∀ fd, (s.client pid).fdTempRoots = some fd → FileFrame s t pid fd.inode) :
    Covered t k pid := by
  rw [Covered, collector, client]
  intro todo pending fd some_ exposed
  have frame := files fd some_
  rw [modes]
  apply covered todo pending fd some_
  obtain ⟨linked, used⟩ := exposed
  rw [client] at used
  refine ⟨frame.old_links pid linked, ?_⟩
  rcases used with active | ⟨waiting, blank⟩
  · exact .inl active
  · exact .inr ⟨waiting, frame.blank blank⟩

theorem CollectorOk.frame (ok : CollectorOk s k) (collector : t.collector k = s.collector k)
    (gc : t.gcLock.mode (.collector k) = s.gcLock.mode (.collector k))
    (modes : ∀ i, (t.locks i).mode (.collector k) = (s.locks i).mode (.collector k))
    (links : (s.collector k).pc.inGc = true → ∀ n i, t.files.link n = some i → s.files.link n = some i)
    (content : (s.collector k).pc.inGc = true → ∀ i, s.files.content i ≠ [] → t.files.content i ≠ []) :
    CollectorOk t k := by
  refine ⟨?_, ?_, ?_, ?_⟩
  all_goals rw [collector]
  · rw [gc]
    exact ok.gc
  · intro name fd current n i found
    exact ok.current name fd current n i (links (inGc_of_current current) n i found)
  · intro fd m locked
    rw [modes]
    exact ok.locked fd m locked
  · intro fd todo closing
    apply content (by rw [closing]; rfl)
    exact ok.marked fd todo closing

/-- Another process leaves the content and the link alone. -/
theorem FileFrame.of_content {i : Inode} (next_le : s.files.next ≤ t.files.next)
    (old_links : ∀ n, t.files.link n = some i → s.files.link n = some i)
    (linked : s.files.link pid = some i → t.files.link pid = some i)
    (content : t.files.content i = s.files.content i)
    (marking : ∀ k, (s.collector k).pc.Marking i → Fresh t pid i) : FileFrame s t pid i := by
  refine ⟨next_le, old_links, fun _ => linked, fun _ _ => content, ?_, content.symm.trans⟩
  rintro _ (here | marked | ⟨k, about⟩)
  · exact .inl (linked here)
  · exact .inr (.inl fun blank => marked (content.symm.trans blank))
  · exact marking k about

theorem FileFrame.of_eq (files : t.files = s.files) (pid : Pid) (i : Inode)
    (marking : ∀ k, (s.collector k).pc.Marking i → Fresh t pid i) : FileFrame s t pid i :=
  .of_content (by rw [files]) (fun n => files ▸ id) (files ▸ id) (by rw [files]) marking

/-! ### Steps of a client -/

section ClientSteps

variable {s t : State} {pid : Pid} {k : Nat}

theorem Inv.of_client_step (inv : Inv s)
    (clients : ∀ q, q ≠ pid → t.client q = s.client q) (collectors : t.collector = s.collector)
    (gc : ∀ party, party ≠ .client pid → t.gcLock.mode party = s.gcLock.mode party)
    (modes : ∀ i party, party ≠ .client pid → (t.locks i).mode party = (s.locks i).mode party)
    (frames : ∀ q, q ≠ pid → ∀ fd, (s.client q).fdTempRoots = some fd → FileFrame s t q fd.inode)
    (links : ∀ k, (s.collector k).pc.inGc = true →
      ∀ n i, t.files.link n = some i → s.files.link n = some i)
    (content : ∀ k, (s.collector k).pc.inGc = true →
      ∀ i, s.files.content i ≠ [] → t.files.content i ≠ [])
    (own : ClientOk t pid) (covered : ∀ k, Covered t k pid) : Inv t := by
  refine ⟨?_, ?_, ?_⟩
  · intro q
    by_cases same : q = pid
    · exact same ▸ own
    · have other : Party.client q ≠ .client pid := fun clash => same (Party.client.inj clash)
      exact (inv.client q).frame (clients q same) (gc _ other) (fun i => modes i _ other)
        (frames q same)
  · intro k
    have other : Party.collector k ≠ .client pid := nofun
    exact (inv.collector k).frame (congrFun collectors k) (gc _ other) (fun i => modes i _ other)
      (links k) (content k)
  · intro k q
    by_cases same : q = pid
    · exact same ▸ covered k
    · have other : Party.collector k ≠ .client pid := nofun
      exact (inv.covered k q).frame (clients q same) (congrFun collectors k)
        (fun i => modes i _ other) (frames q same)

theorem FileOk.goto (ok : FileOk s pid fd) (files : t.files = s.files)
    (collectors : t.collector = s.collector)
    (locked : ∀ m, (t.client pid).pc.lock = some m → (t.locks fd.inode).mode (.client pid) = some m)
    (opened : (t.client pid).pc.opened = true → (s.client pid).pc.opened = true)
    (active : (t.client pid).pc.active = true →
      (s.client pid).pc.active = true ∧ (t.client pid).recorded = (s.client pid).recorded) :
    FileOk t pid fd := by
  refine ⟨?_, ?_, locked, fun here => ok.start (opened here), ?_, ?_, ?_, ?_⟩
  · rw [files]
    exact ok.exists_inode
  · rw [files]
    exact ok.only_name
  · intro here
    rw [Fresh, files, collectors]
    exact ok.fresh (opened here)
  all_goals rw [files]
  · exact fun here => ok.linked (active here).1
  · intro here
    rw [(active here).2]
    exact ok.content (active here).1
  · exact fun here => ok.offset (active here).1

theorem Covered.goto (covered : Covered s k pid) (collectors : t.collector = s.collector)
    (modes : ∀ i, (t.locks i).mode (.collector k) = (s.locks i).mode (.collector k))
    (file : (t.client pid).fdTempRoots = (s.client pid).fdTempRoots)
    (returned : (t.client pid).returned = (s.client pid).returned)
    (exposed : ∀ i, Exposed t pid i → Exposed s pid i) : Covered t k pid := by
  rw [Covered, collectors, file, returned]
  intro todo pending fd some_ here
  rw [modes]
  exact covered todo pending fd some_ (exposed _ here)

theorem covered_of_hidden (hidden : (t.client pid).pc.active = false ∧ (t.client pid).pc.waiting = false) :
    Covered t k pid := by
  rintro todo _ fd _ ⟨_, active | ⟨waiting, _⟩⟩
  · rw [hidden.1] at active
    cases active
  · rw [hidden.2] at waiting
    cases waiting

theorem covered_of_no_file (none_ : (t.client pid).fdTempRoots = none) : Covered t k pid := by
  intro todo _ fd some_
  rw [none_] at some_
  cases some_

end ClientSteps

/-! ### Steps of a collector -/

section CollectorSteps

variable {s t : State} {k : Nat}

theorem Inv.of_collector_step (inv : Inv s) (clients : t.client = s.client)
    (collectors : ∀ l, l ≠ k → t.collector l = s.collector l)
    (gc : ∀ party, party ≠ .collector k → t.gcLock.mode party = s.gcLock.mode party)
    (modes : ∀ i party, party ≠ .collector k → (t.locks i).mode party = (s.locks i).mode party)
    (frames : ∀ pid fd, (s.client pid).fdTempRoots = some fd → FileFrame s t pid fd.inode)
    (links : ∀ n i, t.files.link n = some i → s.files.link n = some i)
    (content : ∀ i, s.files.content i ≠ [] → t.files.content i ≠ [])
    (own : CollectorOk t k) (covered : ∀ pid, Covered t k pid) : Inv t := by
  refine ⟨?_, ?_, ?_⟩
  · intro pid
    have other : Party.client pid ≠ .collector k := nofun
    exact (inv.client pid).frame (congrFun clients pid) (gc _ other) (fun i => modes i _ other)
      (frames pid)
  · intro l
    by_cases same : l = k
    · exact same ▸ own
    · have other : Party.collector l ≠ .collector k := fun clash => same (Party.collector.inj clash)
      exact (inv.collector l).frame (collectors l same) (gc _ other) (fun i => modes i _ other)
        (fun _ => links) (fun _ => content)
  · intro l pid
    by_cases same : l = k
    · exact same ▸ covered pid
    · have other : Party.collector l ≠ .collector k := fun clash => same (Party.collector.inj clash)
      exact (inv.covered l pid).frame (congrFun clients pid) (collectors l same)
        (fun i => modes i _ other) (frames pid)

/-- The collector holds the lock on the file it is about to delete, so no client uses it. -/
theorem Inv.not_exposed (inv : Inv s) {fd : Inode} {file : Fd}
    (writes : (s.locks fd).mode (.collector k) = some .write)
    (some_ : (s.client pid).fdTempRoots = some file) (same : file.inode = fd) :
    (s.client pid).pc.active = false := by
  subst same
  have unlocked := ((inv.client pid).file file some_).not_write_locked writes
  rw [← Bool.not_eq_true]
  intro active
  exact lock_of_active active unlocked

end CollectorSteps

end Guix.LibStore.TempRoots
