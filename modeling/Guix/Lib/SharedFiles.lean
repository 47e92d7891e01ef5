import Mathlib.Data.Finset.Basic

/-!
# Files that processes share

Names, inodes and advisory record locks, as POSIX has them. A lock covers the
whole file and belongs to a process: taking a lock replaces the one the process
had, and closing any descriptor of the file gives it up.
-/

namespace SharedFiles

open Function Finset

/-! ### Record locks -/

inductive LockMode
  | read
  | write
  deriving DecidableEq, Repr

/-- Who locks one file. A writer is alone by construction. -/
inductive Holders (P : Type)
  | shared (readers : Finset P)
  | exclusive (writer : P)

namespace Holders

variable {P : Type} [DecidableEq P]

def free : Holders P := .shared ∅

def mode (h : Holders P) (p : P) : Option LockMode :=
  match h with
  | .shared readers => if p ∈ readers then some .read else none
  | .exclusive writer => if p = writer then some .write else none

/-- Set the lock of `p`; `none` when `p` would have to wait for another process. -/
def acquire (h : Holders P) (p : P) (m : LockMode) : Option (Holders P) :=
  match m, h with
  | .read, .shared readers => some (.shared (insert p readers))
  | .read, .exclusive writer => if writer = p then some (.shared {p}) else none
  | .write, .shared readers => if readers ⊆ {p} then some (.exclusive p) else none
  | .write, .exclusive writer => if writer = p then some (.exclusive p) else none

def release (h : Holders P) (p : P) : Holders P :=
  match h with
  | .shared readers => .shared (readers.erase p)
  | .exclusive writer => if writer = p then .free else .exclusive writer

theorem mode_release (h : Holders P) (p q : P) :
    (h.release p).mode q = if q = p then none else h.mode q := by
  cases h with
  | shared readers =>
    by_cases same : q = p <;> simp [release, mode, same]
  | exclusive writer =>
    by_cases same : writer = p
    · subst same
      by_cases own : q = writer <;> simp [release, mode, own, free]
    · by_cases own : q = p
      · subst own
        simp [release, mode, same, Ne.symm same]
      · simp [release, mode, same, own]

theorem mode_acquire {h next : Holders P} (p q : P) {m : LockMode}
    (taken : h.acquire p m = some next) : next.mode q = if q = p then some m else h.mode q := by
  by_cases same : q = p
  · subst same
    cases m <;> cases h <;> simp only [acquire] at taken
    case read.shared => cases taken; simp [mode]
    all_goals
      split at taken <;> cases taken
      simp [mode]
  · cases m <;> cases h <;> simp only [acquire] at taken
    case read.shared => cases taken; simp [mode, same]
    case write.shared readers =>
      split at taken <;> cases taken
      -- no reader but `p` can have been there
      next alone =>
        have outside : q ∉ readers := fun member => same (mem_singleton.mp (alone member))
        simp [mode, same, outside]
    all_goals
      split at taken <;> cases taken
      next own => simp [mode, same, own]

theorem eq_of_write (h : Holders P) (p q : P) (writes : h.mode p = some .write)
    (holds : h.mode q ≠ none) : q = p := by
  cases h with
  | shared readers =>
    simp only [mode] at writes
    split at writes <;> cases writes
  | exclusive writer =>
    simp only [mode] at writes holds
    split at writes
    next own =>
      split at holds
      next other => rw [own, other]
      next => exact absurd rfl holds
    next => cases writes

theorem alone_of_write {h : Holders P} {p q : P} {m : LockMode} (writes : h.mode p = some .write)
    (locked : h.mode q = some m) (other : q ≠ p) : False := by
  apply other (h.eq_of_write p q writes _)
  rw [locked]
  exact Option.some_ne_none m

end Holders

/-! ### A directory and its inodes -/

/-- Names link to inodes; an inode outlives its name while a process has it open. -/
structure Directory (N α : Type) where
  names : Finset N
  link : N → Option Nat
  content : Nat → List α
  next : Nat
  link_lt : ∀ n i, link n = some i → i < next
  link_injective : ∀ m n i, link m = some i → link n = some i → m = n
  mem_names : ∀ n i, link n = some i → n ∈ names

namespace Directory

variable {N α : Type} [DecidableEq N]

def empty : Directory N α where
  names := ∅
  link _ := none
  content _ := []
  next := 0
  link_lt := by intro n i found; cases found
  link_injective := by intro m n i found; cases found
  mem_names := by intro n i found; cases found

theorem link_update {link : N → Option Nat} {m n : N} {new : Option Nat} {i : Nat}
    (found : update link n new m = some i) : m = n ∧ new = some i ∨ m ≠ n ∧ link m = some i := by
  by_cases same : m = n
  · rw [same, update_self] at found
    exact .inl ⟨same, found⟩
  · exact .inr ⟨same, (update_of_ne same _ _).symm.trans found⟩

/-- Link a name that is not in use to a fresh empty file. -/
def create (d : Directory N α) (n : N) : Directory N α where
  names := insert n d.names
  link := update d.link n (some d.next)
  content := update d.content d.next []
  next := d.next + 1
  link_lt := by
    intro m i found
    rcases link_update found with ⟨_, ⟨⟩⟩ | ⟨_, old⟩
    · exact Nat.lt_succ_self _
    · exact Nat.lt_succ_of_lt (d.link_lt m i old)
  link_injective := by
    intro m m' i found found'
    rcases link_update found with ⟨rfl, ⟨⟩⟩ | ⟨_, old⟩ <;> rcases link_update found' with ⟨same, ⟨⟩⟩ | ⟨_, old'⟩
    · exact same.symm
    · exact absurd (d.link_lt _ _ old') (Nat.lt_irrefl _)
    · exact absurd (d.link_lt _ _ old) (Nat.lt_irrefl _)
    · exact d.link_injective m m' i old old'
  mem_names := by
    intro m i found
    rcases link_update found with ⟨rfl, _⟩ | ⟨_, old⟩
    · exact mem_insert_self m _
    · exact mem_insert_of_mem (d.mem_names m i old)

/-- `open` with `O_CREAT`: the file of that name, made when there is none. -/
def openOrCreate (d : Directory N α) (n : N) : Directory N α × Nat :=
  match d.link n with
  | some i => (d, i)
  | none => (d.create n, d.next)

theorem link_update_none {link : N → Option Nat} {m n : N} {i : Nat}
    (found : update link n none m = some i) : m ≠ n ∧ link m = some i :=
  (link_update found).resolve_left nofun

def unlink (d : Directory N α) (n : N) : Directory N α where
  names := d.names.erase n
  link := update d.link n none
  content := d.content
  next := d.next
  link_lt m i found := d.link_lt m i (link_update_none found).2
  link_injective m m' i found found' :=
    d.link_injective m m' i (link_update_none found).2 (link_update_none found').2
  mem_names m i found :=
    mem_erase.mpr ⟨(link_update_none found).1, d.mem_names m i (link_update_none found).2⟩

/-- Overwrite from an offset that is not past the end of the file. -/
def write (d : Directory N α) (i offset : Nat) (data : List α) : Directory N α :=
  let old := d.content i
  let new := old.take offset ++ data ++ old.drop (offset + data.length)
  { d with content := update d.content i new }

variable (d : Directory N α)

theorem link_unlink {m n : N} {i : Nat}
    (found : (d.unlink n).link m = some i) : m ≠ n ∧ d.link m = some i :=
  link_update_none found

theorem link_unlink_of_ne {m n : N} (other : m ≠ n) : (d.unlink n).link m = d.link m :=
  update_of_ne other _ _

omit [DecidableEq N] in
theorem content_write_of_ne (i j offset : Nat) (data : List α) (other : j ≠ i) :
    (d.write i offset data).content j = d.content j :=
  update_of_ne other _ _

omit [DecidableEq N] in
theorem content_write_end {i offset : Nat} (data : List α) (atEnd : offset = (d.content i).length) :
    (d.write i offset data).content i = d.content i ++ data := by
  simp [write, atEnd]

omit [DecidableEq N] in
theorem content_write_ne_nil (i j offset : Nat) (data : List α) (some_ : data ≠ [])
    (before : d.content j ≠ []) : (d.write i offset data).content j ≠ [] := by
  by_cases same : j = i
  · subst same
    simp [write, some_]
  · rw [content_write_of_ne d i j offset data same]
    exact before

/-! ### Opening a name -/

theorem link_openOrCreate (n : N) : (d.openOrCreate n).1.link n = some (d.openOrCreate n).2 := by
  unfold openOrCreate
  split
  next i found => exact found
  next => exact update_self _ _ _

theorem openOrCreate_keeps_link (m n : N) {i : Nat} (found : d.link m = some i) :
    (d.openOrCreate n).1.link m = some i := by
  unfold openOrCreate
  split
  next => exact found
  next absent =>
    have other : m ≠ n := by
      intro same
      rw [same, absent] at found
      cases found
    exact (update_of_ne other _ _).trans found

theorem openOrCreate_keeps_content (n : N) (i : Nat) (known : i < d.next) :
    (d.openOrCreate n).1.content i = d.content i := by
  unfold openOrCreate
  split
  next => rfl
  next => exact update_of_ne (Nat.ne_of_lt known) _ _

theorem next_le_openOrCreate (n : N) : d.next ≤ (d.openOrCreate n).1.next := by
  unfold openOrCreate
  split
  next => exact Nat.le_refl _
  next => exact Nat.le_succ _

/-- A link to an inode that was there before was there before. -/
theorem openOrCreate_link_old {m n : N} {i : Nat} (known : i < d.next)
    (found : (d.openOrCreate n).1.link m = some i) : d.link m = some i := by
  unfold openOrCreate at found
  split at found
  next => exact found
  next =>
    rcases link_update found with ⟨_, ⟨⟩⟩ | ⟨_, old⟩
    · exact absurd known (Nat.lt_irrefl _)
    · exact old

/-- The only inode that opening can add is the one it returns. -/
theorem openOrCreate_inode (n : N) (i : Nat)
    (known : i < (d.openOrCreate n).1.next) : i < d.next ∨ i = (d.openOrCreate n).2 := by
  unfold openOrCreate at known ⊢
  split at known
  next => exact .inl known
  next => exact Nat.lt_succ_iff_lt_or_eq.mp known

end Directory

end SharedFiles
