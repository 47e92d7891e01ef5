import Guix.System.AccountsCorrectness
import Mathlib.Data.List.Perm.Subperm
import Mathlib.Logic.Function.Iterate
import Mathlib.Order.Nat

/-!
# Ranges of new identifiers

`allocate-id` goes round the range of its kind, so it finds every free identifier there.
`reserve-ids` sets the next candidates without going round: after the last user identifier
comes `idMax`, which is no user identifier but which `allocate-id` hands out when it is free.
-/

namespace Guix.System

open List

/-- The range of the identifiers of a kind. -/
def InRange (system : Bool) (id : Int) : Prop :=
  if system then systemIdMin ≤ id ∧ id ≤ systemIdMax else idMin ≤ id ∧ id < idMax
  deriving Decidable

/-- Where a search may start: `idMax` is no user identifier. -/
def Candidate (system : Bool) (id : Int) : Prop := 
  InRange system id ∨ system = false ∧ id = idMax
  deriving Decidable

/-- The allocations that calls of `reserve-ids` and `allocate-id` lead to. -/
inductive Reachable : Allocation → Prop
  | initial : Reachable {}
  | reserve {allocation : Allocation} (ids : List Int) (skip : Bool) :
      Reachable allocation → Reachable (reserveIds allocation ids skip)
  | allocate {allocation allocation' : Allocation} {system : Bool} {id : Int} :
      Reachable allocation → allocateId allocation system = .ok (allocation', id) →
      Reachable allocation'

def Allocation.next (allocation : Allocation) (system : Bool) : Int :=
  if system then allocation.nextSystemId else allocation.nextId

attribute [grind =] idMin idMax systemIdMin systemIdMax InRange Candidate Allocation.next nextAfter

variable {system : Bool} {ids : List Int} {start id : Int} {allocation : Allocation}

/-! ### Going round -/

theorem inRange_nextAfter (candidate : Candidate system id) :
    InRange system (nextAfter system id) := by
  grind

/-- How many rounds bring the search from one identifier to another. -/
def roundsTo (system : Bool) (target id : Int) : Int :=
  if system then (id - target) % 900 else (target - id) % 59000

theorem nextAfter_reaches {target : Int} (isTarget : InRange system target)
    (inRange : InRange system id) : ∃ n, (nextAfter system)^[n] id = target := by
  induction rounds : (roundsTo system target id).toNat generalizing id with
  | zero =>
    refine ⟨0, ?_⟩
    cases system <;> simp [InRange, roundsTo, idMin, idMax, systemIdMin, systemIdMax] at * <;> omega
  | succ left ih =>
    have nearer : (roundsTo system target (nextAfter system id)).toNat = left := by
      cases system <;>
        simp only [InRange, roundsTo, nextAfter, idMin, idMax, systemIdMin, systemIdMax,
          Bool.false_eq_true, ↓reduceIte] at * <;> omega
    obtain ⟨n, reached⟩ := ih (inRange_nextAfter (.inl inRange)) nearer
    exact ⟨n + 1, reached⟩

/-- The identifiers before the first free one are distinct: from a repeated one the search
would have come to the free one earlier. -/
theorem exists_free_le_length {α : Type} (next : α → α) (first : α) (taken : List α)
    (free : ∃ n, next^[n] first ∉ taken) : ∃ n ≤ taken.length, next^[n] first ∉ taken := by
  classical
  have before : ∀ k < Nat.find free, next^[k] first ∈ taken := fun k lt =>
    not_not.mp (Nat.find_min free lt)
  refine ⟨Nat.find free, ?_, Nat.find_spec free⟩
  have distinct : ((range (Nat.find free)).map (next^[·] first)).Nodup := by
    refine nodup_range.map_on ?_
    suffices ∀ i j, i < j → j < Nat.find free → next^[i] first ≠ next^[j] first by
      intro i lt j lt' same
      grind
    intro i j lt lt' same
    apply Nat.find_spec free
    have shift : Nat.find free = Nat.find free - j + j := by omega
    rw [shift, Function.iterate_add_apply, ← same, ← Function.iterate_add_apply]
    exact before _ (by omega)
  simpa using (distinct.subperm fun x mem => by grind).length_le

theorem allocateLoop_finds (fuel n : Nat) (enough : n < fuel)
    (free : (nextAfter system)^[n] start ∉ ids) : ∃ id, allocateLoop system ids fuel start = some id := by
  fun_induction allocateLoop system ids fuel start generalizing n with
  | case1 => omega
  | case2 fuel start taken ih =>
    cases n with
    | zero => exact absurd taken free
    | succ n => exact ih n (by omega) free
  | case3 _ start => exact ⟨start, rfl⟩

theorem allocateLoop_candidate (fuel : Nat) (candidate : Candidate system start)
    (found : allocateLoop system ids fuel start = some id) : id = start ∨ InRange system id := by
  fun_induction allocateLoop system ids fuel start with
  | case1 => cases found
  | case2 fuel start _ ih =>
    have inRange := inRange_nextAfter candidate
    exact .inr ((ih (.inl inRange) found).elim (· ▸ inRange) fun later => later)
  | case3 => exact .inl (Option.some.inj found).symm

/-! ### The next candidates -/

theorem reduce_bounds (low high : Int) {f : Int → Int → Int} (default : Int) (ids : List Int)
    (choice : ∀ a b, f a b = a ∨ f a b = b) (ofDefault : low ≤ default ∧ default ≤ high)
    (ofIds : ∀ id ∈ ids, low ≤ id ∧ id ≤ high) :
    low ≤ reduce f default ids ∧ reduce f default ids ≤ high := by
  cases ids with
  | nil => exact ofDefault
  | cons first rest =>
    rw [reduce]
    induction rest generalizing first with
    | nil => exact ofIds first mem_cons_self
    | cons id rest ih =>
      refine ih _ ?_
      have := choice id first
      grind

theorem Reachable.candidate (reachable : Reachable allocation) :
    ∀ system, Candidate system (allocation.next system) := by
  induction reachable with
  | initial => decide
  | @reserve allocation ids skip _ ih =>
    cases skip with
    | false => exact ih
    | true =>
      obtain ⟨user, sys⟩ := Bool.forall_bool.mp ih
      -- the lowest system identifier does not count as one: the next is still in range
      have user := reduce_bounds (idMin - 1) (idMax - 1) (f := max) (allocation.nextId - 1)
        (ids.filter isUserId) (by omega) (by grind) (by grind [isUserId])
      have sys := reduce_bounds (systemIdMin + 1) (systemIdMax + 1) (f := min)
        (1 + allocation.nextSystemId) (ids.filter isSystemId) (by omega) (by grind) (by grind [isSystemId])
      grind [reserveIds]
  | @allocate allocation allocation' system' id _ ran ih => 
    rw [allocateId] at ran
    split at ran
    next => cases ran
    next found isFound =>
      cases ran
      have place := allocateLoop_candidate _ (ih system') isFound
      have next : InRange system' (nextAfter system' id) :=
        inRange_nextAfter (place.elim (· ▸ ih system') .inl)
      intro system
      cases system' <;> cases system
      · exact .inl next
      · exact ih _
      · exact ih _
      · exact .inl next

/-! ### The property -/

/-- A search that starts at `idMax` ends there when it is free. -/
theorem allocateId_inRange_iff (allocation : Allocation) (reachable : Reachable allocation)
    (system : Bool) (free : ∃ id, InRange system id ∧ id ∉ allocation.ids) :
    (∃ allocation' id, allocateId allocation system = .ok (allocation', id) ∧
        id ∉ allocation.ids ∧ InRange system id) ↔
      system = true ∨ allocation.nextId ≠ idMax ∨ idMax ∈ allocation.ids := by
  have candidate := reachable.candidate system
  obtain ⟨target, isTarget, isFree⟩ := free
  have reaches : ∃ n, (nextAfter system)^[n] (allocation.next system) ∉ allocation.ids := by
    obtain ⟨n, rfl⟩ := nextAfter_reaches isTarget (inRange_nextAfter candidate)
    exact ⟨n + 1, isFree⟩
  obtain ⟨n, le, notTaken⟩ := exists_free_le_length _ _ _ reaches
  obtain ⟨id, found⟩ := allocateLoop_finds (allocateFuel allocation.ids) n (Nat.lt_succ_of_le le) notTaken
  have isFree := allocateLoop_some _ _ _ _ _ found
  have place := allocateLoop_candidate _ candidate found
  have first : allocation.next system ∉ allocation.ids → id = allocation.next system := by
    grind [allocateFuel, allocateLoop]
  rw [Allocation.next] at found
  simp only [allocateId, found]
  grind

theorem allocateId_inRange_afterReserving :
    ∃ allocation' id, allocateId (reserveIds {} [1000, 59998]) false = .ok (allocation', id) ∧
      id ∉ (reserveIds {} [1000, 59998]).ids ∧ InRange false id :=
  (allocateId_inRange_iff _ (.reserve _ true .initial) false ⟨1001, by decide⟩).mpr (by decide)

/-- The last user identifier is reserved: the next one allocated is 60000. -/
theorem allocateId_outOfRange :
    Reachable (reserveIds {} [59999]) ∧
      (InRange false 1000 ∧ 1000 ∉ (reserveIds {} [59999]).ids) ∧
      (allocateId (reserveIds {} [59999]) false).map (·.2) = .ok 60000 ∧ ¬ InRange false 60000 :=
  ⟨.reserve _ true .initial, by decide, rfl, by decide⟩

end Guix.System
