import Guix.System.Accounts
import Guix.Lib.Fallible
import Mathlib.Data.List.Pairwise
import Mathlib.Data.List.Nodup

/-!
# Identifiers of accounts

All identifiers in use or requested are reserved before the first one is allocated, so a new
identifier clashes with no other. Requested identifiers are reserved but so are those of the
current database that an account keeps: two accounts share an identifier exactly when one
requests what the other has.
-/

namespace Guix.System

open List Fallible

open Guix.Client (Str str)

/-! ### Searching -/

theorem allocateLoop_some (system : Bool) (ids : List Int) (fuel : Nat) (start id : Int)
    (found : allocateLoop system ids fuel start = some id) : id ∉ ids := by
  induction fuel generalizing start with
  | zero => simp [allocateLoop] at found
  | succ fuel ih =>
    rw [allocateLoop] at found
    split at found
    next => exact ih _ found
    next free =>
      cases found
      exact free

variable {id : Int}

theorem allocateId_ok {assignment assignment' : Allocation} {system : Bool}
    (ran : allocateId assignment system = .ok (assignment', id)) :
    id ∉ assignment.ids ∧ assignment'.ids = id :: assignment.ids := by
  rw [allocateId] at ran
  split at ran
  next => cases ran
  next found isFound =>
    cases ran
    refine ⟨allocateLoop_some _ _ _ _ _ isFound, ?_⟩
    split
    next => rfl
    next => rfl

@[simp]
theorem mem_reserveIds (allocation : Allocation) (ids : List Int) (skip : Bool) (id : Int) :
    id ∈ (reserveIds allocation ids skip).ids ↔ id ∈ ids ∨ id ∈ allocation.ids := by
  simp [reserveIds]

/-! ### The property -/

variable {name : Str} {reserved : Int → Prop} {taken : List Int}

section Property

variable {A E : Type} (kind : AccountKind A E)

/-- What the entry of an account may have for its identifier. -/
structure EntryOf (current : List E) (account : A) (entry : E) : Prop where
  name : kind.entryName entry = kind.name account
  honoured : ∀ id, kind.requestedId account = some id → kind.entryId entry = id
  keptOrNew : kind.requestedId account = none →
    (∃ previous ∈ current, kind.entryName previous = kind.name account ∧
      kind.entryId previous = kind.entryId entry) ∨
    ∀ previous ∈ current, kind.entryId previous ≠ kind.entryId entry

/-- The entries are those of the accounts, under pairwise distinct identifiers. -/
structure ProperEntries (accounts : List A) (current entries : List E) : Prop where
  distinct : (entries.map kind.entryId).Nodup
  entries : Forall₂ (EntryOf kind current) accounts entries

/-- Names and identifiers identify the accounts and the entries of the current database. -/
structure Consistent (accounts : List A) (current : List E) : Prop where
  names : (accounts.map kind.name).Nodup
  requested : (accounts.filterMap kind.requestedId).Nodup
  currentNames : (current.map kind.entryName).Nodup
  currentIds : (current.map kind.entryId).Nodup

/-- No account requests an identifier that another account, which requests none, has in the
current database. -/
def Undisputed (accounts : List A) (current : List E) : Prop :=
  ∀ account ∈ accounts, kind.requestedId account = none →
    ∀ previous ∈ current, kind.entryName previous = kind.name account →
      ∀ other ∈ accounts, kind.requestedId other ≠ some (kind.entryId previous)

/-! ### One account -/

variable {current : List E}

theorem previousEntry_some {previous : E} (found : previousEntry kind current name = some previous) :
    previous ∈ current ∧ kind.entryName previous = name := by
  have isNamed := find?_some found
  exact ⟨mem_reverse.mp (mem_of_find?_eq_some found), by simpa using isNamed⟩

theorem previousEntry_none (notFound : previousEntry kind current name = none) :
    ∀ previous ∈ current, kind.entryName previous ≠ name := by
  rw [previousEntry, lookupProcedure, find?_eq_none] at notFound
  intro previous member
  simpa using notFound previous (mem_reverse.mpr member)

/-- Where the identifier of an account comes from. -/
inductive Source (current : List E) (reserved : Int → Prop) (account : A) (id : Int) : Prop
  | requested (isRequested : kind.requestedId account = some id)
  | previous (entry : E) (notRequested : kind.requestedId account = none) (member : entry ∈ current)
      (name : kind.entryName entry = kind.name account) (same : kind.entryId entry = id)
  | new (notRequested : kind.requestedId account = none)
      (noEntry : ∀ entry ∈ current, kind.entryName entry ≠ kind.name account) (free : ¬ reserved id)

variable {account : A}

theorem chooseId_ok {allocation allocation' : Allocation}
    (inUse : ∀ entry ∈ current, kind.entryId entry ∈ allocation.ids)
    (ran : chooseId kind allocation (kind.requestedId account)
      (previousEntry kind current (kind.name account)) (kind.isSystem account) = .ok (allocation', id)) :
    Source kind current (· ∈ allocation.ids) account id ∧ id ∈ allocation'.ids ∧
      ∀ taken ∈ allocation.ids, taken ∈ allocation'.ids := by
  unfold chooseId at ran
  split at ran
  next isRequested =>
    cases ran
    exact ⟨.requested isRequested, by simp, fun taken member => by simp [member]⟩
  next previous notRequested found =>
    cases ran
    obtain ⟨member, name⟩ := previousEntry_some kind found
    exact ⟨.previous previous notRequested member name rfl, inUse previous member, fun _ h => h⟩
  next notRequested notFound =>
    obtain ⟨free, ids⟩ := allocateId_ok ran
    rw [ids]
    exact ⟨.new notRequested (previousEntry_none kind notFound) free, mem_cons_self,
      fun taken member => mem_cons_of_mem id member⟩

theorem Source.mono {taken : Int → Prop} (source : Source kind current taken account id)
    (fewer : ∀ id, reserved id → taken id) : Source kind current reserved account id := by
  cases source with
  | requested isRequested => exact .requested isRequested
  | previous entry notRequested member name same =>
    exact .previous entry notRequested member name same
  | new notRequested noEntry free =>
    exact .new notRequested noEntry fun isReserved => free (fewer id isReserved)

theorem Source.eq_of_requested (source : Source kind current reserved account id) {id' : Int}
    (requested : kind.requestedId account = some id') : id = id' := by
  cases source with
  | requested isRequested => exact Option.some.inj (isRequested.symm.trans requested)
  | previous _ notRequested => simp [notRequested] at requested
  | new notRequested => simp [notRequested] at requested

/-! ### All accounts -/

/-- The entry of an account is made under the account's name and the chosen identifier. -/
def MakesEntries : Prop :=
  ∀ account previous id entry, kind.entry account previous id = .ok entry →
    kind.entryName entry = kind.name account ∧ kind.entryId entry = id

/-- Entries and the sources of their identifiers; two of them clash only when both are
reserved from the start, and a taken identifier is given only when it is reserved. -/
structure Allocated (current : List E) (reserved : Int → Prop) (taken : List Int)
    (accounts : List A) (entries : List E) : Prop where
  sources : Forall₂ (fun account entry => kind.entryName entry = kind.name account ∧
    Source kind current reserved account (kind.entryId entry)) accounts entries
  clashes : entries.Pairwise fun entry other =>
    kind.entryId entry = kind.entryId other → reserved (kind.entryId entry)
  takenReserved : ∀ entry ∈ entries, kind.entryId entry ∈ taken → reserved (kind.entryId entry)

variable {kind}
variable {accounts : List A} {entry : E} {entries : List E}

theorem Allocated.cons {taken' : List Int} (name : kind.entryName entry = kind.name account)
    (source : Source kind current (· ∈ taken) account (kind.entryId entry))
    (isTaken : kind.entryId entry ∈ taken') (grows : ∀ id ∈ taken, id ∈ taken')
    (reservedTaken : ∀ id, reserved id → id ∈ taken)
    (requestedReserved : ∀ id, kind.requestedId account = some id → reserved id)
    (currentReserved : ∀ entry ∈ current, reserved (kind.entryId entry))
    (rest : Allocated kind current reserved taken' accounts entries) :
    Allocated kind current reserved taken (account :: accounts) (entry :: entries) where
  sources := .cons ⟨name, source.mono kind reservedTaken⟩ rest.sources
  clashes := by
    refine pairwise_cons.mpr ⟨?_, rest.clashes⟩
    intro other member same
    rw [same]
    exact rest.takenReserved other member (same ▸ isTaken)
  takenReserved := by
    intro other member otherTaken
    rcases mem_cons.mp member with rfl | inRest
    · cases source with
      | requested isRequested => exact requestedReserved _ isRequested
      | previous previous _ isCurrent _ same => exact same ▸ currentReserved previous isCurrent
      | new _ _ free => exact absurd otherTaken free
    · exact rest.takenReserved other inRest (grows _ otherTaken)

theorem allocateFold_ok (makes : MakesEntries kind)
    (currentReserved : ∀ entry ∈ current, reserved (kind.entryId entry)) (accounts : List A)
    (requestedReserved : ∀ account ∈ accounts, ∀ id, kind.requestedId account = some id → reserved id)
    (result : List E) (allocation : Allocation) (reservedTaken : ∀ id, reserved id → id ∈ allocation.ids)
    {out : List E} (ran : allocateFold kind current accounts result allocation = .ok out) :
    ∃ entries, out = entries.reverse ++ result ∧
      Allocated kind current reserved allocation.ids accounts entries := by
  induction accounts generalizing result allocation with
  | nil =>
    cases ran
    exact ⟨[], rfl, .nil, .nil, by simp⟩
  | cons account accounts ih =>
    obtain ⟨⟨allocation', id⟩, chosen, ran⟩ := bind_ok.mp ran
    obtain ⟨entry, made, ran⟩ := bind_ok.mp ran
    obtain ⟨name, rfl⟩ := makes _ _ _ _ made
    obtain ⟨source, isTaken, grows⟩ :=
      chooseId_ok kind (fun entry member => reservedTaken _ (currentReserved entry member)) chosen
    obtain ⟨entries, rfl, rest⟩ := ih
      (forall_mem_cons.mp requestedReserved).2 (entry :: result)
      allocation' (fun id isReserved => grows id (reservedTaken id isReserved)) ran
    refine ⟨entry :: entries, by simp, ?_⟩
    exact .cons name source isTaken grows reservedTaken
      (requestedReserved account mem_cons_self) currentReserved rest

variable (kind) in
/-- The identifiers that are reserved before the first allocation. -/
def Reserved (accounts : List A) (current : List E) (id : Int) : Prop :=
  id ∈ accounts.filterMap kind.requestedId ∨ id ∈ current.map kind.entryId

theorem allocateEntries_ok (makes : MakesEntries kind)
    (ran : allocateEntries kind accounts current = .ok entries) :
    Allocated kind current (Reserved kind accounts current)
      (initialAllocation kind accounts current).ids accounts entries := by
  obtain ⟨out, ran, returned⟩ := bind_ok.mp ran
  have reservedTaken : ∀ id, Reserved kind accounts current id →
      id ∈ (initialAllocation kind accounts current).ids := by
    intro id isReserved
    rw [initialAllocation, mem_reserveIds, mem_reserveIds]
    exact isReserved.imp_right Or.inl
  obtain ⟨made, rfl, allocated⟩ := allocateFold_ok makes
    (fun entry member => Or.inr (mem_map_of_mem member)) accounts
    (fun account member id requested => Or.inl (mem_filterMap.mpr ⟨account, member, requested⟩))
    [] _ reservedTaken ran
  cases returned
  rw [append_nil, reverse_reverse]
  exact allocated

/-! ### Distinct identifiers -/

theorem Allocated.source_of_mem (allocated : Allocated kind current reserved taken accounts entries)
    (member : entry ∈ entries) :
    ∃ account ∈ accounts, kind.entryName entry = kind.name account ∧
      Source kind current reserved account (kind.entryId entry) :=
  List.Forall₂.exists_of_mem (R := fun entry account => kind.entryName entry = kind.name account ∧
    Source kind current reserved account (kind.entryId entry)) allocated.sources.flip member

theorem Allocated.entryNames (allocated : Allocated kind current reserved taken accounts entries) :
    accounts.map kind.name = entries.map kind.entryName := by
  apply forall₂_eq_eq_eq.le
  rw [forall₂_map_left_iff, forall₂_map_right_iff]
  exact allocated.sources.imp fun _ _ made => made.1.symm

section

variable (consistent : Consistent kind accounts current)
include consistent

theorem Consistent.eq_of_requestedId {other : A} (member : account ∈ accounts)
    (otherMember : other ∈ accounts) (requested : kind.requestedId account = some id)
    (otherRequested : kind.requestedId other = some id) : account = other := by
  by_contra different
  let Apart (account other : A) : Prop := ∀ id, kind.requestedId account = some id →
    ∀ id', kind.requestedId other = some id' → id ≠ id'
  have pairwise : accounts.Pairwise Apart := pairwise_filterMap.mp consistent.requested
  have symmetric : Std.Symm Apart :=
    ⟨fun _ _ apart id isId id' isId' same => apart id' isId' id isId same.symm⟩
  exact pairwise.forall member otherMember different id requested id otherRequested rfl

/-- Two accounts with one reserved identifier: one of them keeps what the other requests. -/
theorem eq_name_of_sources
    (undisputed : Undisputed kind accounts current) {other : A} (member : account ∈ accounts)
    (otherMember : other ∈ accounts) (isReserved : Reserved kind accounts current id)
    (source : Source kind current (Reserved kind accounts current) account id)
    (otherSource : Source kind current (Reserved kind accounts current) other id) :
    kind.name account = kind.name other := by
  cases source with
  | requested isRequested =>
    cases otherSource with
    | requested isRequested' =>
      rw [consistent.eq_of_requestedId member otherMember isRequested isRequested']
    | previous entry notRequested isCurrent name same =>
      exact absurd (same ▸ isRequested) (undisputed other otherMember notRequested entry isCurrent name
        account member)
    | new _ _ free => exact absurd isReserved free
  | previous entry notRequested isCurrent name same =>
    cases otherSource with
    | requested isRequested =>
      exact absurd (same ▸ isRequested) (undisputed account member notRequested entry isCurrent name
        other otherMember)
    | previous entry' _ isCurrent' name' same' =>
      have sameEntry : entry = entry' :=
        inj_on_of_nodup_map consistent.currentIds isCurrent isCurrent' (same.trans same'.symm)
      rw [← name, ← name', sameEntry]
    | new _ _ free => exact absurd isReserved free
  | new _ _ free => exact absurd isReserved free

section

variable (allocated : Allocated kind current (Reserved kind accounts current) taken accounts entries)
include allocated

theorem Allocated.nodup (undisputed : Undisputed kind accounts current) :
    (entries.map kind.entryId).Nodup := by
  have names : (entries.map kind.entryName).Nodup := allocated.entryNames.symm ▸ consistent.names
  refine pairwise_map.mpr ((allocated.clashes.and (pairwise_map.mp names)).imp_of_mem ?_)
  rintro entry other member otherMember ⟨clash, differentNames⟩ same
  obtain ⟨account, isAccount, name, source⟩ := allocated.source_of_mem member
  obtain ⟨account', isAccount', name', source'⟩ := allocated.source_of_mem otherMember
  refine differentNames ?_
  rw [name, name']
  exact eq_name_of_sources consistent undisputed isAccount isAccount' (clash same) source (same ▸ source')

theorem Allocated.undisputed (distinct : (entries.map kind.entryId).Nodup) :
    Undisputed kind accounts current := by
  intro account member notRequested previous isCurrent previousName other otherMember otherRequests
  obtain ⟨entry, isEntry, name, source⟩ := allocated.sources.exists_of_mem member
  obtain ⟨entry', isEntry', name', source'⟩ := allocated.sources.exists_of_mem otherMember
  have kept : kind.entryId entry = kind.entryId previous := by
    cases source with
    | requested isRequested => simp [notRequested] at isRequested
    | previous found _ isFound foundName same =>
      -- names identify the entries of the current database
      have sameEntry : found = previous := inj_on_of_nodup_map consistent.currentNames isFound
        isCurrent (foundName.trans previousName.symm)
      rw [← same, sameEntry]
    | new _ noEntry _ => exact absurd previousName (noEntry previous isCurrent)
  have honoured := source'.eq_of_requested kind otherRequests
  have sameEntry : entry = entry' :=
    inj_on_of_nodup_map distinct isEntry isEntry' (kept.trans honoured.symm)
  have sameAccount : account = other := inj_on_of_nodup_map consistent.names member otherMember
    (by rw [← name, ← name', sameEntry])
  rw [← sameAccount, notRequested] at otherRequests
  cases otherRequests

end

end

theorem entryOf_of_source (name : kind.entryName entry = kind.name account)
    (source : Source kind current (Reserved kind accounts current) account (kind.entryId entry)) :
    EntryOf kind current account entry where
  name := name
  honoured id := source.eq_of_requested kind
  keptOrNew := by
    intro notRequested
    cases source with
    | requested isRequested => simp [notRequested] at isRequested
    | previous previous _ isCurrent previousName same =>
      exact .inl ⟨previous, isCurrent, previousName, same⟩
    | new _ _ free =>
      refine .inr fun previous isCurrent same => free (.inr ?_)
      rw [← same]
      exact mem_map_of_mem isCurrent

theorem properEntries_iff (makes : MakesEntries kind) (consistent : Consistent kind accounts current)
    (ran : allocateEntries kind accounts current = .ok entries) :
    ProperEntries kind accounts current entries ↔ Undisputed kind accounts current := by
  have allocated := allocateEntries_ok makes ran
  constructor
  · intro proper
    exact allocated.undisputed consistent proper.distinct
  · intro undisputed
    exact ⟨allocated.nodup consistent undisputed,
      allocated.sources.imp fun _ _ source => entryOf_of_source source.1 source.2⟩

end Property

/-! ### Users and groups -/

theorem makesEntries_passwdKind (groups : List GroupEntry) : MakesEntries (passwdKind groups) := by
  intro user previous id entry made
  have run : passwordEntry groups user previous id = .ok entry := made
  obtain ⟨gid, _, returned⟩ := bind_ok.mp run
  cases returned
  exact ⟨rfl, rfl⟩

theorem makesEntries_groupKind (members : List (Str × Str)) : MakesEntries (groupKind members) := by
  intro group previous id entry made
  cases made
  exact ⟨rfl, rfl⟩

/-- Accounts have pairwise distinct identifiers, get the ones they request, and keep the
current one or get a new one otherwise, exactly when no account requests what another keeps. -/
theorem allocate_proper_iff_undisputed (users : List UserAccount) (groups : List GroupEntry)
    (currentPasswd entries : List PasswordEntry) (userGroups : List UserGroup) (members : List (Str × Str))
    (currentGroups groupEntries : List GroupEntry) :
    (Consistent (passwdKind groups) users currentPasswd →
      allocatePasswd users groups currentPasswd = .ok entries →
      (ProperEntries (passwdKind groups) users currentPasswd entries ↔
        Undisputed (passwdKind groups) users currentPasswd)) ∧
    (Consistent (groupKind members) userGroups currentGroups →
      allocateGroups userGroups members currentGroups = .ok groupEntries →
      (ProperEntries (groupKind members) userGroups currentGroups groupEntries ↔
        Undisputed (groupKind members) userGroups currentGroups)) := by
  constructor
  · intro consistent ran
    exact properEntries_iff (makesEntries_passwdKind groups) consistent ran
  · intro consistent ran
    exact properEntries_iff (makesEntries_groupKind members) consistent ran

/-- A user who asks for a UID, in a system where another user has one already. -/
def newUser (uid : Int) : UserAccount :=
  { name := ['a'], uid := some uid, group := .number 0, homeDirectory := [], shell := [] }

def oldUser : UserAccount := { name := ['b'], group := .number 0, homeDirectory := [], shell := [] }

def oldEntry : PasswordEntry := { name := ['b'], uid := 1000, gid := 0, directory := [], shell := [] }

def newEntry (uid : Int) : PasswordEntry :=
  { name := ['a'], uid, gid := 0, directory := [], shell := [] }

theorem allocate_proper_twoUsers :
    (allocatePasswd [newUser 1001, oldUser] [] [oldEntry] = .ok [newEntry 1001, oldEntry] ∧
      ProperEntries (passwdKind []) [newUser 1001, oldUser] [oldEntry] [newEntry 1001, oldEntry]) ∧
    allocateGroups [⟨['g'], none, none, true⟩] [(['g'], ['a'])] [] = .ok [⟨['g'], none, 999, [['a']]⟩] ∧
      ProperEntries (groupKind [(['g'], ['a'])]) [⟨['g'], none, none, true⟩] []
        [⟨['g'], none, 999, [['a']]⟩] := by
  have usersRan : allocatePasswd [newUser 1001, oldUser] [] [oldEntry] = .ok [newEntry 1001, oldEntry] := by
    decide
  have groupsRan : allocateGroups [⟨['g'], none, none, true⟩] [(['g'], ['a'])] [] =
      .ok [⟨['g'], none, 999, [['a']]⟩] := by
    decide
  have consistent : Consistent (passwdKind []) [newUser 1001, oldUser] [oldEntry] :=
    ⟨by decide, by decide, by decide, by decide⟩
  have groupsConsistent :
      Consistent (groupKind [(['g'], ['a'])]) [⟨['g'], none, none, true⟩] [] :=
    ⟨by decide, by decide, by decide, by decide⟩
  refine ⟨⟨usersRan, ?_⟩, groupsRan, ?_⟩
  · refine ((allocate_proper_iff_undisputed _ _ _ _ [] [] [] []).1 consistent usersRan).mpr ?_
    rw [Undisputed]
    decide
  · refine ((allocate_proper_iff_undisputed [] [] [] [] _ _ _ _).2 groupsConsistent groupsRan).mpr ?_
    rw [Undisputed]
    decide

/-- A new user takes the UID that the other one keeps. -/
theorem allocatePasswd_sharedUid :
    Consistent (passwdKind []) [newUser 1000, oldUser] [oldEntry] ∧
      allocatePasswd [newUser 1000, oldUser] [] [oldEntry] = .ok [newEntry 1000, oldEntry] ∧
      ¬ ProperEntries (passwdKind []) [newUser 1000, oldUser] [oldEntry] [newEntry 1000, oldEntry] := by
  refine ⟨⟨by decide, by decide, by decide, by decide⟩, by decide, ?_⟩
  intro proper
  exact absurd proper.distinct (by decide)

end Guix.System
