import Guix.Client.Derivations

/-!
# User and group databases

`allocate-groups` and `allocate-passwd` of `(gnu build accounts)`, with the allocation of the
numeric identifiers. Password entries and group entries are made the same way from user
accounts and user groups: `AccountKind` says what differs.
-/

namespace Guix.System

open Guix.Client (Str str)

def idMin : Int := 1000
def idMax : Int := 60000
def systemIdMin : Int := 100
def systemIdMax : Int := 999

structure Allocation where
  ids : List Int := []
  nextId : Int := idMin
  nextSystemId : Int := systemIdMax

/-- `system-id?`. -/
def isSystemId (id : Int) : Bool := systemIdMin < id && id ≤ systemIdMax

/-- `user-id?`. -/
def isUserId (id : Int) : Bool := idMin ≤ id && id < idMax

inductive AccountError
  | groupNotFound (name : Str)
  /-- All identifiers are taken: the search for the next one never ends. -/
  | neverReturns
  deriving DecidableEq

/-! ### Identifiers -/

/-- The next available identifier, looping if necessary. -/
def nextAfter (system : Bool) (id : Int) : Int :=
  if system then
    if id - 1 < systemIdMin then systemIdMax else id - 1
  else
    if id + 1 ≥ idMax then idMin else id + 1

def allocateLoop (system : Bool) (ids : List Int) : Nat → Int → Option Int
  | 0, _ => none
  | fuel + 1, id => if id ∈ ids then allocateLoop system ids fuel (nextAfter system id) else some id

/-- One round more than there are identifiers taken. -/
def allocateFuel (ids : List Int) : Nat := ids.length + 1

def allocateId (assignment : Allocation) (system : Bool) : Except AccountError (Allocation × Int) :=
  let start := if system then assignment.nextSystemId else assignment.nextId
  match allocateLoop system assignment.ids (allocateFuel assignment.ids) start with
  | none => .error .neverReturns
  | some id =>
    let taken := id :: assignment.ids
    .ok (if system then { assignment with nextSystemId := nextAfter system id, ids := taken }
      else { assignment with nextId := nextAfter system id, ids := taken }, id)

/-- `reduce` of SRFI-1: the default is for the empty list only. -/
def reduce (f : Int → Int → Int) (default : Int) : List Int → Int
  | [] => default
  | first :: rest => rest.foldl (fun result item => f item result) first

def reserveIds (allocation : Allocation) (ids : List Int) (skip : Bool := true) : Allocation where
  nextId :=
    if skip then reduce max (allocation.nextId - 1) (ids.filter isUserId) + 1
    else allocation.nextId
  nextSystemId :=
    if skip then reduce min (1 + allocation.nextSystemId) (ids.filter isSystemId) - 1
    else allocation.nextSystemId
  ids := ids.foldl (fun taken id => id :: taken) allocation.ids

/-! ### Entries -/

section Entries

variable {A E : Type}

/-- Accounts `A` and their entries `E` in a database. -/
structure AccountKind (A E : Type) where
  name : A → Str
  requestedId : A → Option Int
  isSystem : A → Bool
  entryName : E → Str
  entryId : E → Int
  /-- The entry of an account, which had another entry before, under a new identifier. -/
  entry : A → Option E → Int → Except AccountError E

variable (kind : AccountKind A E)

/-- `lookup-procedure`: later elements shadow earlier ones. -/
def lookupProcedure (lst : List E) (key : E → Str) (name : Str) : Option E :=
  lst.reverse.find? fun obj => key obj = name

def previousEntry (current : List E) (name : Str) : Option E :=
  lookupProcedure current kind.entryName name

/-- The identifier of an account: the requested one, the previous one, or a new one. -/
def chooseId (allocation : Allocation) (requestedId : Option Int) (previous : Option E)
    (system : Bool) : Except AccountError (Allocation × Int) :=
  match requestedId, previous with
  | some id, _ => .ok (reserveIds allocation [id], id)
  | none, some previous => .ok (allocation, kind.entryId previous)
  | none, none => allocateId allocation system

/-- The `fold2` over the accounts. -/
def allocateFold (current : List E) :
    List A → List E → Allocation → Except AccountError (List E)
  | [], result, _ => .ok result
  | account :: accounts, result, allocation => do
    let previous := previousEntry kind current (kind.name account)
    let chosen ←
      chooseId kind allocation (kind.requestedId account) previous (kind.isSystem account)
    let entry ← kind.entry account previous chosen.2
    allocateFold current accounts (entry :: result) chosen.1

/-- The identifiers in use and those requested are reserved. -/
def initialAllocation (accounts : List A) (current : List E) : Allocation :=
  reserveIds (reserveIds {} (current.map kind.entryId)) (accounts.filterMap kind.requestedId) false

def allocateEntries (accounts : List A) (current : List E) : Except AccountError (List E) := do
  let result ← allocateFold kind current accounts [] (initialAllocation kind accounts current)
  return result.reverse

end Entries

/-! ### Groups and users -/

structure UserGroup where
  name : Str
  password : Option Str := none
  id : Option Int := none
  isSystem : Bool := false

structure GroupEntry where
  name : Str
  password : Option Str := none
  gid : Int
  members : List Str := []
  deriving DecidableEq

/-- `members` maps group names to member names, the latest first. -/
def groupMembers (members : List (Str × Str)) (name : Str) : List Str :=
  (members.filter fun pair => pair.1 = name).foldl (fun result pair => pair.2 :: result) []

/-- The password of the previous entry is kept. -/
def groupEntry (members : List (Str × Str)) (group : UserGroup) (previous : Option GroupEntry)
    (id : Int) : Except AccountError GroupEntry :=
  .ok { name := group.name
        password := match previous with
          | some previous => previous.password
          | none => group.password
        gid := id
        members := groupMembers members group.name }

def groupKind (members : List (Str × Str)) : AccountKind UserGroup GroupEntry where
  name := UserGroup.name
  requestedId := UserGroup.id
  isSystem := UserGroup.isSystem
  entryName := GroupEntry.name
  entryId := GroupEntry.gid
  entry := groupEntry members

def allocateGroups (groups : List UserGroup) (members : List (Str × Str))
    (currentGroups : List GroupEntry) : Except AccountError (List GroupEntry) :=
  allocateEntries (groupKind members) groups currentGroups

inductive GroupReference
  | number (gid : Int)
  | name (name : Str)

structure UserAccount where
  name : Str
  uid : Option Int := none
  group : GroupReference
  comment : Str := []
  homeDirectory : Str
  shell : Str
  isSystem : Bool := false

structure PasswordEntry where
  name : Str
  password : Str := str "x"
  uid : Int
  gid : Int
  realName : Str := []
  directory : Str
  shell : Str
  deriving DecidableEq

/-- `group-id`. -/
def groupId (groups : List GroupEntry) (name : Str) : Except AccountError Int :=
  match groups.find? fun entry => entry.name = name with
  | some entry => .ok entry.gid
  | none => .error (.groupNotFound name)

def GroupReference.gid (groups : List GroupEntry) : GroupReference → Except AccountError Int
  | .number id => .ok id
  | .name group => groupId groups group

/-- Users may have changed their real name; the shell of the previous entry is not reused. -/
def passwordEntry (groups : List GroupEntry) (user : UserAccount) (previous : Option PasswordEntry)
    (id : Int) : Except AccountError PasswordEntry := do
  let gid ← user.group.gid groups
  return { name := user.name
           uid := id
           gid
           realName := match previous with
             | some previous => if user.isSystem then user.comment else previous.realName
             | none => user.comment
           directory := user.homeDirectory
           shell := user.shell }

def passwdKind (groups : List GroupEntry) : AccountKind UserAccount PasswordEntry where
  name := UserAccount.name
  requestedId := UserAccount.uid
  isSystem := UserAccount.isSystem
  entryName := PasswordEntry.name
  entryId := PasswordEntry.uid
  entry := passwordEntry groups

def allocatePasswd (users : List UserAccount) (groups : List GroupEntry)
    (currentPasswd : List PasswordEntry) : Except AccountError (List PasswordEntry) :=
  allocateEntries (passwdKind groups) users currentPasswd

end Guix.System
