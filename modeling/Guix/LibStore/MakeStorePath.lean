import Guix.LibStore.StorePaths
import Guix.LibUtil.Hash

/-!
# Names in the store

`compressHash` and `printHash32` of `hash.cc`, and the functions of `store-api.cc` that
compute the path of a store item.
-/

namespace Guix

open List

/-! ### Base 32 -/

/-- The bytes of `compressHash(hash, newSize)`. -/
def compressHash (hash : Bytes) (newSize : Nat) : Bytes :=
  (range hash.length).foldl
    (fun h i => h.modify (i % newSize) (· ^^^ hash.getD i 0)) (replicate newSize 0)

def hashLength32 (hashSize : Nat) : Nat := (hashSize * 8 - 1) / 5 + 1

def base32Chars : Bytes := ascii "0123456789abcdfghijklmnpqrsvwxyz"

/-- The five bits that `printHash32` prints as its character `n`. -/
def quintet (hash : Bytes) (n : Nat) : Nat :=
  let b := n * 5
  let i := b / 8
  let j := b % 8
  let c := (hash.getD i 0).toNat >>> j
    ||| (if i ≥ hash.length - 1 then 0 else (hash.getD (i + 1) 0).toNat <<< (8 - j))
  c % 2 ^ 8 &&& 0x1f

def printHash32 (hash : Bytes) : Bytes :=
  (range (hashLength32 hash.length)).reverse.map fun n => base32Chars.getD (quintet hash n) 0

/-! ### The digits of a compressed hash -/

theorem length_compressHash (hash : Bytes) (newSize : Nat) :
    (compressHash hash newSize).length = newSize := by
  have keeps : ∀ (l : List Nat) (h : Bytes),
      (l.foldl (fun h i => h.modify (i % newSize) (· ^^^ hash.getD i 0)) h).length = h.length := by
    intro l
    induction l with
    | nil => exact fun _ => rfl
    | cons i l ih =>
      intro h
      rw [foldl_cons, ih, length_modify]
  rw [compressHash, keeps, length_replicate]

theorem mem_printHash32 (hash : Bytes) (b : UInt8) (isDigit : b ∈ printHash32 hash) :
    b ∈ base32Chars := by
  have digits : ∀ n : Fin 32, base32Chars.getD n.val 0 ∈ base32Chars := by decide
  obtain ⟨n, _, rfl⟩ := mem_map.mp isDigit
  have small : quintet hash n < 32 := Nat.lt_of_le_of_lt Nat.and_le_right (by decide)
  exact digits ⟨quintet hash n, small⟩

theorem length_printHash32 (hash : Bytes) (length : hash.length = 20) : (printHash32 hash).length = 32 := by
  rw [printHash32, length_map, length_reverse, length_range, length]
  rfl

namespace LibStore

inductive NameError
  | dot (name : Bytes)
  | character (c : UInt8) (name : Bytes)
  | notInStore (path : Path)
  | outOfRange
  deriving DecidableEq

def validNameChar (c : UInt8) : Bool :=
  (65 ≤ c && c ≤ 90) || (97 ≤ c && c ≤ 122) || (48 ≤ c && c ≤ 57) || (ascii "+-._?=").contains c

def checkStoreName (name : Bytes) : Except NameError Unit :=
  if name.take 1 = ascii "." then .error (.dot name)
  else
    match name.find? fun c => !validNameChar c with
    | some c => .error (.character c name)
    | none => .ok ⟨⟩

section Paths

variable (sha256 : Sha256) (nixStore : Path)

def makeStorePath (type : Bytes) (hash : Hash) (name : Bytes) : Except NameError Path := do
  let s := type ++ ascii ":sha256:" ++ printHash hash ++ ascii ":" ++ nixStore ++ ascii ":" ++ name
  checkStoreName name
  return nixStore ++ ascii "/" ++ printHash32 (compressHash (hashString sha256 s).1.hash 20)
    ++ ascii "-" ++ name

def makeOutputPath (id : Bytes) (hash : Hash) (name : Bytes) : Except NameError Path :=
  makeStorePath sha256 nixStore (ascii "output:" ++ id) hash
    (name ++ if id = ascii "out" then [] else ascii "-" ++ id)

def makeFixedOutputPath (recursive : Bool) (hashAlgo : HashType) (hash : Hash) (name : Bytes) :
    Except NameError Path :=
  if hashAlgo = .sha256 ∧ recursive then makeStorePath sha256 nixStore (ascii "source") hash name
  else
    makeStorePath sha256 nixStore (ascii "output:out")
      (hashString sha256 (ascii "fixed:out:" ++ (if recursive then ascii "r:" else [])
        ++ printHashType hashAlgo ++ ascii ":" ++ printHash hash ++ ascii ":")).1 name

/-- The references are part of the type. -/
def computeStorePathForText (name s : Bytes) (references : List Path) : Except NameError Path :=
  makeStorePath sha256 nixStore (ascii "text" ++ references.flatMap (ascii ":" ++ ·))
    (hashString sha256 s).1 name

end Paths

/-- The substring throws `std::out_of_range` when the path is too short. -/
def storePathToName (nixStore path : Path) : Except NameError Bytes :=
  if isStorePath nixStore path then
    if nixStore.length + 34 ≤ path.length then .ok (path.drop (nixStore.length + 34))
    else .error .outOfRange
  else .error (.notInStore path)

/-! ### What the functions return -/

theorem checkStoreName_ok (name : Bytes) (accepted : checkStoreName name = .ok ⟨⟩) :
    ∀ b ∈ name, validNameChar b := by
  intro b isByte
  by_contra invalid
  rw [checkStoreName] at accepted
  split at accepted
  · cases accepted
  · cases found : name.find? fun c => !validNameChar c with
    | none =>
      have valid := find?_eq_none.mp found b isByte
      exact invalid (by simpa using valid)
    | some c =>
      rw [found] at accepted
      cases accepted

theorem makeStorePath_ok {sha256 : Sha256} {nixStore : Path} {type : Bytes} {hash : Hash} {name : Bytes}
    {path : Path} (made : makeStorePath sha256 nixStore type hash name = .ok path) :
    checkStoreName name = .ok ⟨⟩ ∧
      ∃ digits, path = nixStore ++ ascii "/" ++ digits ++ ascii "-" ++ name ∧
        digits.length = 32 ∧ ∀ b ∈ digits, b ∈ Guix.base32Chars := by
  simp only [makeStorePath] at made
  cases accepted : checkStoreName name with
  | error e =>
    rw [accepted] at made
    cases made
  | ok _ =>
    rw [accepted] at made
    cases made
    exact ⟨rfl, _, rfl, length_printHash32 _ (length_compressHash _ _), mem_printHash32 _⟩

end LibStore

end Guix
