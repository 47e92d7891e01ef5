import Guix.LibStore.MakeStorePath

/-!
# Reading base-32 hashes

`parseHash32` of `hash.cc`.
-/

namespace Guix

inductive Hash32Error
  | assertion
  | digit (s : Bytes)
  deriving DecidableEq, Repr

/-- The assignments to `hash.hash[i]` and `hash.hash[i + 1]`. -/
def setQuintet (hash : Bytes) (n digit : Nat) : Bytes :=
  let b := n * 5
  let i := b / 8
  let j := b % 8
  let low := hash.modify i (· ||| UInt8.ofNat (digit <<< j))
  if i < hash.length - 1 then low.modify (i + 1) (· ||| UInt8.ofNat (digit >>> (8 - j))) else low

@[simp] theorem length_setQuintet (hash : Bytes) (n digit : Nat) :
    (setQuintet hash n digit).length = hash.length := by
  simp only [setQuintet]
  split
  · rw [List.length_modify, List.length_modify]
  · rw [List.length_modify]

/-- The loop of `parseHash32` over the characters of `s`, the last one first. -/
def parseQuintets (s : Bytes) : Bytes → Nat → Hash → Except Hash32Error Hash
  | [], _, hash => .ok hash
  | c :: rest, n, hash =>
    let digit := base32Chars.idxOf c
    if digit ≥ 32 then .error (.digit s)
    else parseQuintets s rest (n + 1)
      ⟨hash.type, setQuintet hash.hash n digit, by rw [length_setQuintet, hash.hashSize]⟩

def parseHash32 (ht : HashType) (s : Bytes) : Except Hash32Error Hash :=
  if s.length = hashLength32 ht.size then parseQuintets s s.reverse 0 (Hash.ofType ht)
  else .error .assertion

end Guix
