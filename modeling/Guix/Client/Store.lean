import Guix.Client.Derivations

/-!
# Store paths of the client

The functions of `(guix store)` and `(guix base32)` that compute the path of a store item.
-/

namespace Guix.Client

/-- `compressed-hash`. -/
def compressedLoop (bv : Bytes) (size : Nat) (new : Bytes) (i : Nat) : Nat → Bytes
  | 0 => new
  | left + 1 =>
    let j := i % size
    compressedLoop bv size (new.set j (new.getD j 0 ^^^ bv.getD i 0)) (i + 1) left

def compressedHash (bv : Bytes) (size : Nat) : Bytes :=
  compressedLoop bv size (List.replicate size 0) 0 bv.length

/-- `(bit-field n start end)`. -/
def bitField (n start stop : Nat) : Nat := n >>> start &&& (2 ^ (stop - start) - 1)

theorem bitField_eq (n start stop : Nat) : bitField n start stop = n / 2 ^ start % 2 ^ (stop - start) := by
  rw [bitField, Nat.and_two_pow_sub_one_eq_mod, Nat.shiftRight_eq_div_pow]

/-- `bytevector-quintet-ref-right`: one procedure for each value of `index` modulo 8. -/
def quintetRefRight (bv : Bytes) (index : Nat) : Nat :=
  let offset := index * 5 / 8
  let ref := (bv.getD offset 0).toNat
  let next := if offset + 1 ≥ bv.length then 0 else (bv.getD (offset + 1) 0).toNat
  match index % 8 with
  | 0 => bitField ref 0 5
  | 1 => bitField ref 5 8 ||| bitField next 0 2 <<< 3
  | 2 => bitField ref 2 7
  | 3 => bitField ref 7 8 ||| bitField next 0 4 <<< 1
  | 4 => bitField ref 4 8 ||| bitField next 0 1 <<< 4
  | 5 => bitField ref 1 6
  | 6 => bitField ref 6 8 ||| bitField next 0 3 <<< 2
  | _ => bitField ref 3 8

/-- `bytevector-quintet-length`. -/
def quintetLength (bv : Bytes) : Nat := (bv.length * 8 + 4) / 5

def nixBase32Chars : List Char := str "0123456789abcdfghijklmnpqrsvwxyz"

/-- The loop of `bytevector-quintet-fold-right`, which conses the characters. -/
def foldQuintets (bv : Bytes) : Nat → List Char → List Char
  | 0, r => r
  | j + 1, r => foldQuintets bv j (nixBase32Chars.getD (quintetRefRight bv j) '0' :: r)

/-- `bytevector->nix-base32-string`. -/
def nixBase32String (bv : Bytes) : Str := (foldQuintets bv (quintetLength bv) []).reverse

section Paths

variable (sha256 : Sha256) (storePrefix : Str)

/-- `sha256` of `(gcrypt hash)`. -/
def sha256Bytes (bv : Bytes) : Bytes := (sha256 bv).1.hash

def storePath (type : Str) (hash : Bytes) (name : Str) : Str :=
  let s := type ++ str ":sha256:" ++ base16String hash ++ str ":" ++ storePrefix ++ str ":" ++ name
  let h := sha256Bytes sha256 (encode s)
  let c := compressedHash h 20
  storePrefix ++ str "/" ++ nixBase32String c ++ str "-" ++ name

def outputPath (output : Str) (hash : Bytes) (name : Str) : Str :=
  storePath sha256 storePrefix (str "output:" ++ output) hash
    (if output = str "out" then name else name ++ str "-" ++ output)

def fixedOutputPath (name : Str) (hash : Bytes) (output hashAlgo : Str) (recursive : Bool) : Str :=
  if recursive ∧ hashAlgo = str "sha256" then storePath sha256 storePrefix (str "source") hash name
  else
    let tag := str "fixed:" ++ output ++ str ":" ++ (if recursive then str "r:" else []) ++ hashAlgo
      ++ str ":" ++ base16String hash ++ str ":"
    storePath sha256 storePrefix (str "output:" ++ output) (sha256Bytes sha256 (encode tag)) name

end Paths

end Guix.Client
