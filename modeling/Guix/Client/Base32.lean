import Guix.Client.Store
import Mathlib.Data.Nat.Bitwise

/-!
# Reading base-32 strings

`nix-base32-string->bytevector` of `(guix base32)`. The contents of a new bytevector are
unspecified; they are given by `memory`.
-/

namespace Guix.Client

inductive Base32Error
  | invalidBase32Character (character : Char) (string : Str)
  | outOfRange
  deriving DecidableEq, Repr

/-- `setq!`: bits `start` to `stop` of a byte; `Nat.ldiff` leaves out the bits of the mask, so
that this is `(bitwise-merge m w v)`. -/
def setq (bv : Bytes) (offset start stop value : Nat) : Except Base32Error Bytes :=
  if offset < bv.length then
    let v := (bv.getD offset 0).toNat
    let w := value <<< start
    let m := (2 ^ stop - 1) ^^^ (2 ^ start - 1)
    .ok (bv.set offset (UInt8.ofNat (m &&& w ||| Nat.ldiff v m)))
  else .error .outOfRange

/-- The second assignment of a quintet that lies in two bytes, if there is another byte. -/
def setqNext (bv : Bytes) (offset stop value : Nat) : Except Base32Error Bytes :=
  if offset + 1 = bv.length then .ok bv else setq bv (offset + 1) 0 stop value

/-- `bytevector-quintet-set-right!`: one procedure for each value of `index` modulo 8. -/
def quintetSetRight (bv : Bytes) (index quintet : Nat) : Except Base32Error Bytes :=
  let offset := index * 5 / 8
  let value := quintet &&& 0x1f
  match index % 8 with
  | 0 => setq bv offset 0 5 value
  | 1 => do setqNext (← setq bv offset 5 8 (bitField value 0 3)) offset 2 (bitField value 3 5)
  | 2 => setq bv offset 2 7 value
  | 3 => do setqNext (← setq bv offset 7 8 (bitField value 0 1)) offset 4 (bitField value 1 5)
  | 4 => do setqNext (← setq bv offset 4 8 (bitField value 0 4)) offset 1 (bitField value 4 5)
  | 5 => setq bv offset 1 6 value
  | 6 => do setqNext (← setq bv offset 6 8 (bitField value 0 2)) offset 3 (bitField value 2 5)
  | _ => setq bv offset 3 8 value

/-- The procedure that `string-fold-right` applies to the characters, the last one first. -/
def unfoldRight (f : Char → Except Base32Error Nat) : Str → Nat → Bytes → Except Base32Error Bytes
  | [], _, bv => .ok bv
  | chr :: rest, index, bv => do
    let quintet ← f chr
    let bv ← quintetSetRight bv index quintet
    unfoldRight f rest (index + 1) bv

def makeBytevector (memory : Nat → UInt8) (length : Nat) : Bytes := (List.range length).map memory

/-- `base32-string-unfold-right`. -/
def base32StringUnfoldRight (memory : Nat → UInt8) (f : Char → Except Base32Error Nat) (s : Str) :
    Except Base32Error Bytes :=
  unfoldRight f s.reverse 0 (makeBytevector memory (s.length * 5 / 8))

/-- The procedure that returns the quintet of a character of `s`. -/
def charToValue (s : Str) (chr : Char) : Except Base32Error Nat :=
  match nixBase32Chars.idxOf? chr with
  | some value => .ok value
  | none => .error (.invalidBase32Character chr s)

/-- `nix-base32-string->bytevector`. -/
def nixBase32StringToBytevector (memory : Nat → UInt8) (s : Str) : Except Base32Error Bytes :=
  base32StringUnfoldRight memory (charToValue s) s

end Guix.Client
