import Mathlib.Data.Nat.Bitwise

/-!
# Bits of byte strings

The bits of a byte string are numbered from the lowest bit of the first byte on. A byte
string packs a sequence of digits of `width` bits if its bits are theirs, one digit after
the other; digits past the end of the byte string do not matter.
-/

namespace Bits

open List Option

def bit (bytes : List UInt8) (k : Nat) : Bool := (bytes.getD (k / 8) 0).toNat.testBit (k % 8)

theorem bit_of_le {bytes : List UInt8} {k : Nat} (past : 8 * bytes.length ≤ k) : bit bytes k = false := by
  rw [bit, getD_eq_default _ _ (by omega)]
  exact Nat.zero_testBit _

theorem eq_of_testBit {a b : UInt8} (same : ∀ j < 8, a.toNat.testBit j = b.toNat.testBit j) : a = b := by
  apply UInt8.toNat_inj.mp
  apply Nat.eq_of_testBit_eq
  intro j
  by_cases low : j < 8
  · exact same j low
  · have small : ∀ c : UInt8, c.toNat < 2 ^ j := fun c =>
      Nat.lt_of_lt_of_le c.toNat_lt (Nat.pow_le_pow_right (by decide) (Nat.le_of_not_lt low))
    rw [Nat.testBit_lt_two_pow (small a), Nat.testBit_lt_two_pow (small b)]

theorem ext {x y : List UInt8} (length : x.length = y.length)
    (same : ∀ k < 8 * x.length, bit x k = bit y k) : x = y := by
  apply ext_getElem length
  intro i inside inside'
  apply eq_of_testBit
  intro j low
  have bits := same (8 * i + j) (by omega)
  have byte : (8 * i + j) / 8 = i := by omega
  have position : (8 * i + j) % 8 = j := by omega
  rw [bit, bit, byte, position, getD_eq_getElem _ _ inside, getD_eq_getElem _ _ inside'] at bits
  exact bits

theorem bit_set {bytes : List UInt8} {offset : Nat} (inside : offset < bytes.length) (b : UInt8) (k : Nat) :
    bit (bytes.set offset b) k = if k / 8 = offset then b.toNat.testBit (k % 8) else bit bytes k := by
  simp only [bit, getD_eq_getElem?_getD, getElem?_set]
  by_cases here : offset = k / 8
  · rw [if_pos here, if_pos here.symm, if_pos inside, getD_some]
  · rw [if_neg here, if_neg (Ne.symm here)]

theorem bit_or (bytes : List UInt8) (offset : Nat) (b : UInt8) (k : Nat)
    (inside : k < 8 * bytes.length) :
    bit (bytes.modify offset (· ||| b)) k =
      (bit bytes k || (decide (k / 8 = offset) && b.toNat.testBit (k % 8))) := by
  have byte : k / 8 < bytes.length := by omega
  simp only [bit, getD_eq_getElem?_getD, getElem?_modify, getElem?_eq_getElem byte,
    Option.map_eq_map, map_some, getD_some]
  by_cases here : offset = k / 8
  · simp [here]
  · simp [here, Ne.symm here]

theorem bit_replicate_zero (n k : Nat) : bit (replicate n 0) k = false := by
  rw [bit, getD_eq_getElem?_getD, getElem?_replicate]
  split
  · exact Nat.zero_testBit _
  · exact Nat.zero_testBit _

/-! ### Packed digits -/

/-- Bit `k` of digits that are placed one after the other from the digit `n` on. -/
def digitBit (width : Nat) (digits : List Nat) (n k : Nat) : Option Bool :=
  if n ≤ k / width then digits[k / width - n]?.map (·.testBit (k % width)) else none

@[simp] theorem digitBit_nil (width n k : Nat) : digitBit width [] n k = none := by
  simp [digitBit]

theorem digitBit_cons (width digit : Nat) (digits : List Nat) (n k : Nat) :
    digitBit width (digit :: digits) n k =
      if k / width = n then some (digit.testBit (k % width)) else digitBit width digits (n + 1) k := by
  unfold digitBit
  by_cases here : k / width = n
  · simp [here]
  · rw [if_neg here]
    by_cases after : n ≤ k / width
    · have later : n + 1 ≤ k / width := by omega
      have position : k / width - n = k / width - (n + 1) + 1 := by omega
      rw [if_pos after, if_pos later, position, getElem?_cons_succ]
    · rw [if_neg after, if_neg (by omega)]

/-- The digits after the first one do not meet its bits. -/
theorem digitBit_succ_self {width n k : Nat} (digits : List Nat) (here : k / width = n) :
    digitBit width digits (n + 1) k = none :=
  if_neg (by omega)

def Packs (width : Nat) (digits : List Nat) (bytes : List UInt8) : Prop :=
  ∀ k < 8 * bytes.length, digitBit width digits 0 k = some (bit bytes k)

theorem Packs.unique {width : Nat} {digits : List Nat} {x y : List UInt8} (packs : Packs width digits x)
    (packs' : Packs width digits y) (length : x.length = y.length) : x = y := by
  apply ext length
  intro k inside
  apply some_inj.mp
  rw [← packs k inside, ← packs' k (length ▸ inside)]

theorem digitBit_zero {width k : Nat} {digits : List Nat} (inside : k / width < digits.length) :
    digitBit width digits 0 k = some ((digits.getD (k / width) 0).testBit (k % width)) := by
  rw [digitBit, if_pos (Nat.zero_le _), Nat.sub_zero, getElem?_eq_getElem inside,
    getD_eq_getElem _ _ inside]
  rfl

end Bits
