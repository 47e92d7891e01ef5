import Guix.Client.Store

/-!
# Base 64

`base64-encode` and `base64-decode` of `(guix base64)` as the programs call them: with the usual
alphabet, with padding and without line breaks. What was encoded decodes to the same bytes.
-/

namespace Guix.Client

def base64Alphabet : List Char := str "ABCDEFGHIJKLMNOPQRSTUVWXYZabcdefghijklmnopqrstuvwxyz0123456789+/"

/-- `(string-ref alphabet i)`. -/
def base64Char (i : Nat) : Char := base64Alphabet.getD i 'A'

def base64Encode : Bytes → Str
  | [] => []
  | [a] =>
    let x := a.toNat <<< 16
    [base64Char (bitField x 18 24), base64Char (bitField x 12 18), '=', '=']
  | [a, b] =>
    let x := (a.toNat * 256 + b.toNat) <<< 8
    [base64Char (bitField x 18 24), base64Char (bitField x 12 18), base64Char (bitField x 6 12), '=']
  | a :: b :: c :: rest =>
    let x := (a.toNat * 256 + b.toNat) * 256 + c.toNat
    base64Char (bitField x 18 24) :: base64Char (bitField x 12 18) :: base64Char (bitField x 6 12) ::
      base64Char (bitField x 0 6) :: base64Encode rest

/-- Padding is accepted in the last four characters only. -/
def base64Decode : Str → Option Bytes
  | [] => some []
  | c1 :: c2 :: c3 :: c4 :: rest =>
    match base64Alphabet.idxOf? c1, base64Alphabet.idxOf? c2, base64Alphabet.idxOf? c3,
      base64Alphabet.idxOf? c4 with
    | some i1, some i2, some i3, some i4 =>
      let x := i1 <<< 18 ||| i2 <<< 12 ||| i3 <<< 6 ||| i4
      (base64Decode rest).map fun bytes =>
        UInt8.ofNat (bitField x 16 24) :: UInt8.ofNat (bitField x 8 16) :: UInt8.ofNat (bitField x 0 8) :: bytes
    | some i1, some i2, some i3, none =>
      let x := i1 <<< 18 ||| i2 <<< 12 ||| i3 <<< 6
      if c4 = '=' ∧ rest = [] then some [UInt8.ofNat (bitField x 16 24), UInt8.ofNat (bitField x 8 16)]
      else none
    | some i1, some i2, none, none =>
      let x := i1 <<< 18 ||| i2 <<< 12
      if c3 = '=' ∧ c4 = '=' ∧ rest = [] then some [UInt8.ofNat (bitField x 16 24)] else none
    | _, _, _, _ => none
  | _ => none

/-! ### Decoding what was encoded -/

theorem idxOf?_base64Char {i : Nat} (small : i < 64) : base64Alphabet.idxOf? (base64Char i) = some i := by
  have all : ∀ i : Fin 64, base64Alphabet.idxOf? (base64Char i) = some i.1 := by decide +kernel
  exact all ⟨i, small⟩

theorem idxOf?_padding : base64Alphabet.idxOf? '=' = none := by decide

/-- Sixtuples that stand side by side. -/
theorem shiftLeft_or {high low width : Nat} (small : low < 2 ^ width) :
    high <<< width ||| low = high * 2 ^ width + low := by
  rw [← Nat.shiftLeft_add_eq_or_of_lt small, Nat.shiftLeft_eq]

theorem or_shifts {i1 i2 i3 i4 : Nat} (small2 : i2 < 64) (small3 : i3 < 64) (small4 : i4 < 64) :
    i1 <<< 18 ||| i2 <<< 12 ||| i3 <<< 6 ||| i4 = ((i1 * 64 + i2) * 64 + i3) * 64 + i4 := by
  have last : i3 <<< 6 ||| i4 = i3 * 64 + i4 := shiftLeft_or small4
  have middle : i2 <<< 12 ||| (i3 * 64 + i4) = i2 * 4096 + (i3 * 64 + i4) := shiftLeft_or (by omega)
  have first : i1 <<< 18 ||| (i2 * 4096 + (i3 * 64 + i4)) = i1 * 262144 + (i2 * 4096 + (i3 * 64 + i4)) :=
    shiftLeft_or (by omega)
  rw [Nat.or_assoc, Nat.or_assoc, last, middle, first]
  omega

theorem or_bitFields {x : Nat} (small : x < 2 ^ 24) :
    (x / 2 ^ 18 % 2 ^ 6) <<< 18 ||| (x / 2 ^ 12 % 2 ^ 6) <<< 12 ||| (x / 2 ^ 6 % 2 ^ 6) <<< 6 |||
      x / 2 ^ 0 % 2 ^ 6 = x := by
  rw [or_shifts (by omega) (by omega) (by omega)]
  omega

theorem base64Decode_encode (bytes : Bytes) : base64Decode (base64Encode bytes) = some bytes := by
  induction bytes using base64Encode.induct with
  | case1 => rfl
  | case2 a =>
    have small := a.toNat_lt
    -- the missing sixtuples are zeros
    have whole := @or_bitFields (a.toNat <<< 16) (by rw [Nat.shiftLeft_eq]; omega)
    have third : (a.toNat <<< 16) / 2 ^ 6 % 2 ^ 6 = 0 := by rw [Nat.shiftLeft_eq]; omega
    have fourth : (a.toNat <<< 16) / 2 ^ 0 % 2 ^ 6 = 0 := by rw [Nat.shiftLeft_eq]; omega
    rw [third, fourth, Nat.zero_shiftLeft, Nat.or_zero, Nat.or_zero] at whole
    have first : (a.toNat <<< 16) / 2 ^ 16 % 2 ^ 8 = a.toNat := by rw [Nat.shiftLeft_eq]; omega
    simp only [base64Encode, base64Decode, bitField_eq, Nat.reduceSub]
    rw [idxOf?_base64Char (by omega), idxOf?_base64Char (by omega), idxOf?_padding]
    simp only [whole, first, UInt8.ofNat_toNat, and_self, if_true]
  | case3 a b =>
    have smallA := a.toNat_lt
    have smallB := b.toNat_lt
    have whole := @or_bitFields ((a.toNat * 256 + b.toNat) <<< 8) (by rw [Nat.shiftLeft_eq]; omega)
    have fourth : ((a.toNat * 256 + b.toNat) <<< 8) / 2 ^ 0 % 2 ^ 6 = 0 := by rw [Nat.shiftLeft_eq]; omega
    rw [fourth, Nat.or_zero] at whole
    have first : ((a.toNat * 256 + b.toNat) <<< 8) / 2 ^ 16 % 2 ^ 8 = a.toNat := by
      rw [Nat.shiftLeft_eq]; omega
    have second : ((a.toNat * 256 + b.toNat) <<< 8) / 2 ^ 8 % 2 ^ 8 = b.toNat := by
      rw [Nat.shiftLeft_eq]; omega
    simp only [base64Encode, base64Decode, bitField_eq, Nat.reduceSub]
    rw [idxOf?_base64Char (by omega), idxOf?_base64Char (by omega), idxOf?_base64Char (by omega),
      idxOf?_padding]
    simp only [whole, first, second, UInt8.ofNat_toNat, and_self, if_true]
  | case4 a b c rest ih =>
    have smallA := a.toNat_lt
    have smallB := b.toNat_lt
    have smallC := c.toNat_lt
    have whole := @or_bitFields ((a.toNat * 256 + b.toNat) * 256 + c.toNat) (by omega)
    have first : ((a.toNat * 256 + b.toNat) * 256 + c.toNat) / 2 ^ 16 % 2 ^ 8 = a.toNat := by omega
    have second : ((a.toNat * 256 + b.toNat) * 256 + c.toNat) / 2 ^ 8 % 2 ^ 8 = b.toNat := by omega
    have third : ((a.toNat * 256 + b.toNat) * 256 + c.toNat) / 2 ^ 0 % 2 ^ 8 = c.toNat := by omega
    simp only [base64Encode, base64Decode, bitField_eq, Nat.reduceSub]
    rw [idxOf?_base64Char (by omega), idxOf?_base64Char (by omega), idxOf?_base64Char (by omega),
      idxOf?_base64Char (by omega)]
    simp only [whole, ih, Option.map_some, first, second, third, UInt8.ofNat_toNat]

theorem mem_base64Encode (bytes : Bytes) : ∀ c ∈ base64Encode bytes, c ∈ base64Alphabet ∨ c = '=' := by
  have inAlphabet : ∀ i, base64Char i ∈ base64Alphabet := by
    intro i
    rw [base64Char, List.getD_eq_getElem?_getD]
    cases found : base64Alphabet[i]? with
    | none => decide
    | some c => exact List.mem_of_getElem? found
  induction bytes using base64Encode.induct with
  | case1 => simp [base64Encode]
  | case2 a => simp [base64Encode, inAlphabet]
  | case3 a b => simp [base64Encode, inAlphabet]
  | case4 a b c rest ih =>
    simp only [base64Encode, List.mem_cons]
    rintro d (rfl | rfl | rfl | rfl | later)
    · exact .inl (inAlphabet _)
    · exact .inl (inAlphabet _)
    · exact .inl (inAlphabet _)
    · exact .inl (inAlphabet _)
    · exact ih d later

end Guix.Client
