import Guix.Client.Base32
import Guix.Client.StoreCorrectness
import Guix.Lib.Bits
import Guix.LibUtil.Hash32

/-!
# Base-32 texts of the client and the daemon

Both sides place the bits of the quintet `n` at the bits `5 * n` to `5 * n + 4` of the
bytes. What they compute is determined by this, and it is the same.
-/

namespace Guix.Client

open Bits Fallible List

/-! ### Printing -/

theorem testBit_byte {b : UInt8} {j : Nat} (high : 8 ≤ j) : b.toNat.testBit j = false :=
  Nat.testBit_lt_two_pow (Nat.lt_of_lt_of_le b.toNat_lt (Nat.pow_le_pow_right (by decide) high))

/-- A quintet has the five bits at its place, as far as there are bits. -/
theorem testBit_quintet (bv : Bytes) (n m : Nat) :
    (quintet bv n).testBit m = (decide (m < 5) && bit bv (5 * n + m)) := by
  have mask : (0x1f : Nat) = 2 ^ 5 - 1 := rfl
  simp only [quintet, mask, Nat.testBit_and, Nat.testBit_two_pow_sub_one, Nat.testBit_mod_two_pow,
    Nat.testBit_or, Nat.testBit_shiftRight]
  by_cases low : m < 5
  · have byte : m < 8 := by omega
    simp only [low, byte, decide_true, Bool.true_and, Bool.and_true, bit]
    by_cases first : n * 5 % 8 + m < 8
    · -- the bit is in the byte where the quintet starts
      have offset : (5 * n + m) / 8 = n * 5 / 8 := by omega
      have position : (5 * n + m) % 8 = n * 5 % 8 + m := by omega
      have before : ¬ m ≥ 8 - n * 5 % 8 := by omega
      rw [offset, position]
      split
      · rw [Nat.zero_testBit, Bool.or_false]
      · rw [Nat.testBit_shiftLeft, decide_eq_false before, Bool.false_and, Bool.or_false]
    · have offset : (5 * n + m) / 8 = n * 5 / 8 + 1 := by omega
      have position : (5 * n + m) % 8 = m - (8 - n * 5 % 8) := by omega
      have after : m ≥ 8 - n * 5 % 8 := by omega
      rw [offset, position, testBit_byte (Nat.le_of_not_lt first), Bool.false_or]
      split
      · rw [getD_eq_default bv 0 (by omega)]
        exact (Nat.zero_testBit m).trans (Nat.zero_testBit _).symm
      · rw [Nat.testBit_shiftLeft, decide_eq_true after, Bool.true_and]
  · simp only [low, decide_false, Bool.false_and, Bool.and_false]

/-! ### Reading -/

/-- Bit `m` of a digit that starts at bit `5 * n`; digits have no further bits. -/
theorem testBit_digit {digit n k m : Nat} (small : digit < 32) (place : k = 5 * n + m) :
    digit.testBit m = (decide (k / 5 = n) && digit.testBit (k % 5)) := by
  by_cases low : m < 5
  · have same : k / 5 = n := by omega
    have position : k % 5 = m := by omega
    rw [position, decide_eq_true same, Bool.true_and]
  · have other : ¬ k / 5 = n := by omega
    have below : digit < 2 ^ m :=
      Nat.lt_of_lt_of_le small (Nat.pow_le_pow_right Nat.two_pos (Nat.le_of_not_lt low))
    rw [decide_eq_false other, Bool.false_and, Nat.testBit_lt_two_pow below]

theorem bit_setQuintet {hash : Bytes} (n digit k : Nat) (small : digit < 32)
    (inside : k < 8 * hash.length) :
    bit (setQuintet hash n digit) k =
      (bit hash k || (decide (k / 5 = n) && digit.testBit (k % 5))) := by
  have position : k % 8 < 8 := Nat.mod_lt _ (by decide)
  have low : bit (hash.modify (n * 5 / 8) (· ||| UInt8.ofNat (digit <<< (n * 5 % 8)))) k =
      (bit hash k || (decide (k / 8 = n * 5 / 8) && (decide (n * 5 % 8 ≤ k % 8) &&
        digit.testBit (k % 8 - n * 5 % 8)))) := by
    rw [bit_or _ _ _ _ inside, UInt8.toNat_ofNat', Nat.testBit_mod_two_pow, decide_eq_true position,
      Bool.true_and, Nat.testBit_shiftLeft]
  -- the byte where the quintet starts
  have first : k / 8 = n * 5 / 8 → (decide (n * 5 % 8 ≤ k % 8) && digit.testBit (k % 8 - n * 5 % 8)) =
      (decide (k / 5 = n) && digit.testBit (k % 5)) := by
    intro here
    by_cases after : n * 5 % 8 ≤ k % 8
    · rw [decide_eq_true after, Bool.true_and]
      exact testBit_digit small (by omega)
    · have other : ¬ k / 5 = n := by omega
      rw [decide_eq_false after, decide_eq_false other, Bool.false_and, Bool.false_and]
  -- without a byte after this one, the second assignment does nothing
  have both : setQuintet hash n digit =
      (hash.modify (n * 5 / 8) (· ||| UInt8.ofNat (digit <<< (n * 5 % 8)))).modify (n * 5 / 8 + 1)
        (· ||| UInt8.ofNat (digit >>> (8 - n * 5 % 8))) := by
    simp only [setQuintet]
    split
    · rfl
    · exact (modify_eq_self (by rw [length_modify]; omega)).symm
  rw [both, bit_or _ _ _ _ (by rwa [length_modify]), low, UInt8.toNat_ofNat', Nat.testBit_mod_two_pow,
    decide_eq_true position, Bool.true_and, Nat.testBit_shiftRight, Bool.or_assoc]
  congr 1
  by_cases here : k / 8 = n * 5 / 8
  · have notNext : ¬ k / 8 = n * 5 / 8 + 1 := by omega
    rw [decide_eq_true here, decide_eq_false notNext, Bool.true_and, Bool.false_and, Bool.or_false,
      first here]
  · rw [decide_eq_false here, Bool.false_and, Bool.false_or]
    by_cases next : k / 8 = n * 5 / 8 + 1
    · rw [decide_eq_true next, Bool.true_and]
      exact testBit_digit small (by omega)
    · have other : ¬ k / 5 = n := by omega
      rw [decide_eq_false next, decide_eq_false other, Bool.false_and, Bool.false_and]

variable {bv bv' : Bytes} {offset : Nat}

theorem setq_ok {start stop value : Nat} (order : start < stop)
    (ok : setq bv offset start stop value = .ok bv') :
    bv'.length = bv.length ∧ ∀ k, bit bv' k =
      if k / 8 = offset ∧ start ≤ k % 8 ∧ k % 8 < stop then value.testBit (k % 8 - start)
      else bit bv k := by
  unfold setq at ok
  split at ok
  · next inside =>
    cases ok
    refine ⟨length_set, fun k => ?_⟩
    rw [bit_set inside]
    have low : k % 8 < 8 := Nat.mod_lt _ (by decide)
    by_cases here : k / 8 = offset
    · have merged : ∀ x, (UInt8.ofNat x).toNat.testBit (k % 8) = x.testBit (k % 8) := by
        intro x
        rw [UInt8.toNat_ofNat', Nat.testBit_mod_two_pow, decide_eq_true low, Bool.true_and]
      rw [if_pos here, merged]
      simp only [Nat.testBit_or, Nat.testBit_and, Nat.testBit_xor, Nat.testBit_two_pow_sub_one,
        Nat.testBit_ldiff, Nat.testBit_shiftLeft, bit, here]
      by_cases after : start ≤ k % 8
      · have notBefore : ¬ k % 8 < start := Nat.not_lt.mpr after
        by_cases before : k % 8 < stop
        · simp [after, before, notBefore]
        · simp [after, before, notBefore]
      · have before : k % 8 < start := Nat.lt_of_not_le after
        have early : k % 8 < stop := Nat.lt_trans before order
        simp [after, before, early]
    · rw [if_neg here, if_neg (fun both => here both.1)]
  · cases ok

theorem setq_returns (inside : offset < bv.length) (start stop value : Nat) :
    ∃ bv', setq bv offset start stop value = .ok bv' := by
  rw [setq, if_pos inside]
  exact ⟨_, rfl⟩

/-- What it means that a quintet has been set. -/
structure QuintetSet (bv : Bytes) (index quintet : Nat) (bv' : Bytes) : Prop where
  length : bv'.length = bv.length
  bits : ∀ k < 8 * bv.length, bit bv' k = if k / 5 = index then quintet.testBit (k % 5) else bit bv k

variable {index : Nat}

theorem setq_single {quintet : Nat} {start : Nat} (place : index * 5 = 8 * offset + start)
    (fits : start ≤ 3) (inside : offset < bv.length) :
    ∃ bv', setq bv offset start (start + 5) quintet = .ok bv' ∧ QuintetSet bv index quintet bv' := by
  obtain ⟨bv', ok⟩ := setq_returns inside start (start + 5) quintet
  obtain ⟨length, bits⟩ := setq_ok (by omega) ok
  refine ⟨bv', ok, length, ?_⟩
  intro k _
  rw [bits k]
  by_cases here : k / 5 = index
  · have position : k % 8 - start = k % 5 := by omega
    rw [if_pos here, if_pos (by omega), position]
  · rw [if_neg here, if_neg (by omega)]

theorem testBit_bitField (n start stop m : Nat) :
    (bitField n start stop).testBit m = (n.testBit (start + m) && decide (m < stop - start)) := by
  rw [bitField, Nat.testBit_and, Nat.testBit_shiftRight, Nat.testBit_two_pow_sub_one]

/-- A quintet whose upper bits are in the next byte, if there is one. -/
theorem setq_double {quintet : Nat} {start : Nat} (place : index * 5 = 8 * offset + start)
    (across : 3 < start) (within : start < 8) (inside : offset < bv.length) :
    ∃ bv', (setq bv offset start 8 (bitField quintet 0 (8 - start)) >>= fun low =>
        setqNext low offset (start - 3) (bitField quintet (8 - start) 5)) = .ok bv' ∧
      QuintetSet bv index quintet bv' := by
  obtain ⟨low, lowOk⟩ := setq_returns inside start 8 (bitField quintet 0 (8 - start))
  obtain ⟨length, lowBits⟩ := setq_ok within lowOk
  -- the bits of the first byte, as far as they belong to the quintet
  have first : ∀ k, k / 8 ≤ offset →
      bit low k = if k / 5 = index then quintet.testBit (k % 5) else bit bv k := by
    intro k notNext
    rw [lowBits k]
    by_cases here : k / 5 = index
    · have position : k % 8 - start = k % 5 := by omega
      have upper : k % 5 < 8 - start := by omega
      rw [if_pos here, if_pos (by omega), testBit_bitField, position, Nat.zero_add, Nat.sub_zero,
        decide_eq_true upper, Bool.and_true]
    · rw [if_neg here, if_neg (by omega)]
  by_cases last : offset + 1 = low.length
  · refine ⟨low, bind_ok.mpr ⟨low, lowOk, if_pos last⟩, length, ?_⟩
    intro k within
    exact first k (by omega)
  · obtain ⟨bv', ok⟩ := @setq_returns low (offset + 1) (by omega) 0 (start - 3)
      (bitField quintet (8 - start) 5)
    obtain ⟨length', bits⟩ := setq_ok (by omega) ok
    refine ⟨bv', bind_ok.mpr ⟨low, lowOk, (if_neg last).trans ok⟩, length'.trans length, ?_⟩
    intro k _
    rw [bits k]
    by_cases next : k / 8 = offset + 1
    · by_cases here : k / 5 = index
      · have position : 8 - start + k % 8 = k % 5 := by omega
        have upper : k % 8 < 5 - (8 - start) := by omega
        rw [if_pos here, if_pos (by omega), testBit_bitField, Nat.sub_zero, position,
          decide_eq_true upper, Bool.and_true]
      · rw [if_neg here, if_neg (by omega), lowBits k, if_neg (by omega)]
    · rw [if_neg (fun both => next both.1)]
      by_cases before : k / 8 ≤ offset
      · exact first k before
      · rw [if_neg (by omega), lowBits k, if_neg (by omega)]

theorem quintetSetRight_returns {quintet : Nat} (small : quintet < 32)
    (inside : index * 5 / 8 < bv.length) :
    ∃ bv', quintetSetRight bv index quintet = .ok bv' ∧ QuintetSet bv index quintet bv' := by
  have value : quintet &&& 0x1f = quintet := by
    rw [show (0x1f : Nat) = 2 ^ 5 - 1 from rfl, Nat.and_two_pow_sub_one_eq_mod]
    exact Nat.mod_eq_of_lt small
  have position : index % 8 = 0 ∨ index % 8 = 1 ∨ index % 8 = 2 ∨ index % 8 = 3 ∨ index % 8 = 4 ∨
      index % 8 = 5 ∨ index % 8 = 6 ∨ index % 8 = 7 := by omega
  simp only [quintetSetRight, value]
  rcases position with r | r | r | r | r | r | r | r <;> simp only [r]
  · exact setq_single (by omega) (by decide) inside
  · exact setq_double (by omega) (by decide) (by decide) inside
  · exact setq_single (by omega) (by decide) inside
  · exact setq_double (by omega) (by decide) (by decide) inside
  · exact setq_double (by omega) (by decide) (by decide) inside
  · exact setq_single (by omega) (by decide) inside
  · exact setq_double (by omega) (by decide) (by decide) inside
  · exact setq_single (by omega) (by decide) inside

theorem quintetSetRight_outOfRange (quintet : Nat)
    (outside : bv.length ≤ index * 5 / 8) : quintetSetRight bv index quintet = .error .outOfRange := by
  have fails : ∀ start stop value, setq bv (index * 5 / 8) start stop value = .error .outOfRange :=
    fun start stop value => if_neg (Nat.not_lt.mpr outside)
  simp only [quintetSetRight]
  split <;> rw [fails] <;> rfl

/-! ### The loops -/

theorem parseQuintets_spec (s cs : Bytes) (n : Nat) (hash : Hash) :
    ((∀ c ∈ cs, c ∈ base32Chars) ∧ ∃ h, parseQuintets s cs n hash = .ok h ∧ h.type = hash.type ∧
      ∀ k < 8 * hash.type.size, bit h.hash k =
        (bit hash.hash k || (digitBit 5 (cs.map base32Chars.idxOf) n k).getD false)) ∨
    (¬ ∀ c ∈ cs, c ∈ base32Chars) ∧ parseQuintets s cs n hash = .error (.digit s) := by
  induction cs generalizing n hash with
  | nil => exact .inl ⟨by simp, hash, rfl, rfl, fun k _ => by simp⟩
  | cons c rest ih =>
    by_cases isDigit : c ∈ base32Chars
    · have small : base32Chars.idxOf c < 32 := idxOf_lt_length_of_mem isDigit
      have sized : (setQuintet hash.hash n (base32Chars.idxOf c)).length = hash.type.size := by
        rw [length_setQuintet, hash.hashSize]
      rcases ih (n + 1) ⟨hash.type, setQuintet hash.hash n (base32Chars.idxOf c), sized⟩ with
        ⟨digits, h, ran, sameType, bits⟩ | ⟨notDigits, failed⟩
      · refine .inl ⟨forall_mem_cons.mpr ⟨isDigit, digits⟩, h, (if_neg (by omega)).trans ran, sameType, ?_⟩
        intro k inside
        rw [bits k inside, bit_setQuintet _ _ _ small (by rwa [hash.hashSize]), Bool.or_assoc,
          map_cons, digitBit_cons]
        by_cases here : k / 5 = n
        · rw [if_pos here, digitBit_succ_self _ here, decide_eq_true here, Bool.true_and, Option.getD_none,
            Bool.or_false, Option.getD_some]
        · rw [if_neg here, decide_eq_false here, Bool.false_and, Bool.false_or]
      · exact .inr ⟨fun all => notDigits (forall_mem_cons.mp all).2, (if_neg (by omega)).trans failed⟩
    · have large : ¬ base32Chars.idxOf c < base32Chars.length := fun small =>
        isDigit (idxOf_lt_length_iff.mp small)
      exact .inr ⟨fun all => isDigit (forall_mem_cons.mp all).1, if_pos (Nat.le_of_not_lt large)⟩

variable {digits : List Nat}
variable {bytes : Bytes}

/-- The bits of hashes that have no more bits than there are digits. -/
theorem packs_of_getD (enough : 8 * bytes.length ≤ 5 * digits.length) (default : Nat → Bool)
    (bits : ∀ k < 8 * bytes.length, bit bytes k = (digitBit 5 digits 0 k).getD (default k)) :
    Packs 5 digits bytes := by
  intro k inside
  have found := @digitBit_zero 5 k digits (by omega)
  rw [bits k inside, found, Option.getD_some]

variable {ht : HashType} {s : Bytes}

theorem parseHash32_returns (length : s.length = hashLength32 ht.size) (digits : ∀ c ∈ s, c ∈ base32Chars) :
    ∃ h, parseHash32 ht s = .ok h ∧ h.type = ht ∧ Packs 5 (s.reverse.map base32Chars.idxOf) h.hash := by
  rcases parseQuintets_spec s s.reverse 0 (Hash.ofType ht) with
    ⟨_, h, ran, sameType, bits⟩ | ⟨notDigits, _⟩
  · refine ⟨h, (if_pos length).trans ran, sameType, ?_⟩
    have size : h.hash.length = ht.size := by rw [h.hashSize, sameType]; rfl
    apply packs_of_getD _ fun _ => false
    · intro k inside
      rw [bits k (by rwa [size] at inside), Hash.ofType, bit_replicate_zero, Bool.false_or]
    · rw [length_map, length_reverse, length, hashLength32, size]
      omega
  · exact absurd (fun c listed => digits c (mem_reverse.mp listed)) notDigits

theorem parseHash32_ok {h : Hash} (ok : parseHash32 ht s = .ok h) :
    s.length = hashLength32 ht.size ∧ (∀ c ∈ s, c ∈ base32Chars) ∧
      h.type = ht ∧ Packs 5 (s.reverse.map base32Chars.idxOf) h.hash := by
  by_cases length : s.length = hashLength32 ht.size
  · rcases parseQuintets_spec s s.reverse 0 (Hash.ofType ht) with ⟨digits, _⟩ | ⟨_, failed⟩
    · have digits : ∀ c ∈ s, c ∈ base32Chars := fun c listed => digits c (mem_reverse.mpr listed)
      obtain ⟨h', ran, sameType, packs⟩ := parseHash32_returns length digits
      rw [ok] at ran
      cases ran
      exact ⟨length, digits, sameType, packs⟩
    · rw [parseHash32, if_pos length, failed] at ok
      cases ok
  · rw [parseHash32, if_neg length] at ok
    cases ok

theorem charToValue_eq (s : Str) (chr : Char) : charToValue s chr =
    if chr ∈ nixBase32Chars then .ok (nixBase32Chars.idxOf chr)
    else .error (.invalidBase32Character chr s) := by
  unfold charToValue
  by_cases isDigit : chr ∈ nixBase32Chars
  · have found : ∀ c ∈ nixBase32Chars, nixBase32Chars.idxOf? c = some (nixBase32Chars.idxOf c) := by
      decide
    rw [if_pos isDigit, found chr isDigit]
  · have notFound : nixBase32Chars.idxOf? chr = none := idxOf?_eq_none_iff.mpr isDigit
    rw [if_neg isDigit, notFound]

/-- The loop returns if there are only digits and no more of them than the bytes can hold. -/
theorem unfoldRight_spec (s cs : Str) (index : Nat) (bv : Bytes) :
    ((∀ c ∈ cs, c ∈ nixBase32Chars) ∧ (cs ≠ [] → (index + cs.length) * 5 < 8 * bv.length + 5) ∧
      ∃ bv', unfoldRight (charToValue s) cs index bv = .ok bv' ∧ bv'.length = bv.length ∧
        ∀ k < 8 * bv.length, bit bv' k =
          (digitBit 5 (cs.map nixBase32Chars.idxOf) index k).getD (bit bv k)) ∨
    ¬ ((∀ c ∈ cs, c ∈ nixBase32Chars) ∧ (index + cs.length) * 5 < 8 * bv.length + 5) ∧
      ∃ e, unfoldRight (charToValue s) cs index bv = .error e := by
  induction cs generalizing index bv with
  | nil => exact .inl ⟨by simp, by simp, bv, rfl, rfl, fun k _ => by simp⟩
  | cons c rest ih =>
    simp only [unfoldRight, charToValue_eq, length_cons]
    by_cases isDigit : c ∈ nixBase32Chars
    · rw [if_pos isDigit]
      by_cases inside : index * 5 / 8 < bv.length
      · have small : nixBase32Chars.idxOf c < 32 := idxOf_lt_length_of_mem isDigit
        obtain ⟨bv1, isSet, set⟩ := quintetSetRight_returns small inside
        simp only [isSet, bind, Except.bind]
        rcases ih (index + 1) bv1 with ⟨digits, room, bv', ran, length, bits⟩ | ⟨notAll, failed⟩
        · refine .inl ⟨forall_mem_cons.mpr ⟨isDigit, digits⟩, fun _ => ?_, bv', ran,
            length.trans set.length, fun k within => ?_⟩
          · rw [set.length] at room
            cases rest with
            | nil =>
              rw [length_nil]
              omega
            | cons c' rest =>
              have := room (cons_ne_nil c' rest)
              omega
          · rw [bits k (by rwa [set.length]), set.bits k within, map_cons, digitBit_cons]
            by_cases here : k / 5 = index
            · rw [if_pos here, if_pos here, digitBit_succ_self _ here, Option.getD_none, Option.getD_some]
            · rw [if_neg here, if_neg here]
        · refine .inr ⟨fun all => notAll ⟨(forall_mem_cons.mp all.1).2, ?_⟩, failed⟩
          rw [set.length]
          omega
      · simp only [quintetSetRight_outOfRange _ (Nat.le_of_not_lt inside), bind, Except.bind]
        exact .inr ⟨fun all => by have := all.2; omega, _, rfl⟩
    · rw [if_neg isDigit]
      exact .inr ⟨fun all => isDigit (forall_mem_cons.mp all.1).1, _, rfl⟩

variable {s : Str}

/-- The lengths of the strings that are accepted: those of printed bytevectors. -/
def Fits (length : Nat) : Prop := length * 5 < 8 * (length * 5 / 8) + 5

theorem length_makeBytevector (memory : Nat → UInt8) (length : Nat) :
    (makeBytevector memory length).length = length := by
  rw [makeBytevector, length_map, length_range]

/-- The decoder returns the bytes that pack the digits, whatever the memory held. -/
theorem nixBase32StringToBytevector_ok_iff (memory : Nat → UInt8) (bv : Bytes) :
    nixBase32StringToBytevector memory s = .ok bv ↔
      Fits s.length ∧ (∀ c ∈ s, c ∈ nixBase32Chars) ∧ bv.length = s.length * 5 / 8 ∧
        Packs 5 (s.reverse.map nixBase32Chars.idxOf) bv := by
  have size := length_makeBytevector memory (s.length * 5 / 8)
  have spec := unfoldRight_spec s s.reverse 0 (makeBytevector memory (s.length * 5 / 8))
  simp only [size, length_reverse, Nat.zero_add, mem_reverse] at spec
  rcases spec with ⟨digits, room, bv', ran, length, bits⟩ | ⟨notAll, e, failed⟩
  · have fits : Fits s.length := by
      cases s with
      | nil => exact Nat.zero_lt_succ _
      | cons c rest => exact room (by simp)
    have packs : Packs 5 (s.reverse.map nixBase32Chars.idxOf) bv' := by
      refine packs_of_getD ?_ _ (fun k inside => bits k ?_)
      · rw [length, length_map, length_reverse]
        omega
      · rwa [← length]
    constructor
    · intro ok
      obtain rfl : bv' = bv := Except.ok.inj (ran.symm.trans ok)
      exact ⟨fits, digits, length, packs⟩
    · rintro ⟨_, _, length', packs'⟩
      rw [packs'.unique packs (length'.trans length.symm)]
      exact ran
  · constructor
    · intro ok
      cases failed.symm.trans ok
    · exact fun all => absurd ⟨all.2.1, all.1⟩ notAll

/-! ### The digits of printed bytes -/

theorem quintet_lt (bytes : Bytes) (n : Nat) : quintet bytes n < 32 :=
  Nat.lt_of_le_of_lt Nat.and_le_right (by decide)

theorem packs_quintets {length : Nat} (enough : 8 * bytes.length ≤ 5 * length) :
    Packs 5 ((range length).map (quintet bytes)) bytes := by
  intro k inside
  have listed : k / 5 < ((range length).map (quintet bytes)).length := by
    rw [length_map, length_range]
    omega
  have low : k % 5 < 5 := Nat.mod_lt _ (by decide)
  rw [digitBit_zero listed, getD_eq_getElem _ _ listed, getElem_map, getElem_range,
    testBit_quintet, decide_eq_true low, Bool.true_and, Nat.div_add_mod]

theorem digits_printHash32 (bytes : Bytes) : (printHash32 bytes).reverse.map base32Chars.idxOf =
    (range (hashLength32 bytes.length)).map (quintet bytes) := by
  have table : ∀ n : Fin 32, base32Chars.idxOf (base32Chars.getD n.val 0) = n.val := by decide
  rw [printHash32, ← map_reverse, reverse_reverse, map_map]
  apply map_congr_left
  intro n _
  exact table ⟨quintet bytes n, quintet_lt bytes n⟩

theorem digits_nixBase32String (bv : Bytes) : (nixBase32String bv).reverse.map nixBase32Chars.idxOf =
    (range (quintetLength bv)).map (quintet bv) := by
  have table : ∀ n : Fin 32, nixBase32Chars.idxOf (nixBase32Chars.getD n.val '0') = n.val := by decide
  rw [nixBase32String, foldQuintets_eq, append_nil, reverse_reverse, map_map]
  apply map_congr_left
  intro n _
  exact table ⟨quintet bv n, quintet_lt bv n⟩

theorem mem_nixBase32String {c : Char} (listed : c ∈ nixBase32String bv) : c ∈ nixBase32Chars := by
  have table : ∀ n : Fin 32, nixBase32Chars.getD n.val '0' ∈ nixBase32Chars := by decide
  rw [nixBase32String, foldQuintets_eq, append_nil, mem_reverse] at listed
  obtain ⟨n, _, rfl⟩ := mem_map.mp listed
  exact table ⟨quintet bv n, quintet_lt bv n⟩

theorem length_nixBase32String (bv : Bytes) : (nixBase32String bv).length = quintetLength bv := by
  rw [nixBase32String, foldQuintets_eq, append_nil, length_reverse, length_map, length_range]

theorem parseHash32_printHash32 (h : Hash) : parseHash32 h.type (printHash32 h.hash) = .ok h := by
  have length : (printHash32 h.hash).length = hashLength32 h.type.size := by
    rw [printHash32, length_map, length_reverse, length_range, h.hashSize]
  obtain ⟨h', ran, sameType, packs⟩ := parseHash32_returns length (fun c => mem_printHash32 h.hash c)
  rw [digits_printHash32] at packs
  have same : h'.hash = h.hash := by
    apply packs.unique (packs_quintets (by rw [hashLength32]; omega))
    rw [h'.hashSize, h.hashSize, sameType]
  have equal : h' = h := by
    cases h'
    cases sameType
    cases same
    rfl
  rw [ran, equal]

theorem nixBase32StringToBytevector_nixBase32String (memory : Nat → UInt8) (bv : Bytes) :
    nixBase32StringToBytevector memory (nixBase32String bv) = .ok bv := by
  have length := length_nixBase32String bv
  have size : quintetLength bv * 5 / 8 = bv.length := by
    rw [quintetLength]
    omega
  have fits : Fits (nixBase32String bv).length := by
    rw [length, Fits, size, quintetLength]
    omega
  refine (nixBase32StringToBytevector_ok_iff memory bv).mpr
    ⟨fits, fun c => mem_nixBase32String, by rw [length, size], ?_⟩
  rw [digits_nixBase32String]
  exact packs_quintets (by rw [quintetLength]; omega)

/-! ### Texts as characters and as bytes -/

theorem encode_digits (digits : ∀ c ∈ s, c ∈ nixBase32Chars) :
    (∀ b ∈ encode s, b ∈ base32Chars) ∧
      (encode s).map base32Chars.idxOf = s.map nixBase32Chars.idxOf := by
  have table : ∀ c ∈ nixBase32Chars, ∃ b ∈ base32Chars, String.utf8EncodeChar c = [b] ∧
      base32Chars.idxOf b = nixBase32Chars.idxOf c := by decide
  induction s with
  | nil => exact ⟨by simp [encode], rfl⟩
  | cons c rest ih =>
    obtain ⟨b, isDigit, encoded, same⟩ := table c (digits c mem_cons_self)
    obtain ⟨restDigits, restSame⟩ := ih (forall_mem_cons.mp digits).2
    have split : encode (c :: rest) = b :: encode rest := by
      rw [encode, Utf8.encode_cons, encoded]
      rfl
    rw [split]
    refine ⟨?_, by rw [map_cons, map_cons, same, restSame]⟩
    exact forall_mem_cons.mpr ⟨isDigit, restDigits⟩

theorem digits_of_encode (digits : ∀ b ∈ encode s, b ∈ base32Chars) :
    ∀ c ∈ s, c ∈ nixBase32Chars := by
  intro c listed
  have table : ∀ b ∈ base32Chars, b.toNat < 128 ∧ Char.ofNat b.toNat ∈ nixBase32Chars := by decide
  have bytes : ∀ b ∈ String.utf8EncodeChar c, b ∈ base32Chars :=
    fun b inChar => digits b (mem_flatMap.mpr ⟨c, listed, inChar⟩)
  by_cases isAscii : c.toNat < 128
  · have isDigit := bytes (UInt8.ofNat c.toNat) (by rw [Utf8.encodeChar_ascii isAscii]; simp)
    have same : (UInt8.ofNat c.toNat).toNat = c.toNat := by
      rw [UInt8.toNat_ofNat']
      omega
    have inTable := (table _ isDigit).2
    rwa [same, Char.ofNat_toNat] at inTable
  · -- the code of another character has no byte below 128
    obtain ⟨b, inChar⟩ := exists_mem_of_ne_nil _ (@String.utf8EncodeChar_ne_nil c)
    have large := Utf8.le_of_mem_encodeChar (Nat.le_of_not_lt isAscii) inChar
    have small := (table b (bytes b inChar)).1
    omega

/-! ### Both sides agree -/

theorem size_pos (ht : HashType) : 0 < ht.size := by
  cases ht <;> decide

/-- What it means that two decoders give the same answer. -/
def Agree (daemon : Except Hash32Error Hash) (client : Except Base32Error Bytes) : Prop :=
  (∃ h, daemon = .ok h ∧ client = .ok h.hash) ∨ (∃ e, daemon = .error e) ∧ ∃ e, client = .error e

theorem decoders_agree (ht : HashType) (memory : Nat → UInt8) (s : Str)
    (expected : s.length = hashLength32 ht.size ∨ (encode s).length = hashLength32 ht.size) :
    Agree (parseHash32 ht (encode s)) (nixBase32StringToBytevector memory s) := by
  by_cases digits : ∀ c ∈ s, c ∈ nixBase32Chars
  · obtain ⟨byteDigits, same⟩ := encode_digits digits
    have sameLength : (encode s).length = s.length := by
      have lengths := congrArg length same
      rwa [length_map, length_map] at lengths
    have length : s.length = hashLength32 ht.size := by
      rcases expected with characters | bytes
      · exact characters
      · rw [← sameLength, bytes]
    have positive := size_pos ht
    have size : s.length * 5 / 8 = ht.size := by
      rw [length, hashLength32]
      omega
    have fits : Fits s.length := by
      rw [Fits, size, length, hashLength32]
      omega
    obtain ⟨h, daemon, sameType, packs⟩ := parseHash32_returns (sameLength.trans length) byteDigits
    rw [map_reverse, same, ← map_reverse] at packs
    refine .inl ⟨h, daemon, (nixBase32StringToBytevector_ok_iff memory h.hash).mpr
      ⟨fits, digits, ?_, packs⟩⟩
    rw [h.hashSize, sameType, size]
  · refine .inr ⟨?_, ?_⟩
    · cases outcome : parseHash32 ht (encode s) with
      | error e => exact ⟨e, rfl⟩
      | ok h => exact absurd (digits_of_encode (parseHash32_ok outcome).2.1) digits
    · cases outcome : nixBase32StringToBytevector memory s with
      | error e => exact ⟨e, rfl⟩
      | ok bv => exact absurd ((nixBase32StringToBytevector_ok_iff memory bv).mp outcome).2.1 digits

/-- The client and the daemon print the same texts, read them back and read all texts alike. -/
theorem base32_agrees :
    (∀ bv : Bytes, 1 ≤ bv.length → bv.length ≤ 64 →
      encode (nixBase32String bv) = printHash32 bv ∧
        ∀ memory, nixBase32StringToBytevector memory (nixBase32String bv) = .ok bv) ∧
    (∀ h : Hash, parseHash32 h.type (printHash32 h.hash) = .ok h) ∧
    ∀ (ht : HashType) (memory : Nat → UInt8) (s : Str),
      s.length = hashLength32 ht.size ∨ (encode s).length = hashLength32 ht.size →
      Agree (parseHash32 ht (encode s)) (nixBase32StringToBytevector memory s) := by
  refine ⟨?_, parseHash32_printHash32, decoders_agree⟩
  intro bv nonempty _
  exact ⟨encode_nixBase32String bv nonempty,
    fun memory => nixBase32StringToBytevector_nixBase32String memory bv⟩

/-! ### Canonical texts -/

/-- The last digit may hold bits past the end of the bytes; printing leaves them out. -/
theorem quintets_eq_iff {last : Nat} (packs : Packs 5 (digits ++ [last]) bytes)
    (small : ∀ d ∈ digits ++ [last], d < 32) (least : 5 * digits.length < 8 * bytes.length) :
    (range (digits.length + 1)).map (quintet bytes) = digits ++ [last] ↔
      last < 2 ^ (8 * bytes.length - 5 * digits.length) := by
  have digitAt : ∀ n (listed : n < (digits ++ [last]).length), ∀ m < 5, 5 * n + m < 8 * bytes.length →
      (quintet bytes n).testBit m = (digits ++ [last])[n].testBit m := by
    intro n listed m low inside
    have place : (5 * n + m) / 5 = n := by omega
    have position : (5 * n + m) % 5 = m := by omega
    have packed := packs (5 * n + m) inside
    rw [digitBit_zero (by rwa [place]), place, position, getD_eq_getElem _ _ listed] at packed
    rw [testBit_quintet, decide_eq_true low, Bool.true_and]
    exact (Option.some_inj.mp packed).symm
  constructor
  · intro same
    apply Nat.lt_pow_two_of_testBit
    intro m high
    have isLast : quintet bytes digits.length = last := by
      have entry := congrArg (·[digits.length]?) same
      simpa using entry
    rw [← isLast, testBit_quintet, bit_of_le (by omega), Bool.and_false]
  · intro below
    apply ext_getElem (by simp)
    intro n inRange listed
    rw [getElem_map, getElem_range]
    apply Nat.eq_of_testBit_eq
    intro m
    have digit : (digits ++ [last])[n] < 32 := small _ (getElem_mem listed)
    by_cases low : m < 5
    · by_cases inside : 5 * n + m < 8 * bytes.length
      · exact digitAt n listed m low inside
      · -- only the last digit reaches past the bytes
        have isLast : n = digits.length := by
          rw [length_append, length_singleton] at listed
          omega
        have entry : (digits ++ [last])[n] = last := by simp [isLast]
        have high : 2 ^ (8 * bytes.length - 5 * digits.length) ≤ 2 ^ m :=
          Nat.pow_le_pow_right Nat.two_pos (by omega)
        rw [testBit_quintet, bit_of_le (Nat.le_of_not_lt inside), Bool.and_false, entry,
          Nat.testBit_lt_two_pow (Nat.lt_of_lt_of_le below high)]
    · have high : 2 ^ 5 ≤ 2 ^ m := Nat.pow_le_pow_right Nat.two_pos (Nat.le_of_not_lt low)
      rw [testBit_quintet, decide_eq_false low, Bool.false_and,
        Nat.testBit_lt_two_pow (Nat.lt_of_lt_of_le digit high)]

variable {α : Type} {alphabet : List α}

theorem map_idxOf_inj [DecidableEq α] {x y : List α} (inX : ∀ c ∈ x, c ∈ alphabet) :
    x.map alphabet.idxOf = y.map alphabet.idxOf ↔ x = y := by
  refine ⟨?_, fun same => congrArg _ same⟩
  induction x generalizing y with
  | nil =>
    intro same
    exact (map_eq_nil_iff.mp same.symm).symm
  | cons c x ih =>
    intro same
    cases y with
    | nil => cases same
    | cons d y =>
      obtain ⟨first, rest⟩ := cons.inj same
      rw [(idxOf_inj (inX c mem_cons_self)).mp first, ih (forall_mem_cons.mp inX).2 rest]

/-- When a text is printed again as it was read. -/
theorem canonical_iff [DecidableEq α] (size : alphabet.length = 32) {c : α} {rest printed : List α}
    (digits : ∀ a ∈ c :: rest, a ∈ alphabet) (digits' : ∀ a ∈ printed, a ∈ alphabet)
    (packs : Packs 5 ((c :: rest).reverse.map alphabet.idxOf) bytes)
    (least : 5 * rest.length < 8 * bytes.length)
    (prints : printed.reverse.map alphabet.idxOf = (range (rest.length + 1)).map (quintet bytes)) :
    printed = c :: rest ↔ alphabet.idxOf c < 2 ^ (8 * bytes.length - 5 * rest.length) := by
  have split : (c :: rest).reverse.map alphabet.idxOf =
      rest.reverse.map alphabet.idxOf ++ [alphabet.idxOf c] := by
    rw [reverse_cons, map_append, map_singleton]
  have small : ∀ d ∈ (rest.reverse.map alphabet.idxOf) ++ [alphabet.idxOf c], d < 32 := by
    intro d listed
    rw [← split] at listed
    obtain ⟨a, isChar, rfl⟩ := mem_map.mp listed
    rw [← size]
    exact idxOf_lt_length_of_mem (digits a (mem_reverse.mp isChar))
  have length : (rest.reverse.map alphabet.idxOf).length = rest.length := by
    rw [length_map, length_reverse]
  rw [split] at packs
  have canonical := quintets_eq_iff packs small (by rwa [length])
  rw [length, ← prints, ← split] at canonical
  rw [← canonical, map_idxOf_inj fun a listed => digits' a (mem_reverse.mp listed), reverse_inj]

/-- A text that is accepted is the text that is printed for its bytes, if and only if its
first digit has no bits past the end of the bytes. -/
theorem base32_canonical_iff (ht : HashType) (s : Bytes) (memory : Nat → UInt8) (t : Str) :
    (∀ h, parseHash32 ht s = .ok h →
      (printHash32 h.hash = s ↔ base32Chars.idxOf (s.headD 0) < 2 ^ (8 * ht.size - 5 * (s.length - 1)))) ∧
    ∀ bv, nixBase32StringToBytevector memory t = .ok bv →
      (nixBase32String bv = t ↔
        nixBase32Chars.idxOf (t.headD '0') < 2 ^ (8 * (t.length * 5 / 8) - 5 * (t.length - 1))) := by
  constructor
  · intro h ok
    obtain ⟨length, digits, sameType, packs⟩ := parseHash32_ok ok
    have size : h.hash.length = ht.size := by rw [h.hashSize, sameType]
    have positive := size_pos ht
    cases s with
    | nil =>
      cases length
    | cons c rest =>
      have many : rest.length + 1 = hashLength32 ht.size := length
      rw [headD_cons, length_cons, Nat.add_sub_cancel, ← size]
      apply canonical_iff (by decide) digits (mem_printHash32 h.hash) packs
      · rw [size]
        rw [hashLength32] at many
        omega
      · rw [digits_printHash32, size, many]
  · intro bv ok
    obtain ⟨fits, digits, length, packs⟩ := (nixBase32StringToBytevector_ok_iff memory bv).mp ok
    cases t with
    | nil =>
      have empty : bv = [] := eq_nil_of_length_eq_zero length
      rw [empty]
      decide
    | cons c rest =>
      rw [length_cons] at length fits
      rw [headD_cons, length_cons, Nat.add_sub_cancel, ← length]
      rw [Fits, ← length] at fits
      apply canonical_iff (by decide) digits (fun _ => mem_nixBase32String) packs
      · omega
      · rw [digits_nixBase32String, quintetLength]
        congr 2
        omega

/-- Two texts of one SHA-256 hash: the last four bits of the first digit are dropped. -/
theorem base32_not_canonical :
    (∃ h, parseHash32 .sha256 (ascii "z" ++ replicate 51 48) = .ok h ∧
      printHash32 h.hash = ascii "1" ++ replicate 51 48 ∧
      parseHash32 .sha256 (ascii "1" ++ replicate 51 48) = .ok h) ∧
    ∃ bv, nixBase32StringToBytevector (fun _ => 0) (str "z" ++ replicate 51 '0') = .ok bv ∧
      nixBase32String bv = str "1" ++ replicate 51 '0' :=
  ⟨⟨⟨.sha256, replicate 31 0 ++ [128], by decide⟩, by decide +kernel, by decide +kernel,
    by decide +kernel⟩, replicate 31 0 ++ [128], by decide +kernel, by decide +kernel⟩

end Guix.Client
