import Mathlib.Data.Char
import Mathlib.Data.List.Lex

/-!
# UTF-8

The encoding of a sequence of characters. It keeps the order of code points, and outside
ASCII it has no ASCII byte.
-/

namespace Utf8

open List

def encode (s : List Char) : List UInt8 := s.flatMap String.utf8EncodeChar

@[simp] theorem encode_nil : encode [] = [] := rfl

@[simp] theorem encode_cons (c : Char) (s : List Char) :
    encode (c :: s) = String.utf8EncodeChar c ++ encode s := flatMap_cons

@[simp] theorem encode_append (s t : List Char) : encode (s ++ t) = encode s ++ encode t :=
  flatMap_append

theorem encodeChar_ascii {c : Char} (ascii : c.toNat < 128) :
    String.utf8EncodeChar c = [UInt8.ofNat c.toNat] := by
  exact if_pos (Nat.le_of_lt_succ ascii)

theorem toNat_lt (c : Char) : c.toNat < 0x110000 := by
  have range : c.toNat < 0xd800 ∨ 0xdfff < c.toNat ∧ c.toNat < 0x110000 := c.valid
  omega

theorem encodeChar_eq (c : Char) : String.utf8EncodeChar c =
    if c.toNat ≤ 0x7f then [UInt8.ofNat c.toNat]
    else if c.toNat ≤ 0x7ff then
      [UInt8.ofNat (c.toNat / 64 % 0x20 + 0xc0), UInt8.ofNat (c.toNat % 0x40 + 0x80)]
    else if c.toNat ≤ 0xffff then
      [UInt8.ofNat (c.toNat / 4096 % 0x10 + 0xe0), UInt8.ofNat (c.toNat / 64 % 0x40 + 0x80),
        UInt8.ofNat (c.toNat % 0x40 + 0x80)]
    else
      [UInt8.ofNat (c.toNat / 262144 % 0x08 + 0xf0), UInt8.ofNat (c.toNat / 4096 % 0x40 + 0x80),
        UInt8.ofNat (c.toNat / 64 % 0x40 + 0x80), UInt8.ofNat (c.toNat % 0x40 + 0x80)] := rfl

/-- Every byte of the code of another character is at least 128. -/
theorem le_of_mem_encodeChar {c : Char} (notAscii : 128 ≤ c.toNat) {b : UInt8}
    (isByte : b ∈ String.utf8EncodeChar c) : 128 ≤ b.toNat := by
  have large : ∀ n, 128 ≤ n → n < 256 → b = UInt8.ofNat n → 128 ≤ b.toNat := by
    intro n low high same
    rw [same, UInt8.toNat_ofNat']
    omega
  rw [encodeChar_eq] at isByte
  split_ifs at isByte <;> simp only [mem_cons, not_mem_nil, or_false] at isByte
  · exact large _ notAscii (by omega) isByte
  · rcases isByte with first | second
    · exact large _ (by omega) (by omega) first
    · exact large _ (by omega) (by omega) second
  · rcases isByte with first | second | third
    · exact large _ (by omega) (by omega) first
    · exact large _ (by omega) (by omega) second
    · exact large _ (by omega) (by omega) third
  · rcases isByte with first | second | third | fourth
    · exact large _ (by omega) (by omega) first
    · exact large _ (by omega) (by omega) second
    · exact large _ (by omega) (by omega) third
    · exact large _ (by omega) (by omega) fourth

/-! ### Order -/

theorem cons_lt_cons {a b : Nat} {x y : List UInt8} (small : b < 256) (le : a ≤ b)
    (rest : a = b → x < y) : UInt8.ofNat a :: x < UInt8.ofNat b :: y := by
  rw [cons_lt_cons_iff]
  rcases Nat.lt_or_eq_of_le le with less | same
  · left
    rw [UInt8.lt_iff_toNat_lt, UInt8.toNat_ofNat', UInt8.toNat_ofNat']
    omega
  · exact .inr ⟨by rw [same], rest same⟩

theorem encodeChar_lt {c d : Char} (less : c < d) (x y : List UInt8) :
    String.utf8EncodeChar c ++ x < String.utf8EncodeChar d ++ y := by
  have less : c.toNat < d.toNat := less
  have bound := toNat_lt d
  rw [encodeChar_eq c, encodeChar_eq d]
  generalize c.toNat = m at less
  generalize d.toNat = n at less bound
  -- with fewer bytes the first byte is smaller; with as many the first one that differs is
  split_ifs <;> simp only [cons_append, nil_append] <;>
    repeat refine cons_lt_cons (by omega) (by omega) fun _ => ?_
  all_goals
    exfalso
    omega

theorem encode_lt {s t : List Char} (less : s < t) : encode s < encode t := by
  induction s generalizing t with
  | nil =>
    cases t with
    | nil => exact absurd less (List.lt_irrefl [])
    | cons d t =>
      obtain ⟨b, rest, isCons⟩ := exists_cons_of_ne_nil (String.utf8EncodeChar_ne_nil (c := d))
      rw [encode_nil, encode_cons, isCons]
      exact nil_lt_cons _ _
  | cons c s ih =>
    cases t with
    | nil => exact absurd less (not_lt_nil _)
    | cons d t =>
      rcases cons_lt_cons_iff.mp less with headLess | ⟨rfl, tailLess⟩
      · exact encodeChar_lt headLess _ _
      · exact append_left_lt (ih tailLess)

theorem encode_injective {s t : List Char} (same : encode s = encode t) : s = t := by
  rcases lt_trichotomy s t with less | equal | greater
  · have codes := encode_lt less
    rw [same] at codes
    exact absurd codes (List.lt_irrefl _)
  · exact equal
  · have codes := encode_lt greater
    rw [same] at codes
    exact absurd codes (List.lt_irrefl _)

/-! ### Decoding -/

def decode (bytes : List UInt8) : Option (List Char) := bytes.toByteArray.utf8Decode?.map Array.toList

theorem toByteArray_encode (s : List Char) : (encode s).toByteArray = s.utf8Encode := rfl

@[simp] theorem decode_encode (s : List Char) : decode (encode s) = some s := by
  rw [decode, toByteArray_encode, List.utf8Decode?_utf8Encode, Option.map_some]

end Utf8
