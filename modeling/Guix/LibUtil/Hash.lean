import Guix.LibUtil.Types

/-!
# Hashes and their base-16 text

`Hash`, `printHash` and `parseHash` of `hash.cc`. A `HashType` other than `htUnknown`
fixes the number of bytes of its hashes.
-/

namespace Guix

open List Option

inductive HashType
  | md5
  | sha1
  | sha256
  | sha512
  | sha3_256
  | sha3_512
  | blake2s_256
  deriving DecidableEq, Repr

namespace HashType

/-- `gcry_md_get_algo_dlen`. -/
def size : HashType → Nat
  | md5 => 16
  | sha1 => 20
  | sha256 | sha3_256 | blake2s_256 => 32
  | sha512 | sha3_512 => 64

theorem size_le (type : HashType) : type.size ≤ 64 := by
  cases type <;> decide

end HashType

def printHashType : HashType → Bytes
  | .md5 => ascii "md5"
  | .sha1 => ascii "sha1"
  | .sha256 => ascii "sha256"
  | .sha512 => ascii "sha512"
  | .sha3_256 => ascii "sha3-256"
  | .sha3_512 => ascii "sha3-512"
  | .blake2s_256 => ascii "blake2s-256"

/-- `none` stands for `htUnknown`. -/
def parseHashType (s : Bytes) : Option HashType :=
  if s == ascii "md5" then some .md5
  else if s == ascii "sha1" then some .sha1
  else if s == ascii "sha256" then some .sha256
  else if s == ascii "sha512" then some .sha512
  else if s == ascii "sha3-256" then some .sha3_256
  else if s == ascii "sha3-512" then some .sha3_512
  else if s == ascii "blake2s-256" then some .blake2s_256
  else none

structure Hash where
  type : HashType
  hash : Bytes
  hashSize : hash.length = type.size
  deriving DecidableEq

/-- The constructor `Hash(type)`, which clears the bytes. -/
def Hash.ofType (type : HashType) : Hash := ⟨type, List.replicate type.size 0, length_replicate⟩

abbrev Sha256Hash := { h : Hash // h.type = .sha256 }

/-- What SHA-256 computes. -/
abbrev Sha256 := Bytes → Sha256Hash

/-- `hashString(htSHA256, s)`; `update` takes the length as an `unsigned int`. -/
def hashString (sha256 : Sha256) (s : Bytes) : Sha256Hash := sha256 (s.take (u32 s.length))

inductive HashError
  | length (type : HashType) (s : Bytes)
  | digit (s : Bytes)
  deriving DecidableEq, Repr

def base16Chars : Bytes := ascii "0123456789abcdef"

def printByte (b : UInt8) : Bytes :=
  [base16Chars.getD (b.toNat / 16) 0, base16Chars.getD (b.toNat % 16) 0]

def printHash (h : Hash) : Bytes := h.hash.flatMap printByte

/-- The value of a character for which `isxdigit` holds. -/
def hexDigit (c : UInt8) : Option Nat :=
  let n := c.toNat
  if 48 ≤ n ∧ n ≤ 57 then some (n - 48)
  else if 97 ≤ n ∧ n ≤ 102 then some (n - 87)
  else if 65 ≤ n ∧ n ≤ 70 then some (n - 55)
  else none

/-- The loop of `parseHash`: `none` when a character is not a digit. -/
def parseBytes : Bytes → Option Bytes
  | c1 :: c2 :: rest => do
    let d1 ← hexDigit c1
    let d2 ← hexDigit c2
    let parsed ← parseBytes rest
    return UInt8.ofNat (16 * d1 + d2) :: parsed
  | _ => some []

theorem length_parseBytes (s parsed : Bytes) (ok : parseBytes s = some parsed) :
    parsed.length = s.length / 2 := by
  induction s using parseBytes.induct generalizing parsed with
  | case1 c1 c2 rest ih =>
    simp only [parseBytes, bind_eq_bind, bind_eq_some_iff, Option.pure_def,
      some.injEq] at ok
    obtain ⟨d1, _, d2, _, tail, parsedTail, rfl⟩ := ok
    simp only [length_cons, ih tail parsedTail]
    omega
  | case2 s short =>
    match s, short with
    | [], _ => simpa [parseBytes] using ok
    | [c], _ => simpa [parseBytes] using ok.symm
    | c1 :: c2 :: rest, short => exact absurd rfl (short c1 c2 rest)

def parseHash (ht : HashType) (s : Bytes) : Except HashError Hash :=
  if size : s.length = ht.size * 2 then
    match parsed : parseBytes s with
    | some bytes =>
      .ok ⟨ht, bytes, by rw [length_parseBytes s bytes parsed, size, Nat.mul_div_cancel _ (by decide)]⟩
    | none => .error (.digit s)
  else .error (.length ht s)

/-! ### Reading a printed hash -/

theorem parseBytes_printByte (b : UInt8) (rest : Bytes) :
    parseBytes (printByte b ++ rest) = (parseBytes rest).map (b :: ·) := by
  have digits : ∀ n : Fin 16, hexDigit (base16Chars.getD n.val 0) = some n.val := by decide
  have high := digits ⟨b.toNat / 16, Nat.div_lt_of_lt_mul b.toNat_lt⟩
  have low := digits ⟨b.toNat % 16, Nat.mod_lt _ (by decide)⟩
  simp only [printByte, cons_append, nil_append, parseBytes, high, low,
    bind_eq_bind, bind_some, Nat.div_add_mod, UInt8.ofNat_toNat]
  cases parseBytes rest <;> rfl

theorem parseBytes_printBytes (s : Bytes) : parseBytes (s.flatMap printByte) = some s := by
  induction s with
  | nil => rfl
  | cons b rest ih => rw [flatMap_cons, parseBytes_printByte, ih, map_some]

@[simp] theorem length_printHash (h : Hash) : (printHash h).length = h.type.size * 2 := by
  have twice : ∀ s : Bytes, (s.flatMap printByte).length = s.length * 2 := by
    intro s
    induction s with
    | nil => rfl
    | cons b rest ih =>
      simp only [flatMap_cons, length_append, ih, length_cons, length_nil, printByte]
      omega
  rw [printHash, twice, h.hashSize]

theorem parseHash_printHash (h : Hash) : parseHash h.type (printHash h) = .ok h := by
  unfold parseHash
  split
  · split
    · next bytes parsed =>
      rw [printHash, parseBytes_printBytes] at parsed
      cases parsed
      rfl
    · next fails =>
      rw [printHash, parseBytes_printBytes] at fails
      cases fails
  · next wrong => exact absurd (length_printHash h) wrong

theorem parseHash_printHash_sha256 (h : Sha256Hash) :
    parseHash .sha256 (printHash h.1) = .ok h.1 := by
  have parsed := parseHash_printHash h.1
  rwa [h.2] at parsed

theorem printHash_injective {g h : Sha256Hash} (same : printHash g.1 = printHash h.1) : g = h := by
  have parsed := parseHash_printHash_sha256 g
  rw [same, parseHash_printHash_sha256] at parsed
  exact Subtype.ext (Except.ok.inj parsed).symm

theorem mem_of_mem_digits {α : Type} {table : List α} {default c : α} {bytes : Bytes}
    (digits : ∀ n : Fin 16, table.getD n default ∈ table)
    (isDigit : c ∈ bytes.flatMap fun b => [table.getD (b.toNat / 16) default, table.getD (b.toNat % 16) default]) :
    c ∈ table := by
  obtain ⟨b, _, isDigit⟩ := mem_flatMap.mp isDigit
  have high := digits ⟨b.toNat / 16, Nat.div_lt_of_lt_mul b.toNat_lt⟩
  have low := digits ⟨b.toNat % 16, Nat.mod_lt _ (by decide)⟩
  simp only [mem_cons, not_mem_nil, or_false] at isDigit
  rcases isDigit with rfl | rfl
  · exact high
  · exact low

theorem mem_printHash {h : Hash} {c : UInt8} (isDigit : c ∈ printHash h) : c ∈ base16Chars :=
  mem_of_mem_digits (by decide) isDigit

theorem hashString_of_lt (sha256 : Sha256) {s : Bytes} (short : s.length < 2 ^ 32) :
    hashString sha256 s = sha256 s := by
  rw [hashString, u32_of_lt _ short, take_length]

end Guix
