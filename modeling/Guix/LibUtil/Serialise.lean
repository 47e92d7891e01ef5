import Guix.Lib.Hoare
import Guix.Lib.LittleEndian
import Guix.LibUtil.Types

/-!
# Serialisation

`serialise.cc`: integers and strings as multiples of 8 bytes, and the sources they are read
from. A sink is given by the bytes written to it. A source delivers its bytes in pieces; what
it has left is `rest`.
-/

namespace Guix

open Hoare List LittleEndian

/-! ### Writing -/

def writePadding (len : Nat) : Bytes := if len % 8 = 0 then [] else replicate (8 - len % 8) 0

def writeInt (n : Nat) : Bytes := encode 4 (u32 n) ++ replicate 4 0

def writeLongLong (n : Nat) : Bytes := encode 8 (u64 n)

def writeString (s : Bytes) : Bytes := writeInt s.length ++ s ++ writePadding s.length

@[simp] theorem length_writeInt (n : Nat) : (writeInt n).length = 8 := by simp [writeInt]

@[simp] theorem length_writeLongLong (n : Nat) : (writeLongLong n).length = 8 := by simp [writeLongLong]

theorem length_writeString (s : Bytes) :
    (writeString s).length = 8 + s.length + (writePadding s.length).length := by
  simp [writeString, Nat.add_assoc]

theorem writeInt_append_inj {m n : Nat} {a b : Bytes} (small : m < 2 ^ 32) (small' : n < 2 ^ 32)
    (same : writeInt m ++ a = writeInt n ++ b) : m = n ∧ a = b := by
  obtain ⟨ints, rest⟩ := append_inj same (by simp)
  rw [writeInt, writeInt, u32_of_lt m small, u32_of_lt n small'] at ints
  have digits := congrArg decode (append_inj' ints rfl).1
  rw [decode_encode 4 m small, decode_encode 4 n small'] at digits
  exact ⟨digits, rest⟩

theorem writeString_append_inj {s t : Bytes} {a b : Bytes} (small : s.length < 2 ^ 32)
    (small' : t.length < 2 ^ 32) (same : writeString s ++ a = writeString t ++ b) : s = t ∧ a = b := by
  simp only [writeString, append_assoc] at same
  obtain ⟨lengths, rest⟩ := writeInt_append_inj small small' same
  obtain ⟨strings, rest⟩ := append_inj rest lengths
  rw [lengths] at rest
  exact ⟨strings, append_cancel_left rest⟩

/-! ### Sources -/

/-- A source: `read` stores at least one byte and at most as many as asked for, or fails with a
message when there is none left. -/
structure Source (σ : Type) where
  read : σ → Nat → Except Bytes (Bytes × σ)
  rest : σ → Bytes
  read_some : ∀ s len, 0 < len → rest s ≠ [] → ∃ data s', read s len = .ok (data, s') ∧ data ≠ [] ∧
    data.length ≤ len ∧ rest s = data ++ rest s'
  read_none : ∀ s len, 0 < len → rest s = [] → ∃ message, read s len = .error message

/-- `StringSource`: what is left of a string. -/
def stringSource : Source Bytes where
  read := fun s len => if s = [] then .error (ascii "end of string reached") else .ok (s.take len, s.drop len)
  rest := id
  read_some := by
    intro s len positive some
    refine ⟨s.take len, s.drop len, if_neg some, ?_, length_take_le len s, (take_append_drop len s).symm⟩
    rw [ne_eq, take_eq_nil_iff, not_or]
    exact ⟨Nat.pos_iff_ne_zero.mp positive, some⟩
  read_none := fun s len _ none => ⟨_, if_pos none⟩

inductive SerialiseError (ε : Type)
  | endOfFile (message : Bytes)
  | serialisation (message : Bytes)
  | error (message : Bytes)
  /-- `SysError`, with what the call returned. -/
  | sys (message : Bytes) (errno : ε)
  | outOfFuel

section Sources

variable {σ : Type} (source : Source σ)

/-- The loop of `Source::operator ()`; each `read` gives a byte, so that `len` rounds are enough. -/
def Source.readLoop : Nat → Nat → σ → Except Bytes (Bytes × σ)
  | _, 0, s => .ok ([], s)
  | 0, _ + 1, _ => .error []
  | rounds + 1, len + 1, s => do
    let first ← source.read s (len + 1)
    let more ← Source.readLoop rounds (len + 1 - first.1.length) first.2
    return (first.1 ++ more.1, more.2)

/-- The loop reads all it is asked for, and fails only when there is less. -/
theorem Source.readLoop_spec {rounds len : Nat} (s : σ) (enough : len ≤ rounds) :
    match source.readLoop rounds len s with
    | .ok (data, s') => data.length = len ∧ source.rest s = data ++ source.rest s'
    | .error _ => (source.rest s).length < len := by
  fun_induction Source.readLoop source rounds len s with
  | case1 => exact ⟨rfl, rfl⟩
  | case2 => omega
  | case3 rounds len s ih =>
    by_cases none : source.rest s = []
    · obtain ⟨message, failed⟩ := source.read_none s (len + 1) (by omega) none
      simp [failed, bind, Except.bind, none]
    · obtain ⟨first, s', isFirst, nonempty, short, split⟩ := source.read_some s (len + 1) (by omega) none
      have one := length_pos_of_ne_nil nonempty
      have left := ih (first, s') (by dsimp only; omega)
      dsimp only at left
      simp only [isFirst, bind, Except.bind]
      cases ran : source.readLoop rounds (len + 1 - first.length) s' with
      | ok more =>
        rw [ran] at left
        refine ⟨?_, by rw [split, left.2, append_assoc]⟩
        rw [length_append, left.1]
        omega
      | error message =>
        rw [ran] at left
        rw [split, length_append]
        omega

end Sources

/-! ### Reading -/

section Reading

variable {σ ω ε : Type}

/-- Programs that read from a source and keep other state `ω`. -/
abbrev Reading (σ ω ε : Type) := EStateM (SerialiseError ε) (σ × ω)

variable (source : Source σ)

/-- `Source::operator ()`. -/
def readBytes (len : Nat) : Reading σ ω ε Bytes := fun st =>
  match source.readLoop len len st.1 with
  | .ok read => .ok read.1 (read.2, st.2)
  | .error message => .error (.endOfFile message) st

def readPadding (len : Nat) : Reading σ ω ε Unit := do
  if len % 8 = 0 then return ⟨⟩
  else
    let zero ← readBytes source (8 - len % 8)
    if zero = replicate (8 - len % 8) 0 then return ⟨⟩
    else throw (.serialisation (ascii "non-zero padding"))

def readInt : Reading σ ω ε Nat := do
  let buf ← readBytes source 8
  if buf.drop 4 = replicate 4 0 then return decode (buf.take 4)
  else throw (.serialisation (ascii "implementation cannot deal with > 32-bit integers"))

def readLongLong : Reading σ ω ε Nat := do
  let buf ← readBytes source 8
  return decode buf

def readString : Reading σ ω ε Bytes := do
  let len ← readInt source
  let buf ← readBytes source len
  readPadding source len
  return buf

variable {source} {s : σ} {w : ω} {fails : SerialiseError ε → σ × ω → Prop}

theorem wp_readBytes {len : Nat} {post : Bytes → σ × ω → Prop}
    (returns : ∀ data s', source.rest s = data ++ source.rest s' → data.length = len → post data (s', w))
    (short : (source.rest s).length < len → ∀ message, fails (.endOfFile message) (s, w)) :
    wp (readBytes source len) post fails (s, w) := by
  rw [wp, readBytes]
  have spec := source.readLoop_spec s (Nat.le_refl len)
  cases ran : source.readLoop len len s with
  | ok read =>
    rw [ran] at spec
    exact returns read.1 read.2 spec.2 spec.1
  | error message =>
    rw [ran] at spec
    exact short spec message

/-- The padding is read exactly when it is there. -/
theorem wp_readPadding {len : Nat} {post : Unit → σ × ω → Prop}
    (returns : ∀ s', source.rest s = writePadding len ++ source.rest s' → post ⟨⟩ (s', w))
    (other : (∀ more, source.rest s ≠ writePadding len ++ more) → ∀ e s', fails e (s', w)) :
    wp (readPadding source len) post fails (s, w) := by
  rw [readPadding, wp_ite]
  refine ⟨fun aligned => ?_, fun unaligned => ?_⟩
  · rw [wp_pure]
    exact returns s (by rw [writePadding, if_pos aligned]; rfl)
  · rw [writePadding, if_neg unaligned] at returns other
    rw [wp_bind]
    apply wp_readBytes
    · intro data s' split length
      rw [wp_ite, wp_pure, wp_throw]
      refine ⟨fun zero => ?_, fun nonzero => ?_⟩
      · exact returns s' (by rw [split, zero])
      · apply other
        intro more same
        rw [split] at same
        exact nonzero (append_inj same (by simpa using length)).1
    · intro short message
      apply other
      intro more same
      rw [same, length_append, length_replicate] at short
      omega

theorem wp_readInt {post : Nat → σ × ω → Prop}
    (returns : ∀ n s', source.rest s = writeInt n ++ source.rest s' → n < 2 ^ 32 → post n (s', w))
    (other : (∀ n more, n < 2 ^ 32 → source.rest s ≠ writeInt n ++ more) → ∀ e s', fails e (s', w)) :
    wp (readInt source) post fails (s, w) := by
  rw [readInt, wp_bind]
  apply wp_readBytes
  · intro data s' split length
    rw [wp_ite, wp_pure, wp_throw]
    refine ⟨fun zeros => ?_, fun nonzero => ?_⟩
    · have four : (data.take 4).length = 4 := by simp [length]
      have small : decode (data.take 4) < 2 ^ 32 := by
        have bound := decode_lt (data.take 4)
        rw [four] at bound
        exact bound
      have digits := encode_decode (data.take 4)
      rw [four] at digits
      apply returns _ s' _ small
      rw [split, writeInt, u32_of_lt _ small, digits, ← zeros, take_append_drop]
    · apply other
      intro n more small same
      rw [split] at same
      obtain ⟨rfl, _⟩ := append_inj same (by rw [length, length_writeInt])
      simp [writeInt] at nonzero
  · intro short message
    apply other
    intro n more _ same
    rw [same, length_append, length_writeInt] at short
    omega

theorem wp_readLongLong {post : Nat → σ × ω → Prop}
    (returns : ∀ n s', source.rest s = writeLongLong n ++ source.rest s' → n < 2 ^ 64 → post n (s', w))
    (other : (source.rest s).length < 8 → ∀ e s', fails e (s', w)) :
    wp (readLongLong source) post fails (s, w) := by
  rw [readLongLong, wp_bind]
  apply wp_readBytes
  · intro data s' split length
    have small : decode data < 2 ^ 64 := by
      have bound := decode_lt data
      rw [length] at bound
      exact bound
    apply returns _ s' _ small
    have digits := encode_decode data
    rw [length] at digits
    rw [split, writeLongLong, u64, Nat.mod_eq_of_lt small, digits]
  · exact fun short message => other short _ _

/-- A string is read exactly when one that fits is there. -/
theorem wp_readString {post : Bytes → σ × ω → Prop}
    (returns : ∀ str s', source.rest s = writeString str ++ source.rest s' → str.length < 2 ^ 32 →
      post str (s', w))
    (other : (∀ str more, str.length < 2 ^ 32 → source.rest s ≠ writeString str ++ more) →
      ∀ e s', fails e (s', w)) :
    wp (readString source) post fails (s, w) := by
  rw [readString, wp_bind]
  apply wp_readInt
  · intro len s₁ isLen small
    rw [wp_bind]
    apply wp_readBytes
    · intro buf s₂ isBuf length
      subst length
      rw [wp_bind]
      apply wp_readPadding
      · intro s₃ isPadding
        apply returns buf s₃ _ small
        rw [isLen, isBuf, isPadding, writeString, append_assoc, append_assoc]
      · intro noPadding e s₃
        apply other
        intro str more small' same
        rw [isLen, isBuf] at same
        simp only [writeString, append_assoc] at same
        obtain ⟨lengths, rest⟩ := writeInt_append_inj small small' same
        obtain ⟨rfl, rest⟩ := append_inj rest lengths
        exact noPadding more rest
    · intro short message
      apply other
      intro str more small' same
      rw [isLen] at same
      simp only [writeString, append_assoc] at same
      obtain ⟨lengths, rest⟩ := writeInt_append_inj small small' same
      rw [rest, length_append] at short
      omega
  · intro noInt e s₁
    apply other
    intro str more small same
    exact noInt str.length _ small same

end Reading

end Guix
