import Mathlib.Algebra.Group.Nat.Defs
import Mathlib.Data.List.TakeWhile

/-!
# Strings and paths of the daemon

The daemon's `string` is a sequence of bytes and a `Path` is such a string. String
literals of the source are ASCII.
-/
namespace Guix

abbrev Bytes := List UInt8

abbrev Path := Bytes

instance : LawfulBEq Bytes := List.instLawfulBEq

/-- A statement about the items of a list is decided item by item, also for bytes, which are
a finite type. -/
instance (priority := 2000) decidableItems {α : Type} (p : α → Prop) [DecidablePred p] (items : List α) :
    Decidable (∀ a ∈ items, p a) := List.decidableBAll p items

/-- The bytes of an ASCII string literal. -/
def ascii (s : String) : Bytes := s.toList.map fun c => UInt8.ofNat c.toNat

/-- The UTF-8 bytes of a string literal with other characters. -/
def utf8 (s : String) : Bytes := s.toList.flatMap String.utf8EncodeChar

/-- What a callee that is given `s.c_str()` reads: the bytes up to the first NUL. -/
def cstr (s : Bytes) : Bytes := s.takeWhile (· != 0)

theorem cstr_eq_self {s : Bytes} (noNul : 0 ∉ s) : cstr s = s := by
  apply List.takeWhile_eq_self_iff.mpr
  intro b inString
  simp only [bne_iff_ne, ne_eq]
  intro isNul
  exact noNul (isNul ▸ inString)

theorem zero_notMem_cstr (s : Bytes) : 0 ∉ cstr s := by
  intro zero
  have := List.mem_takeWhile_imp zero
  simp at this

@[simp] theorem cstr_cstr (s : Bytes) : cstr (cstr s) = cstr s :=
  cstr_eq_self (zero_notMem_cstr s)

/-- `hasSuffix` of `util.cc`. -/
def hasSuffix (s suffix : Bytes) : Bool :=
  decide (s.length ≥ suffix.length) && s.drop (s.length - suffix.length) == suffix

/-- Wrap-around of an `unsigned long long`. -/
def u64 (n : Nat) : Nat := n % 2 ^ 64

/-- Wrap-around of an `unsigned int`. -/
def u32 (n : Nat) : Nat := n % 2 ^ 32

theorem u32_of_lt (n : Nat) (small : n < 2 ^ 32) : u32 n = n :=
  Nat.mod_eq_of_lt small

end Guix
