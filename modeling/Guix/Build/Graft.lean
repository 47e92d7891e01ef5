import Guix.LibUtil.Types
import Guix.Lib.Slice

/-!
# Rewriting store references

Embedding of `replace-store-references` of guix/build/graft.scm. The input is read
through one buffer of `requestSize` bytes; the scanner looks for dashes that follow
a hash in ASCII, UTF-16 or UTF-32, replaces the hashes of the table, and gives the
end of a full buffer back to the input port so that no reference is cut in two.

The port is the list of bytes still to be read. Bytes of the buffer are only read
below `end`, so the buffer is the list of bytes that `get-bytevector-n!` delivered.
-/
namespace Guix.Build

open Slice

def hashLength : Nat := 32

def nixBase32Char (b : UInt8) : Bool := (ascii "0123456789abcdfghijklmnpqrsvwxyz").contains b

def nixBase32CharOrNul (b : UInt8) : Bool := nixBase32Char b || b == 0

def isDash (b : UInt8) : Bool := b == 45

def byteAt (buffer : Bytes) (i : Nat) : UInt8 := buffer.getD i 0

/-- The loop of `possible-utf16-hash?`, over positions `j, j + 2, ...` below `i`. -/
def utf16Loop (buffer : Bytes) (i : Nat) : Nat → Nat → Bool
  | 0, _ => true
  | fuel + 1, j => decide (j ≥ i) || (byteAt buffer j == 0 && utf16Loop buffer i fuel (j + 2))

def possibleUtf16Hash (buffer : Bytes) (i w : Nat) : Bool :=
  decide (2 * hashLength + w ≤ i) && utf16Loop buffer i (hashLength + 1) (1 + (i - 2 * hashLength))

/-- The loop of `possible-utf32-hash?`, over positions `j, j + 4, ...` below `i`. -/
def utf32Loop (buffer : Bytes) (i : Nat) : Nat → Nat → Bool
  | 0, _ => true
  | fuel + 1, j => decide (j ≥ i) ||
      (byteAt buffer j == 0 && byteAt buffer (j + 1) == 0 && byteAt buffer (j + 2) == 0 &&
        utf32Loop buffer i fuel (j + 4))

def possibleUtf32Hash (buffer : Bytes) (i w : Nat) : Bool :=
  decide (4 * hashLength + w ≤ i) && utf32Loop buffer i (hashLength + 1) (1 + (i - 4 * hashLength))

/-- The loop of `insert-nuls` after `count` rounds: byte `i` of `bv` is stored at
position `i * charSize` of `bv'`. -/
def placeBytes (charSize : Nat) (bv bv' : Bytes) : Nat → Bytes
  | 0 => bv'
  | i + 1 => (placeBytes charSize bv bv' i).set (i * charSize) (byteAt bv i)

def insertNuls (charSize : Nat) (bv : Bytes) : Bytes :=
  if charSize = 1 then bv
  else placeBytes charSize bv (List.replicate (1 + charSize * (bv.length - 1)) 0) bv.length

/-- A vhash from hashes to replacement strings, each a hash, a dash and a name. -/
structure ReplacementTable where
  entries : List (Bytes × Bytes)
  keys : ∀ entry ∈ entries, entry.1.length = hashLength ∧ ∀ b ∈ entry.1, nixBase32Char b = true
  values : ∀ entry ∈ entries, hashLength + 1 ≤ entry.2.length

/-- `vhash-assoc` finds the first entry of a key. -/
def ReplacementTable.lookupReplacement (table : ReplacementTable) (s : Bytes) : Option Bytes :=
  (table.entries.find? (·.1 == s)).map (·.2)

/-- Count the NULs before the dash at `i`: the encoding that the preceding hash can
still have, if any. -/
def foundDash (buffer : Bytes) (i w : Nat) : Option Nat :=
  if byteAt buffer (i - 1) != 0 then some 1
  else if byteAt buffer (i - 2) != 0 then
    if possibleUtf16Hash buffer i w then some 2 else none
  else if possibleUtf32Hash buffer i w then some 4 else none

/-- The replacement of the hash before the dash at `i`, if the table has one. -/
def foundPossibleHash (table : ReplacementTable) (buffer : Bytes) (charSize i : Nat) : Option Bytes :=
  let hash := (List.range hashLength).map fun j => byteAt buffer (i - charSize * (hashLength - j))
  (table.lookupReplacement hash).map (insertNuls charSize)

/-- Where to go on when position `i` is not part of a hash. -/
def notPartOfHash (i : Nat) : Nat := i + 1 + hashLength

/-- `scan-from` up to `finish-buffer`: the number of bytes of the buffer written, and
the output. -/
def scanFrom (table : ReplacementTable) (buffer : Bytes) :
    Nat → Nat → Nat → Bytes → Option (Nat × Bytes)
  | 0, _, _, _ => none
  | fuel + 1, i, w, output =>
    if i < buffer.length then
      if isDash (byteAt buffer i) then
        match foundDash buffer i w with
        | none => scanFrom table buffer fuel (notPartOfHash i) w output
        | some charSize =>
          match foundPossibleHash table buffer charSize i with
          | none => scanFrom table buffer fuel (notPartOfHash i) w output
          | some replacement =>
            let start := i - charSize * hashLength
            let w' := start + replacement.length
            scanFrom table buffer fuel (w' + hashLength) w'
              (output ++ slice buffer w (start - w) ++ replacement)
      else if nixBase32CharOrNul (byteAt buffer i) then
        scanFrom table buffer fuel (i + 1) w output
      else scanFrom table buffer fuel (notPartOfHash i) w output
    else some (w, output)

/-- The end of a run of the procedure. -/
inductive Outcome
  /-- returned, with what was written to the output port -/
  | done (output : Bytes)
  /-- `get-bytevector-n!` was asked for more bytes than the buffer holds -/
  | outOfRange (output : Bytes)
  | diverged
  deriving DecidableEq

def Outcome.output : Outcome → Bytes
  | done output => output
  | outOfRange output => output
  | diverged => []

def outerLoop (requestSize : Nat) (table : ReplacementTable) : Nat → Bytes → Bytes → Outcome
  | 0, _, _ => .diverged
  | fuel + 1, input, output =>
    if input = [] then .done output
    else
      let buffer := input.take requestSize
      let rest := input.drop requestSize
      match scanFrom table buffer (buffer.length + 1) hashLength 0 output with
      | none => .diverged
      | some (w, output) =>
        -- finish-buffer
        if w > buffer.length then
          if w - buffer.length > requestSize then .outOfRange output
          else outerLoop requestSize table fuel (rest.drop (w - buffer.length)) output
        else
          let unwritten := buffer.length - w
          let ungetSize := if buffer.length = requestSize then min (4 * hashLength) unwritten else 0
          let writeSize := unwritten - ungetSize
          outerLoop requestSize table fuel (slice buffer (w + writeSize) ungetSize ++ rest)
            (output ++ slice buffer w writeSize)

/-- `replace-store-references`, with the size of its buffer as a parameter. Every
round consumes a byte of the input, so `input.length + 1` rounds are enough. -/
def replaceStoreReferences (requestSize : Nat) (table : ReplacementTable) (input : Bytes) : Outcome :=
  outerLoop requestSize table (input.length + 1) input []

/-- The size in the source, 1 MiB. -/
def requestSize : Nat := 2 ^ 20

/-! ### The reference definition

What the procedure computes, over the whole input and without a buffer. -/

/-- Every byte followed by `charSize - 1` NULs. -/
def spread (charSize : Nat) (bs : Bytes) : Bytes :=
  bs.flatMap fun b => b :: List.replicate (charSize - 1) 0

/-- `charSize - 1` NULs between any two bytes, and none at the end. -/
def interleave (charSize : Nat) (bs : Bytes) : Bytes :=
  (spread charSize bs).take (1 + charSize * (bs.length - 1))

/-- The replacement for a hash of the table that ends at `i`, lies past the frontier
`w` and is written with `charSize` bytes per character. -/
def referenceAt (table : ReplacementTable) (input : Bytes) (w i charSize : Nat) : Option Bytes :=
  if charSize * hashLength + w ≤ i then
    (table.entries.find? fun entry =>
      spread charSize entry.1 == slice input (i - charSize * hashLength) (charSize * hashLength)).map (·.2)
  else none

/-- The reference that a dash at `i` ends: its character size and its replacement. -/
def matchAt (table : ReplacementTable) (input : Bytes) (w i : Nat) : Option (Nat × Bytes) :=
  if input[i]? = some 45 then
    [1, 2, 4].findSome? fun charSize => (referenceAt table input w i charSize).map (charSize, ·)
  else none

/-- Scan the `count` positions from `i` on with the frontier `w`, then emit the rest. -/
def referenceScan (table : ReplacementTable) (input : Bytes) : Nat → Nat → Nat → Bytes
  | 0, _, w => input.drop w
  | count + 1, i, w =>
    match matchAt table input w i with
    | none => referenceScan table input count (i + 1) w
    | some (charSize, replacement) =>
      let start := i - charSize * hashLength
      slice input w (start - w) ++ interleave charSize replacement ++
        referenceScan table input count (i + 1) (start + (interleave charSize replacement).length)

def reference (table : ReplacementTable) (input : Bytes) : Bytes :=
  referenceScan table input input.length 0 0

end Guix.Build
