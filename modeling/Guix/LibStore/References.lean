import Guix.LibUtil.Types
import Guix.Lib.Slice
import Mathlib.Data.Finset.Basic

/-!
# Scanning for store references

Embedding of `search` and `RefScanSink` of nix/libstore/references.cc. A `Sink`
receives a stream as a sequence of chunks; `RefScanSink` looks for the hash parts
of store paths in it and keeps the last `refLength` bytes between chunks.

`search` takes its length as an `unsigned int` while the sink is called with a
`size_t`, so the model keeps the conversion and the 32-bit arithmetic of the loop.
A read past the end of the buffer is undefined behaviour and yields `none`.
-/
namespace Guix.LibStore

open Slice

def refLength : Nat := 32

def base32Chars : Bytes := ascii "0123456789abcdfghijklmnpqrsvwxyz"

def isBase32 (c : UInt8) : Bool := base32Chars.contains c

/-- What the inner loop of `search` finds when it reads a window backwards. -/
inductive Window
  | outOfBounds
  | notBase32 (j : Nat)
  | base32
  deriving DecidableEq

/-- Check positions `i + j - 1, ..., i` of the buffer, in that order. -/
def checkWindow (s : Bytes) (i : Nat) : Nat → Window
  | 0 => .base32
  | j + 1 =>
    match s[u32 (i + j)]? with
    | none => .outOfBounds
    | some c => if isBase32 c then checkWindow s i j else .notBase32 j

/-- The two sets `search` updates: the hashes still looked for, and those found. -/
structure SearchState where
  hashes : Finset Bytes
  seen : Finset Bytes

/-- `if (hashes.find(ref) != hashes.end()) { seen.insert(ref); hashes.erase(ref); }` -/
def SearchState.record (st : SearchState) (ref : Bytes) : SearchState :=
  if ref ∈ st.hashes then ⟨st.hashes.erase ref, insert ref st.seen⟩ else st

def searchFrom (s : Bytes) (len : Nat) : Nat → Nat → SearchState → Option SearchState
  | 0, _, _ => none
  | fuel + 1, i, st =>
    if u32 (i + refLength) ≤ len then
      match checkWindow s i refLength with
      | .outOfBounds => none
      | .notBase32 j => searchFrom s len fuel (u32 (i + (j + 1))) st
      | .base32 => searchFrom s len fuel (u32 (i + 1)) (st.record (slice s i refLength))
    else some st

/-- `search(s, len, hashes, seen)`, with `len` converted to `unsigned int`. The
index grows in every round, so `len + 1` rounds are enough. -/
def search (s : Bytes) (len : Nat) (st : SearchState) : Option SearchState :=
  searchFrom s (u32 len) (u32 len + 1) 0 st

structure RefScanSink where
  /-- the bytes handed to the SHA-256 context -/
  hashSink : Bytes
  hashes : Finset Bytes
  seen : Finset Bytes
  tail : Bytes

/-- A sink about to scan for `hashes`. -/
def RefScanSink.init (hashes : Finset Bytes) : RefScanSink := ⟨[], hashes, ∅, []⟩

/-- The tail to keep after a chunk `data`, as the sink computes it from the old one. -/
def nextTail (tail data : Bytes) : Bytes :=
  let tailLen := if data.length ≤ refLength then data.length else refLength
  tail.drop (if tail.length < refLength - tailLen then 0 else tail.length - (refLength - tailLen)) ++
    slice data (data.length - tailLen) tailLen

/-- `RefScanSink::operator ()` on one chunk. -/
def RefScanSink.call (sink : RefScanSink) (data : Bytes) : Option RefScanSink := do
  -- a reference may span the previous chunk and this one
  let s := sink.tail ++ data.take (if data.length > refLength then refLength else data.length)
  let st ← search s s.length ⟨sink.hashes, sink.seen⟩
  let st ← search data data.length st
  return {
    hashSink := sink.hashSink ++ data
    hashes := st.hashes
    seen := st.seen
    tail := nextTail sink.tail data }

/-- Deliver a stream chunk by chunk. -/
def RefScanSink.callAll (sink : RefScanSink) : List Bytes → Option RefScanSink
  | [] => some sink
  | chunk :: chunks => do (← sink.call chunk).callAll chunks

end Guix.LibStore
