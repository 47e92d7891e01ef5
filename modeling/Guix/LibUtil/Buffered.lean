import Guix.Lib.Fallible
import Guix.LibUtil.Types
import Mathlib.Algebra.Ring.Nat

/-!
# Buffers of sinks and sources

`BufferedSink` and `BufferedSource` of `serialise.cc`. A buffer holds data between two positions;
beside them there may be anything, such as data that has been passed on before. Buffers are
allocated when they are first used, which makes no difference to what they hold.
-/

namespace Guix.Buffered

open Fallible List

/-- `memcpy` to a position of a buffer. -/
def memcpy (buffer : Bytes) (pos : Nat) (data : Bytes) : Bytes :=
  buffer.take pos ++ data ++ buffer.drop (pos + data.length)

theorem length_memcpy {buffer data : Bytes} {pos : Nat} (fits : pos + data.length ≤ buffer.length) :
    (memcpy buffer pos data).length = buffer.length := by
  simp only [memcpy, length_append, length_take, length_drop]
  omega

/-- Up to the end of the data, the buffer holds what was before it and the data. -/
theorem take_memcpy {buffer data : Bytes} {pos : Nat} (fits : pos + data.length ≤ buffer.length) :
    (memcpy buffer pos data).take (pos + data.length) = buffer.take pos ++ data := by
  have length : (buffer.take pos ++ data).length = pos + data.length := by
    rw [length_append, length_take]
    omega
  rw [memcpy, ← length, take_left]

/-! ### Sinks -/

/-- `written` is the data that `write` has been called with, call by call. -/
structure BufferedSink where
  bufSize : Nat
  bufPos : Nat
  buffer : Bytes
  written : List Bytes
  size : buffer.length = bufSize
  fits : bufPos ≤ bufSize

namespace BufferedSink

def start (buffer : Bytes) : BufferedSink where
  bufSize := buffer.length
  bufPos := 0
  buffer := buffer
  written := []
  size := rfl
  fits := Nat.zero_le _

def write (sink : BufferedSink) (data : Bytes) : BufferedSink :=
  { sink with written := sink.written ++ [data] }

def flush (sink : BufferedSink) : BufferedSink :=
  if sink.bufPos = 0 then sink
  else write { sink with bufPos := 0, fits := Nat.zero_le _ } (sink.buffer.take sink.bufPos)

def copy (sink : BufferedSink) (data : Bytes) (room : sink.bufPos + data.length ≤ sink.bufSize) :
    BufferedSink :=
  { sink with
    bufPos := sink.bufPos + data.length
    buffer := memcpy sink.buffer sink.bufPos data
    size := (length_memcpy (by rwa [sink.size])).trans sink.size
    fits := room }

/-- `if (bufPos == bufSize) flush()`. -/
def flushFull (sink : BufferedSink) : BufferedSink :=
  if sink.bufPos = sink.bufSize then sink.flush else sink

/-- `operator ()`. -/
def put (sink : BufferedSink) (data : Bytes) : BufferedSink :=
  if data = [] then sink
  else if large : sink.bufPos + data.length ≥ sink.bufSize then sink.flush.write data
  else
    let n := if sink.bufPos + data.length > sink.bufSize then sink.bufSize - sink.bufPos else data.length
    (sink.copy (data.take n) (by rw [length_take]; omega)).flushFull.put (data.drop n)
termination_by data.length
decreasing_by
  have nonempty : data.length ≠ 0 := by simpa using ‹¬data = []›
  rw [length_drop]
  split <;> omega

/-- All data that has been written to the sink. -/
def contents (sink : BufferedSink) : Bytes := sink.written.flatten ++ sink.buffer.take sink.bufPos

variable (sink : BufferedSink)

theorem bufPos_flush : sink.flush.bufPos = 0 := by
  unfold flush
  split
  · assumption
  · rfl

theorem contents_flush : sink.flush.contents = sink.contents := by
  unfold flush
  split
  · rfl
  · simp [contents, write]

theorem contents_flushFull : sink.flushFull.contents = sink.contents := by
  unfold flushFull
  split
  · exact contents_flush sink
  · rfl

theorem flatten_written_flush : sink.flush.written.flatten = sink.contents := by
  rw [← contents_flush, contents, bufPos_flush, take_zero, append_nil]

theorem contents_copy (data : Bytes) (room : sink.bufPos + data.length ≤ sink.bufSize) :
    (sink.copy data room).contents = sink.contents ++ data := by
  simp only [contents, copy, take_memcpy (sink.size.symm ▸ room), append_assoc]

theorem contents_put (data : Bytes) : (sink.put data).contents = sink.contents ++ data := by
  fun_induction put with
  | case1 => simp
  | case2 sink data _ large =>
    -- the data bypasses the buffer, which is empty
    have flushed := flatten_written_flush sink
    simp only [contents, write, bufPos_flush, flatten_append, flushed]
    simp
  | case3 sink data _ large n ih =>
    rw [ih, contents_flushFull, contents_copy, append_assoc, take_append_drop]

end BufferedSink

/-! ### Sources -/

inductive ReadError
  -- "unexpected end-of-file"
  | endOfFile
  deriving DecidableEq, Repr

/-- `chunks` is what `readUnbuffered` is going to store into the buffer, call by call; after
that it throws. -/
structure BufferedSource where
  bufSize : Nat
  bufPosIn : Nat
  bufPosOut : Nat
  buffer : Bytes
  chunks : List Bytes
  size : buffer.length = bufSize
  fits : bufPosIn ≤ bufSize
  order : bufPosIn = 0 ∧ bufPosOut = 0 ∨ bufPosOut < bufPosIn
  isChunk : ∀ chunk ∈ chunks, chunk ≠ [] ∧ chunk.length ≤ bufSize

namespace BufferedSource

def start (buffer : Bytes) (chunks : List Bytes)
    (isChunk : ∀ chunk ∈ chunks, chunk ≠ [] ∧ chunk.length ≤ buffer.length) : BufferedSource where
  bufSize := buffer.length
  bufPosIn := 0
  bufPosOut := 0
  buffer := buffer
  chunks := chunks
  size := rfl
  fits := Nat.zero_le _
  order := .inl ⟨rfl, rfl⟩
  isChunk := isChunk

/-- `if (!bufPosIn) bufPosIn = readUnbuffered(buffer, bufSize)`. -/
def fill (source : BufferedSource) : Except ReadError BufferedSource :=
  if empty : source.bufPosIn = 0 then
    match isChunks : source.chunks with
    | [] => .error .endOfFile
    | chunk :: chunks =>
      have isChunk : ∀ c ∈ chunk :: chunks, c ≠ [] ∧ c.length ≤ source.bufSize := isChunks ▸ source.isChunk
      .ok
        { source with
          bufPosIn := chunk.length
          buffer := memcpy source.buffer 0 chunk
          chunks := chunks
          size := (length_memcpy (by
            rw [source.size, Nat.zero_add]
            exact (isChunk chunk mem_cons_self).2)).trans source.size
          fits := (isChunk chunk mem_cons_self).2
          order := .inr (by
            have := source.order
            have := length_pos_of_ne_nil (isChunk chunk mem_cons_self).1
            omega)
          isChunk := fun c listed => isChunk c (mem_cons_of_mem chunk listed) }
  else .ok source

/-- Copies out the data in the buffer. -/
def drain (source : BufferedSource) (len : Nat) : Bytes × BufferedSource :=
  let n := if len > source.bufPosIn - source.bufPosOut then source.bufPosIn - source.bufPosOut else len
  let out := source.bufPosOut + n
  ((source.buffer.drop source.bufPosOut).take n,
    if same : source.bufPosIn = out then
      { source with bufPosIn := 0, bufPosOut := 0, fits := Nat.zero_le _, order := .inl ⟨rfl, rfl⟩ }
    else
      { source with
        bufPosOut := out
        order := .inr (by
          have := source.order
          have : n ≤ source.bufPosIn - source.bufPosOut := by
            simp only [n]
            split <;> omega
          omega) })

def read (source : BufferedSource) (len : Nat) : Except ReadError (Bytes × BufferedSource) := do
  let filled ← source.fill
  return filled.drain len

/-- What is left of the stream. -/
def remaining (source : BufferedSource) : Bytes :=
  (source.buffer.take source.bufPosIn).drop source.bufPosOut ++ source.chunks.flatten

theorem fill_ok {source filled : BufferedSource} (ok : source.fill = .ok filled) :
    filled.bufPosOut < filled.bufPosIn ∧ filled.remaining = source.remaining := by
  unfold fill at ok
  split at ok
  next empty =>
    have noOut : source.bufPosOut = 0 := by have := source.order; omega
    split at ok
    · cases ok
    next chunk chunks isChunks =>
      cases ok
      have isChunk := source.isChunk chunk (by rw [isChunks]; exact mem_cons_self)
      refine ⟨lt_of_eq_of_lt noOut (length_pos_of_ne_nil isChunk.1), ?_⟩
      have stored := @take_memcpy source.buffer chunk 0 (by rw [source.size]; omega)
      rw [Nat.zero_add] at stored
      simp [remaining, stored, isChunks, empty, noOut]
  next some' =>
    cases ok
    refine ⟨?_, rfl⟩
    have := source.order
    omega

theorem drain_spec {source : BufferedSource} (some' : source.bufPosOut < source.bufPosIn) {len : Nat}
    (positive : 0 < len) :
    0 < (source.drain len).1.length ∧ (source.drain len).1.length ≤ len ∧
      (source.drain len).1 ++ (source.drain len).2.remaining = source.remaining := by
  have size := source.size
  have fits := source.fits
  obtain ⟨n, isN, some', atMost, inside⟩ : ∃ n, (if len > source.bufPosIn - source.bufPosOut then
      source.bufPosIn - source.bufPosOut else len) = n ∧ 0 < n ∧ n ≤ len ∧
        source.bufPosOut + n ≤ source.bufPosIn := by
    split <;> exact ⟨_, rfl, by omega, by omega, by omega⟩
  have whole : (source.buffer.drop source.bufPosOut).take n ++
      (source.buffer.take source.bufPosIn).drop (source.bufPosOut + n) =
        (source.buffer.take source.bufPosIn).drop source.bufPosOut := by
    have split : source.bufPosIn - source.bufPosOut = n + (source.bufPosIn - (source.bufPosOut + n)) := by
      omega
    rw [drop_take, drop_take, split, take_add, drop_drop]
  have length : ((source.buffer.drop source.bufPosOut).take n).length = n := by
    rw [length_take, length_drop]
    omega
  simp only [drain, isN, length]
  refine ⟨some', atMost, ?_⟩
  split
  next same =>
    -- the buffer is drained, and both positions are reset
    simp only [← same, drop_take_self, append_nil] at whole
    simp [remaining, whole]
  next => simp only [remaining, ← whole, append_assoc]

theorem read_ok {source next : BufferedSource} {len : Nat} {data : Bytes} (positive : 0 < len)
    (ok : source.read len = .ok (data, next)) :
    0 < data.length ∧ data.length ≤ len ∧ data ++ next.remaining = source.remaining := by
  obtain ⟨filled, isFilled, drained⟩ := bind_ok.mp ok
  obtain ⟨some', same⟩ := fill_ok isFilled
  cases drained
  rw [← same]
  exact drain_spec some' positive

theorem read_returns {source : BufferedSource} (more : source.remaining ≠ []) (len : Nat) :
    ∃ data next, source.read len = .ok (data, next) := by
  have filled : ∃ filled, source.fill = .ok filled := by
    unfold fill
    split
    next empty =>
      split
      next none => simp [remaining, empty, none] at more
      next => exact ⟨_, rfl⟩
    next => exact ⟨_, rfl⟩
  obtain ⟨filled, isFilled⟩ := filled
  exact ⟨_, _, bind_ok.mpr ⟨filled, isFilled, rfl⟩⟩

/-- `Source::operator ()`: reads until there are `len` bytes. -/
def get (source : BufferedSource) (len : Nat) : Except ReadError (Bytes × BufferedSource) :=
  if positive : len = 0 then .ok ([], source)
  else
    match piece : source.read len with
    | .error e => .error e
    | .ok (data, next) =>
      have := read_ok (Nat.pos_of_ne_zero positive) piece
      match next.get (len - data.length) with
      | .error e => .error e
      | .ok (rest, last) => .ok (data ++ rest, last)
termination_by len

theorem get_returns (source : BufferedSource) (len : Nat) (enough : len ≤ source.remaining.length) :
    ∃ data next, source.get len = .ok (data, next) ∧ data.length = len ∧
      data ++ next.remaining = source.remaining := by
  induction len using Nat.strong_induction_on generalizing source with
  | _ len ih =>
    unfold get
    split
    next zero => exact ⟨[], source, rfl, zero.symm, rfl⟩
    next nonzero =>
      have more : source.remaining ≠ [] := fun none => by
        rw [none, length_nil] at enough
        omega
      obtain ⟨data, next, piece⟩ := read_returns more len
      obtain ⟨some', atMost, whole⟩ := read_ok (Nat.pos_of_ne_zero nonzero) piece
      have lengths := congrArg length whole
      rw [length_append] at lengths
      obtain ⟨rest, last, got, length, whole'⟩ := ih (len - data.length) (by omega) next (by omega)
      split
      next e failed => rw [piece] at failed; cases failed
      next data' next' piece' =>
        rw [piece] at piece'
        cases piece'
        rw [got]
        refine ⟨_, _, rfl, ?_, ?_⟩
        · rw [length_append, length]
          omega
        · rw [append_assoc, whole', whole]

/-- Several reads, one after the other. -/
def gets (source : BufferedSource) : List Nat → Except ReadError (List Bytes × BufferedSource)
  | [] => .ok ([], source)
  | len :: lens => do
    let (data, next) ← source.get len
    let (pieces, last) ← next.gets lens
    return (data :: pieces, last)

theorem gets_returns (source : BufferedSource) (lens : List Nat) (enough : lens.sum ≤ source.remaining.length) :
    ∃ pieces last, source.gets lens = .ok (pieces, last) ∧ pieces.map length = lens ∧
      pieces.flatten ++ last.remaining = source.remaining := by
  induction lens generalizing source with
  | nil => exact ⟨[], source, rfl, rfl, rfl⟩
  | cons len lens ih =>
    rw [sum_cons] at enough
    obtain ⟨data, next, got, length, whole⟩ := source.get_returns len (by omega)
    have lengths := congrArg List.length whole
    rw [length_append] at lengths
    obtain ⟨pieces, last, gotRest, lengths', whole'⟩ := ih next (by omega)
    refine ⟨data :: pieces, last, ?_, by rw [map_cons, length, lengths'], ?_⟩
    · exact bind_ok.mpr ⟨_, got, bind_ok.mpr ⟨_, gotRest, rfl⟩⟩
    · rw [flatten_cons, append_assoc, whole', whole]

end BufferedSource

/-- What is passed on by a sink that is flushed in the end is what was written to it; what is read from a
source are consecutive pieces of the stream, of the lengths that were asked for. -/
theorem buffers_transparent (buffer : Bytes) (datas : List Bytes) (chunks : List Bytes)
    (isChunk : ∀ chunk ∈ chunks, chunk ≠ [] ∧ chunk.length ≤ buffer.length) (lens : List Nat)
    (enough : lens.sum ≤ chunks.flatten.length) :
    (datas.foldl BufferedSink.put (.start buffer)).flush.written.flatten = datas.flatten ∧
    ∃ pieces last, (BufferedSource.start buffer chunks isChunk).gets lens = .ok (pieces, last) ∧
      pieces.map length = lens ∧ pieces.flatten = chunks.flatten.take lens.sum := by
  refine ⟨?_, ?_⟩
  · have written : ∀ sink : BufferedSink,
        (datas.foldl BufferedSink.put sink).contents = sink.contents ++ datas.flatten := by
      induction datas with
      | nil => simp
      | cons data datas ih =>
        intro sink
        rw [foldl_cons, ih, BufferedSink.contents_put, flatten_cons, append_assoc]
    rw [BufferedSink.flatten_written_flush, written]
    simp [BufferedSink.contents, BufferedSink.start]
  · have stream : (BufferedSource.start buffer chunks isChunk).remaining = chunks.flatten := by
      simp [BufferedSource.remaining, BufferedSource.start]
    obtain ⟨pieces, last, got, lengths, whole⟩ :=
      (BufferedSource.start buffer chunks isChunk).gets_returns lens (by rwa [stream])
    refine ⟨pieces, last, got, lengths, ?_⟩
    rw [← stream, ← whole, ← lengths, ← length_flatten, take_left]

theorem buffers_transparent_small :
    ([[1, 2, 3], [4], [5, 6]].foldl BufferedSink.put (.start [0, 0])).flush.written.flatten =
      [1, 2, 3, 4, 5, 6] ∧
    ∃ pieces last, (BufferedSource.start [0, 0] [[1], [2, 3], [4]] (by decide)).gets [3, 0, 1] =
        .ok (pieces, last) ∧
      pieces.map length = [3, 0, 1] ∧ pieces.flatten = [1, 2, 3, 4] :=
  buffers_transparent [0, 0] [[1, 2, 3], [4], [5, 6]] [[1], [2, 3], [4]] (by decide) [3, 0, 1] (by decide)

end Guix.Buffered
