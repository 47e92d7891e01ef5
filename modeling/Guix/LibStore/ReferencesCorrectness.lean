import Guix.LibStore.References

/-!
# Correctness of the reference scanner

The scanner finds a hash iff it occurs in the stream, whatever the chunks. Two
facts carry the proof: a window is skipped only past a byte that no hash contains,
and an occurrence that is not inside one chunk lies in the kept tail followed by the
start of the chunk.
-/
namespace Guix.LibStore

open Slice List RefScanSink

/-- A hash part of a store path. -/
def IsHash (h : Bytes) : Prop := h.length = refLength ∧ ∀ c ∈ h, isBase32 c = true
  deriving Decidable

/-- `h` occurs in `s` at offset `i` or later. -/
def OccursFrom (s : Bytes) (i : Nat) (h : Bytes) : Prop :=
  ∃ k, i ≤ k ∧ k + refLength ≤ s.length ∧ slice s k refLength = h

theorem occursFrom_zero_iff (s h : Bytes) (hash : IsHash h) : OccursFrom s 0 h ↔ h <:+: s := by
  rw [isInfix_iff_slice, hash.1]
  exact ⟨fun ⟨k, _, fits, equal⟩ => ⟨k, fits, equal⟩, fun ⟨k, fits, equal⟩ => ⟨k, by omega, fits, equal⟩⟩

/-! ### The inner loop -/

theorem checkWindow_notBase32 (s : Bytes) (i n j : Nat) (small : i + n < 2 ^ 32)
    (found : checkWindow s i n = .notBase32 j) :
    j < n ∧ ∃ c, s[i + j]? = some c ∧ isBase32 c = false := by
  induction n with
  | zero => cases found
  | succ n ih =>
    simp only [checkWindow, u32_of_lt (i + n) (by omega)] at found
    split at found
    · cases found
    next c read =>
      split at found
      · obtain ⟨inside, rest⟩ := ih (by omega) found
        exact ⟨by omega, rest⟩
      next other =>
        cases found
        exact ⟨by omega, c, read, by simpa using other⟩

theorem checkWindow_inBounds (s : Bytes) (i n : Nat) (small : i + n < 2 ^ 32)
    (fits : i + n ≤ s.length) : checkWindow s i n ≠ .outOfBounds := by
  induction n with
  | zero => simp [checkWindow]
  | succ n ih =>
    have read : s[u32 (i + n)]? = some s[i + n] := by
      rw [u32_of_lt (i + n) (by omega)]
      exact getElem?_eq_getElem (by omega)
    simp only [checkWindow, read]
    split
    · exact ih (by omega) (by omega)
    · simp

/-! ### The outer loop -/

/-- No hash starts at or before a byte that is not a base-32 character and still
covers it. -/
theorem occursFrom_skip (s h : Bytes) (i j : Nat) (c : UInt8) (hash : IsHash h)
    (inside : j < refLength) (read : s[i + j]? = some c) (other : isBase32 c = false) :
    OccursFrom s i h ↔ OccursFrom s (i + (j + 1)) h := by
  constructor
  · rintro ⟨k, from_i, fits, equal⟩
    by_cases later : i + (j + 1) ≤ k
    · exact ⟨k, later, fits, equal⟩
    · have position : k + (i + j - k) = i + j := by omega
      have member : c ∈ slice s k refLength :=
        mem_slice_of_index s k refLength (i + j - k) (by omega) c (by rw [position]; exact read)
      rw [equal] at member
      simp [hash.2 c member] at other
  · rintro ⟨k, later, fits, equal⟩
    exact ⟨k, by omega, fits, equal⟩

theorem occursFrom_step (s h : Bytes) (i : Nat) (fits : i + refLength ≤ s.length) :
    OccursFrom s i h ↔ h = slice s i refLength ∨ OccursFrom s (i + 1) h := by
  constructor
  · rintro ⟨k, from_i, inside, equal⟩
    by_cases here : k = i
    · subst k
      exact .inl equal.symm
    · exact .inr ⟨k, by omega, inside, equal⟩
  · rintro (rfl | ⟨k, later, inside, equal⟩)
    · exact ⟨i, le_rfl, fits, rfl⟩
    · exact ⟨k, by omega, inside, equal⟩

/-- `st'` is `st` after every hash with property `P` has been found. -/
def Found (st st' : SearchState) (P : Bytes → Prop) : Prop :=
  ∀ h, (h ∈ st'.seen ↔ h ∈ st.seen ∨ (h ∈ st.hashes ∧ P h)) ∧
    (h ∈ st'.hashes ↔ h ∈ st.hashes ∧ ¬P h)

theorem Found.congr {st st' : SearchState} {P Q : Bytes → Prop} (found : Found st st' P)
    (same : ∀ h ∈ st.hashes, P h ↔ Q h) : Found st st' Q := by
  intro h
  obtain ⟨seen, rest⟩ := found h
  by_cases member : h ∈ st.hashes
  · rw [seen, rest, same h member]
    exact ⟨Iff.rfl, Iff.rfl⟩
  · simp [seen, rest, member]

theorem Found.trans {st st' st'' : SearchState} {P Q : Bytes → Prop} (first : Found st st' P)
    (second : Found st' st'' Q) : Found st st'' (fun h => P h ∨ Q h) := by
  intro h
  obtain ⟨seen, rest⟩ := first h
  obtain ⟨seen', rest'⟩ := second h
  rw [seen', rest', seen, rest]
  by_cases now : P h
  · simp [now]
  · simp [now]

theorem found_record (st : SearchState) (ref : Bytes) : Found st (st.record ref) (· = ref) := by
  intro h
  unfold SearchState.record
  split
  next present =>
    by_cases equal : h = ref
    · simp [equal, present]
    · simp [equal]
  next absent =>
    by_cases equal : h = ref
    · simp [equal, absent]
    · simp [equal]

theorem searchFrom_found (s : Bytes) (fuel i : Nat) (st : SearchState)
    (short : s.length + refLength < 2 ^ 32) (start : i ≤ s.length)
    (enough : s.length < i + fuel) (hashes : ∀ h ∈ st.hashes, IsHash h) :
    ∃ st', searchFrom s s.length fuel i st = some st' ∧ Found st st' (OccursFrom s i) := by
  induction fuel generalizing i st with
  | zero => omega
  | succ fuel ih =>
    simp only [searchFrom, u32_of_lt (i + refLength) (by omega)]
    split
    next fits =>
      simp only [refLength] at fits short
      cases window : checkWindow s i refLength with
      | outOfBounds => exact absurd window (checkWindow_inBounds s i _ (by simp only [refLength]; omega) fits)
      | notBase32 j =>
        obtain ⟨inside, c, read, other⟩ :=
          checkWindow_notBase32 s i refLength j (by simp only [refLength]; omega) window
        simp only [refLength] at inside
        obtain ⟨st', returned, found⟩ := ih (i + (j + 1)) st (by omega) (by omega) hashes
        rw [← u32_of_lt (i + (j + 1)) (by omega)] at returned
        exact ⟨st', returned, found.congr fun h member =>
          (occursFrom_skip s h i j c (hashes h member) inside read other).symm⟩
      | base32 =>
        have first := found_record st (slice s i refLength)
        obtain ⟨st', returned, found⟩ := ih (i + 1) (st.record (slice s i refLength)) (by omega)
          (by omega) (fun h member => hashes h ((first h).2.mp member).1)
        rw [← u32_of_lt (i + 1) (by omega)] at returned
        exact ⟨st', returned, (first.trans found).congr fun h _ => (occursFrom_step s h i fits).symm⟩
    next past =>
      refine ⟨st, rfl, fun h => ?_⟩
      have none : ¬OccursFrom s i h := fun ⟨k, _, _, _⟩ => by omega
      simp [none]

theorem search_found (s : Bytes) (st : SearchState) (short : s.length + refLength < 2 ^ 32)
    (hashes : ∀ h ∈ st.hashes, IsHash h) :
    ∃ st', search s s.length st = some st' ∧ Found st st' (· <:+: s) := by
  have len : u32 s.length = s.length := u32_of_lt _ (by omega)
  obtain ⟨st', returned, found⟩ := searchFrom_found s (s.length + 1) 0 st short (by omega) (by omega) hashes
  refine ⟨st', by rw [search, len]; exact returned, found.congr fun h member => ?_⟩
  exact occursFrom_zero_iff s h (hashes h member)

/-! ### The sink -/

/-- The sink after the bytes `stream`, when it was asked to look for `hashes`. -/
structure Scanned (hashes : Finset Bytes) (stream : Bytes) (sink : RefScanSink) : Prop where
  hashed : sink.hashSink = stream
  tail : sink.tail = stream.drop (stream.length - refLength)
  found : Found ⟨hashes, ∅⟩ ⟨sink.hashes, sink.seen⟩ (· <:+: stream)

theorem scanned_init {hashes : Finset Bytes} (wellFormed : ∀ h ∈ hashes, IsHash h) :
    Scanned hashes [] (init hashes) := by
  refine ⟨rfl, rfl, fun h => ?_⟩
  have absent : h ∈ hashes → ¬h <:+: [] := by
    intro member occurs
    have length := (wellFormed h member).1
    rw [infix_nil.mp occurs] at length
    cases length
  simp only [init]
  constructor
  · simpa using absent
  · exact ⟨fun member => ⟨member, absent member⟩, And.left⟩

/-- The new tail is the end of the extended stream. -/
theorem nextTail_eq (stream data : Bytes) :
    nextTail (stream.drop (stream.length - refLength)) data =
      (stream ++ data).drop ((stream ++ data).length - refLength) := by
  rw [drop_append, length_append]
  by_cases short : data.length ≤ refLength
  · simp only [nextTail, if_pos short, drop_drop, length_drop, Nat.sub_self]
    have dataKept : data.length - data.length = stream.length + data.length - refLength - stream.length := by
      omega
    congr 1
    · congr 1
      split_ifs <;> omega
    · rw [slice, take_of_length_le (by simp), ← dataKept, Nat.sub_self]
  · -- the chunk replaces the whole tail
    have dropped : stream.drop (stream.length + data.length - refLength) = [] :=
      drop_of_length_le (by omega)
    have oldGone : (stream.drop (stream.length - refLength)).drop
        (stream.drop (stream.length - refLength)).length = [] := drop_length
    have kept : stream.length + data.length - refLength - stream.length = data.length - refLength := by
      omega
    simp only [nextTail, if_neg short, Nat.sub_self, Nat.not_lt_zero, if_false, Nat.sub_zero]
    rw [oldGone, dropped, kept, slice, take_of_length_le (by rw [length_drop]; omega)]

theorem call_scanned (hashes : Finset Bytes) (stream data : Bytes) (sink : RefScanSink)
    (wellFormed : ∀ h ∈ hashes, IsHash h) (short : data.length + refLength < 2 ^ 32)
    (scanned : Scanned hashes stream sink) :
    ∃ sink', sink.call data = some sink' ∧ Scanned hashes (stream ++ data) sink' := by
  have remaining : ∀ h ∈ sink.hashes, IsHash h := fun h member =>
    wellFormed h ((scanned.found h).2.mp member).1
  have start : data.take (if data.length > refLength then refLength else data.length) =
      data.take refLength := by
    split_ifs
    · rfl
    · rw [take_of_length_le le_rfl, take_of_length_le (by omega)]
  have seamLength : (sink.tail ++ data.take refLength).length + refLength < 2 ^ 32 := by
    rw [scanned.tail]
    simp only [length_append, length_drop, length_take, refLength] at short ⊢
    omega
  obtain ⟨st, atSeam, foundSeam⟩ :=
    search_found (sink.tail ++ data.take refLength) ⟨sink.hashes, sink.seen⟩ seamLength remaining
  obtain ⟨st', inData, foundData⟩ := search_found data st short fun h member =>
    remaining h ((foundSeam h).2.mp member).1
  refine ⟨_, by simp only [call, start, atSeam, inData, Option.bind_eq_bind,
    Option.bind_some]; rfl, ?_, ?_, ?_⟩
  · simp only [scanned.hashed]
  · simp only [scanned.tail]
    exact nextTail_eq stream data
  · refine ((scanned.found.trans foundSeam).trans foundData).congr fun h member => ?_
    rw [isInfix_append_iff h stream data refLength (wellFormed h member).1.le, ← scanned.tail, or_assoc]

theorem callAll_scanned (hashes : Finset Bytes) (chunks : List Bytes) (stream : Bytes)
    (sink : RefScanSink) (wellFormed : ∀ h ∈ hashes, IsHash h)
    (short : ∀ chunk ∈ chunks, chunk.length + refLength < 2 ^ 32)
    (scanned : Scanned hashes stream sink) :
    ∃ sink', sink.callAll chunks = some sink' ∧ Scanned hashes (stream ++ chunks.flatten) sink' := by
  induction chunks generalizing stream sink with
  | nil => exact ⟨sink, rfl, by simpa using scanned⟩
  | cons chunk chunks ih =>
    obtain ⟨next, called, scannedNext⟩ :=
      call_scanned hashes stream chunk sink wellFormed (short chunk (by simp)) scanned
    obtain ⟨sink', rest, scannedRest⟩ :=
      ih (stream ++ chunk) next (fun c member => short c (by simp [member])) scannedNext
    refine ⟨sink', ?_, by simpa using scannedRest⟩
    simp only [callAll, called, Option.bind_eq_bind, Option.bind_some]
    exact rest

/-- However the stream is cut into chunks shorter than `2 ^ 32 - 32` bytes, the sink
ends up with exactly the hashes that occur in it. -/
theorem refScanSink_seen_eq (hashes : Finset Bytes) (chunks : List Bytes)
    (wellFormed : ∀ h ∈ hashes, IsHash h)
    (short : ∀ chunk ∈ chunks, chunk.length + refLength < 2 ^ 32) :
    ∃ sink, (init hashes).callAll chunks = some sink ∧
      sink.seen = hashes.filter (fun h => h <:+: chunks.flatten) := by
  obtain ⟨sink, returned, scanned⟩ := callAll_scanned hashes chunks [] (init hashes)
    wellFormed short (scanned_init wellFormed)
  refine ⟨sink, returned, Finset.ext fun h => ?_⟩
  simpa using (scanned.found h).1

/-- The hash part made of 32 zeros. -/
def zeroHash : Bytes := replicate 32 48

theorem isHash_zeroHash : IsHash zeroHash := by
  decide +kernel

theorem isHash_of_mem_zeroHash : ∀ h ∈ ({zeroHash} : Finset Bytes), IsHash h := by
  intro h member
  rw [Finset.mem_singleton.mp member]
  exact isHash_zeroHash

/-- A hash cut by an empty chunk is found. -/
theorem refScanSink_seen_cut :
    (∀ h ∈ ({zeroHash} : Finset Bytes), IsHash h) ∧
    (∀ chunk ∈ [zeroHash.take 10, [], zeroHash.drop 10], chunk.length + refLength < 2 ^ 32) ∧
    ∃ sink, (init {zeroHash}).callAll [zeroHash.take 10, [], zeroHash.drop 10] = some sink ∧
      sink.seen = ({zeroHash} : Finset Bytes).filter
        (fun h => h <:+: [zeroHash.take 10, [], zeroHash.drop 10].flatten) :=
  ⟨isHash_of_mem_zeroHash, by decide, refScanSink_seen_eq {zeroHash} _ isHash_of_mem_zeroHash (by decide)⟩

/-! ### A chunk of `2 ^ 32` bytes

The conversion to `unsigned int` makes `search` see an empty buffer, and the tail
keeps only the two ends of the chunk. -/

/-- A hash between two runs of bytes that no hash contains. -/
def paddedHash (n : Nat) : Bytes := replicate 32 255 ++ (zeroHash ++ replicate n 255)

theorem length_paddedHash (n : Nat) : (paddedHash n).length = 64 + n := by
  simp only [paddedHash, zeroHash, length_append, length_replicate]
  omega

theorem zeroHash_isInfix_paddedHash (n : Nat) : zeroHash <:+: paddedHash n :=
  ⟨replicate 32 255, replicate n 255, by rw [paddedHash, append_assoc]⟩

theorem search_paddedHash {n : Nat} (st : SearchState) (wraps : 64 + n = 2 ^ 32) :
    search (paddedHash n) (paddedHash n).length st = some st := by
  have empty : u32 (paddedHash n).length = 0 := by rw [length_paddedHash, wraps]; rfl
  rw [search, empty]
  rfl

theorem call_paddedHash {n : Nat} (wraps : 64 + n = 2 ^ 32) :
    ∃ sink, (init {zeroHash}).call (paddedHash n) = some sink ∧ zeroHash ∉ sink.seen := by
  have start : (paddedHash n).take (if (paddedHash n).length > refLength then refLength
      else (paddedHash n).length) = replicate 32 255 := by
    rw [if_pos (by rw [length_paddedHash, wraps]; decide)]
    exact take_left' (by simp [refLength])
  obtain ⟨st, returned, found⟩ := search_found (replicate 32 255)
    ⟨{zeroHash}, ∅⟩ (by decide) isHash_of_mem_zeroHash
  refine ⟨_, by
    simp only [call, init, start, nil_append, returned,
      search_paddedHash st wraps, Option.bind_eq_bind, Option.bind_some, pure]
    rfl, ?_⟩
  intro seen
  rcases (found zeroHash).1.mp seen with old | ⟨_, occurs⟩
  · exact absurd old (by simp)
  · exact absurd occurs (by decide)

/-- The sink does not see a hash that lies inside one chunk of `2 ^ 32` bytes. -/
theorem refScanSink_misses_wide :
    IsHash zeroHash ∧ (paddedHash (2 ^ 32 - 64)).length = 2 ^ 32 ∧
    zeroHash <:+: [paddedHash (2 ^ 32 - 64)].flatten ∧
    ∃ sink, (init {zeroHash}).callAll [paddedHash (2 ^ 32 - 64)] = some sink ∧
      zeroHash ∉ sink.seen := by
  have wraps : 64 + (2 ^ 32 - 64) = 2 ^ 32 := by omega
  obtain ⟨sink, called, missed⟩ := call_paddedHash wraps
  refine ⟨isHash_zeroHash, by rw [length_paddedHash, wraps], ?_, sink, ?_, missed⟩
  · rw [flatten_singleton]
    exact zeroHash_isInfix_paddedHash _
  · rw [callAll, called]
    rfl

end Guix.LibStore
