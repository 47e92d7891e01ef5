import Guix.Build.Graft
import Mathlib.Data.List.Find

/-!
# Laws of the reference definition

`referenceScan` is a scan over every position. The scanner of the source jumps, so it
is compared with the reference through `emitFrom w`, what the reference emits from the
frontier `w` on: it does not depend on where the scan stands as long as no position
before has a match.
-/
namespace Guix.Build

open Slice List Option

/-! ### Encodings -/

theorem length_spread (c : Nat) (bs : Bytes) (positive : 0 < c) :
    (spread c bs).length = c * bs.length := by
  induction bs with
  | nil => rfl
  | cons b bs ih =>
    simp only [spread, flatMap_cons, length_append, length_cons, length_replicate, Nat.mul_add] at *
    omega

theorem getElem?_spread (c : Nat) (bs : Bytes) (k : Nat) (positive : 0 < c)
    (inside : k < c * bs.length) :
    (spread c bs)[k]? = if k % c = 0 then bs[k / c]? else some 0 := by
  induction bs generalizing k with
  | nil => simp at inside
  | cons b bs ih =>
    have unfolded : spread c (b :: bs) = (b :: replicate (c - 1) 0) ++ spread c bs := rfl
    have headLength : (b :: replicate (c - 1) (0 : UInt8)).length = c := by simp; omega
    rw [unfolded]
    by_cases first : k < c
    · rw [getElem?_append_left (by omega), Nat.mod_eq_of_lt first, Nat.div_eq_of_lt first]
      cases k with
      | zero => rfl
      | succ k =>
        exact getElem?_replicate_of_lt (by omega)
    · -- peel one character off and use the induction hypothesis at `k - c`
      obtain ⟨k', rfl⟩ := Nat.exists_eq_add_of_le (Nat.le_of_not_lt first)
      rw [length_cons, Nat.mul_add, Nat.mul_one] at inside
      rw [getElem?_append_right (by omega), headLength, Nat.add_sub_cancel_left, ih k' (by omega),
        Nat.add_mod_left, Nat.add_div_left k' positive]
      rfl

theorem length_interleave {c : Nat} {bs : Bytes} (positive : 0 < c) (nonempty : 0 < bs.length) :
    (interleave c bs).length = 1 + c * (bs.length - 1) := by
  have split : c * bs.length = c * (bs.length - 1) + c := by
    rw [← Nat.mul_add_one, Nat.sub_add_cancel nonempty]
  rw [interleave, length_take, length_spread c bs positive]
  omega

theorem length_placeBytes (c : Nat) (bs zeros : Bytes) (n : Nat) :
    (placeBytes c bs zeros n).length = zeros.length := by
  induction n with
  | zero => rfl
  | succ n ih => rw [placeBytes, length_set, ih]

theorem getElem?_placeBytes {c size : Nat} (bs : Bytes) (n k : Nat) (positive : 0 < c)
    (inside : k < size) :
    (placeBytes c bs (replicate size 0) n)[k]? =
      if k % c = 0 ∧ k / c < n then some (byteAt bs (k / c)) else some 0 := by
  induction n with
  | zero =>
    rw [placeBytes, if_neg (fun h => absurd h.2 (Nat.not_lt_zero _))]
    exact getElem?_replicate_of_lt inside
  | succ n ih =>
    rw [placeBytes, getElem?_set, length_placeBytes, length_replicate]
    by_cases here : n * c = k
    · subst here
      rw [if_pos rfl, if_pos inside, Nat.mul_mod_left, Nat.mul_div_cancel n positive,
        if_pos ⟨rfl, by omega⟩]
    · have other : k % c = 0 → k / c ≠ n := by
        intro multiple equal
        exact here (equal ▸ Nat.div_mul_cancel (Nat.dvd_of_mod_eq_zero multiple))
      have same : k % c = 0 ∧ k / c < n ↔ k % c = 0 ∧ k / c < n + 1 := by omega
      rw [if_neg here, ih]
      simp only [same]

theorem insertNuls_eq (c : Nat) (bs : Bytes) (positive : 0 < c) (nonempty : 0 < bs.length) :
    insertNuls c bs = interleave c bs := by
  have length := length_interleave positive nonempty
  unfold insertNuls
  split
  next one =>
    subst one
    have same : spread 1 bs = bs := by simp [spread]
    rw [interleave, same, take_of_length_le (by omega)]
  next _ =>
    apply ext_getElem?
    intro k
    by_cases inside : k < 1 + c * (bs.length - 1)
    · have total : 1 + c * (bs.length - 1) ≤ c * bs.length := by
        rw [interleave, length_take, length_spread c bs positive] at length
        omega
      have quotient : k / c < bs.length := Nat.div_lt_of_lt_mul (by omega)
      rw [getElem?_placeBytes bs _ k positive inside, interleave, getElem?_take_of_lt inside,
        getElem?_spread c bs k positive (by omega)]
      by_cases multiple : k % c = 0
      · rw [if_pos ⟨multiple, quotient⟩, if_pos multiple, byteAt, getD_eq_getElem?_getD,
          getElem?_eq_getElem quotient]
        rfl
      · rw [if_neg (fun h => multiple h.1), if_neg multiple]
    · rw [getElem?_eq_none (by rw [length_placeBytes, length_replicate]; omega),
        getElem?_eq_none (by omega)]

/-! ### Matches -/

/-- The positions before the dash at `i` that hold NULs in an encoded hash. -/
def NulsBefore (buffer : Bytes) (c i : Nat) : Prop :=
  ∀ k < c * hashLength, k % c ≠ 0 → byteAt buffer (i - c * hashLength + k) = 0

/-- Every `c`-th byte before the dash at `i`, the `hash` of `found-possible-hash`. -/
def hashBefore (buffer : Bytes) (c i : Nat) : Bytes :=
  (range hashLength).map fun j => byteAt buffer (i - c * (hashLength - j))

theorem hashBefore_position {c i j : Nat} (inside : j < hashLength) (room : c * hashLength ≤ i) :
    i - c * (hashLength - j) = i - c * hashLength + c * j := by
  have split : c * hashLength = c * (hashLength - j) + c * j := by
    rw [← Nat.mul_add]
    congr 1
    omega
  omega

theorem getElem?_eq_byteAt (buffer : Bytes) (k : Nat) (inside : k < buffer.length) :
    buffer[k]? = some (byteAt buffer k) := by
  rw [byteAt, getD_eq_getElem?_getD, getElem?_eq_getElem inside]
  rfl

/-- A window is an encoded hash iff its characters are the hash and the rest is NUL. -/
theorem spread_eq_slice_iff (buffer key : Bytes) (c i : Nat) (positive : 0 < c)
    (keyLength : key.length = hashLength) (room : c * hashLength ≤ i) (inside : i ≤ buffer.length) :
    spread c key = slice buffer (i - c * hashLength) (c * hashLength) ↔
      NulsBefore buffer c i ∧ key = hashBefore buffer c i := by
  have windowAt (k : Nat) (small : k < c * hashLength) :
      (slice buffer (i - c * hashLength) (c * hashLength))[k]? =
        some (byteAt buffer (i - c * hashLength + k)) := by
    rw [getElem?_slice _ _ _ _ small, getElem?_eq_byteAt _ _ (by omega)]
  have keyAt (k : Nat) (small : k < c * hashLength) :
      (spread c key)[k]? = if k % c = 0 then key[k / c]? else some 0 :=
    getElem?_spread c key k positive (by rw [keyLength]; exact small)
  have hashAt (j : Nat) (small : j < hashLength) : (hashBefore buffer c i)[j]? =
      some (byteAt buffer (i - c * hashLength + c * j)) := by
    simp [hashBefore, small, hashBefore_position small room]
  have scaled (j : Nat) (small : j < hashLength) : c * j < c * hashLength :=
    Nat.mul_lt_mul_of_pos_left small positive
  constructor
  · intro equal
    constructor
    · intro k small gap
      have := keyAt k small
      rw [equal, windowAt k small, if_neg gap] at this
      exact some.inj this
    · apply ext_getElem?
      intro j
      by_cases small : j < hashLength
      · have := keyAt (c * j) (scaled j small)
        rw [equal, windowAt _ (scaled j small), if_pos (Nat.mul_mod_right c j),
          Nat.mul_div_cancel_left j positive] at this
        rw [← this, hashAt j small]
      · rw [getElem?_eq_none (by omega), getElem?_eq_none (by simp [hashBefore]; omega)]
  · rintro ⟨nuls, rfl⟩
    apply ext_getElem?
    intro k
    by_cases small : k < c * hashLength
    · rw [keyAt k small, windowAt k small]
      split
      next multiple =>
        have quotient : k / c < hashLength := Nat.div_lt_of_lt_mul small
        rw [hashAt _ quotient, Nat.mul_div_cancel' (Nat.dvd_of_mod_eq_zero multiple)]
      next gap => rw [nuls k small gap]
    · rw [getElem?_eq_none (by rw [length_spread c _ positive, keyLength]; omega),
        getElem?_eq_none (by rw [length_slice]; omega)]

variable {table : ReplacementTable} {input buffer : Bytes} {w w' i c q p size : Nat} {s v : Bytes}

theorem referenceAt_eq_some_iff (positive : 0 < c) (inside : i ≤ buffer.length) :
    referenceAt table buffer w i c = some v ↔
      c * hashLength + w ≤ i ∧ NulsBefore buffer c i ∧
        table.lookupReplacement (hashBefore buffer c i) = some v := by
  unfold referenceAt
  split
  next room =>
    have sameEntry (nuls : NulsBefore buffer c i) : (table.entries.find? fun entry =>
          spread c entry.1 == slice buffer (i - c * hashLength) (c * hashLength)) =
        table.entries.find? (·.1 == hashBefore buffer c i) := by
      apply find?_congr
      intro entry member
      apply Bool.eq_iff_iff.mpr
      rw [beq_iff_eq, beq_iff_eq, spread_eq_slice_iff buffer entry.1 c i positive
        (table.keys entry member).1 (by omega) inside]
      exact ⟨And.right, fun equal => ⟨nuls, equal⟩⟩
    constructor
    · intro returned
      obtain ⟨entry, found, rfl⟩ := map_eq_some_iff.mp returned
      have member := mem_of_find?_eq_some found
      have nuls := ((spread_eq_slice_iff buffer entry.1 c i positive (table.keys entry member).1
        (by omega) inside).mp (by simpa using find?_some found)).1
      rw [sameEntry nuls] at returned
      exact ⟨room, nuls, returned⟩
    · rintro ⟨_, nuls, returned⟩
      rw [sameEntry nuls]
      exact returned
  next tight =>
    constructor
    · exact nofun
    · exact fun conditions => absurd conditions.1 tight

theorem lookupReplacement_key (found : table.lookupReplacement s = some v) :
    s.length = hashLength ∧ (∀ b ∈ s, nixBase32Char b = true) ∧ hashLength + 1 ≤ v.length := by
  obtain ⟨entry, first, rfl⟩ := map_eq_some_iff.mp found
  have member := mem_of_find?_eq_some first
  have equal : entry.1 = s := by simpa using find?_some first
  rw [← equal]
  exact ⟨(table.keys entry member).1, (table.keys entry member).2, table.values entry member⟩

/-- Everything a match says about the input. -/
theorem matchAt_cases (found : matchAt table input w i = some (c, v)) :
    input[i]? = some 45 ∧ (c = 1 ∨ c = 2 ∨ c = 4) ∧ referenceAt table input w i c = some v := by
  unfold matchAt at found
  split at found
  next dash =>
    obtain ⟨size, member, returned⟩ := exists_of_findSome?_eq_some found
    obtain ⟨v', reference, equal⟩ := map_eq_some_iff.mp returned
    cases equal
    exact ⟨dash, by simpa using member, reference⟩
  next _ => cases found

theorem matchAt_eq_none
    (absent : input[i]? = some 45 → ∀ c, (c = 1 ∨ c = 2 ∨ c = 4) → referenceAt table input w i c = none) :
    matchAt table input w i = none := by
  unfold matchAt
  split
  next dash =>
    apply findSome?_eq_none_iff.mpr
    intro c member
    rw [absent dash c (by simpa using member)]
    rfl
  next _ => rfl

theorem matchAt_room (found : matchAt table input w i = some (c, v)) :
    0 < c ∧ c ≤ 4 ∧ c * hashLength + w ≤ i ∧ i < input.length ∧ hashLength + 1 ≤ v.length := by
  obtain ⟨dash, size, reference⟩ := matchAt_cases found
  have inside : i < input.length := (List.getElem?_eq_some_iff.mp dash).1
  have positive : 0 < c := by omega
  obtain ⟨room, _, looked⟩ :=
    (referenceAt_eq_some_iff positive (by omega)).mp reference
  exact ⟨positive, by omega, room, inside, (lookupReplacement_key looked).2.2⟩

/-- No match ends less than a hash past the frontier. -/
theorem matchAt_close (close : i < w + hashLength) : matchAt table input w i = none := by
  cases found : matchAt table input w i with
  | none => rfl
  | some result =>
    obtain ⟨positive, _, room, _⟩ := matchAt_room found
    have := Nat.le_mul_of_pos_left hashLength positive
    omega

theorem referenceAt_frontier (further : w ≤ w') (room : c * hashLength + w' ≤ i) :
    referenceAt table input w i c = referenceAt table input w' i c := by
  rw [referenceAt, referenceAt, if_pos room, if_pos (by omega)]

/-- Moving the frontier makes no new match. -/
theorem matchAt_none_mono (further : w ≤ w') (absent : matchAt table input w i = none) :
    matchAt table input w' i = none := by
  apply matchAt_eq_none
  intro dash c size
  by_cases room : c * hashLength + w' ≤ i
  · rw [← referenceAt_frontier further room]
    rw [matchAt, if_pos dash, findSome?_eq_none_iff] at absent
    exact map_eq_none_iff.mp (absent c (by simpa using size))
  · rw [referenceAt, if_neg room]

/-- The frontier does not matter to positions that are far enough past it. -/
theorem matchAt_far (further : w ≤ w') (far : w' + 4 * hashLength ≤ i) :
    matchAt table input w i = matchAt table input w' i := by
  have same (c : Nat) (member : c ∈ [1, 2, 4]) :
      referenceAt table input w i c = referenceAt table input w' i c := by
    have small : c * hashLength ≤ 4 * hashLength := Nat.mul_le_mul_right _ (by
      simp only [mem_cons, not_mem_nil, or_false] at member
      omega)
    exact referenceAt_frontier further (by omega)
  unfold matchAt
  split
  · simp only [findSome?_cons, findSome?_nil, same 1 (by simp), same 2 (by simp), same 4 (by simp)]
  · rfl

/-- A byte that no encoded hash contains rules out a match at the next `hashLength`
positions. -/
theorem matchAt_over (other : nixBase32CharOrNul (byteAt input q) = false) (after : q < i)
    (near : i ≤ q + hashLength) : matchAt table input w i = none := by
  cases found : matchAt table input w i with
  | none => rfl
  | some result =>
    obtain ⟨c, v⟩ := result
    obtain ⟨_, _, reference⟩ := matchAt_cases found
    obtain ⟨positive, _, room, inside, _⟩ := matchAt_room found
    obtain ⟨_, nuls, looked⟩ :=
      (referenceAt_eq_some_iff positive (by omega)).mp reference
    have reach := Nat.le_mul_of_pos_left hashLength positive
    -- `q` is at offset `k` of the window, either a character of the hash or a NUL
    obtain ⟨k, position⟩ := Nat.exists_eq_add_of_le (show i - c * hashLength ≤ q by omega)
    have small : k < c * hashLength := by omega
    have allowed : nixBase32CharOrNul (byteAt input q) = true := by
      rw [position]
      by_cases gap : k % c = 0
      · have quotient : k / c < hashLength := Nat.div_lt_of_lt_mul small
        have member : byteAt input (i - c * hashLength + k) ∈ hashBefore input c i := by
          refine mem_map.mpr ⟨k / c, mem_range.mpr quotient, ?_⟩
          rw [hashBefore_position quotient (by omega),
            Nat.mul_div_cancel' (Nat.dvd_of_mod_eq_zero gap)]
        rw [nixBase32CharOrNul, (lookupReplacement_key looked).2.1 _ member]
        rfl
      · rw [nuls k small gap]
        rfl
    rw [allowed] at other
    cases other

theorem matchAt_slice (inside : i < (slice input p size).length) :
    matchAt table (slice input p size) w i = matchAt table input (p + w) (p + i) := by
  rw [length_slice] at inside
  have byte : (slice input p size)[i]? = input[p + i]? := getElem?_slice input p size i (by omega)
  have same (c : Nat) : referenceAt table (slice input p size) w i c =
      referenceAt table input (p + w) (p + i) c := by
    by_cases room : c * hashLength + w ≤ i
    · rw [referenceAt, referenceAt, if_pos room, if_pos (by omega), slice_slice input p size _ _ (by omega),
        Nat.add_sub_assoc (by omega)]
    · rw [referenceAt, referenceAt, if_neg room, if_neg (by omega)]
  simp only [matchAt, byte, same]

/-! ### The scan -/

/-- What the reference emits from the frontier `w` on. -/
def emitFrom (table : ReplacementTable) (input : Bytes) (w : Nat) : Bytes :=
  referenceScan table input input.length 0 w

/-- No match before position `i` for the frontier `w`. -/
def Clean (table : ReplacementTable) (input : Bytes) (w i : Nat) : Prop :=
  ∀ j < i, matchAt table input w j = none

/-- The frontier after the match at `i`. -/
def nextFrontier (c i : Nat) (v : Bytes) : Nat := i - c * hashLength + (interleave c v).length

theorem clean_close : Clean table input w (w + hashLength) :=
  fun _ close => matchAt_close close

theorem Clean.mono (clean : Clean table input w i) (further : w ≤ w') : Clean table input w' i :=
  fun j before => matchAt_none_mono further (clean j before)

theorem nextFrontier_eq (found : matchAt table input w i = some (c, v)) :
    nextFrontier c i v = i + 1 + c * (v.length - (hashLength + 1)) := by
  obtain ⟨positive, _, room, _, long⟩ := matchAt_room found
  have split : c * (v.length - 1) = c * hashLength + c * (v.length - (hashLength + 1)) := by
    rw [← Nat.mul_add]
    congr 1
    omega
  rw [nextFrontier, length_interleave positive (by omega)]
  omega

theorem referenceScan_skip {table : ReplacementTable} {input : Bytes} (k m i w : Nat)
    (absent : ∀ j, i ≤ j → j < i + k → matchAt table input w j = none) :
    referenceScan table input (k + m) i w = referenceScan table input m (i + k) w := by
  induction k generalizing i with
  | zero => rw [Nat.zero_add, Nat.add_zero]
  | succ k ih =>
    rw [Nat.add_right_comm, referenceScan, absent i (by omega) (by omega)]
    simp only
    rw [ih (i + 1) fun j from_i below => absent j (by omega) (by omega)]
    congr 1
    omega

theorem emitFrom_skip (clean : Clean table input w i) (inside : i ≤ input.length) :
    emitFrom table input w = referenceScan table input (input.length - i) i w := by
  have total : input.length = i + (input.length - i) := by omega
  rw [emitFrom]
  conv_lhs => rw [total]
  rw [referenceScan_skip i _ 0 w fun j _ below => clean j (by omega), Nat.zero_add]

theorem emitFrom_clean (clean : Clean table input w input.length) : emitFrom table input w = input.drop w := by
  rw [emitFrom_skip clean le_rfl, Nat.sub_self, referenceScan]

theorem emitFrom_match (clean : Clean table input w i)
    (found : matchAt table input w i = some (c, v)) :
    emitFrom table input w =
      slice input w (i - c * hashLength - w) ++ interleave c v ++
        emitFrom table input (nextFrontier c i v) := by
  obtain ⟨_, _, _, inside, _⟩ := matchAt_room found
  have next := nextFrontier_eq found
  have count : input.length - i = (input.length - (i + 1)) + 1 := by omega
  have cleanNext : Clean table input (nextFrontier c i v) (i + 1) := fun j before =>
    matchAt_close (by omega)
  rw [emitFrom_skip clean (by omega), count, referenceScan, found,
    emitFrom_skip cleanNext (by omega)]
  rfl

/-- Bytes that no later match can touch can be emitted early. -/
theorem referenceScan_advance (table : ReplacementTable) (input : Bytes) (count i w w' : Nat)
    (further : w ≤ w') (far : w' + 4 * hashLength ≤ i) :
    referenceScan table input count i w =
      slice input w (w' - w) ++ referenceScan table input count i w' := by
  induction count generalizing i with
  | zero =>
    rw [referenceScan, referenceScan, ← slice_append_drop input w (w' - w), Nat.add_sub_cancel' further]
  | succ count ih =>
    rw [referenceScan, referenceScan, matchAt_far further far]
    cases found : matchAt table input w' i with
    | none => exact ih (i + 1) (by omega)
    | some result =>
      obtain ⟨c, v⟩ := result
      obtain ⟨_, _, room, _, _⟩ := matchAt_room found
      -- both scans go on from the same frontier after the match
      have split : i - c * hashLength - w = (w' - w) + (i - c * hashLength - w') := by omega
      simp only
      rw [split, ← slice_append_slice input w (w' - w), Nat.add_sub_cancel' further]
      simp only [append_assoc]

theorem emitFrom_advance (clean : Clean table input w i) (inside : i ≤ input.length)
    (further : w ≤ w') (far : w' + 4 * hashLength ≤ i) :
    emitFrom table input w = slice input w (w' - w) ++ emitFrom table input w' := by
  rw [emitFrom_skip clean inside, emitFrom_skip (clean.mono further) inside]
  exact referenceScan_advance table input _ i w w' further far

end Guix.Build
