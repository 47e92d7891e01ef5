import Guix.Build.GraftReference

/-!
# The buffered rewriter computes the reference

One buffer is a window of the input. `scanFrom_spec` says what scanning it does to the
output and the frontier, for every position of the window in the input; the outer loop
then only has to show that the next buffer starts at the frontier or at a point that no
later match reaches.

A replacement may run past the end of the buffer. The bytes it covers are consumed
with `get-bytevector-n!` into the same buffer, which fails when there are more of them
than the buffer holds: the procedure meets its specification iff no replacement of the
table can run that far.
-/
namespace Guix.Build

open Slice List Option

/-! ### Decoding the hash before a dash -/

section Loops

variable {loop : Nat → Nat → Bool} {test : Nat → Bool} {c i : Nat} (zero : ∀ j, loop 0 j = true)
  (succ : ∀ fuel j, loop (fuel + 1) j = (decide (j ≥ i) || (test j && loop fuel (j + c))))
include zero succ

/-- A loop that tests every `c`-th position below `i`. -/
theorem loop_iff (fuel j : Nat) (enough : i ≤ j + c * fuel) :
    loop fuel j = true ↔ ∀ m, j + c * m < i → test (j + c * m) = true := by
  induction fuel generalizing j with
  | zero =>
    simp only [zero, true_iff]
    omega
  | succ fuel ih =>
    have shift : ∀ m, j + c * (m + 1) = j + c + c * m := fun m => by rw [Nat.mul_succ]; omega
    rw [succ, Bool.or_eq_true, Bool.and_eq_true, decide_eq_true_eq, ih (j + c) (by rw [← shift]; exact enough)]
    constructor
    · rintro (past | ⟨here, later⟩) m below
      · omega
      · cases m with
        | zero => exact here
        | succ m =>
          rw [shift] at below ⊢
          exact later m below
    · intro all
      by_cases past : j ≥ i
      · exact .inl past
      · refine .inr ⟨all 0 (by omega), fun m below => ?_⟩
        rw [← shift] at below ⊢
        exact all (m + 1) below

/-- The loops test the bytes after the first one of each character. -/
theorem loop_iff_nulsBefore {buffer : Bytes} (size : c = 2 ∨ c = 4)
    (isTest : ∀ j, test j = true ↔ ∀ d, d + 1 < c → byteAt buffer (j + d) = 0)
    (room : c * hashLength ≤ i) :
    loop (hashLength + 1) (1 + (i - c * hashLength)) = true ↔ NulsBefore buffer c i := by
  rw [loop_iff zero succ _ _ (by rw [Nat.mul_succ]; omega)]
  simp only [isTest, NulsBefore, hashLength] at *
  constructor
  · intro all k small gap
    have nul := all (k / c) (by rcases size with rfl | rfl <;> omega) (k % c - 1)
      (by rcases size with rfl | rfl <;> omega)
    rwa [show 1 + (i - c * 32) + c * (k / c) + (k % c - 1) = i - c * 32 + k by
      rcases size with rfl | rfl <;> omega] at nul
  · intro nuls m below d small
    have nul := nuls (1 + c * m + d) (by rcases size with rfl | rfl <;> omega)
      (by rcases size with rfl | rfl <;> omega)
    rwa [show 1 + (i - c * 32) + c * m + d = i - c * 32 + (1 + c * m + d) by omega]

end Loops

theorem possibleUtf16Hash_iff (buffer : Bytes) (i w : Nat) :
    possibleUtf16Hash buffer i w = true ↔ 2 * hashLength + w ≤ i ∧ NulsBefore buffer 2 i := by
  rw [possibleUtf16Hash, Bool.and_eq_true, decide_eq_true_eq]
  refine and_congr_right fun room => ?_
  refine @loop_iff_nulsBefore (utf16Loop buffer i) (byteAt buffer · == 0) 2 i (fun _ => rfl) (fun _ _ => rfl)
    buffer (.inl rfl) (fun j => ?_) (by omega)
  rw [beq_iff_eq]
  constructor
  · intro nul d small
    obtain rfl : d = 0 := by omega
    exact nul
  · exact fun all => all 0 (by omega)

theorem possibleUtf32Hash_iff (buffer : Bytes) (i w : Nat) :
    possibleUtf32Hash buffer i w = true ↔ 4 * hashLength + w ≤ i ∧ NulsBefore buffer 4 i := by
  rw [possibleUtf32Hash, Bool.and_eq_true, decide_eq_true_eq]
  refine and_congr_right fun room => ?_
  refine @loop_iff_nulsBefore (utf32Loop buffer i)
    (fun j => byteAt buffer j == 0 && byteAt buffer (j + 1) == 0 && byteAt buffer (j + 2) == 0) 4 i
    (fun _ => rfl) (fun _ _ => rfl) buffer (.inr rfl) (fun j => ?_) (by omega)
  simp only [Bool.and_eq_true, beq_iff_eq]
  constructor
  · rintro ⟨⟨first, second⟩, third⟩ d small
    obtain rfl | rfl | rfl : d = 0 ∨ d = 1 ∨ d = 2 := by omega
    · exact first
    · exact second
    · exact third
  · exact fun all => ⟨⟨all 0 (by omega), all 1 (by omega)⟩, all 2 (by omega)⟩

variable {table : ReplacementTable} {input buffer : Bytes} {w w' i c stop : Nat} {v : Bytes}

/-- The size of the characters before the dash at `i`, which the last two bytes tell. -/
def tailSize (buffer : Bytes) (i : Nat) : Nat :=
  if byteAt buffer (i - 1) ≠ 0 then 1 else if byteAt buffer (i - 2) ≠ 0 then 2 else 4

theorem eq_tailSize (size : c = 1 ∨ c = 2 ∨ c = 4) (inside : i ≤ buffer.length)
    (found : referenceAt table buffer w i c = some v) : c = tailSize buffer i := by
  obtain ⟨room, nuls, looked⟩ :=
    (referenceAt_eq_some_iff (by omega) inside).mp found
  have lastChar : byteAt buffer (i - c) ≠ 0 := by
    have member : byteAt buffer (i - c) ∈ hashBefore buffer c i := by
      refine mem_map.mpr ⟨hashLength - 1, by simp [hashLength], ?_⟩
      simp [hashLength]
    intro zero
    have char := (lookupReplacement_key looked).2.1 _ member
    rw [zero] at char
    revert char
    decide
  simp only [hashLength, NulsBefore] at room nuls
  rcases size with rfl | rfl | rfl
  · simp [tailSize, lastChar]
  · have last := nuls 63 (by omega) (by omega)
    rw [show i - 2 * 32 + 63 = i - 1 by omega] at last
    simp [tailSize, last, lastChar]
  · have last := nuls 127 (by omega) (by omega)
    have previous := nuls 126 (by omega) (by omega)
    rw [show i - 4 * 32 + 127 = i - 1 by omega] at last
    rw [show i - 4 * 32 + 126 = i - 2 by omega] at previous
    simp [tailSize, last, previous]

/-- Before the dash at `i`, only characters of `c` bytes can make a hash of the table. -/
def OnlySize (table : ReplacementTable) (buffer : Bytes) (w i c : Nat) : Prop :=
  ∀ d, (d = 1 ∨ d = 2 ∨ d = 4) → d ≠ c → referenceAt table buffer w i d = none

theorem matchAt_eq_tailSize (dash : buffer[i]? = some 45) :
    matchAt table buffer w i = (referenceAt table buffer w i (tailSize buffer i)).map (tailSize buffer i, ·) := by
  have inside : i < buffer.length := (List.getElem?_eq_some_iff.mp dash).1
  have only : OnlySize table buffer w i (tailSize buffer i) := by
    intro d size other
    apply eq_none_iff_forall_ne_some.mpr
    exact fun v found => other (eq_tailSize size (by omega) found)
  rw [matchAt, if_pos dash]
  simp only [findSome?_cons, findSome?_nil]
  obtain size | size | size : tailSize buffer i = 1 ∨ tailSize buffer i = 2 ∨ tailSize buffer i = 4 := by
    grind [tailSize]
  all_goals rw [size] at only ⊢
  · rw [only 2 (by omega) (by omega), only 4 (by omega) (by omega)]
    cases referenceAt table buffer w i 1 <;> rfl
  · rw [only 1 (by omega) (by omega), only 4 (by omega) (by omega)]
    cases referenceAt table buffer w i 2 <;> rfl
  · rw [only 1 (by omega) (by omega), only 2 (by omega) (by omega)]
    cases referenceAt table buffer w i 4 <;> rfl

/-- `found-dash` returns the only size that is left, unless there is no room for a hash or a NUL is
missing. -/
theorem foundDash_eq_some_iff (room : hashLength + w ≤ i) : foundDash buffer i w = some c ↔
    c = tailSize buffer i ∧ c * hashLength + w ≤ i ∧ NulsBefore buffer c i := by
  have one : NulsBefore buffer 1 i := fun k _ gap => absurd (Nat.mod_one k) gap
  have two := possibleUtf16Hash_iff buffer i w
  have four := possibleUtf32Hash_iff buffer i w
  unfold foundDash tailSize
  grind

/-- `found-dash` and `found-possible-hash` together decide whether the dash at `i`
ends a reference. -/
theorem found_eq_matchAt (table : ReplacementTable) (buffer : Bytes) (i w : Nat)
    (dash : buffer[i]? = some 45) (room : hashLength + w ≤ i) :
    ((foundDash buffer i w).bind fun c => (foundPossibleHash table buffer c i).map (c, ·)) =
      (matchAt table buffer w i).map fun found => (found.1, interleave found.1 found.2) := by
  have inside : i < buffer.length := (List.getElem?_eq_some_iff.mp dash).1
  have positive : 0 < tailSize buffer i := by grind [tailSize]
  have reference (v : Bytes) := @referenceAt_eq_some_iff table buffer w i (tailSize buffer i) v positive (by omega)
  rw [matchAt_eq_tailSize dash]
  cases decided : foundDash buffer i w with
  | none =>
    have absent : referenceAt table buffer w i (tailSize buffer i) = none := by
      apply eq_none_iff_forall_ne_some.mpr
      intro v found
      obtain ⟨roomy, nuls, -⟩ := (reference v).mp found
      cases decided.symm.trans ((foundDash_eq_some_iff room).mpr ⟨rfl, roomy, nuls⟩)
    rw [absent]
    rfl
  | some c =>
    obtain ⟨rfl, roomy, nuls⟩ := (foundDash_eq_some_iff room).mp decided
    have same : referenceAt table buffer w i (tailSize buffer i) =
        table.lookupReplacement (hashBefore buffer (tailSize buffer i) i) := by
      apply ext
      intro v
      rw [reference v]
      exact ⟨fun found => found.2.2, fun looked => ⟨roomy, nuls, looked⟩⟩
    have unfolded : foundPossibleHash table buffer (tailSize buffer i) i =
        (table.lookupReplacement (hashBefore buffer (tailSize buffer i) i)).map
          (insertNuls (tailSize buffer i)) := rfl
    rw [bind_some, same, unfolded]
    cases looked : table.lookupReplacement (hashBefore buffer (tailSize buffer i) i) with
    | none => rfl
    | some v =>
      have long := (lookupReplacement_key looked).2.2
      simp only [map_some, insertNuls_eq _ v positive (by omega)]

/-! ### One buffer -/

/-- The frontiers reached from `w` by matches that end before `stop`. -/
inductive Frontiers (table : ReplacementTable) (input : Bytes) (stop : Nat) : Nat → Nat → Prop
  | here (w : Nat) : Frontiers table input stop w w
  | step {w i c w' : Nat} {v : Bytes} :
      Clean table input w i → matchAt table input w i = some (c, v) → i < stop →
      Frontiers table input stop (nextFrontier c i v) w' → Frontiers table input stop w w'

/-- Past `stop` there is no further match. -/
theorem Frontiers.past (frontiers : Frontiers table input stop w w') (past : stop ≤ w) : w' = w := by
  cases frontiers with
  | here => rfl
  | step _ found inside _ =>
    have room := (matchAt_room found).2.2.1
    omega

/-- A frontier past `stop` is the end of a replacement. -/
theorem Frontiers.overrun (frontiers : Frontiers table input stop w w') (before : w ≤ stop) :
    w' ≤ stop ∨ ∃ s v, table.lookupReplacement s = some v ∧
      w' ≤ stop + 4 * (v.length - (hashLength + 1)) := by
  induction frontiers with
  | here w => exact .inl before
  | @step w i c w' v clean found inside rest ih =>
    by_cases next : nextFrontier c i v ≤ stop
    · exact ih next
    · -- the next match would have to end before `stop`
      right
      have last := rest.past (by omega)
      obtain ⟨positive, small, _, _, _⟩ := matchAt_room found
      obtain ⟨dash, size, reference⟩ := matchAt_cases found
      obtain ⟨_, _, looked⟩ :=
        (referenceAt_eq_some_iff positive (by omega)).mp reference
      have scaled := Nat.mul_le_mul_right (v.length - (hashLength + 1)) small
      have value := nextFrontier_eq found
      exact ⟨_, v, looked, by omega⟩

theorem nixBase32CharOrNul_dash : nixBase32CharOrNul 45 = false := by decide

theorem byteAt_slice (input : Bytes) (p size i : Nat) (inside : i < (slice input p size).length) :
    byteAt (slice input p size) i = byteAt input (p + i) := by
  rw [length_slice] at inside
  rw [byteAt, byteAt, getD_eq_getElem?_getD, getD_eq_getElem?_getD,
    getElem?_slice input p size i (by omega)]

/-- A byte that no encoded hash contains, and that ends no reference, lets the scanner
jump. -/
theorem clean_jump (clean : Clean table input w i) (absent : matchAt table input w i = none)
    (other : nixBase32CharOrNul (byteAt input i) = false) :
    Clean table input w (notPartOfHash i) := by
  intro j before
  simp only [notPartOfHash] at before
  rcases Nat.lt_trichotomy j i with earlier | rfl | later
  · exact clean j earlier
  · exact absent
  · exact matchAt_over other later (by omega)

/-- Scanning the window of the input at `p`, from position `i` with frontier `w`. -/
theorem scanFrom_spec (table : ReplacementTable) (input : Bytes) (p size fuel i w : Nat)
    (output : Bytes) (positive : 0 < fuel) (enough : (slice input p size).length < i + fuel)
    (room : hashLength + w ≤ i) (clean : Clean table input (p + w) (p + i)) :
    ∃ w' output', scanFrom table (slice input p size) fuel i w output = some (w', output') ∧
      Frontiers table input (p + (slice input p size).length) (p + w) (p + w') ∧
      Clean table input (p + w') (p + (slice input p size).length) ∧
      output' ++ emitFrom table input (p + w') = output ++ emitFrom table input (p + w) := by
  induction fuel generalizing i w output with
  | zero => omega
  | succ fuel ih =>
    rw [scanFrom]
    split
    next inside =>
      have byte := byteAt_slice input p size i inside
      have bounds : i < size ∧ p + i < input.length := by
        rw [length_slice] at inside
        omega
      have go (i' : Nat) (further : i < i') (cleanNext : Clean table input (p + w) (p + i')) :=
        ih i' w output (by omega) (by omega) (by omega) cleanNext
      split
      next dash =>
        have isDash45 : byteAt input (p + i) = 45 := by
          rw [← byte]
          simpa [isDash] using dash
        have dashAt : (slice input p size)[i]? = some 45 := by
          rw [getElem?_eq_byteAt _ _ inside, byte, isDash45]
        have decision := found_eq_matchAt table (slice input p size) i w dashAt room
        rw [matchAt_slice inside] at decision
        -- the jump after a dash that ends no reference
        have jump (absent : matchAt table input (p + w) (p + i) = none) :
            Clean table input (p + w) (p + notPartOfHash i) := by
          have jumped := clean_jump clean absent (by rw [isDash45]; exact nixBase32CharOrNul_dash)
          simpa only [notPartOfHash, Nat.add_assoc] using jumped
        cases found : matchAt table input (p + w) (p + i) with
        | none =>
          rw [found, map_none, bind_eq_none_iff] at decision
          have next := go (notPartOfHash i) (by simp only [notPartOfHash]; omega) (jump found)
          cases candidate : foundDash (slice input p size) i w with
          | none => exact next
          | some c =>
            have none := map_eq_none_iff.mp (decision c candidate)
            simp only [none]
            exact next
        | some result =>
          obtain ⟨c, v⟩ := result
          rw [found, map_some, bind_eq_some_iff] at decision
          obtain ⟨c', candidate, replaced⟩ := decision
          obtain ⟨replacement, possible, equal⟩ := map_eq_some_iff.mp replaced
          cases equal
          obtain ⟨sizePositive, _, roomy, _, _⟩ := matchAt_room found
          have value := nextFrontier_eq found
          have frontier : nextFrontier c (p + i) v =
              p + (i - c * hashLength + (interleave c v).length) := by
            rw [nextFrontier]
            omega
          obtain ⟨w', output', returned, frontiers, cleanEnd, emitted⟩ :=
            ih (i - c * hashLength + (interleave c v).length + hashLength)
              (i - c * hashLength + (interleave c v).length)
              (output ++ slice (slice input p size) w (i - c * hashLength - w) ++ interleave c v)
              (by omega) (by omega) (by omega)
              (fun j before => matchAt_close (by omega))
          refine ⟨w', output', ?_, ?_, cleanEnd, ?_⟩
          · simp only [candidate, possible]
            exact returned
          · exact .step clean found (by omega) (frontier ▸ frontiers)
          · rw [emitted, emitFrom_match clean found, frontier,
              slice_slice input p size _ _ (by omega)]
            have shifted : p + i - c * hashLength - (p + w) = i - c * hashLength - w := by omega
            simp only [append_assoc, shifted]
      next notDash =>
        have absent : matchAt table input (p + w) (p + i) = none := by
          rw [matchAt, if_neg]
          intro dash
          rw [getElem?_eq_byteAt input _ bounds.2, ← byte] at dash
          exact notDash (by simp [isDash, some.inj dash])
        split
        next _ =>
          apply go (i + 1) (by omega)
          intro j before
          rcases Nat.lt_or_eq_of_le (show j ≤ p + i by omega) with earlier | rfl
          · exact clean j earlier
          · exact absent
        next other =>
          apply go (notPartOfHash i) (by simp only [notPartOfHash]; omega)
          have jumped := clean_jump clean absent (by rw [← byte]; simpa using other)
          simpa only [notPartOfHash, Nat.add_assoc] using jumped
    next past =>
      exact ⟨w, output, rfl, .here _, fun j before => clean j (by omega), rfl⟩

/-! ### The outer loop -/

/-- No replacement of the table can run past the end of a buffer by more than its size. -/
def Fits (requestSize : Nat) (table : ReplacementTable) : Prop :=
  ∀ s v, table.lookupReplacement s = some v → 4 * (v.length - (hashLength + 1)) ≤ requestSize

theorem emitFrom_end (past : input.length ≤ w) : emitFrom table input w = [] := by
  rw [emitFrom_clean fun j before => matchAt_close (by omega), drop_of_length_le past]

theorem outerLoop_spec (requestSize : Nat) (table : ReplacementTable) (input : Bytes)
    (large : 4 * hashLength < requestSize) (fits : Fits requestSize table) (fuel p : Nat)
    (output : Bytes) (enough : input.length < p + fuel) (positive : 0 < fuel) :
    outerLoop requestSize table fuel (input.drop p) output =
      .done (output ++ emitFrom table input p) := by
  induction fuel generalizing p output with
  | zero => omega
  | succ fuel ih =>
    rw [outerLoop]
    split
    next empty =>
      rw [emitFrom_end (by simpa using empty), append_nil]
    next more =>
      have started : p < input.length := by simpa using more
      obtain ⟨w, output', returned, frontiers, clean, emitted⟩ :=
        scanFrom_spec table input p requestSize ((slice input p requestSize).length + 1) hashLength 0
          output (by omega) (by omega) (by omega) (clean_close)
      have buffer : (input.drop p).take requestSize = slice input p requestSize := rfl
      simp only [buffer, returned, drop_drop]
      have length := length_slice input p requestSize
      generalize stop : (slice input p requestSize).length = len at *
      -- past the end of a short buffer there is nothing left
      have after (d : Nat) : input.drop (p + requestSize + d) = input.drop (p + (len + d)) := by
        by_cases full : len = requestSize
        · rw [full, Nat.add_assoc]
        · rw [drop_of_length_le (by omega), drop_of_length_le (by omega)]
      split
      next overrun =>
        have bounded : ¬(w - len > requestSize) := by
          rcases frontiers.overrun (by omega) with inside | ⟨s, v, looked, reach⟩
          · omega
          · have := fits s v looked
            omega
        rw [if_neg bounded, after (w - len), Nat.add_sub_cancel' (by omega),
          ih (p + w) output' (by omega) (by omega), emitted, Nat.add_zero]
      next within =>
        split
        next full =>
          -- a full buffer: the unget bytes are read again
          generalize size : min (4 * hashLength) (len - w) = unget
          have reread : slice (slice input p requestSize) (w + (len - w - unget)) unget ++
              input.drop (p + requestSize) = input.drop (p + (w + (len - w - unget))) := by
            rw [slice_slice input p requestSize _ _ (by omega),
              show p + requestSize = p + (w + (len - w - unget)) + unget by omega]
            exact slice_append_drop input _ _
          have advanced : emitFrom table input (p + w) = slice input (p + w) (len - w - unget) ++
              emitFrom table input (p + (w + (len - w - unget))) := by
            by_cases small : len - w ≤ 4 * hashLength
            · have none : len - w - unget = 0 := by omega
              rw [none, slice_zero, Nat.add_zero, nil_append]
            · have distance : p + (w + (len - w - unget)) - (p + w) = len - w - unget := by omega
              have further : p + w ≤ p + (w + (len - w - unget)) := by omega
              rw [emitFrom_advance clean (by omega) further (by omega), distance]
          rw [reread, ih _ _ (by omega) (by omega), slice_slice input p requestSize _ _ (by omega),
            append_assoc, ← advanced, emitted, Nat.add_zero]
        next short =>
          -- a short buffer: the input ends here
          have ended : input.length = p + len := by omega
          have nothing := after 0
          rw [Nat.add_zero, Nat.add_zero] at nothing
          rw [slice_zero, nil_append, nothing, ih _ _ (by omega) (by omega), Nat.sub_zero,
            slice_slice input p requestSize _ _ (by omega), emitFrom_end (by omega),
            append_nil]
          have remaining : slice input (p + w) (len - w) = emitFrom table input (p + w) := by
            rw [emitFrom_clean (by rw [ended]; exact clean), slice,
              take_of_length_le (by rw [length_drop]; omega)]
          rw [remaining, emitted, Nat.add_zero]

/-! ### Replacements that are too long -/

/-- A reference in UTF-32 whose dash is the last byte of the first buffer, and one byte
more than its replacement covers. -/
def overrunInput (requestSize : Nat) (s v : Bytes) : Bytes :=
  replicate (requestSize - (4 * hashLength + 1)) 255 ++
    (spread 4 s ++ 45 :: replicate (4 * (v.length - (hashLength + 1)) + 1) 255)

section Overrun

variable (requestSize : Nat) (table : ReplacementTable) (s v : Bytes)

section

variable (large : 4 * hashLength < requestSize)
include large

theorem length_overrunInput (key : s.length = hashLength) :
    (overrunInput requestSize s v).length = requestSize + 4 * (v.length - (hashLength + 1)) + 1 := by
  simp only [overrunInput, length_append, length_cons, length_replicate,
    length_spread 4 s (by omega), key]
  omega

omit large in
theorem slice_overrunInput (key : s.length = hashLength) :
    slice (overrunInput requestSize s v) (requestSize - (4 * hashLength + 1)) (4 * hashLength) =
      spread 4 s := by
  have start := slice_append_length (replicate (requestSize - (4 * hashLength + 1)) 255)
    (spread 4 s ++ 45 :: replicate (4 * (v.length - (hashLength + 1)) + 1) 255) (4 * hashLength)
  rw [length_replicate] at start
  rw [overrunInput, start]
  exact take_left' (by rw [length_spread 4 s (by omega), key])

omit large in
theorem spread_ne_dash (c : Nat) (base32 : ∀ b ∈ s, nixBase32Char b = true) :
    ∀ b ∈ spread c s, b ≠ 45 := by
  intro b member
  obtain ⟨char, inside, here⟩ := mem_flatMap.mp member
  rcases mem_cons.mp here with rfl | nul
  · rintro rfl
    have := base32 45 inside
    revert this
    decide
  · rw [(mem_replicate.mp nul).2]
    decide

theorem overrunInput_dash (key : s.length = hashLength) (base32 : ∀ b ∈ s, nixBase32Char b = true)
    (j : Nat) : (overrunInput requestSize s v)[j]? = some 45 ↔ j = requestSize - 1 := by
  have before : (replicate (requestSize - (4 * hashLength + 1)) (255 : UInt8) ++ spread 4 s).length =
      requestSize - 1 := by
    rw [length_append, length_replicate, length_spread 4 s (by omega), key]
    omega
  have none : ∀ b ∈ replicate (requestSize - (4 * hashLength + 1)) (255 : UInt8) ++ spread 4 s, b ≠ 45 := by
    intro b member
    rcases mem_append.mp member with fill | inside
    · rw [(mem_replicate.mp fill).2]
      decide
    · exact spread_ne_dash s 4 base32 b inside
  rw [overrunInput, ← append_assoc]
  rcases Nat.lt_trichotomy j (requestSize - 1) with earlier | rfl | later
  · rw [getElem?_append_left (by omega)]
    constructor
    · intro found
      exact absurd rfl (none 45 (mem_of_getElem? found))
    · omega
  · rw [getElem?_append_right (by omega), before, Nat.sub_self]
    simp
  · rw [getElem?_append_right (by omega), before,
      show j - (requestSize - 1) = (j - requestSize) + 1 by omega, getElem?_cons_succ]
    constructor
    · intro found
      exact absurd (mem_replicate.mp (mem_of_getElem? found)).2 (by decide)
    · omega

theorem overrunInput_match (looked : table.lookupReplacement s = some v) :
    matchAt table (overrunInput requestSize s v) 0 (requestSize - 1) = some (4, v) := by
  obtain ⟨key, base32, _⟩ := lookupReplacement_key looked
  have length := length_overrunInput requestSize s v large key
  have window := (spread_eq_slice_iff (overrunInput requestSize s v) s 4 (requestSize - 1) (by omega)
    key (by omega) (by omega)).mp (by
      rw [← slice_overrunInput requestSize s v key]
      congr 1)
  obtain ⟨nuls, hash⟩ := window
  have reference : referenceAt table (overrunInput requestSize s v) 0 (requestSize - 1) 4 = some v :=
    (referenceAt_eq_some_iff (by omega) (by omega)).mpr ⟨by omega, nuls, hash ▸ looked⟩
  have dash := (overrunInput_dash requestSize s v large key base32 (requestSize - 1)).mpr rfl
  rw [matchAt_eq_tailSize dash, ← eq_tailSize (by omega) (by omega) reference, reference]
  rfl

/-- On this input the procedure stops with an error and without the last byte. -/
theorem overrunInput_fails (looked : table.lookupReplacement s = some v)
    (long : requestSize < 4 * (v.length - (hashLength + 1))) :
    ∃ output, replaceStoreReferences requestSize table (overrunInput requestSize s v) =
      .outOfRange output ∧ output ≠ reference table (overrunInput requestSize s v) := by
  obtain ⟨key, base32, _⟩ := lookupReplacement_key looked
  have length := length_overrunInput requestSize s v large key
  have dash := overrunInput_dash requestSize s v large key base32
  have found := overrunInput_match requestSize table s v large looked
  generalize overrunInput requestSize s v = input at *
  have full : (slice input 0 requestSize).length = requestSize := length_slice_of_le _ _ _ (by omega)
  obtain ⟨w, output, returned, frontiers, clean, emitted⟩ :=
    scanFrom_spec table input 0 requestSize ((slice input 0 requestSize).length + 1) hashLength 0 []
      (by omega) (by omega) (by omega) (clean_close)
  simp only [Nat.zero_add, full] at returned frontiers clean emitted
  -- the scan makes exactly the one replacement
  have frontier : w = requestSize + 4 * (v.length - (hashLength + 1)) := by
    cases frontiers with
    | here =>
      have absent := clean (requestSize - 1) (by omega)
      rw [found] at absent
      cases absent
    | @step _ i c _ v' _ found' inside rest =>
      have here := (dash i).mp (matchAt_cases found').1
      subst here
      rw [found] at found'
      cases found'
      have value := nextFrontier_eq found
      have last := rest.past (by omega)
      omega
  have reached : emitFrom table input w = input.drop w :=
    emitFrom_clean fun j before =>
      matchAt_close (by simp only [hashLength] at *; omega)
  refine ⟨output, ?_, ?_⟩
  · have buffer : input.take requestSize = slice input 0 requestSize := rfl
    have nonempty : input ≠ [] := ne_nil_of_length_pos (by omega)
    rw [replaceStoreReferences, outerLoop, if_neg nonempty]
    simp only [buffer, full, returned]
    rw [if_pos (by omega), if_pos (by omega)]
  · intro equal
    have total : reference table input = output ++ input.drop w := by
      rw [← reached, emitted]
      rfl
    rw [total] at equal
    have := congrArg List.length equal
    rw [length_append, length_drop] at this
    omega

end

end Overrun

/-- For a buffer of more than `4 * hashLength` bytes the procedure computes the
reference on every input iff no replacement can run past a buffer by more than its
size. -/
theorem replaceStoreReferences_eq_reference_iff (requestSize : Nat) (table : ReplacementTable)
    (large : 4 * hashLength < requestSize) :
    (∀ input, replaceStoreReferences requestSize table input = .done (reference table input)) ↔
      ∀ s v, table.lookupReplacement s = some v → 4 * (v.length - (hashLength + 1)) ≤ requestSize := by
  constructor
  · intro correct s v looked
    by_contra long
    obtain ⟨output, failed, _⟩ := overrunInput_fails requestSize table s v large looked (by omega)
    rw [correct] at failed
    cases failed
  · intro fits input
    exact outerLoop_spec requestSize table input large fits (input.length + 1) 0 [] (by omega) (by omega)

/-- One hash, replaced by a name of `n` bytes. -/
def namedTable (n : Nat) : ReplacementTable where
  entries := [(replicate 32 48, replicate 32 49 ++ 45 :: replicate n 97)]
  keys := by
    intro entry member
    rw [mem_singleton.mp member]
    refine ⟨length_replicate, fun b inside => ?_⟩
    rw [(mem_replicate.mp inside).2]
    decide
  values := by
    intro entry member
    rw [mem_singleton.mp member, length_append, length_replicate, length_cons]
    simp only [hashLength]
    omega

theorem replaceStoreReferences_eq_reference_mebibyte :
    4 * hashLength < requestSize ∧
    ((∀ input, replaceStoreReferences requestSize (namedTable 10) input =
        .done (reference (namedTable 10) input)) ↔
      ∀ s v, (namedTable 10).lookupReplacement s = some v →
        4 * (v.length - (hashLength + 1)) ≤ requestSize) :=
  ⟨by decide, replaceStoreReferences_eq_reference_iff requestSize (namedTable 10) (by decide)⟩

theorem lookup_namedTable (n : Nat) : (namedTable n).lookupReplacement (replicate 32 48) =
    some (replicate 32 49 ++ 45 :: replicate n 97) := by
  simp only [ReplacementTable.lookupReplacement, namedTable, find?_cons, beq_self_eq_true,
    map_some]

/-- A name of `2 ^ 18 + 1` bytes is too long for the buffer of 1 MiB: the bytes written
are not those of the reference. -/
theorem replaceStoreReferences_long_name :
    (replaceStoreReferences requestSize (namedTable (2 ^ 18 + 1))
      (overrunInput requestSize (replicate 32 48)
        (replicate 32 49 ++ 45 :: replicate (2 ^ 18 + 1) 97))).output ≠
    reference (namedTable (2 ^ 18 + 1))
      (overrunInput requestSize (replicate 32 48)
        (replicate 32 49 ++ 45 :: replicate (2 ^ 18 + 1) 97)) := by
  have long (n : Nat) : (replicate 32 (49 : UInt8) ++ 45 :: replicate n 97).length = 33 + n := by
    rw [length_append, length_cons, length_replicate, length_replicate]
    omega
  obtain ⟨output, returned, different⟩ := overrunInput_fails requestSize (namedTable (2 ^ 18 + 1)) _ _
    (by decide) (lookup_namedTable (2 ^ 18 + 1)) (by rw [long]; decide)
  rw [returned]
  exact different

end Guix.Build
