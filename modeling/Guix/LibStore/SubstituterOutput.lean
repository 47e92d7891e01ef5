import Guix.LibUtil.Types

/-!
# What a substitution goal reads from its substituter

`SubstitutionGoal::handleChildOutput` and `handleEOF` of `build.cc`. The worker passes on
what one `read` returns, and lets a goal that has been woken up `finish` before it reads
again, so that later output is left to the goal that borrows the substituter next. What
the substituter writes to its log is only shown to the user.
-/

namespace Guix.LibStore.Substituter

open List

def newline : UInt8 := 10

/-- The file descriptors of the substituter that the worker watches. -/
inductive Fd
  | fromAgent
  | builderOut
  deriving DecidableEq, Repr

structure Read where
  fd : Fd
  data : Bytes
  deriving DecidableEq, Repr

/-- A goal that waits for the substituter; `unexpected` holds what it has complained about. -/
structure Goal where
  status : Bytes := []
  woken : Bool := false
  unexpected : List Bytes := []
  deriving DecidableEq, Repr

/-- What follows the first newline. -/
def afterLine (input : Bytes) : Bytes := input.drop ((input.takeWhile (· != newline)).length + 1)

/-- One iteration of the loop. -/
def Goal.handleLine (goal : Goal) (input : Bytes) : Goal :=
  if goal.status = [] then { goal with status := input.takeWhile (· != newline), woken := true }
  else { goal with unexpected := goal.unexpected ++ [input] }

/-- The loop; every iteration consumes a byte at least. -/
def Goal.handleLines (goal : Goal) : Nat → Bytes → Goal
  | 0, _ => goal
  | n + 1, input =>
    if input = [] then goal else (goal.handleLine input).handleLines n (afterLine input)

def Goal.handleChildOutput (goal : Goal) (read : Read) : Goal :=
  if read.fd = .builderOut then goal.handleLines read.data.length read.data else goal

def Goal.handleEOF (goal : Goal) : Goal := { goal with woken := true }

/-- The goal when it is woken up, and what has not been read by then. -/
def Goal.wait (goal : Goal) : List Read → Goal × List Read
  | [] => (goal.handleEOF, [])
  | read :: later =>
    let goal := goal.handleChildOutput read
    if goal.woken then (goal, later) else goal.wait later

/-- The chunks of the stream that carries the status. -/
def chunks (reads : List Read) : List Bytes :=
  (reads.filter (·.fd = .builderOut)).map (·.data)

/-! ### Lines -/

theorem length_afterLine {input : Bytes} (nonempty : input ≠ []) : (afterLine input).length < input.length := by
  have positive := length_pos_iff.mpr nonempty
  rw [afterLine, length_drop]
  omega

theorem takeWhile_line {line rest : Bytes} (noNewline : newline ∉ line) :
    (line ++ newline :: rest).takeWhile (· != newline) = line := by
  rw [takeWhile_append_of_pos]
  · rw [takeWhile_cons_of_neg (by simp), append_nil]
  · intro b listed
    simp only [bne_iff_ne]
    intro same
    exact noNewline (same ▸ listed)

theorem afterLine_line {line rest : Bytes} (noNewline : newline ∉ line) :
    afterLine (line ++ newline :: rest) = rest := by
  rw [afterLine, takeWhile_line noNewline, ← drop_drop, drop_left]
  rfl

theorem afterLine_newline (rest : Bytes) : afterLine (newline :: rest) = rest :=
  @afterLine_line [] rest not_mem_nil

theorem afterLine_cons {b : UInt8} (notNewline : b ≠ newline) (rest : Bytes) :
    afterLine (b :: rest) = afterLine rest := by
  rw [afterLine, takeWhile_cons_of_pos (by simpa using notNewline), length_cons, drop_succ_cons]
  rfl

/-- Nothing follows the first line if there is no newline but at the end. -/
theorem afterLine_eq_nil_iff (input : Bytes) : afterLine input = [] ↔ newline ∉ input.dropLast := by
  induction input with
  | nil => simp [afterLine]
  | cons b rest ih =>
    by_cases isNewline : b = newline
    · rw [isNewline, afterLine_newline]
      cases rest with
      | nil => simp
      | cons c rest => simp
    · rw [afterLine_cons isNewline, ih]
      cases rest with
      | nil => simp
      | cons c rest => simp [Ne.symm isNewline]

/-- What a goal that has its status complains about. -/
def complaints : Nat → Bytes → List Bytes
  | 0, _ => []
  | n + 1, input => if input = [] then [] else input :: complaints n (afterLine input)

theorem handleLines_complains (goal : Goal) (known : goal.status ≠ []) (n : Nat) (input : Bytes) :
    goal.handleLines n input = { goal with unexpected := goal.unexpected ++ complaints n input } := by
  induction n generalizing goal input with
  | zero => simp [Goal.handleLines, complaints]
  | succ n ih =>
    rw [Goal.handleLines, complaints]
    split
    · rw [append_nil]
    · have line : goal.handleLine input = { goal with unexpected := goal.unexpected ++ [input] } :=
        if_neg known
      rw [line, ih { goal with unexpected := goal.unexpected ++ [input] } known, append_assoc,
        singleton_append]

/-- A complaint names all that is left of the chunk, so that lines after the next one are
complained about several times. -/
theorem complaints_flatten {n : Nat} {input : Bytes} (enough : input.length ≤ n) :
    (complaints n input).flatten = input ↔ newline ∉ input.dropLast := by
  have repeats (n : Nat) (input : Bytes) (enough : input.length ≤ n) :
      (complaints n input).flatten = [] ↔ input = [] := by
    fun_cases complaints n input with
    | case1 input => simpa using enough
    | case2 n => simp
    | case3 n input nonempty => simp [nonempty]
  rw [← afterLine_eq_nil_iff]
  cases n with
  | zero =>
    have empty : input = [] := eq_nil_of_length_eq_zero (by omega)
    simp [complaints, empty, afterLine]
  | succ n =>
    rw [complaints]
    split
    · next empty => simp [empty, afterLine]
    · next nonempty =>
      have shorter := length_afterLine nonempty
      rw [flatten_cons, append_right_eq_self, repeats n (afterLine input) (by omega)]

/-- Without a status there have been no complaints. -/
theorem unexpected_of_noStatus (goal : Goal) (noStatus : goal.status = []) (n : Nat) (input : Bytes)
    (still : (goal.handleLines n input).status = []) :
    (goal.handleLines n input).unexpected = goal.unexpected := by
  induction n generalizing goal input with
  | zero => rfl
  | succ n ih =>
    rw [Goal.handleLines] at still ⊢
    split
    · rfl
    · next nonempty =>
      rw [if_neg nonempty] at still
      have line : goal.handleLine input =
          { goal with status := input.takeWhile (· != newline), woken := true } := if_pos noStatus
      rw [line] at still ⊢
      by_cases empty : input.takeWhile (· != newline) = []
      · exact ih _ empty _ still
      · -- the status stays what it is
        rw [handleLines_complains _ empty] at still
        exact absurd still empty

/-! ### The first chunk -/

/-- The first chunk of the stream wakes up the goal. -/
theorem handleLines_woken (goal : Goal) (noStatus : goal.status = []) {data : Bytes} (nonempty : data ≠ []) :
    (goal.handleLines data.length data).woken = true := by
  have stays : ∀ n (goal : Goal) input, goal.woken = true → (goal.handleLines n input).woken = true := by
    intro n
    induction n with
    | zero => exact fun _ _ woken => woken
    | succ n ih =>
      intro goal input woken
      rw [Goal.handleLines]
      split
      · exact woken
      · apply ih
        rw [Goal.handleLine]
        split
        · rfl
        · exact woken
  obtain ⟨n, length⟩ : ∃ n, data.length = n + 1 :=
    ⟨data.length - 1, by have := length_pos_iff.mpr nonempty; omega⟩
  rw [length, Goal.handleLines, if_neg nonempty]
  apply stays
  rw [Goal.handleLine, if_pos noStatus]

theorem wait_eq {reads : List Read} {chunk : Bytes} {later : List Bytes} (nonempty : chunk ≠ [])
    (split : chunks reads = chunk :: later) :
    (Goal.wait {} reads).1 = Goal.handleLines {} chunk.length chunk ∧
      chunks (Goal.wait {} reads).2 = later := by
  induction reads with
  | nil => cases split
  | cons read reads ih =>
    rw [Goal.wait]
    by_cases isStatus : read.fd = .builderOut
    · have first : chunks (read :: reads) = read.data :: chunks reads := by
        simp [chunks, isStatus]
      rw [first] at split
      obtain ⟨rfl, rfl⟩ := List.cons.inj split
      simp only [Goal.handleChildOutput, if_pos isStatus, handleLines_woken {} rfl nonempty, if_true]
      exact ⟨trivial, trivial⟩
    · have skipped : chunks (read :: reads) = chunks reads := by
        simp [chunks, isStatus]
      rw [skipped] at split
      simp only [Goal.handleChildOutput, if_neg isStatus, Bool.false_eq_true, if_false]
      exact ih split

/-- The goal has got the first line, its complaints are about the bytes after it, each named
once, and it has left nothing unread. -/
structure Delivered (line rest : Bytes) (result : Goal × List Read) : Prop where
  status : result.1.status = line
  unexpected : result.1.unexpected.flatten = rest
  unread : chunks result.2 = []

theorem handleLines_first {line rest : Bytes} (noNewline : newline ∉ line) :
    ∃ n, rest.length ≤ n ∧
      Goal.handleLines {} (line ++ newline :: rest).length (line ++ newline :: rest) =
        Goal.handleLines { status := line, woken := true } n rest := by
  have nonempty : line ++ newline :: rest ≠ [] := by simp
  refine ⟨line.length + rest.length, Nat.le_add_left _ _, ?_⟩
  rw [length_append, length_cons, ← Nat.add_assoc, Goal.handleLines, if_neg nonempty,
    afterLine_line noNewline, Goal.handleLine, if_pos rfl, takeWhile_line noNewline]

/-- When a goal gets the first line of the stream, and nothing is lost or taken for
something else. -/
theorem wait_delivers_iff (reads : List Read) (line rest : Bytes) (nonempty : ∀ c ∈ chunks reads, c ≠ [])
    (stream : (chunks reads).flatten = line ++ newline :: rest) (noNewline : newline ∉ line) :
    Delivered line rest (Goal.wait {} reads) ↔
      (chunks reads).length = 1 ∧ (rest = [] ∨ line ≠ [] ∧ newline ∉ rest.dropLast) := by
  cases split : chunks reads with
  | nil =>
    rw [split] at stream
    simp at stream
  | cons chunk later =>
    obtain ⟨goal, unread⟩ := wait_eq (nonempty chunk (by simp [split])) split
    -- what is in later chunks is not read
    by_cases single : later = []
    · rw [split, single, flatten_cons, flatten_nil, append_nil] at stream
      obtain ⟨n, enough, handled⟩ := @handleLines_first line rest noNewline
      rw [stream, handled] at goal
      have result : Delivered line rest (Goal.wait {} reads) ↔
          (Goal.handleLines { status := line, woken := true } n rest).status = line ∧
            (Goal.handleLines { status := line, woken := true } n rest).unexpected.flatten = rest := by
        constructor
        · intro delivered
          rw [← goal]
          exact ⟨delivered.status, delivered.unexpected⟩
        · intro holds
          rw [← goal] at holds
          exact ⟨holds.1, holds.2, unread.trans single⟩
      rw [result, single]
      simp only [length_singleton, true_and]
      by_cases empty : line = []
      · simp only [empty, ne_eq, not_true_eq_false, false_and, or_false]
        constructor
        · intro holds
          have silent := unexpected_of_noStatus { status := [], woken := true } rfl n rest holds.1
          rw [silent] at holds
          exact holds.2.symm
        · intro noRest
          rw [noRest]
          cases n <;> exact ⟨rfl, rfl⟩
      · rw [handleLines_complains _ empty]
        simp only [nil_append, true_and, empty, ne_eq, not_false_eq_true, complaints_flatten enough]
        constructor
        · intro lastLine
          exact .inr lastLine
        · intro holds
          rcases holds with noRest | lastLine
          · simp [noRest]
          · exact lastLine
    · constructor
      · intro delivered
        exact absurd (unread.symm.trans delivered.unread) single
      · intro holds
        have one := holds.1
        rw [length_cons] at one
        exact absurd (eq_nil_of_length_eq_zero (by omega)) single

/-- A reply that is read as a whole. -/
theorem wait_delivers_iff_reply :
    Delivered (ascii "success sha256:00 1") []
      (Goal.wait {} [⟨.fromAgent, ascii "x"⟩, ⟨.builderOut, ascii "success sha256:00 1\n"⟩]) := by
  refine (wait_delivers_iff _ _ _ ?_ ?_ ?_).mpr ?_ <;> decide

/-- A reply that is read in two parts: the first part is taken for the status, and the second
part becomes the status of the next goal. -/
theorem wait_splits_reply :
    let reads := [⟨.builderOut, ascii "succ"⟩, ⟨.builderOut, ascii "ess sha256:00 1\n"⟩]
    (Goal.wait {} reads).1.status = ascii "succ" ∧
      (Goal.wait {} (Goal.wait {} reads).2).1.status = ascii "ess sha256:00 1" := by
  decide

end Guix.LibStore.Substituter
