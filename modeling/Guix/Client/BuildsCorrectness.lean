import Guix.Client.Builds

/-!
# Accumulated builds compared with immediate ones

The calls that the accumulator holds back come in rounds. A round whose calls ask for
nothing at all is taken for the last one, and then its `<unresolved>` objects are returned;
otherwise everything is built before the continuations are called, and the values are those
of `map` with immediate builds.
-/

namespace Guix.Client

open List Procedure

/-! ### Traces -/

section Traces

variable {T : Type}

/-- Each call that returned had its things passed to the daemon before. -/
def BuiltBefore (trace : List (BuildEvent T)) : Prop :=
  ∀ front things back, trace = front ++ .returned things :: back →
    ∀ thing ∈ things, thing ∈ builtThings front

variable {trace : List (BuildEvent T)}

theorem builtBefore_snoc {event : BuildEvent T} (before : BuiltBefore trace)
    (built : ∀ things, event = .returned things → ∀ thing ∈ things, thing ∈ builtThings trace) :
    BuiltBefore (trace ++ [event]) := by
  intro front things back same
  rcases eq_nil_or_concat back with rfl | ⟨back, last, rfl⟩
  · obtain ⟨rfl, isEvent⟩ := append_inj' same rfl
    exact built things (singleton_inj.mp isEvent)
  · rw [concat_eq_append, ← cons_append, ← append_assoc] at same
    exact before front things back (append_inj' same rfl).1

theorem builtBefore_built (before : BuiltBefore trace) (things : List T) :
    BuiltBefore (trace ++ [.built things]) := by
  apply builtBefore_snoc before
  exact nofun

theorem builtBefore_returned (before : BuiltBefore trace) {things : List T}
    (built : ∀ thing ∈ things, thing ∈ builtThings trace) : BuiltBefore (trace ++ [.returned things]) := by
  apply builtBefore_snoc before
  rintro _ same
  cases same
  exact built

theorem mem_builtThings_built (trace : List (BuildEvent T)) (things : List T) :
    ∀ thing ∈ things, thing ∈ builtThings (trace ++ [.built things]) := by
  intro thing member
  simp [builtThings, BuildEvent.things, member]

theorem builtThings_mono {trace' : List (BuildEvent T)} (longer : trace <+: trace') {thing : T}
    (built : thing ∈ builtThings trace) : thing ∈ builtThings trace' := by
  obtain ⟨more, rfl⟩ := longer
  rw [builtThings, flatMap_append]
  exact mem_append_left _ built

end Traces

/-! ### Calls, accumulated calls and values -/

section Meaning

variable {S T R β : Type}
variable {reply : Reply S T R β}

/-- The things of the replies are built before their continuations are called. -/
theorem mem_built_of_reply [DecidableEq T] {replies : List (Reply S T R β)} (member : reply ∈ replies)
    (trace : List (BuildEvent T)) : ∀ thing ∈ reply.things,
      thing ∈ builtThings (trace ++ [.built (replies.flatMap Reply.things).eraseDups]) := by
  intro thing isThing
  apply mem_builtThings_built
  rw [mem_eraseDups, mem_flatMap]
  exact ⟨reply, member, isThing⟩

variable [DecidableEq S] (outcome : T → R) (expected : S)

/-- The value with immediate builds. -/
def Procedure.immediate : Procedure S T R β → β
  | .done value => value
  | .buildThings _ things _ next => (next (things.map fun thing => some (outcome thing))).immediate

/-- What all calls of `build-things` ask for. -/
def Procedure.requests : Procedure S T R β → List (List T)
  | .done _ => []
  | .buildThings _ things _ next => things :: (next (things.map fun thing => some (outcome thing))).requests

/-- What the calls that the accumulator holds back ask for. -/
def Procedure.suspensions : Procedure S T R β → List (List T)
  | .done _ => []
  | .buildThings socket things mode next =>
    if socket = expected ∧ mode = .normal then
      things :: (next (things.map fun thing => some (outcome thing))).suspensions
    else (next (things.map fun thing => some (outcome thing))).suspensions

def Reply.immediate : Reply S T R β → β
  | .value v => v
  | .unresolved things continuation =>
    (continuation (things.map fun thing => some (outcome thing))).immediate outcome

def Reply.requests : Reply S T R β → List (List T)
  | .value _ => []
  | .unresolved things continuation =>
    things :: (continuation (things.map fun thing => some (outcome thing))).requests outcome

def Reply.suspensions : Reply S T R β → List (List T)
  | .value _ => []
  | .unresolved things continuation =>
    things :: (continuation (things.map fun thing => some (outcome thing))).suspensions outcome expected

theorem Reply.things_eq (reply : Reply S T R β) :
    reply.things = (reply.suspensions outcome expected).headD [] := by
  cases reply with
  | value v => rfl
  | unresolved things continuation => rfl

variable {outcome expected}

theorem Reply.eq_value (none : reply.suspensions outcome expected = []) :
    reply = .value (reply.immediate outcome) := by
  cases reply with
  | value v => rfl
  | unresolved things continuation => cases none

variable (outcome expected)

/-- What a call under the accumulator leaves, for a procedure with the given accumulated
calls, calls and value. -/
structure Performs (suspensions requests : List (List T)) (value : β) (before : List (BuildEvent T))
    (reply : Reply S T R β) (after : List (BuildEvent T)) : Prop where
  longer : before <+: after
  builtBefore : BuiltBefore after
  suspensions : reply.suspensions outcome expected = suspensions
  value : reply.immediate outcome = value
  requested : ∀ things ∈ requests, things ∈ reply.requests outcome ∨ .returned things ∈ after

variable [DecidableEq T]

theorem map_readThing {trace : List (BuildEvent T)} {things : List T}
    (built : ∀ thing ∈ things, thing ∈ builtThings trace) :
    things.map (readThing outcome trace) = things.map fun thing => some (outcome thing) := by
  apply map_congr_left
  intro thing member
  rw [readThing, if_pos (built thing member)]

theorem Procedure.run_performs (procedure : Procedure S T R β) (trace : List (BuildEvent T))
    (before : BuiltBefore trace) :
    Performs outcome expected (procedure.suspensions outcome expected) (procedure.requests outcome)
      (procedure.immediate outcome) trace (procedure.run outcome expected trace).1
      (procedure.run outcome expected trace).2 := by
  induction procedure generalizing trace with
  | done value => exact ⟨prefix_refl _, before, rfl, rfl, fun _ member => .inl member⟩
  | buildThings socket things mode next ih =>
    rw [run, suspensions]
    split
    next => exact ⟨prefix_refl _, before, rfl, rfl, fun _ member => .inl member⟩
    next =>
      -- the things are built at once, so that the rest of the procedure reads all of them
      have built := mem_builtThings_built trace things
      rw [map_readThing outcome built]
      have rest := ih (things.map fun thing => some (outcome thing))
        (trace ++ [.built things] ++ [.returned things])
        (builtBefore_returned (builtBefore_built before things) built)
      refine ⟨?_, rest.builtBefore, rest.suspensions, rest.value, ?_⟩
      · exact ((prefix_append _ _).trans (prefix_append _ _)).trans rest.longer
      · exact forall_mem_cons.mpr ⟨.inr (rest.longer.subset (by simp)), rest.requested⟩

/-- A continuation is called when the things it waits for are built. -/
theorem Reply.resume_performs (reply : Reply S T R β) (trace : List (BuildEvent T))
    (before : BuiltBefore trace) (built : ∀ thing ∈ reply.things, thing ∈ builtThings trace) :
    Performs outcome expected (reply.suspensions outcome expected).tail (reply.requests outcome)
      (reply.immediate outcome) trace (reply.resume outcome expected trace).1
      (reply.resume outcome expected trace).2 := by
  cases reply with
  | value v => exact ⟨prefix_refl _, before, rfl, rfl, fun _ member => .inl member⟩
  | unresolved things continuation =>
    rw [Reply.things] at built
    rw [Reply.resume, map_readThing outcome built]
    have rest := run_performs outcome expected
      (continuation (things.map fun thing => some (outcome thing))) (trace ++ [.returned things])
      (builtBefore_returned before built)
    refine ⟨(prefix_append _ _).trans rest.longer, rest.builtBefore, rest.suspensions, rest.value, ?_⟩
    exact forall_mem_cons.mpr ⟨.inr (rest.longer.subset (by simp)), rest.requested⟩

end Meaning

/-! ### Batches -/

section Batches

variable {T : Type} (cutoff : Nat)

/-- How many elements the loop takes, when `unresolved` of those before are unresolved. Each
element is given by its accumulated calls. -/
def batchSize : Nat → List (List (List T)) → Nat
  | _, [] => 0
  | unresolved, [] :: rest => batchSize unresolved rest + 1
  | unresolved, (_ :: _) :: rest => if cutoff ≤ unresolved then 1 else batchSize (unresolved + 1) rest + 1

/-- In each round of the batch that has a call, some call asks for something. -/
def Productive (batch : List (List (List T))) : Prop :=
  ∀ k, (∃ calls ∈ batch, k < calls.length) → ∃ calls ∈ batch, calls.getD k [] ≠ []

variable {calls : List (List (List T))}

theorem batchSize_pos (some : calls ≠ []) : 0 < batchSize cutoff 0 calls := by
  cases calls with
  | nil => exact absurd rfl some
  | cons head tail =>
    cases head with
    | nil => exact Nat.succ_pos _
    | cons call later =>
      rw [batchSize]
      split <;> exact Nat.succ_pos _

/-- The elements of the list taken by the loop, then those of the rest. -/
def batches (calls : List (List (List T))) : List (List (List (List T))) :=
  if _some : calls = [] then []
  else calls.take (batchSize cutoff 0 calls) :: batches (calls.drop (batchSize cutoff 0 calls))
termination_by calls.length
decreasing_by
  have := batchSize_pos cutoff _some
  have := length_pos_of_ne_nil _some
  rw [length_drop]
  omega

/-- A batch is taken as a whole when its continuations are called. -/
theorem batchSize_take (unresolved : Nat) (calls : List (List (List T))) :
    batchSize cutoff unresolved (calls.take (batchSize cutoff unresolved calls)) =
      (calls.take (batchSize cutoff unresolved calls)).length := by
  fun_induction batchSize cutoff unresolved calls with
  | case1 => rfl
  | case2 unresolved rest ih => simpa [batchSize] using ih
  | case3 unresolved call later rest full => simp [batchSize, full]
  | case4 unresolved call later rest room ih => simpa [batchSize, room] using ih

/-- So it is in every later round, where fewer elements are unresolved. -/
theorem batchSize_tail {unresolved fewer : Nat} (le : fewer ≤ unresolved)
    (whole : batchSize cutoff unresolved calls = calls.length) :
    batchSize cutoff fewer (calls.map tail) = calls.length := by
  fun_induction batchSize cutoff unresolved calls generalizing fewer with
  | case1 => rfl
  | case2 unresolved rest ih =>
    rw [map_cons, tail_nil, batchSize, ih le (Nat.succ.inj whole), length_cons]
  | case3 unresolved call later rest full =>
    -- the cutoff is reached at the last element
    have last : rest = [] := length_eq_zero_iff.mp (Nat.succ.inj whole).symm
    subst last
    cases later with
    | nil => rfl
    | cons call' later => simp [batchSize]
  | case4 unresolved call later rest room ih =>
    have rested := Nat.succ.inj whole
    rw [map_cons, tail_cons, length_cons]
    cases later with
    | nil => rw [batchSize, ih (Nat.le_succ_of_le le) rested]
    | cons call' later => rw [batchSize, if_neg (by omega), ih (Nat.succ_le_succ le) rested]

theorem batchSize_of_none (unresolved : Nat) (calls : List (List (List T)))
    (none : ∀ head ∈ calls.take (batchSize cutoff unresolved calls), head = []) :
    batchSize cutoff unresolved calls = calls.length := by
  fun_induction batchSize cutoff unresolved calls with
  | case1 => rfl
  | case2 unresolved rest ih =>
    rw [length_cons, ih fun head member => none head (by simp [member])]
  | case3 unresolved call later rest full => exact absurd (none (call :: later) (by simp)) (by simp)
  | case4 unresolved call later rest room ih => exact absurd (none (call :: later) (by simp)) (by simp)

theorem productive_iff (batch : List (List (List T))) :
    Productive batch ↔ ((∃ calls ∈ batch, calls ≠ []) → ∃ calls ∈ batch, calls.headD [] ≠ []) ∧
      Productive (batch.map tail) := by
  have tail (calls : List (List T)) (k : Nat) : calls.tail.getD k [] = calls.getD (k + 1) [] := by
    cases calls <;> rfl
  rw [Productive, ← Nat.and_forall_add_one]
  simp only [Productive, mem_map, exists_exists_and_eq_and, headD_eq_getD, tail, length_pos_iff, length_tail,
    Nat.lt_sub_iff_add_lt]

/-- Where nothing is asked for, a productive batch has no calls. -/
theorem Productive.none {batch : List (List (List T))} (productive : Productive batch)
    (nothing : ∀ calls ∈ batch, calls.headD [] = []) : ∀ calls ∈ batch, calls = [] := by
  intro calls member
  by_contra some
  obtain ⟨calls', member', asks⟩ := ((productive_iff batch).mp productive).1 ⟨calls, member, some⟩
  exact asks (nothing calls' member')

theorem productive_batches_iff (calls : List (List (List T))) :
    (∀ batch ∈ batches cutoff calls, Productive batch) ↔
      Productive (calls.take (batchSize cutoff 0 calls)) ∧
        ∀ batch ∈ batches cutoff (calls.drop (batchSize cutoff 0 calls)), Productive batch := by
  by_cases none : calls = []
  · subst none
    have empty : batches cutoff ([] : List (List (List T))) = [] := by rw [batches, dif_pos rfl]
    simp [empty, Productive]
  · rw [batches, dif_neg none, forall_mem_cons]

theorem productive_batches_whole (whole : batchSize cutoff 0 calls = calls.length) :
    (∀ batch ∈ batches cutoff calls, Productive batch) ↔ Productive calls := by
  rw [productive_batches_iff, whole, take_length, drop_length, batches, dif_pos rfl]
  simp

end Batches

/-! ### Rounds -/

section Rounds

variable {S T R β γ : Type} (requests : γ → List (List T)) (value : γ → β)

/-- What a whole run leaves: the values with immediate builds when every round asks for
something, an unresolved object otherwise. -/
structure Finished (productive : Prop) (lst : List γ) (before : List (BuildEvent T))
    (replies : List (Reply S T R β)) (after : List (BuildEvent T)) : Prop where
  longer : before <+: after
  builtBefore : BuiltBefore after
  values : productive → replies = lst.map fun a => .value (value a)
  requested : productive → ∀ a ∈ lst, ∀ things ∈ requests a, .returned things ∈ after
  leaks : ¬ productive → ∃ things continuation, .unresolved things continuation ∈ replies

variable {before after : List (BuildEvent T)} {replies : List (Reply S T R β)}
variable {requests value} in
theorem Finished.append {productive productive' : Prop} {front back : List γ} {middle : List (BuildEvent T)}
    {replies' : List (Reply S T R β)}
    (first : Finished requests value productive front before replies middle)
    (second : Finished requests value productive' back middle replies' after) :
    Finished requests value (productive ∧ productive') (front ++ back) before (replies ++ replies') after where
  longer := first.longer.trans second.longer
  builtBefore := second.builtBefore
  values both := by rw [map_append, first.values both.1, second.values both.2]
  requested both := by
    refine forall_mem_append.mpr ⟨fun a inFront things inRequests => ?_, second.requested both.2⟩
    exact second.longer.subset (first.requested both.1 a inFront things inRequests)
  leaks notBoth := by
    by_cases holds : productive
    · obtain ⟨things, continuation, leaked⟩ := second.leaks fun holds' => notBoth ⟨holds, holds'⟩
      exact ⟨things, continuation, mem_append_right _ leaked⟩
    · obtain ⟨things, continuation, leaked⟩ := first.leaks holds
      exact ⟨things, continuation, mem_append_left _ leaked⟩

variable [DecidableEq S] (outcome : T → R) (expected : S) (cutoff : Nat) (suspensions : γ → List (List T))

/-- The replies of a batch of elements. -/
structure Accumulated (batch : List γ) (replies : List (Reply S T R β)) (trace : List (BuildEvent T)) :
    Prop where
  suspensions : replies.map (Reply.suspensions outcome expected) = batch.map suspensions
  value : replies.map (Reply.immediate outcome) = batch.map value
  requested : ∀ a ∈ batch, ∀ things ∈ requests a,
    (∃ reply ∈ replies, things ∈ reply.requests outcome) ∨ .returned things ∈ trace

/-- Calling the procedure for an element, now or later, gives what the element stands for. -/
def Faithful (proc : γ → List (BuildEvent T) → Reply S T R β × List (BuildEvent T)) (lst : List γ)
    (trace : List (BuildEvent T)) : Prop :=
  ∀ a ∈ lst, ∀ trace', trace <+: trace' → BuiltBefore trace' →
    Performs outcome expected (suspensions a) (requests a) (value a) trace' (proc a trace').1 (proc a trace').2

variable {outcome expected suspensions requests value}
variable {batch : List γ} {trace trace' : List (BuildEvent T)}

theorem Accumulated.cons {a : γ} {reply : Reply S T R β}
    (first : Performs outcome expected (suspensions a) (requests a) (value a) before reply trace)
    (longer : trace <+: trace')
    (rest : Accumulated requests value outcome expected suspensions batch replies trace') :
    Accumulated requests value outcome expected suspensions (a :: batch) (reply :: replies) trace' where
  suspensions := by rw [map_cons, map_cons, first.suspensions, rest.suspensions]
  value := by rw [map_cons, map_cons, first.value, rest.value]
  requested := by
    rw [forall_mem_cons]
    constructor
    · intro things member
      rcases first.requested things member with later | returned
      · exact .inl ⟨reply, mem_cons_self, later⟩
      · exact .inr (longer.subset returned)
    · intro a' member things inRequests
      rcases rest.requested a' member things inRequests with ⟨reply', isReply, later⟩ | returned
      · exact .inl ⟨reply', mem_cons_of_mem reply isReply, later⟩
      · exact .inr returned

variable {proc : γ → List (BuildEvent T) → Reply S T R β × List (BuildEvent T)}

theorem accumulateLoop_spec (lst : List γ) (result : List (Reply S T R β)) (unresolved : Nat)
    (trace : List (BuildEvent T)) (before : BuiltBefore trace)
    (faithful : Faithful requests value outcome expected suspensions proc lst trace) :
    let round := accumulateLoop cutoff proc lst result unresolved trace
    let size := batchSize cutoff unresolved (lst.map suspensions)
    ∃ replies, round.result = result.reverse ++ replies ∧ round.rest = lst.drop size ∧
      trace <+: round.trace ∧ BuiltBefore round.trace ∧
      Accumulated requests value outcome expected suspensions (lst.take size) replies round.trace := by
  induction lst generalizing result unresolved trace with
  | nil => exact ⟨[], by simp [accumulateLoop], rfl, prefix_refl _, before, rfl, rfl, by simp⟩
  | cons head tail ih =>
    have first := faithful head mem_cons_self trace (prefix_refl _) before
    have later : Faithful requests value outcome expected suspensions proc tail (proc head trace).2 :=
      fun a member trace' longer => faithful a (mem_cons_of_mem head member) trace' (first.longer.trans longer)
    rw [map_cons, ← first.suspensions, accumulateLoop]
    cases replied : (proc head trace).1 with
    | value v =>
      rw [replied] at first
      obtain ⟨replies, isResult, isRest, longer, before', accumulated⟩ :=
        ih (.value v :: result) unresolved (proc head trace).2 first.builtBefore later
      refine ⟨.value v :: replies, ?_, isRest, first.longer.trans longer, before', ?_⟩
      · rw [isResult]
        simp
      · exact .cons first longer accumulated
    | unresolved things continuation =>
      rw [replied] at first
      dsimp only [Reply.suspensions]
      rw [batchSize]
      by_cases full : cutoff ≤ unresolved
      · rw [if_pos full, if_pos full]
        refine ⟨[.unresolved things continuation], by simp, rfl, first.longer, first.builtBefore, ?_⟩
        exact .cons first (prefix_refl _) ⟨rfl, rfl, by simp⟩
      · rw [if_neg full, if_neg full]
        obtain ⟨replies, isResult, isRest, longer, before', accumulated⟩ :=
          ih (.unresolved things continuation :: result) (unresolved + 1) (proc head trace).2
            first.builtBefore later
        refine ⟨.unresolved things continuation :: replies, ?_, isRest, first.longer.trans longer, before', ?_⟩
        · rw [isResult]
          simp
        · exact .cons first longer accumulated

namespace Accumulated

variable (accumulated : Accumulated requests value outcome expected suspensions batch replies trace)
include accumulated

theorem mem_suspensions (calls : List (List T)) :
    calls ∈ batch.map suspensions ↔ ∃ reply ∈ replies, reply.suspensions outcome expected = calls := by
  rw [← accumulated.suspensions, mem_map]

theorem values :
    (replies.map fun reply => Reply.value (reply.immediate outcome)) =
      batch.map fun a => (.value (value a) : Reply S T R β) := by
  have values := congrArg (map (Reply.value : β → Reply S T R β)) accumulated.value
  rwa [map_map, map_map] at values

/-- A round that asks for nothing is the last one. -/
theorem last (longer : before <+: trace) (builtBefore : BuiltBefore trace)
    (none : replies.flatMap Reply.things = []) :
    Finished requests value (Productive (batch.map suspensions)) batch before replies trace := by
  have nothing : ∀ reply ∈ replies, (reply.suspensions outcome expected).headD [] = [] := by
    intro reply member
    rw [← Reply.things_eq]
    exact flatMap_eq_nil_iff.mp none reply member
  have noCalls : Productive (batch.map suspensions) → ∀ reply ∈ replies,
      reply.suspensions outcome expected = [] := by
    intro productive reply member
    rw [← accumulated.suspensions] at productive
    exact productive.none (by simpa using nothing) _ (mem_map_of_mem member)
  refine ⟨longer, builtBefore, ?_, ?_, ?_⟩
  · intro productive
    rw [← accumulated.values]
    conv_lhs => rw [← map_id replies]
    exact map_congr_left fun reply member => Reply.eq_value (noCalls productive reply member)
  · intro productive a member things inRequests
    rcases accumulated.requested a member things inRequests with ⟨reply, isReply, later⟩ | returned
    · rw [Reply.eq_value (noCalls productive reply isReply)] at later
      cases later
    · exact returned
  · intro unproductive
    by_contra noneLeft
    apply unproductive
    rintro k ⟨calls, member, long⟩
    obtain ⟨reply, isReply, rfl⟩ := (accumulated.mem_suspensions _).mp member
    cases reply with
    | value v => exact absurd long (Nat.not_lt_zero k)
    | unresolved things continuation => exact absurd ⟨things, continuation, isReply⟩ noneLeft

/-- After another round, what the continuations leave is what the batch leaves. -/
theorem next {resumed : List (Reply S T R β)} (longer : before <+: trace) (longer' : trace <+: trace') (some : replies.flatMap Reply.things ≠ [])
    (finished : Finished (Reply.requests outcome) (Reply.immediate outcome)
      (Productive (replies.map fun reply => (reply.suspensions outcome expected).tail)) replies trace'
      resumed after) :
    Finished requests value (Productive (batch.map suspensions)) batch before resumed after := by
  have first : ∃ calls ∈ batch.map suspensions, calls.headD [] ≠ [] := by
    by_contra none
    apply some
    rw [flatMap_eq_nil_iff]
    intro reply member
    by_contra asks
    rw [Reply.things_eq outcome expected] at asks
    exact none ⟨_, (accumulated.mem_suspensions _).mpr ⟨reply, member, rfl⟩, asks⟩
  have later : Productive (batch.map suspensions) ↔
      Productive (replies.map fun reply => (reply.suspensions outcome expected).tail) := by
    have tails : (replies.map fun reply => (reply.suspensions outcome expected).tail) =
        (batch.map suspensions).map tail := by
      rw [← accumulated.suspensions, map_map]
      rfl
    rw [productive_iff, tails]
    exact ⟨fun both => both.2, fun later => ⟨fun _ => first, later⟩⟩
  refine ⟨longer.trans (longer'.trans finished.longer), finished.builtBefore, ?_, ?_, ?_⟩
  · intro productive
    rw [finished.values (later.mp productive), accumulated.values]
  · intro productive a member things inRequests
    rcases accumulated.requested a member things inRequests with ⟨reply, isReply, asked⟩ | returned
    · exact finished.requested (later.mp productive) reply isReply things asked
    · exact finished.longer.subset (longer'.subset returned)
  · exact fun unproductive => finished.leaks fun productive => unproductive (later.mpr productive)

/-- The replies have one call less than the elements of their batch, and are a batch too. -/
theorem shrinks {n : Nat} (some : replies.flatMap Reply.things ≠ []) (short : ∀ a ∈ batch, (suspensions a).length ≤ n)
    (whole : batchSize cutoff 0 (batch.map suspensions) = batch.length) :
    0 < n ∧ (∀ reply ∈ replies, (reply.suspensions outcome expected).tail.length ≤ n - 1) ∧
      batchSize cutoff 0 (replies.map fun reply => (reply.suspensions outcome expected).tail) =
        replies.length := by
  have short' : ∀ reply ∈ replies, (reply.suspensions outcome expected).length ≤ n := by
    intro reply member
    obtain ⟨a, inBatch, same⟩ := mem_map.mp ((accumulated.mem_suspensions _).mpr ⟨reply, member, rfl⟩)
    rw [← same]
    exact short a inBatch
  refine ⟨?_, fun reply member => ?_, ?_⟩
  · by_contra zero
    apply some
    rw [flatMap_eq_nil_iff]
    intro reply member
    have few := short' reply member
    have empty : reply.suspensions outcome expected = [] := length_eq_zero_iff.mp (by omega)
    rw [Reply.things_eq outcome expected, empty, headD_nil]
  · have few := short' reply member
    rw [length_tail]
    omega
  · have shrunk := batchSize_tail cutoff (Nat.le_refl 0) (by rw [whole, length_map])
    rwa [← accumulated.suspensions, map_map, length_map] at shrunk

end Accumulated

variable [DecidableEq T]
variable (outcome expected) in
/-- A round that asks for something: the continuations are called, then the rest follows. -/
theorem mapAccumulateBuilds_next {fuel : Nat} {lst : List γ}
    {resumed others : List (Reply S T R β) × List (BuildEvent T)}
    (asks : (accumulateLoop cutoff proc lst [] 0 trace).result.flatMap Reply.things ≠ [])
    (isResumed : mapAccumulateBuilds outcome expected cutoff fuel (Reply.resume outcome expected)
      (accumulateLoop cutoff proc lst [] 0 trace).result
      ((accumulateLoop cutoff proc lst [] 0 trace).trace ++
        [.built ((accumulateLoop cutoff proc lst [] 0 trace).result.flatMap Reply.things).eraseDups]) =
      some resumed) (isOthers : mapAccumulateBuilds outcome expected cutoff fuel proc
      (accumulateLoop cutoff proc lst [] 0 trace).rest resumed.2 = some others) :
    mapAccumulateBuilds outcome expected cutoff (fuel + 1) proc lst trace =
      some (resumed.1 ++ others.1, others.2) := by
  rw [mapAccumulateBuilds]
  dsimp only
  rw [if_neg asks]
  simp [isResumed, isOthers]

/-- All batches, with fuel for the elements and for the calls of each one. The rounds of a batch
are runs over its replies. -/
theorem mapAccumulateBuilds_finished (fuel n : Nat) (lst : List γ) (enough : lst.length + n + 2 ≤ fuel)
    (trace : List (BuildEvent T)) (before : BuiltBefore trace)
    (faithful : Faithful requests value outcome expected suspensions proc lst trace)
    (short : ∀ a ∈ lst, (suspensions a).length ≤ n) :
    ∃ replies after, mapAccumulateBuilds outcome expected cutoff fuel proc lst trace = some (replies, after) ∧
      Finished requests value (∀ batch ∈ batches cutoff (lst.map suspensions), Productive batch) lst trace
        replies after := by
  induction fuel generalizing γ n trace with
  | zero => omega
  | succ fuel ih =>
    obtain ⟨replies, isResult, isRest, longer, before', accumulated⟩ :=
      accumulateLoop_spec cutoff lst [] 0 trace before faithful
    rw [reverse_nil, nil_append] at isResult
    have whole := batchSize_take cutoff 0 (lst.map suspensions)
    have ofNone := batchSize_of_none cutoff 0 (lst.map suspensions)
    rw [productive_batches_iff]
    -- the size of the first batch
    generalize batchSize cutoff 0 (lst.map suspensions) = size at *
    rw [← map_take, length_map] at whole
    rw [← map_take, length_map] at ofNone
    rw [← map_take, ← map_drop]
    by_cases none : replies.flatMap Reply.things = []
    · -- a productive batch that asks for nothing is the whole list
      have finished := accumulated.last longer before' none
      have all : Productive ((lst.take size).map suspensions) → size = lst.length := by
        intro productive
        apply ofNone
        apply productive.none
        intro calls member
        obtain ⟨reply, isReply, rfl⟩ := (accumulated.mem_suspensions calls).mp member
        rw [← Reply.things_eq]
        exact flatMap_eq_nil_iff.mp none reply isReply
      refine ⟨replies, _, ?_, finished.longer, finished.builtBefore, ?_, ?_, ?_⟩
      · rw [mapAccumulateBuilds]
        rw [isResult, if_pos none]
      · intro productive
        rw [finished.values productive.1, all productive.1, take_length]
      · intro productive
        have requested := finished.requested productive.1
        rwa [all productive.1, take_length] at requested
      · intro unproductive
        refine finished.leaks fun productive => unproductive ⟨productive, ?_⟩
        rw [all productive, drop_length, map_nil, batches, dif_pos rfl]
        exact fun batch member => absurd member not_mem_nil
    · obtain ⟨some, shorter, whole'⟩ := accumulated.shrinks cutoff none
        (fun a member => short a (mem_of_mem_take member)) whole
      have count : replies.length = (lst.take size).length := by
        have values := congrArg length accumulated.value
        rwa [length_map, length_map] at values
      -- the batch has an element, so that the rest of the list is shorter
      have taken : 0 < replies.length := length_pos_of_ne_nil fun empty => none (by rw [empty, flatMap_nil])
      rw [length_take] at count
      let built := (accumulateLoop cutoff proc lst [] 0 trace).trace ++
        [.built (replies.flatMap Reply.things).eraseDups]
      have resumes : Faithful (Reply.requests outcome) (Reply.immediate outcome) outcome expected
          (fun reply => (reply.suspensions outcome expected).tail) (Reply.resume outcome expected) replies
          built :=
        fun reply member trace' longer before' => reply.resume_performs outcome expected trace' before'
          fun thing isThing => builtThings_mono longer (mem_built_of_reply member _ thing isThing)
      obtain ⟨resumed, middle, isResumed, finished⟩ := ih (n - 1) replies (by omega) built
        (builtBefore_built before' _) resumes shorter
      rw [productive_batches_whole cutoff (by rw [whole', length_map])] at finished
      have first := accumulated.next longer (prefix_append _ _) none finished
      obtain ⟨others, after, isOthers, second⟩ := ih n (lst.drop size) (by rw [length_drop]; omega) middle
        first.builtBefore
        (fun a member trace' longer' => faithful a (mem_of_mem_drop member) trace' (first.longer.trans longer'))
        (fun a member => short a (mem_of_mem_drop member))
      refine ⟨resumed ++ others, after, ?_, ?_⟩
      · exact mapAccumulateBuilds_next outcome expected cutoff (by rwa [isResult]) (by rwa [isResult])
          (by rwa [isRest])
      · have both := first.append second
        rwa [take_append_drop] at both

end Rounds

/-! ### The whole list -/

section Whole

variable {S T R β α : Type} [DecidableEq S] [DecidableEq T] (outcome : T → R) (expected : S) (cutoff : Nat)
  (proc : α → Procedure S T R β)

/-- With things already valid or not, the result is the list of values with immediate builds,
and everything is passed to the daemon before the call that asks for it returns, exactly when
every round of every batch asks for something. -/
theorem mapAccumulateBuilds_eq_map_iff (lst : List α) (valid : List T) :
    (∃ bound, ∀ fuel, bound ≤ fuel → ∃ after,
      mapAccumulateBuilds outcome expected cutoff fuel (fun a => (proc a).run outcome expected) lst
          [.built valid] =
        some (lst.map fun a => .value ((proc a).immediate outcome), after) ∧
      BuiltBefore after ∧ ∀ a ∈ lst, ∀ things ∈ (proc a).requests outcome, .returned things ∈ after) ↔
    ∀ batch ∈ batches cutoff (lst.map fun a => (proc a).suspensions outcome expected),
      Productive batch := by
  obtain ⟨n, short⟩ : ∃ n, ∀ a ∈ lst, ((proc a).suspensions outcome expected).length ≤ n :=
    ⟨_, fun a member => le_max?_getD_of_mem (k := 0)
      (mem_map_of_mem (f := fun a => ((proc a).suspensions outcome expected).length) member)⟩
  have empty : BuiltBefore ([] : List (BuildEvent T)) := by simp [BuiltBefore]
  have before : BuiltBefore [.built valid] := builtBefore_built empty valid
  have finishes := fun fuel enough => mapAccumulateBuilds_finished cutoff fuel n lst enough [.built valid] before
    (fun a _ trace' _ before' => (proc a).run_performs outcome expected trace' before') short
  constructor
  · rintro ⟨bound, returns⟩
    by_contra unproductive
    obtain ⟨replies, after, ran, finished⟩ := finishes (max bound (lst.length + n + 2)) (Nat.le_max_right _ _)
    obtain ⟨after', ran', _⟩ := returns (max bound (lst.length + n + 2)) (Nat.le_max_left _ _)
    cases ran.symm.trans ran'
    obtain ⟨things, continuation, leaked⟩ := finished.leaks unproductive
    simp at leaked
  · intro productive
    refine ⟨lst.length + n + 2, fun fuel enough => ?_⟩
    obtain ⟨replies, after, ran, finished⟩ := finishes fuel enough
    refine ⟨after, ?_, finished.builtBefore, finished.requested productive⟩
    rw [ran, finished.values productive]

end Whole

/-- Two elements that ask for nothing, with cutoff 0: the first one stays unresolved and the
second one is left out. -/
theorem mapAccumulateBuilds_leaks :
    ∃ continuation, ∀ fuel,
      mapAccumulateBuilds (fun thing : Nat => thing) () 0 (fuel + 1)
          (fun n : Nat => (buildThings () [] .normal fun _ => .done n).run (fun thing => thing) ())
          [0, 1] [] =
        some ([.unresolved [] continuation], []) :=
  ⟨fun _ => .done 0, fun _ => rfl⟩

end Guix.Client
