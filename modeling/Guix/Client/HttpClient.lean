import Mathlib.Data.List.Forall2

/-!
# Several requests in a row

`http-multiple-get` of `(guix http-client)` sends requests in batches, without waiting for
the responses. The server may close the connection after any response: what it has not
answered is sent again on a new connection. If it closes it with requests unread, the client
sees a reset, and this error is not among those that are handled.
-/

namespace Guix.Client.Http

open List Option

inductive GnutlsError
  | invalidSession
  | again
  | interrupted
  | other
  deriving DecidableEq

/-- The keys of exceptions, with the arguments that are looked at. -/
inductive Key
  | systemError (errno : Nat)
  | gnutlsError (error : GnutlsError)
  | badResponse
  | badHeader
  | badHeaderComponent
  | other
  deriving DecidableEq

def EPIPE : Nat := 32
def ECONNRESET : Nat := 104

/-- Why an expression has no value: the model has no value either if it waits for ever, or
after `fuel` connections. -/
inductive Failure
  | throws (key : Key)
  | waits
  | unfinished
  deriving DecidableEq

def isNetworkingError : Key → Bool
  | .systemError errno => errno == EPIPE
  | .gnutlsError error => [.invalidSession, .again, .interrupted].contains error
  | .badResponse | .badHeader | .badHeaderComponent => true
  | .other => false

def falseIfNetworkingError {α : Type} : Except Failure α → Except Failure (Option α)
  | .ok value => .ok (some value)
  | .error (.throws key) => if isNetworkingError key then .ok none else .error (.throws key)
  | .error failure => .error failure

theorem falseIfNetworkingError_other {α : Type} {key : Key} (other : ¬ isNetworkingError key = true) :
    falseIfNetworkingError (.error (.throws key) : Except Failure α) = .error (.throws key) :=
  if_neg other

structure Response (Body : Type) where
  /-- Whether there is a header `Connection: close`. -/
  connectionClose : Bool
  body : Body
  deriving DecidableEq

/-- What the server does on a connection: its answers, by their number and the request,
and how many of them it gives before it closes the connection. -/
structure Connection (Request Body : Type) where
  answer : Nat → Request → Response Body
  limit : Option Nat
  /-- What reading then raises: at the end of file there is no header to read, and a reset is a
  `system-error`. -/
  ending : Key
  /-- What writing raises, if it does, when so many answers have been read. What is written after
  the last request that is answered is lost in any case. -/
  broken : Nat → Option Key

/-- What reading and writing may raise. -/
def Connection.Raises (c : Connection Request Body) (key : Key) : Prop :=
  key = c.ending ∨ ∃ answered, c.broken answered = some key

/-- A port: the connection, how many answers have been read, and the requests written that
are not answered yet. -/
structure Port (Request Body : Type) where
  connection : Connection Request Body
  answered : Nat
  pending : List Request

variable {Request Body Result : Type}

def openConnection (connection : Connection Request Body) : Port Request Body where
  connection := connection
  answered := 0
  pending := []

/-- Nothing more is read from the connection. -/
def Port.Ended (p : Port Request Body) : Prop := p.connection.limit = some p.answered
  deriving Decidable

def Port.write (p : Port Request Body) (batch : List Request) :
    Except Failure Unit × Port Request Body :=
  (match p.connection.broken p.answered with
    | none => .ok ()
    | some key => if batch.isEmpty then .ok () else .error (.throws key),
    { p with pending := p.pending ++ batch })

def Port.readResponse (p : Port Request Body) : Except Failure (Response Body × Port Request Body) :=
  if p.Ended then .error (.throws p.connection.ending)
  else match p.pending with
    | [] => .error .waits
    | request :: pending =>
      .ok (p.connection.answer p.answered request, { p with answered := p.answered + 1, pending })

/-- The procedure `connect`, given what has been processed. -/
abbrev Connect (Request Body Result : Type) :=
  Option (Port Request Body) → List Request → List Result → Nat → Except Failure (List Result)

section Loop

variable (proc : Request → Response Body → List Result → List Result)

/-- The loop that processes the responses on `p`; `next` connections have been opened. -/
def loop (connect : Connect Request Body Result) (requests : List Request) (next : Nat) :
    List Request → Nat → Port Request Body → List Result → Except Failure (List Result)
  | [], processed, p, result =>
    match requests.drop processed with
    | [] => .ok result.reverse
    | remainder => connect (some p) remainder result next
  | head :: tail, processed, p, result => do
    match ← falseIfNetworkingError p.readResponse with
    | some (resp, p) =>
      let result := proc head resp result
      if resp.connectionClose then connect none (requests.drop (1 + processed)) result next
      else loop connect requests next tail (1 + processed) p result
    | none => connect none (requests.drop processed) result next

variable (connections : Nat → Connection Request Body) (batchSize : Nat)

def batch (requests : List Request) : List Request :=
  if batchSize ≥ requests.length then requests else requests.take batchSize

/-- The port to use, and how many connections have then been opened. -/
def portOrOpen (next : Nat) : Option (Port Request Body) → Port Request Body × Nat
  | some p => (p, next)
  | none => (openConnection (connections next), next + 1)

def connect : Nat → Connect Request Body Result
  | 0, _, _, _, _ => .error .unfinished
  | fuel + 1, port, requests, result, next => do
    let batch := batch batchSize requests
    let (p, next) := portOrOpen connections next port
    let _ ← falseIfNetworkingError (p.write batch).1
    loop proc (connect fuel) requests next batch 0 (p.write batch).2 result

/-- The connection number `k` that is opened is `connections k`. -/
def httpMultipleGet (fuel : Nat) (seed : List Result) (requests : List Request)
    (port : Option (Port Request Body)) : Except Failure (List Result) :=
  connect proc connections batchSize fuel port requests seed 0

end Loop

/-! ### Every request is answered once -/

/-- All of `requests` are processed in order, each with an answer to it that a connection
among `used` has given, and the value is the reverse of what `proc` makes of `result`. -/
def Completes (used : Connection Request Body → Prop)
    (proc : Request → Response Body → List Result → List Result) (requests : List Request)
    (result : List Result) (value : Except Failure (List Result)) : Prop :=
  ∃ responses : List (Response Body),
    Forall₂ (fun request resp => ∃ c, used c ∧ ∃ n, resp = c.answer n request) requests responses ∧
    value = .ok ((requests.zip responses).foldl (fun result call => proc call.1 call.2 result)
      result).reverse

section Proof

variable {used : Connection Request Body → Prop}
  {proc : Request → Response Body → List Result → List Result} {requests : List Request}
  {result : List Result} {value : Except Failure (List Result)}

theorem Completes.nil : Completes used proc [] result (.ok result.reverse) :=
  ⟨[], .nil, rfl⟩

theorem Completes.cons {request : Request} {c : Connection Request Body} (isUsed : used c) (n : Nat)
    (rest : Completes used proc requests (proc request (c.answer n request) result) value) :
    Completes used proc (request :: requests) result value := by
  obtain ⟨responses, answers, same⟩ := rest
  exact ⟨c.answer n request :: responses, .cons ⟨c, isUsed, n, rfl⟩ answers, same⟩

/-- The next answers on the port are those to `sent`, as far as there are any. -/
structure Port.Ready (used : Connection Request Body → Prop) (p : Port Request Body)
    (sent : List Request) : Prop where
  isUsed : used p.connection
  pending : p.Ended ∨ p.pending = sent

variable {connections : Nat → Connection Request Body} {batchSize bound : Nat}

theorem Port.Ready.write {p : Port Request Body} (ready : p.Ready used []) (batch : List Request) :
    (p.write batch).2.Ready used batch where
  isUsed := ready.isUsed
  pending := ready.pending.imp_right fun empty => by simp [Port.write, empty]

theorem batch_spec (positive : 0 < batchSize) (requests : List Request) :
    batch batchSize requests <+: requests ∧ (requests ≠ [] → 0 < (batch batchSize requests).length) := by
  rw [batch]
  split
  · exact ⟨prefix_rfl, length_pos_iff.mpr⟩
  · exact ⟨ take_prefix _ _, fun _ => by rw [length_take]; omega⟩

variable (handled : ∀ c, used c → ∀ key, c.Raises key → isNetworkingError key = true)
include handled

theorem falseIfNetworkingError_readResponse {p : Port Request Body} {head : Request}
    {tail : List Request} (ready : p.Ready used (head :: tail)) :
    (p.Ended ∧ falseIfNetworkingError p.readResponse = .ok none) ∨
    ∃ n p', p'.Ready used tail ∧
      falseIfNetworkingError p.readResponse = .ok (some (p.connection.answer n head, p')) := by
  by_cases ended : p.Ended
  · refine .inl ⟨ended, ?_⟩
    simp [Port.readResponse, ended, falseIfNetworkingError, handled _ ready.isUsed _ (.inl rfl)]
  · have pending := ready.pending.resolve_left ended
    refine .inr ⟨p.answered, { p with answered := p.answered + 1, pending := tail },
      ⟨ready.isUsed, .inr rfl⟩, ?_⟩
    simp [Port.readResponse, ended, pending, falseIfNetworkingError]

/-- The loop over a batch. It connects again with less to do, except if there was not even
one answer: then `idle` says what is gained. -/
theorem loop_completes {connect : Connect Request Body Result} {next total : Nat} {idle : Prop}
    (again : ∀ k result, (requests.drop k).length < requests.length ∨ idle →
      Completes used proc (requests.drop k) result (connect none (requests.drop k) result next))
    (further : ∀ p result, p.Ready used [] → requests.drop total ≠ [] →
      Completes used proc (requests.drop total) result
        (connect (some p) (requests.drop total) result next))
    (sent : List Request) (processed : Nat) (p : Port Request Body) (result : List Result)
    (isTotal : processed + sent.length = total) (isSent : sent <+: requests.drop processed)
    (ready : p.Ready used sent)
    (isIdle : p.Ended → (requests.drop processed).length < requests.length ∨ idle) :
    Completes used proc (requests.drop processed) result
      (loop proc connect requests next sent processed p result) := by
  induction sent generalizing processed p result with
  | nil =>
    obtain rfl : processed = total := isTotal
    rw [loop]
    split
    · next none => rw [none]; exact .nil
    · next some => exact further p result ready some
  | cons head tail ih =>
    obtain ⟨rest, isRest⟩ := isSent
    have dropped : requests.drop (1 + processed) = tail ++ rest := by
      rw [Nat.add_comm, ← tail_drop, ← isRest]
      rfl
    have fewer : (requests.drop (1 + processed)).length < requests.length := by
      have := congrArg length isRest
      simp only [cons_append, length_cons, length_drop] at this ⊢
      omega
    rw [loop]
    rcases falseIfNetworkingError_readResponse handled ready with ⟨ended, read⟩ | ⟨n, p', ready', read⟩
    · -- what is not processed is sent again
      rw [read]
      exact again processed result (isIdle ended)
    · rw [read, ← isRest]
      refine .cons ready.isUsed n ?_
      change Completes used proc (tail ++ rest) _ (if _ then _ else _)
      rw [← dropped]
      split
      · exact again _ _ (.inl fewer)
      · exact ih _ p' _ (by simp only [length_cons] at isTotal; omega) ⟨rest, dropped.symm⟩ ready'
          fun _ => .inl fewer

/-- How many connections are needed at most: two for each request left, one for each of the
first `bound` that may not answer, and one more for a port that may have ended. -/
def needed (bound : Nat) (port : Option (Port Request Body)) (requests : List Request)
    (next : Nat) : Nat :=
  2 * requests.length + (bound - next) + port.isSome.toNat

theorem falseIfNetworkingError_write {p : Port Request Body} (isUsed : used p.connection) (batch : List Request) :
    ∃ written, falseIfNetworkingError (p.write batch).1 = .ok written := by
  simp only [Port.write]
  cases isBroken : p.connection.broken p.answered with
  | none => exact ⟨some (), rfl⟩
  | some key =>
    dsimp only
    split
    · exact ⟨some (), rfl⟩
    · exact ⟨none, by simp [falseIfNetworkingError, handled _ isUsed key (.inr ⟨_, isBroken⟩)]⟩

theorem connect_completes (positive : 0 < batchSize) (opened : ∀ k, used (connections k))
    (answering : ∀ k, (connections k).limit = some 0 → k < bound) (fuel : Nat)
    (port : Option (Port Request Body)) (requests : List Request) (result : List Result) (next : Nat)
    (ready : ∀ p ∈ port, p.Ready used []) (enough : needed bound port requests next < fuel) :
    Completes used proc requests result
      (connect proc connections batchSize fuel port requests result next) := by
  induction fuel generalizing port requests result next with
  | zero => exact absurd enough (Nat.not_lt_zero _)
  | succ fuel ih =>
    simp only [needed] at ih enough
    rw [connect]
    have sent := batch_spec positive requests
    generalize batch batchSize requests = batch at sent
    -- a new connection that ends without an answer is one of the first
    have started : (portOrOpen connections next port).1.Ready used [] ∧
        next ≤ (portOrOpen connections next port).2 ∧
        ((portOrOpen connections next port).1.Ended →
          bound - (portOrOpen connections next port).2 < bound - next + port.isSome.toNat) := by
      cases port with
      | some p => exact ⟨ready p rfl, Nat.le_refl _, fun _ => Nat.lt_succ_self _⟩
      | none =>
        refine ⟨⟨opened next, .inr rfl⟩, Nat.le_succ _, fun ended => ?_⟩
        have := answering next ended
        simp only [portOrOpen, isSome_none, Bool.toNat_false]
        omega
    generalize portOrOpen connections next port = start at started
    obtain ⟨p, next'⟩ := start
    obtain ⟨fresh, counted, gained⟩ := started
    obtain ⟨written, ok⟩ := falseIfNetworkingError_write handled fresh.isUsed batch
    simp only [ok]
    refine loop_completes handled (fun k result progress => ?_) (fun p result ready some => ?_) batch 0 _
      result (Nat.zero_add _) sent.1 (fresh.write batch) fun ended : p.Ended => .inr ended
    · refine ih none _ _ _ (by simp) ?_
      simp only [length_drop, isSome_none, Bool.toNat_false] at progress ⊢
      rcases progress with fewer | ended
      · omega
      · have := gained ended
        omega
    · refine ih _ _ _ _ (by simpa using ready) ?_
      have := sent.2 (by rintro rfl; exact some (by simp))
      have := sent.1.length_le
      simp only [length_drop, isSome_some, Bool.toNat_true]
      omega

end Proof

/-- A server that answers one request on each connection and closes it with the others unread. -/
def hastyServer (ending : Key) (_ : Nat) : Connection Nat Nat where
  answer _ request := { connectionClose := false, body := 10 * request }
  limit := some 1
  ending := ending
  broken _ := none

def collect (request : Nat) (resp : Response Nat) (result : List (Nat × Nat)) : List (Nat × Nat) :=
  (request, resp.body) :: result

theorem hastyServer_throws {ending : Key} (other : ¬ isNetworkingError ending = true) (fuel : Nat) :
    httpMultipleGet collect (hastyServer ending) 2 (fuel + 1) [] [1, 2] none = .error (.throws ending) := by
  change (falseIfNetworkingError (.error (.throws ending)) >>= _) = _
  rw [falseIfNetworkingError_other other]
  rfl

/-- A server that refuses the first connection, and then answers one request on each. -/
def flakyServer (k : Nat) : Connection Nat Nat where
  answer _ request := { connectionClose := k == 1, body := 10 * request }
  limit := some (min k 1)
  ending := .badHeader
  broken _ := if k = 0 then some (.systemError EPIPE) else none

example : httpMultipleGet collect flakyServer 2 6 [] [1, 2, 3] none = .ok [(1, 10), (2, 20), (3, 30)] := by
  decide

end Guix.Client.Http
