import Mathlib.Data.List.Basic

/-!
# Accumulated builds

`build-accumulator` and `map/accumulate-builds` of `(guix store)`. A procedure that calls
`build-things` is a tree: it returns a value, or it asks for things and goes on with what
they turned out to be. The events of a run are the calls that reach the daemon and the
calls that return to the procedure.
-/

namespace Guix.Client

inductive BuildMode
  | normal
  | repair
  | check
  deriving DecidableEq

/-- A procedure on connections `S`, things `T` and what they build `R`. What is not built yet
cannot be read. -/
inductive Procedure (S T R β : Type)
  | done (value : β)
  | buildThings (socket : S) (things : List T) (mode : BuildMode)
      (next : List (Option R) → Procedure S T R β)

/-- What the call of a procedure under the accumulator gives: a value, or an `<unresolved>`
object. -/
inductive Reply (S T R β : Type)
  | value (value : β)
  | unresolved (things : List T) (continuation : List (Option R) → Procedure S T R β)

inductive BuildEvent (T : Type)
  | built (things : List T)
  | returned (things : List T)

def BuildEvent.things {T : Type} : BuildEvent T → List T
  | .built things => things
  | .returned _ => []

def builtThings {T : Type} (trace : List (BuildEvent T)) : List T := trace.flatMap BuildEvent.things

section Accumulate

variable {S T R β : Type} [DecidableEq S] [DecidableEq T] (outcome : T → R) (expected : S)

def readThing (trace : List (BuildEvent T)) (thing : T) : Option R :=
  if thing ∈ builtThings trace then some (outcome thing) else none

/-- `with-build-handler` with `(build-accumulator expected)`. -/
def Procedure.run : Procedure S T R β → List (BuildEvent T) → Reply S T R β × List (BuildEvent T)
  | .done value, trace => (.value value, trace)
  | .buildThings socket things mode next, trace =>
    if socket = expected ∧ mode = .normal then (.unresolved things next, trace)
    else
      -- `(continue #t)`: the call goes to the daemon and returns
      (next (things.map (readThing outcome (trace ++ [.built things])))).run
        (trace ++ [.built things] ++ [.returned things])

/-- The continuation of an `<unresolved>` object is called with `#f`: its `build-things`
returns without a build. -/
def Reply.resume : Reply S T R β → List (BuildEvent T) → Reply S T R β × List (BuildEvent T)
  | .value v, trace => (.value v, trace)
  | .unresolved things continuation, trace =>
    (continuation (things.map (readThing outcome trace))).run outcome expected (trace ++ [.returned things])

def Reply.things : Reply S T R β → List T
  | .value _ => []
  | .unresolved things _ => things

/-- What the first loop leaves. -/
structure Round (S T R β γ : Type) where
  result : List (Reply S T R β)
  rest : List γ
  trace : List (BuildEvent T)

section Loop

variable {γ : Type} (cutoff : Nat) (proc : γ → List (BuildEvent T) → Reply S T R β × List (BuildEvent T))

def accumulateLoop : List γ → List (Reply S T R β) → Nat → List (BuildEvent T) → Round S T R β γ
  | [], result, _, trace => ⟨result.reverse, [], trace⟩
  | head :: tail, result, unresolved, trace =>
    match (proc head trace).1 with
    | .unresolved things continuation =>
      if cutoff ≤ unresolved then
        ⟨(.unresolved things continuation :: result).reverse, tail, (proc head trace).2⟩
      else
        accumulateLoop tail (.unresolved things continuation :: result) (unresolved + 1)
          (proc head trace).2
    | .value value => accumulateLoop tail (.value value :: result) unresolved (proc head trace).2

end Loop

/-- `map/accumulate-builds`, `none` when there is no fuel left. -/
def mapAccumulateBuilds (cutoff : Nat) : Nat → {γ : Type} →
    (γ → List (BuildEvent T) → Reply S T R β × List (BuildEvent T)) → List γ → List (BuildEvent T) →
    Option (List (Reply S T R β) × List (BuildEvent T))
  | 0, _, _, _, _ => none
  | fuel + 1, _, proc, lst, trace =>
    let round := accumulateLoop cutoff proc lst [] 0 trace
    let toBuild := round.result.flatMap Reply.things
    if toBuild = [] then some (round.result, round.trace)
    else do
      let trace := round.trace ++ [.built toBuild.eraseDups]
      let resumed ← mapAccumulateBuilds cutoff fuel (Reply.resume outcome expected) round.result trace
      let others ← mapAccumulateBuilds cutoff fuel proc round.rest resumed.2
      return (resumed.1 ++ others.1, others.2)

end Accumulate

end Guix.Client
