import Guix.Client.Derivations
import Guix.Lib.Hoare
import Guix.Lib.Worklist

/-!
# Grafts

`cumulative-grafts` and `graft-derivation` of `(guix grafts)`. The derivations of a graph
are given with their inputs and outputs, the store with the references of its items.
-/

namespace Guix.Client

open Worklist MonadExcept

inductive GraftError
  /-- `&derivation-missing-output-error`. -/
  | missingOutput (output : Str)
  /-- `string=?` of the output `#f`. -/
  | wrongType
  /-- No pattern matches the list of grafts. -/
  | noMatch
  | outOfFuel
  deriving DecidableEq

/-- The derivations `D` and the items of the store. A `.drv` file holds one derivation, and
references have no cycle apart from self-references: items have a rank. -/
structure DerivationGraph (D : Type) where
  derivations : List D
  complete : ∀ drv, drv ∈ derivations
  inputs : D → List D
  fileName : D → Str
  fileName_injective : ∀ drv drv', fileName drv = fileName drv' → drv = drv'
  outputPaths : D → List (Str × Str)
  outputNames_nodup : ∀ drv, ((outputPaths drv).map (·.1)).Nodup
  references : Str → List Str
  rank : Str → Nat
  references_rank : ∀ item, ∀ r ∈ references item, r ≠ item → rank r < rank item

inductive GraftOrigin (D : Type)
  | derivation (drv : D)
  | item (path : Str)
  deriving DecidableEq

/-- `N` are the derivations that `graft-derivation/shallow` returns. -/
inductive Replacement (D N : Type)
  | derivation (drv : D)
  | grafted (new : N)
  | item (path : Str)
  | monadic
  deriving DecidableEq

structure Graft (D N : Type) where
  origin : GraftOrigin D
  originOutput : Option Str
  replacement : Replacement D N
  replacementOutput : Option Str
  deriving DecidableEq

/-- `graft-derivation/shallow`, given the derivation, the grafts and the outputs. -/
abbrev Shallow (D N : Type) := D → List (Graft D N) → List Str → N

section Origins

variable {D : Type} [DecidableEq D] (graph : DerivationGraph D)

/-- `derivation->output-path`. -/
def derivationOutputPath (drv : D) (output : Str) : Except GraftError Str :=
  match (graph.outputPaths drv).lookup output with
  | some path => .ok path
  | none => .error (.missingOutput output)

/-- The items are built when they are not in the store yet. -/
def nonSelfReferences (drv : D) (outputs : List Str) : Except GraftError (List Str) := do
  let self ← outputs.mapM (derivationOutputPath graph drv)
  return (self.flatMap graph.references).filter (· ∉ self)

/-- The step of the `fold2` of `lookup-derivers`. -/
def lookupDeriver (drv : D) (found : List (D × Str) × List Str) (output : Str × Str) :
    List (D × Str) × List Str :=
  if output.2 ∈ found.2 then ((drv, output.1) :: found.1, found.2.filter (· ≠ output.2)) else found

/-- `lookup-derivers`. -/
def lookupDerivers (drv : D) (result : List (D × Str)) (items : List Str) : List (D × Str) × List Str :=
  (graph.outputPaths drv).foldl (lookupDeriver drv) (result, items)

def originsLoop : Nat → List D → List Str → List (D × Str) → List D → Option (List (D × Str))
  | 0, _, _, _, _ => none
  | _ + 1, [], _, result, _ => some result
  | fuel + 1, drv :: rest, items, result, visited =>
    if items = [] then some result
    else if drv ∈ visited then originsLoop fuel rest items result visited
    else
      let (result, items) := lookupDerivers graph drv result items
      originsLoop fuel (rest ++ graph.inputs drv) items result (drv :: visited)

theorem originsLoop_returns (fuel : Nat) (queue : List D) (items : List Str) (result : List (D × Str))
    (visited : List D)
    (enough : queue.length + edgesLeft graph.inputs graph.derivations visited < fuel) :
    (originsLoop graph fuel queue items result visited).isSome := by
  induction fuel generalizing queue items result visited with
  | zero => omega
  | succ fuel ih =>
    cases queue with
    | nil => rfl
    | cons drv rest =>
      rw [originsLoop]
      rw [List.length_cons] at enough
      split
      next => rfl
      next =>
        split
        next => exact ih _ _ _ _ (by omega)
        next unseen =>
          have fewer := edgesLeft_visit graph.inputs
            (graph.complete drv) unseen
          apply ih
          rw [List.length_append]
          omega

def originsFuel : Nat := edges graph.inputs graph.derivations + 2

theorem originsLoop_of_fuel (drv : D) (items : List Str) :
    (originsLoop graph (originsFuel graph) [drv] items [] []).isSome := by
  apply originsLoop_returns
  have := edgesLeft_le_edges graph.inputs graph.derivations []
  rw [originsFuel, List.length_singleton]
  omega

def referenceOrigins (drv : D) (items : List Str) : List (D × Str) :=
  (originsLoop graph (originsFuel graph) [drv] items [] []).get (originsLoop_of_fuel graph drv items)

end Origins

section Grafts

variable {D N : Type} [DecidableEq D] (graph : DerivationGraph D)

def graftOriginFileName (graft : Graft D N) : Except GraftError Str :=
  match graft.origin, graft.originOutput with
  | .derivation origin, some output => derivationOutputPath graph origin output
  | .derivation _, none => .error .wrongType
  | .item path, _ => .ok path

/-- `graft-origin?`. -/
def isGraftOrigin (drv : D) (output : Str) (graft : Graft D N) : Except GraftError Bool :=
  match graft.origin, graft.originOutput with
  | .derivation origin, some originOutput =>
    if originOutput = output then
      match (graph.outputPaths drv).lookup output with
      | some result => do return result = (← derivationOutputPath graph origin output)
      | none => .ok false
    else .ok false
  | .derivation _, none => .error .wrongType
  | .item _, _ => .ok false

/-- `find`, which stops at the first graft that matches. -/
def findGraftOrigin (drv : D) (output : Str) : List (Graft D N) → Except GraftError Bool
  | [] => .ok false
  | graft :: grafts => do
    if ← isGraftOrigin graph drv output graft then return true
    else findGraftOrigin drv output grafts

/-- The grafts whose origin is among the dependencies. -/
def applicableGrafts (deps : List Str) : List (Graft D N) → Except GraftError (List (Graft D N))
  | [] => .ok []
  | graft :: grafts => do
    let origin ← graftOriginFileName graph graft
    let rest ← applicableGrafts deps grafts
    return if origin ∈ deps then graft :: rest else rest

abbrev GraftCache (D N : Type) := List ((Str × List Str × List (Graft D N)) × List (Graft D N))

abbrev GraftM (D N : Type) := EStateM GraftError (GraftCache D N)

variable [DecidableEq N]

def withCache (key : Str × List Str × List (Graft D N)) (compute : GraftM D N (List (Graft D N))) :
    GraftM D N (List (Graft D N)) := do
  match (← get).lookup key with
  | some result => return result
  | none =>
    let result ← compute
    modify ((key, result) :: ·)
    return result

/-- The grafts of the outputs of `drv` to those of `new`. -/
def outputGrafts (drv : D) (new : N) (outputs : List Str) : List (Graft D N) :=
  outputs.map fun output => ⟨.derivation drv, some output, .grafted new, some output⟩

def cumulativeGrafts (shallow : Shallow D N) (grafts : List (Graft D N)) :
    Nat → D → List Str → GraftM D N (List (Graft D N))
  | 0, _, _ => throw .outOfFuel
  | fuel + 1, drv, outputs =>
    withCache (graph.fileName drv, outputs, grafts) do
      let deps ← ofExcept (nonSelfReferences graph drv outputs)
      if deps = [] then return grafts
      else
        let found ← (referenceOrigins graph drv deps).mapM fun (drv, output) => do
          if ← ofExcept (findGraftOrigin graph drv output grafts) then return grafts
          else cumulativeGrafts shallow grafts fuel drv [output]
        let merged := found.flatten.eraseDups
        let applicable ← ofExcept (applicableGrafts graph deps merged)
        if applicable = [] then return merged
        else return outputGrafts drv (shallow drv applicable outputs) outputs ++ merged

/-- More than the ranks of all outputs. -/
def graftFuel (drv : D) : Nat := ((graph.outputPaths drv).map fun output => graph.rank output.2).sum + 1

/-- The cache is saved when the list of grafts is there. -/
def graftDerivation (shallow : Shallow D N) (drv : D)
    (grafts : List (Graft D N)) (outputs : List Str) : GraftM D N (Replacement D N) := fun cache =>
  match cumulativeGrafts graph shallow grafts (graftFuel graph drv) drv outputs cache with
  | .error e _ => .error e cache
  | .ok [] cache => .error .noMatch cache
  | .ok (first :: _) cache =>
    -- another first graft means that the grafts are not applicable
    .ok (if first.origin = .derivation drv then first.replacement else .derivation drv) cache

end Grafts

end Guix.Client
