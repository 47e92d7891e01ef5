import Guix.Lib.MemoFold

/-!
# Services

`fold-services` of `(gnu services)`. Service types and services are compared by identity: `T`
are the service types and `S` the services, whose records `types` and `service` give. The values
of services are of any type `V`.
-/

namespace Guix.System

structure ServiceExtension (T V : Type) where
  target : T
  compute : V → V

structure ServiceType (T V : Type) where
  extensions : List (ServiceExtension T V)
  compose : Option (List V → V) := none
  extend : Option (V → V → V) := none

structure Service (T V : Type) where
  kind : T
  value : V
  deriving DecidableEq

inductive ServiceError (S T : Type)
  /-- `&missing-target-service-error`; without a service it is the target of the fold. -/
  | missingTarget (service : Option S) (targetType : T)
  /-- `&ambiguous-target-service-error`. -/
  | ambiguousTarget (service : Option S) (targetType : T)
  /-- The procedure `compose` is `#f`. -/
  | wrongTypeToApply
  /-- No pattern matches the extension `#f`. -/
  | noMatch
  | outOfFuel
  deriving DecidableEq

section Services

variable {S T V : Type} (types : T → ServiceType T V) (service : S → Service T V)

variable [DecidableEq S] [DecidableEq T]

/-- The services of a type. -/
def instancesOf (services : List S) (type : T) : List S :=
  services.filter fun s => (service s).kind = type

/-! ### Back edges -/

/-- `add-edge`; the latest edge comes first. -/
def addEdge (services : List S) (source : S) (edges : List (S × S)) (extension : ServiceExtension T V) :
    Except (ServiceError S T) (List (S × S)) :=
  match instancesOf service services extension.target with
  | [target] => .ok ((target, source) :: edges)
  | [] => .error (.missingTarget (some source) extension.target)
  | _ => .error (.ambiguousTarget (some source) extension.target)

/-- `add-edges`. -/
def addEdges (services : List S) (edges : List (S × S)) (source : S) :
    Except (ServiceError S T) (List (S × S)) :=
  (types (service source).kind).extensions.foldlM (addEdge service services source) edges

/-- The procedure that `service-back-edges` returns: `vhash-foldq*` conses the sources from the
latest on. -/
def dependentsIn (edges : List (S × S)) (node : S) : List S :=
  ((edges.filter fun edge => edge.1 = node).foldl (fun result edge => edge.2 :: result) []).reverse

def serviceBackEdges (services : List S) : Except (ServiceError S T) (S → List S) := do
  let edges ← services.foldlM (addEdges types service services) []
  return dependentsIn edges

/-! ### Folding -/

/-- The first extension of a type that has the target. -/
def findExtension (type target : T) : Option (ServiceExtension T V) :=
  (types type).extensions.find? fun extension => extension.target = target

/-- `apply-extension`. -/
def applyExtension (target : S) (dependent : Service T V) : Except (ServiceError S T) V :=
  match findExtension types dependent.kind (service target).kind with
  | some extension => .ok (extension.compute dependent.value)
  | none => .error .noMatch

/-- A service with the extensions of its dependents, which are folded already. -/
def foldService (sink : S) (dependents : List (Service T V)) :
    Except (ServiceError S T) (Service T V) := do
  let extensions ← dependents.mapM (applyExtension types service sink)
  match (types (service sink).kind).extend, (types (service sink).kind).compose with
  | some extend, some compose =>
    return ⟨(service sink).kind, extend (service sink).value (compose extensions)⟩
  | some _, none => throw .wrongTypeToApply
  | none, _ => return service sink

/-- `run-with-state`: the value and the state. -/
def runWithState {ε σ α : Type} (program : EStateM ε σ α) (state : σ) : Except ε (α × σ) :=
  match program state with
  | .ok value state => .ok (value, state)
  | .error e _ => .error e

/-- The root service and the table of the services that have been folded. -/
def foldServices (services : List S) (targetType : T) :
    Except (ServiceError S T) (Service T V × List (S × Service T V)) := do
  let dependents ← serviceBackEdges types service services
  match instancesOf service services targetType with
  | [sink] =>
    runWithState (MemoFold.visit dependents (foldService types service) .outOfFuel (services.length + 1) sink) []
  | [] => throw (.missingTarget none targetType)
  | _ => throw (.ambiguousTarget none targetType)

end Services

end Guix.System
