import Guix.Client.Store
import Guix.Lib.SortBy

/-!
# The `derivation` procedure

`derivation` of `(guix derivations)` with what it calls: the coalescing of inputs, the hash
of a derivation modulo its fixed-output inputs, and the output paths. What it sends to the
daemon is the text of the derivation; the file name is what the daemon answers.
-/

namespace Guix.Client

open Sorting (sortBy)

/-- A derivation with the name of its file. -/
inductive Derivation
  | mk (fields : Fields Derivation) (fileName : Str)

namespace Derivation

def fields : Derivation → Fields Derivation
  | mk fields _ => fields

def fileName : Derivation → Str
  | mk _ fileName => fileName

end Derivation

abbrev Input := DerivationInput Derivation

/-- `string-join`. -/
def stringJoin (delimiter : Str) : List Str → Str
  | [] => []
  | [s] => s
  | s :: rest => s ++ delimiter ++ stringJoin delimiter rest

/-! ### The hash -/

section Hash

variable (sha256 : Sha256)

/-- What is hashed for a fixed-output derivation. -/
def fixedText {ι : Type} (drv : Fields ι) : Option Str :=
  match drv.outputs with
  | [(_, ⟨path, some hashAlgo, some hash, recursive⟩)] =>
    some (str "fixed:out:" ++ (if recursive then str "r:" else []) ++ hashAlgo ++ str ":"
      ++ base16String hash ++ str ":" ++ path)
  | _ => none

/-- The last step of `derivation/masked-inputs`, given the inputs with their hashes. -/
def withMaskedInputs {ι : Type} (drv : Fields ι) (inputs : List (DerivationInput Str)) : Fields Str :=
  { drv with inputs := sortBy (·.drv) inputs.eraseDups }

theorem sizeOf_input_lt {drv : Fields Derivation} {input : Input} (isInput : input ∈ drv.inputs) :
    sizeOf input.drv.fields < sizeOf drv := by
  have inList := List.sizeOf_lt_of_mem isInput
  have inFields : sizeOf drv.inputs < sizeOf drv := by
    cases drv
    simp only [Fields.mk.sizeOf_spec]
    omega
  have inInput : sizeOf input.drv.fields < sizeOf input := by
    cases input with
    | mk inputDrv _ =>
      cases inputDrv
      simp only [DerivationInput.mk.sizeOf_spec, Derivation.mk.sizeOf_spec, Derivation.fields]
      omega
  omega

/-- `derivation-hash`; the hash of an input is printed in base 16. -/
def derivationHash (drv : Fields Derivation) : Bytes :=
  match fixedText drv with
  | some text => sha256Bytes sha256 (encode text)
  | none => sha256Bytes sha256 (derivationBytevector id (withMaskedInputs drv
      (drv.inputs.attach.map fun input =>
        ⟨base16String (derivationHash input.1.drv.fields), input.1.subDerivations⟩)))
termination_by sizeOf drv
decreasing_by exact sizeOf_input_lt input.2

/-- `derivation/masked-inputs`. -/
def maskedInputs (drv : Fields Derivation) : Fields Str :=
  withMaskedInputs drv (drv.inputs.map fun input =>
    ⟨base16String (derivationHash sha256 input.drv.fields), input.subDerivations⟩)

/-- What `derivation-hash` hashes. -/
def hashedText (drv : Fields Derivation) : Bytes :=
  match fixedText drv with
  | some text => encode text
  | none => derivationBytevector id (maskedInputs sha256 drv)

theorem derivationHash_eq (drv : Fields Derivation) :
    derivationHash sha256 drv = sha256Bytes sha256 (hashedText sha256 drv) := by
  rw [derivationHash, hashedText]
  cases fixedText drv with
  | some text => rfl
  | none =>
    simp only [maskedInputs, List.attach_map_val (f := fun input : Input => (⟨base16String
      (derivationHash sha256 input.drv.fields), input.subDerivations⟩ : DerivationInput Str))]

end Hash

/-! ### Inputs -/

/-- What an element of `inputs` may be: an input, or in the deprecated convention a list that
starts with a derivation or with a file name. -/
inductive InputArg
  | input (input : Input)
  | derivation (drv : Derivation) (subDerivations : List Str)
  | file (name : Str)

/-- `input->derivation-input`. -/
def InputArg.toInput : InputArg → Option Input
  | .input given => some given
  | .derivation drv [] => some ⟨drv, [str "out"]⟩
  | .derivation drv subDerivations => some ⟨drv, subDerivations⟩
  | .file _ => none

def directStorePath (storePrefix path : Str) : Bool :=
  storePrefix.isPrefixOf path && path ≠ storePrefix && !(path.drop (storePrefix.length + 1)).contains '/'

/-- `input->source`; `addToStore` is what the daemon answers for a file. -/
def InputArg.toSource (storePrefix : Str) (addToStore : Str → Str) : InputArg → Option Str
  | .file name => some (if directStorePath storePrefix name then name else addToStore name)
  | _ => none

/-- The key of an input in the table of `coalesce-duplicate-inputs`. -/
def coalesceKey (input : Input) : Str :=
  stringJoin (str " ") (input.drv.fields.outputs.map fun output => output.2.path)

/-- One step of the loop of `coalesce-duplicate-inputs`. The table is in the order in which
its keys were added. -/
def coalesceStep (table : List (Str × Input)) (input : Input) : List (Str × Input) :=
  let key := coalesceKey input
  match table.find? fun entry => entry.1 = key with
  | none => table ++ [(key, input)]
  | some (_, ⟨drv, subDrvs2⟩) =>
    let merged := sortBy id (input.subDerivations ++ subDrvs2).eraseDups
    table.map fun entry => if entry.1 = key then (key, ⟨drv, merged⟩) else entry

/-- `hash-fold` conses the values of a table in some order. -/
abbrev HashFold := { fold : List Input → List Input // ∀ values, (fold values).Perm values }

def coalesceDuplicateInputs (hashFold : HashFold) (inputs : List Input) : List Input :=
  hashFold.1 ((inputs.foldl coalesceStep []).map (·.2))

/-! ### The procedure -/

structure DerivationArgs where
  name : Str
  builder : Str
  args : List Str
  system : Str
  envVars : List (Str × Str) := []
  inputs : List InputArg := []
  sources : List Str := []
  outputs : List Str := [str "out"]
  hash : Option Bytes := none
  hashAlgo : Option Str := none
  recursive : Bool := false
  referencesGraphs : Option (List (Str × Str)) := none
  allowedReferences : Option (List Str) := none
  disallowedReferences : Option (List Str) := none
  leakedEnvVars : Option (List Str) := none
  localBuild : Bool := false
  substitutable : Bool := true
  /-- The text of the properties, unless there are none. -/
  properties : Option Str := none

/-- A variable for an option that is given. -/
def optionVar (name : String) (value : Option Str) : List (Str × Str) :=
  match value with
  | some value => [(str name, value)]
  | none => []

def userSystemEnvVars (a : DerivationArgs) : List (Str × Str) :=
  let envVars :=
    optionVar "preferLocalBuild" (if a.localBuild then some (str "1") else none)
      ++ optionVar "allowSubstitutes" (if !a.substitutable then some (str "0") else none)
      ++ optionVar "allowedReferences" (a.allowedReferences.map (stringJoin (str " ")))
      ++ optionVar "disallowedReferences" (a.disallowedReferences.map (stringJoin (str " ")))
      ++ optionVar "impureEnvVars" (a.leakedEnvVars.map (stringJoin (str " ")))
      ++ optionVar "guix properties" a.properties
      ++ a.envVars
  optionVar "exportReferencesGraph" (a.referencesGraphs.map fun graphs =>
      stringJoin (str " ") (graphs.map fun graph => graph.1 ++ str " " ++ graph.2))
    ++ envVars

/-- The step of the `fold` of `env-vars-with-empty-outputs`. -/
def addEmptyOutput (envVars : List (Str × Str)) (outputName : Str) : List (Str × Str) :=
  if outputName ∈ envVars.map (·.1) then envVars else envVars ++ [(outputName, [])]

def envVarsWithEmptyOutputs (outputs : List Str) (envVars : List (Str × Str)) : List (Str × Str) :=
  let e := envVars.map fun var => if var.1 ∈ outputs then (var.1, []) else var
  outputs.foldl addEmptyOutput e

section Derivation

variable (sha256 : Sha256) (storePrefix : Str) (addToStore : Str → Str) (hashFold : HashFold)

/-- `drv-masked`: the outputs have no path yet. -/
def maskedDerivation (a : DerivationArgs) : Fields Derivation where
  outputs := (sortBy id a.outputs).map fun name => (name, ⟨[], a.hashAlgo, a.hash, a.recursive⟩)
  sources := sortBy id
    (a.inputs.filterMap (InputArg.toSource storePrefix addToStore) ++ a.sources).eraseDups
  inputs := sortBy (·.drv.fileName) (coalesceDuplicateInputs hashFold (a.inputs.filterMap InputArg.toInput))
  system := a.system
  builder := a.builder
  args := a.args
  envVars := sortBy (·.1) (envVarsWithEmptyOutputs a.outputs (userSystemEnvVars a))

/-- The path of an output in `add-output-paths`. -/
def pathOfOutput (name : Str) (drvHash : Bytes) (outputName : Str) (output : DerivationOutput) : Str :=
  match output.hash with
  | some hash => fixedOutputPath sha256 storePrefix name hash outputName (output.hashAlgo.getD [])
      output.recursive
  | none => outputPath sha256 storePrefix outputName drvHash name

/-- The outputs and the environment variables with the paths. -/
def withOutputPaths (name : Str) (drv : Fields Derivation) : Fields Derivation :=
  let drvHash := derivationHash sha256 drv
  let outputs := drv.outputs.map fun output =>
    (output.1, { output.2 with path := pathOfOutput sha256 storePrefix name drvHash output.1 output.2 })
  { drv with
    outputs := outputs
    envVars := drv.envVars.map fun var =>
      (var.1, ((outputs.find? fun output => output.1 = var.1).map (·.2.path)).getD var.2) }

/-- `symbol->string` fails when an output has a hash but no algorithm. -/
def addOutputPaths (name : Str) (drv : Fields Derivation) : Option (Fields Derivation) :=
  if drv.outputs.any fun output => output.2.hash.isSome && output.2.hashAlgo.isNone then none
  else some (withOutputPaths sha256 storePrefix name drv)

/-- The fields of the derivation that `derivation` writes. -/
def derivationFields (a : DerivationArgs) : Option (Fields Derivation) :=
  addOutputPaths sha256 storePrefix a.name (maskedDerivation storePrefix addToStore hashFold a)

/-- The references that are sent along with the text. -/
def derivationReferences (drv : Fields Derivation) : List Str :=
  drv.inputs.map (·.drv.fileName) ++ drv.sources

end Derivation

end Guix.Client
