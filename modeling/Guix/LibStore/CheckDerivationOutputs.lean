import Guix.LibStore.DerivationHash
import Guix.LibStore.MakeStorePath

/-!
# The check of the output paths

`LocalStore::checkDerivationOutputs`, and `DerivationOutput::parseHashInfo` of
`derivations.cc`.
-/

namespace Guix.LibStore.Derivations

open Hoare MonadExcept

inductive CheckError
  | name (error : NameError)
  | unknownHashAlgorithm (algo : Bytes)
  | hash (error : HashError)
  | noOut (drvPath : Path)
  | incorrectOutput (drvPath path outPath : Path)
  | hashing (error : HashDerivationError)
  | assertion
  deriving DecidableEq

/-- Whether the hash is recursive, and the hash with its type. -/
def parseHashInfo (out : DerivationOutput) : Except CheckError (Bool × Hash) := do
  let recursive := decide (out.hashAlgo.take 2 = ascii "r:")
  let algo := if recursive then out.hashAlgo.drop 2 else out.hashAlgo
  match parseHashType algo with
  | none => throw (.unknownHashAlgorithm algo)
  | some hashType => do
    let hash ← (parseHash hashType out.hash).mapError .hash
    return (recursive, hash)

/-- `drvCopy`: no output has a path. -/
def withoutPaths (drv : Derivation) : Derivation :=
  { drv with
    outputs := drv.outputs.mapValues fun out => { out with path := [] }
    env := drv.outputs.entries.foldl (fun env output => env.insert output.1 []) drv.env }

/-- The comparison of an output and its environment variable with the expected path. -/
def checkOutput (drvPath : Path) (drv : Derivation) (name : Bytes) (out : DerivationOutput)
    (outPath : Path) : Except CheckError Unit :=
  if out.path ≠ outPath ∨ drv.env.find name ≠ some outPath then
    .error (.incorrectOutput drvPath out.path outPath)
  else .ok ⟨⟩

section Check

variable (sha256 : Sha256) (store : Store) (nixStore : Path)

def checkFixedOutput (drvPath : Path) (drvName : Bytes) (drv : Derivation) : Except CheckError Unit :=
  match drv.outputs.find (ascii "out") with
  | none => throw (.noOut drvPath)
  | some out => do
    let (recursive, h) ← parseHashInfo out
    let outPath ← (makeFixedOutputPath sha256 nixStore recursive h.type h drvName).mapError .name
    checkOutput drvPath drv (ascii "out") out outPath

def checkDerivationOutputs (fuel : Nat) (drvPath : Path) (drv : Derivation) :
    EStateM CheckError DrvHashes Unit := do
  let drvName ← ofExcept ((storePathToName nixStore drvPath).mapError .name)
  if hasSuffix drvName (ascii ".drv") then do
    let drvName := drvName.take (drvName.length - (ascii ".drv").length)
    if isFixedOutputDrv drv then
      ofExcept (checkFixedOutput sha256 nixStore drvPath drvName drv)
    else do
      let h ← focus id (fun _ s => s) .hashing
        (hashDerivationModulo sha256 store fuel (withoutPaths drv))
      forM drv.outputs.entries fun output =>
        ofExcept do
          let outPath ← (makeOutputPath sha256 nixStore output.1 h.1 drvName).mapError .name
          checkOutput drvPath drv output.1 output.2 outPath
  else throw .assertion

end Check

end Guix.LibStore.Derivations
