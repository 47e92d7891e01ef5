import Guix.Lib.Hoare
import Guix.LibStore.DerivationsCorrectness
import Guix.LibUtil.Hash

/-!
# The hash of a derivation modulo fixed-output derivations

`isFixedOutputDrv` and `hashDerivationModulo` of `derivations.cc`, with the table
`drvHashes` of the hashes that have been computed.

When two input derivations have the same hash, the outputs requested from one of them
replace those requested from the other.
-/

namespace Guix.LibStore.Derivations

open Hoare OrdMap List

/-- What the program finds in the store, and what is in the buffer of `expect` while a file
is parsed. -/
structure Store where
  isValidPath : Path → Bool
  readFile : Path → Except Bytes Bytes
  stale : Path → Stream' UInt8

inductive HashDerivationError
  | error (message : Bytes)
  | assertion
  | outOfFuel
  deriving DecidableEq

def readDerivation (store : Store) (fuel : Nat) (drvPath : Path) :
    Except HashDerivationError Derivation := do
  let contents ← (store.readFile drvPath).mapError .error
  match parseDerivation fuel ⟨contents, store.stale drvPath⟩ with
  | .ok drv _ => .ok drv
  | .error (.failed e) _ => .error (.error
      (ascii "error parsing derivation `" ++ drvPath ++ ascii "': " ++ e.message))
  | .error .outOfFuel _ => .error .outOfFuel

/-- The output of a fixed-output derivation. -/
def fixedOutput (drv : Derivation) : Option DerivationOutput :=
  match drv.outputs.entries with
  | [(name, out)] => if name = ascii "out" ∧ out.hash ≠ [] then some out else none
  | _ => none

def isFixedOutputDrv (drv : Derivation) : Bool := (fixedOutput drv).isSome

abbrev DrvHashes := OrdMap Path Sha256Hash

abbrev HashM := EStateM HashDerivationError DrvHashes

def fixedOutputText (out : DerivationOutput) : Bytes :=
  ascii "fixed:out:" ++ out.hashAlgo ++ ascii ":" ++ out.hash ++ ascii ":" ++ out.path

/-- The hash of an input derivation, where `recurse` is the recursive call. -/
def inputHash (store : Store) (fuel : Nat) (recurse : Derivation → HashM Sha256Hash) (path : Path) :
    HashM Sha256Hash := do
  let drvHashes ← get
  match drvHashes.find path with
  | some h => return h
  | none =>
    if store.isValidPath path then do
      let drv2 ← MonadExcept.ofExcept (readDerivation store fuel path)
      let h ← recurse drv2
      modify fun drvHashes => drvHashes.insert path h
      return h
    else throw .assertion

/-- The body of the loop over the input derivations. -/
def addInput (store : Store) (fuel : Nat) (recurse : Derivation → HashM Sha256Hash)
    (inputs2 : OrdMap Bytes StringSet) (input : Path × StringSet) :
    HashM (OrdMap Bytes StringSet) := do
  let h ← inputHash store fuel recurse input.1
  return inputs2.insert (printHash h.1) input.2

def hashDerivationModulo (sha256 : Sha256) (store : Store) : Nat → Derivation → HashM Sha256Hash
  | 0, _ => throw .outOfFuel
  | fuel + 1, drv =>
    match fixedOutput drv with
    | some out => return hashString sha256 (fixedOutputText out)
    | none => do
      let inputs2 ← drv.inputDrvs.entries.foldlM
        (addInput store fuel (hashDerivationModulo sha256 store fuel)) .empty
      return hashString sha256 (unparseDerivation { drv with inputDrvs := inputs2 })

/-! ### What is hashed -/

/-- The entry of an input derivation once its path is replaced by its hash. -/
def maskInput (drvHashes : DrvHashes) (input : Path × StringSet) : Option (Bytes × StringSet) :=
  (drvHashes.find input.1).map fun h => (printHash h.1, input.2)

def mask (drvHashes : DrvHashes) (drv : Derivation) : Derivation :=
  { drv with inputDrvs := .ofList (drv.inputDrvs.entries.filterMap (maskInput drvHashes)) }

/-- Nothing in the table changes. -/
def Extends (before after : DrvHashes) : Prop :=
  ∀ path h, before.find path = some h → after.find path = some h

theorem Extends.refl (drvHashes : DrvHashes) : Extends drvHashes drvHashes :=
  fun _ _ found => found

theorem Extends.trans {a b c : DrvHashes} (first : Extends a b) (second : Extends b c) :
    Extends a c :=
  fun path h found => second path h (first path h found)

theorem find_insert_self (drvHashes : DrvHashes) (path : Path) (h : Sha256Hash) :
    (drvHashes.insert path h).find path = some h :=
  (find_eq_some_iff _ _ _).mpr ((mem_insert _ _ _ _).mpr (.inl rfl))

theorem extends_insert {before after : DrvHashes} {path : Path} (new : before.find path = none)
    (kept : Extends before after) (h : Sha256Hash) : Extends before (after.insert path h) := by
  intro other g found
  have inAfter := (find_eq_some_iff _ _ _).mp (kept other g found)
  apply (find_eq_some_iff _ _ _).mpr
  apply (mem_insert _ _ _ _).mpr
  refine .inr ⟨?_, inAfter⟩
  rintro rfl
  rw [new] at found
  cases found

variable {sha256 : Sha256} {store : Store}

theorem inputHash_spec (fuel : Nat) {recurse : Derivation → HashM Sha256Hash} (path : Path)
    (kept : ∀ drv s, wp (recurse drv) (fun _ => Extends s) (fun _ _ => True) s) (s : DrvHashes) :
    wp (inputHash store fuel recurse path) (fun h s' => Extends s s' ∧ s'.find path = some h)
      (fun _ _ => True) s := by
  rw [inputHash, wp_bind, wp_get]
  cases cached : s.find path with
  | some h => exact ⟨.refl s, cached⟩
  | none =>
    simp only [wp_ite, wp_bind, wp_ofExcept, wp_modify, wp_pure, wp_throw, implies_true, and_true]
    intro _ drv2 _
    apply wp_imp (kept drv2 s)
    intro h s' more
    exact ⟨extends_insert cached more h, find_insert_self s' path h⟩

theorem maskInput_extends {s s' : DrvHashes} (more : Extends s s')
    {inputs : List (Path × StringSet)} (known : ∀ input ∈ inputs, ∃ h, s.find input.1 = some h) :
    inputs.filterMap (maskInput s') = inputs.filterMap (maskInput s) := by
  apply filterMap_congr
  intro input isInput
  obtain ⟨h, found⟩ := known input isInput
  rw [maskInput, maskInput, found, more _ _ found]

theorem ofList_maskInput_append {s : DrvHashes} (done : List (Path × StringSet))
    {input : Path × StringSet} {h : Sha256Hash} (found : s.find input.1 = some h) :
    ofList ((done ++ [input]).filterMap (maskInput s)) =
      (ofList (done.filterMap (maskInput s))).insert (printHash h.1) input.2 := by
  have last : [input].filterMap (maskInput s) = [(printHash h.1, input.2)] := by
    simp [maskInput, found]
  rw [filterMap_append, last, ofList_concat]

/-- The hash of every input derivation is in the table. -/
def Known (drvHashes : DrvHashes) (drv : Derivation) : Prop :=
  ∀ input ∈ drv.inputDrvs.entries, ∃ h, drvHashes.find input.1 = some h

theorem maskInputs_spec (fuel : Nat) (recurse : Derivation → HashM Sha256Hash) (drv : Derivation)
    (kept : ∀ drv s, wp (recurse drv) (fun _ => Extends s) (fun _ _ => True) s) (s : DrvHashes) :
    wp (drv.inputDrvs.entries.foldlM (addInput store fuel recurse) .empty)
      (fun inputs2 s' => Extends s s' ∧ Known s' drv ∧ inputs2 = (mask s' drv).inputDrvs)
      (fun _ _ => True) s := by
  apply wp_foldlM _ _ _ (fun done inputs2 s' => Extends s s' ∧
    (∀ input ∈ done, ∃ h, s'.find input.1 = some h) ∧
    inputs2 = ofList (done.filterMap (maskInput s')))
  · exact ⟨.refl s, by simp, rfl⟩
  · rintro done input todo inputs2 s1 _ ⟨more, known, rfl⟩
    rw [addInput, wp_bind]
    apply wp_imp (inputHash_spec fuel input.1 kept s1)
    rintro h s2 ⟨more2, found⟩
    refine ⟨more.trans more2, ?_, ?_⟩
    · intro other inDone
      rcases mem_append.mp inDone with inDone | isInput
      · obtain ⟨g, foundOther⟩ := known other inDone
        exact ⟨g, more2 _ _ foundOther⟩
      · exact ⟨h, mem_singleton.mp isInput ▸ found⟩
    · rw [ofList_maskInput_append done found, maskInput_extends more2 known]

theorem hashDerivationModulo_extends (fuel : Nat) (drv : Derivation) (s : DrvHashes) :
    wp (hashDerivationModulo sha256 store fuel drv) (fun _ => Extends s) (fun _ _ => True) s := by
  induction fuel generalizing drv s with
  | zero => trivial
  | succ fuel ih =>
    rw [hashDerivationModulo]
    split
    · exact Extends.refl s
    · rw [wp_bind]
      apply wp_imp (maskInputs_spec fuel _ drv ih s)
      exact fun _ _ after => after.1

variable (sha256 store)

/-- What has been hashed, in terms of the table after the call. -/
theorem hashDerivationModulo_spec (fuel : Nat) (drv : Derivation) (s : DrvHashes)
    (notFixed : isFixedOutputDrv drv = false) :
    wp (hashDerivationModulo sha256 store fuel drv)
      (fun hash s' => Extends s s' ∧ Known s' drv ∧
        hash = hashString sha256 (unparseDerivation (mask s' drv)))
      (fun _ _ => True) s := by
  have none : fixedOutput drv = none := by simpa [isFixedOutputDrv] using notFixed
  cases fuel with
  | zero => trivial
  | succ fuel =>
    rw [hashDerivationModulo, none]
    simp only [wp_bind, wp_pure]
    apply wp_imp (maskInputs_spec fuel _ drv (hashDerivationModulo_extends fuel) s)
    rintro inputs2 s' ⟨more, known, rfl⟩
    exact ⟨more, known, rfl⟩

end Guix.LibStore.Derivations
