import Guix.Lib.Separated
import Guix.LibStore.MakeStorePath

/-!
# The fingerprint of a store path

The digits of a store path are computed from one string, in which the type of the item,
its hash, the store directory and its name are joined by colons. The names and the store
directory have no colon, so that the string determines its parts.
-/

namespace Guix.LibStore

open List Separated

def colon : UInt8 := 58

/-- The string that `makeStorePath` hashes. -/
def fingerprint (nixStore : Path) (type : Bytes) (hash : Hash) (name : Bytes) : Bytes :=
  type ++ ascii ":sha256:" ++ printHash hash ++ ascii ":" ++ nixStore ++ ascii ":" ++ name

theorem makeStorePath_fingerprint (sha256 : Sha256) (nixStore : Path) (type : Bytes) (hash : Hash)
    (name : Bytes) : makeStorePath sha256 nixStore type hash name = (do
      checkStoreName name
      return nixStore ++ ascii "/"
        ++ printHash32 (compressHash (hashString sha256 (fingerprint nixStore type hash name)).1.hash 20)
        ++ ascii "-" ++ name) := rfl

theorem length_fingerprint (nixStore : Path) (type : Bytes) (hash : Hash) (name : Bytes) :
    (fingerprint nixStore type hash name).length =
      type.length + hash.type.size * 2 + nixStore.length + name.length + 10 := by
  have one : (ascii ":").length = 1 := by decide
  have eight : (ascii ":sha256:").length = 8 := by decide
  simp only [fingerprint, length_append, length_printHash, one, eight]
  omega

/-! ### The uses of `makeStorePath` -/

/-- A call of `computeStorePathForText`, `makeFixedOutputPath` or `makeOutputPath`. -/
inductive StoreItem
  | text (name s : Bytes) (references : List Path)
  | fixedOutput (recursive : Bool) (hashAlgo : HashType) (hash : Hash) (name : Bytes)
  | output (id : Bytes) (hash : Hash) (name : Bytes)
  deriving DecidableEq

inductive ItemKind
  | text
  | source
  | output (id : Bytes)
  deriving DecidableEq

namespace ItemKind

def tag : ItemKind → Bytes
  | text => ascii "text"
  | source => ascii "source"
  | output id => ascii "output:" ++ id

end ItemKind

namespace StoreItem

/-- A fixed output that is not a source has the kind of an output `out`. -/
def kind : StoreItem → ItemKind
  | text _ _ _ => .text
  | fixedOutput recursive hashAlgo _ _ =>
    if hashAlgo = .sha256 ∧ recursive then .source else .output (ascii "out")
  | output id _ _ => .output id

def references : StoreItem → List Path
  | text _ _ references => references
  | _ => []

def type (item : StoreItem) : Bytes :=
  item.kind.tag ++ item.references.flatMap (ascii ":" ++ ·)

def innerHash (sha256 : Sha256) : StoreItem → Hash
  | text _ s _ => (hashString sha256 s).1
  | fixedOutput recursive hashAlgo hash _ =>
    if hashAlgo = .sha256 ∧ recursive then hash
    else (hashString sha256 (ascii "fixed:out:" ++ (if recursive then ascii "r:" else [])
      ++ printHashType hashAlgo ++ ascii ":" ++ printHash hash ++ ascii ":")).1
  | output _ hash _ => hash

/-- The name after the digits. -/
def itemName : StoreItem → Bytes
  | text name _ _ => name
  | fixedOutput _ _ _ name => name
  | output id _ name => name ++ if id = ascii "out" then [] else ascii "-" ++ id

def path (sha256 : Sha256) (nixStore : Path) : StoreItem → Except NameError Path
  | text name s references => computeStorePathForText sha256 nixStore name s references
  | fixedOutput recursive hashAlgo hash name =>
    makeFixedOutputPath sha256 nixStore recursive hashAlgo hash name
  | output id hash name => makeOutputPath sha256 nixStore id hash name

def fingerprint (sha256 : Sha256) (nixStore : Path) (item : StoreItem) : Bytes :=
  LibStore.fingerprint nixStore item.type (item.innerHash sha256) item.itemName

theorem path_eq (sha256 : Sha256) (nixStore : Path) (item : StoreItem) :
    item.path sha256 nixStore =
      makeStorePath sha256 nixStore item.type (item.innerHash sha256) item.itemName := by
  cases item with
  | text name s references => rfl
  | fixedOutput recursive hashAlgo hash name =>
    have out : ascii "output:out" = ascii "output:" ++ ascii "out" := by decide
    simp only [path, makeFixedOutputPath, type, kind, references, innerHash, itemName,
      flatMap_nil, append_nil]
    split
    · rfl
    · rw [out]
      rfl
  | output id hash name =>
    simp only [path, makeOutputPath, type, kind, ItemKind.tag, references, innerHash, itemName,
      flatMap_nil, append_nil]

theorem length_fingerprint_fixedOutput_le (sha256 : Sha256) (nixStore : Path) (recursive : Bool)
    (hashAlgo : HashType) (hash : Hash) (name : Bytes) :
    ((fixedOutput recursive hashAlgo hash name).fingerprint sha256 nixStore).length ≤
      nixStore.length + name.length + 150 := by
  have type : (fixedOutput recursive hashAlgo hash name).type.length ≤ 10 := by
    simp only [type, kind, references, flatMap_nil, append_nil]
    split <;> decide
  have size := ((fixedOutput recursive hashAlgo hash name).innerHash sha256).type.size_le
  rw [fingerprint, length_fingerprint, itemName]
  omega

end StoreItem

/-- A path made by the constructors, from references that were made by them too. -/
inductive MadePath (sha256 : Sha256) (nixStore : Path) : Path → Prop
  | made (item : StoreItem) (path : Path)
      (references : ∀ r ∈ item.references, MadePath sha256 nixStore r)
      (returned : item.path sha256 nixStore = .ok path) : MadePath sha256 nixStore path

/-! ### Colons -/

theorem colon_notMem_name {name : Bytes} (accepted : checkStoreName name = .ok ⟨⟩) : colon ∉ name := by
  intro isColon
  have valid := checkStoreName_ok name accepted colon isColon
  exact absurd valid (by decide)

theorem colon_notMem_printHash (hash : Hash) : colon ∉ printHash hash := by
  have noDigit : colon ∉ base16Chars := by decide
  exact fun isDigit => noDigit (mem_printHash isDigit)

theorem colon_notMem_path {sha256 : Sha256} {nixStore path : Path} (noColon : colon ∉ nixStore)
    (made : MadePath sha256 nixStore path) : colon ∉ path := by
  obtain ⟨item, _, _, returned⟩ := made
  rw [item.path_eq] at returned
  obtain ⟨accepted, digits, rfl, _, isDigits⟩ := makeStorePath_ok returned
  have others : colon ∉ ascii "/" ∧ colon ∉ ascii "-" ∧ colon ∉ base32Chars := by decide
  simp only [mem_append]
  rintro ((((inStore | isSlash) | isDigit) | isDash) | inName)
  · exact noColon inStore
  · exact others.1 isSlash
  · exact others.2.2 (isDigits colon isDigit)
  · exact others.2.1 isDash
  · exact colon_notMem_name accepted inName

/-! ### A fingerprint determines its parts -/

theorem fingerprint_eq (nixStore : Path) (type : Bytes) (hash : Hash) (name : Bytes) :
    fingerprint nixStore type hash name =
      type ++ ascii ":sha256" ++ colon :: printHash hash ++ colon :: nixStore ++ colon :: name := by
  have algo : ascii ":sha256:" = ascii ":sha256" ++ [colon] := by decide
  have one : ascii ":" = [colon] := by decide
  simp [fingerprint, algo, one]

theorem fingerprint_parts {nixStore : Path} {type type' : Bytes} {hash hash' : Hash} {name name' : Bytes}
    (noColon : colon ∉ nixStore) (noColonName : colon ∉ name) (noColonName' : colon ∉ name')
    (same : fingerprint nixStore type hash name = fingerprint nixStore type' hash' name') :
    type = type' ∧ hash.hash = hash'.hash ∧ name = name' := by
  rw [fingerprint_eq, fingerprint_eq] at same
  -- the parts are taken off from the right
  obtain ⟨same, names⟩ := last_part noColonName noColonName' same
  obtain ⟨same, _⟩ := last_part noColon noColon same
  obtain ⟨same, digits⟩ :=
    last_part (colon_notMem_printHash hash) (colon_notMem_printHash hash') same
  have parsed := parseBytes_printBytes hash.hash
  rw [← printHash, digits, printHash, parseBytes_printBytes] at parsed
  exact ⟨append_cancel_right same, (Option.some.inj parsed).symm, names⟩

/-- The type of an item says of which kind it is and what it refers to. -/
theorem StoreItem.type_determines {a b : StoreItem}
    (noColonA : ∀ r ∈ a.references, colon ∉ r) (noColonB : ∀ r ∈ b.references, colon ∉ r)
    (same : a.type = b.type) : a.kind = b.kind ∧ a.references = b.references := by
  have onlyText : ∀ item : StoreItem, item.kind ≠ .text → item.references = [] := by
    intro item other
    cases item with
    | text name s references => exact absurd rfl other
    | fixedOutput recursive hashAlgo hash name => rfl
    | output id hash name => rfl
  simp only [StoreItem.type] at same
  -- the kinds differ in the first letter of their tags
  cases kindA : a.kind <;> cases kindB : b.kind <;> rw [kindA, kindB] at same
  case text.text => exact ⟨rfl, joined_injective noColonA noColonB (append_cancel_left same)⟩
  case source.source =>
    rw [onlyText a (by simp [kindA]), onlyText b (by simp [kindB])]
    exact ⟨rfl, rfl⟩
  case output.output id id' =>
    rw [onlyText a (by simp [kindA]), onlyText b (by simp [kindB])] at same ⊢
    have sameId : id = id' := append_cancel_left (append_cancel_right same)
    exact ⟨by rw [sameId], rfl⟩
  all_goals cases same

/-- Two items with one fingerprint are of one kind and have the same hash, name and
references. -/
theorem fingerprint_determines_item (sha256 : Sha256) (nixStore : Path) (noColon : colon ∉ nixStore)
    (a b : StoreItem) (acceptedA : checkStoreName a.itemName = .ok ⟨⟩)
    (acceptedB : checkStoreName b.itemName = .ok ⟨⟩)
    (madeA : ∀ r ∈ a.references, MadePath sha256 nixStore r)
    (madeB : ∀ r ∈ b.references, MadePath sha256 nixStore r)
    (same : a.fingerprint sha256 nixStore = b.fingerprint sha256 nixStore) :
    a.kind = b.kind ∧ (a.innerHash sha256).hash = (b.innerHash sha256).hash ∧
      a.itemName = b.itemName ∧ a.references = b.references := by
  obtain ⟨types, hashes, names⟩ := fingerprint_parts noColon (colon_notMem_name acceptedA)
    (colon_notMem_name acceptedB) same
  have noColonA : ∀ r ∈ a.references, colon ∉ r :=
    fun r member => colon_notMem_path noColon (madeA r member)
  have noColonB : ∀ r ∈ b.references, colon ∉ r :=
    fun r member => colon_notMem_path noColon (madeB r member)
  obtain ⟨kinds, references⟩ := StoreItem.type_determines noColonA noColonB types
  exact ⟨kinds, hashes, names, references⟩

/-- A flat file and the output of a derivation, both of kind `output:out`. -/
theorem fingerprint_determines_item_flat :
    ∃ (sha256 : Sha256) (a b : StoreItem), a ≠ b ∧
      a.fingerprint sha256 (ascii "/s") = b.fingerprint sha256 (ascii "/s") ∧
      a.kind = b.kind ∧ (a.innerHash sha256).hash = (b.innerHash sha256).hash ∧
      a.itemName = b.itemName ∧ a.references = b.references := by
  let zero : Sha256 := fun _ => ⟨Hash.ofType .sha256, rfl⟩
  let flat := StoreItem.fixedOutput false .sha256 (Hash.ofType .sha256) (ascii "a")
  let built := StoreItem.output (ascii "out") (Hash.ofType .sha256) (ascii "a")
  refine ⟨zero, flat, built, by decide, by decide, ?_⟩
  exact fingerprint_determines_item zero (ascii "/s") (by decide) flat built (by decide) (by decide)
    (fun r member => by cases member) (fun r member => by cases member) (by decide)

end Guix.LibStore
