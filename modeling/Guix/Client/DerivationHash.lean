import Guix.Client.Coalesce
import Guix.Client.StoreCorrectness

/-!
# The hash of a derivation

`derivation-hash` of the client and `hashDerivationModulo` of the daemon. The client sorts
the inputs by their hashes and the daemon has a map from hashes, so that they agree when no
two inputs have the same hash.
-/

namespace Guix.Client

open Sorting List LibStore.Derivations Derivation LibStore.Derivations.Derivation OrdMap

/-! ### Derivations that both write alike -/

section Clean

variable {ι : Type} (fileName : ι → Str)

/-- The lists are sorted, no string has a NUL character, and nothing that is written as it
is needs an escape. -/
structure Clean (drv : Fields ι) : Prop where
  sorted : Sorted fileName drv
  noNul : ∀ s ∈ escapedStrings drv ++ plainStrings fileName drv, '\x00' ∉ s
  plain : ∀ s ∈ plainStrings fileName drv, ∀ c ∈ s, c ∉ escapeCharSet

variable {fileName} {drv : Fields ι}

theorem Clean.bytevector (clean : Clean fileName drv) :
    derivationBytevector fileName drv = unparseDerivation (toDaemon fileName drv) :=
  derivationBytevector_eq clean.sorted clean.noNul clean.plain

theorem mem_strings_toDaemon (sorted : Sorted fileName drv) {s : Bytes}
    (isString : s ∈ (toDaemon fileName drv).strings ++ (toDaemon fileName drv).paths) :
    ∃ t ∈ escapedStrings drv ++ plainStrings fileName drv, s = encode t := by
  have sources : (toDaemon fileName drv).inputSrcs.keys = drv.sources.map encode :=
    stringSet_keys sorted.sources
  simp only [Derivation.strings, paths, sources,
    toDaemon_outputs sorted, toDaemon_inputDrvs sorted, toDaemon_env sorted, flatMap_map,
    map_map, mem_append, mem_flatMap] at isString
  simp only [escapedStrings, plainStrings, mem_append, mem_flatMap]
  rcases isString with ((((⟨output, isOutput, inOutput⟩ | ⟨input, isInput, inInput⟩) | inPlain) | inArgs)
    | ⟨var, isVar, inVar⟩) | ((inPaths | inNames) | inSources)
  · simp only [toDaemonOutput, mem_cons, not_mem_nil, or_false] at inOutput
    rcases inOutput with rfl | rfl | rfl
    all_goals exact ⟨_, .inl (.inl (.inl (.inl (.inl ⟨output, isOutput, by simp⟩)))), rfl⟩
  · rw [stringSet_keys (sorted.subDerivations input isInput)] at inInput
    obtain ⟨name, isName, rfl⟩ := mem_map.mp inInput
    exact ⟨name, .inl (.inl (.inl (.inl (.inr ⟨input, isInput, isName⟩)))), rfl⟩
  · simp only [toDaemon, mem_cons, not_mem_nil, or_false] at inPlain
    rcases inPlain with rfl | rfl
    all_goals exact ⟨_, .inr (.inr (by simp)), rfl⟩
  · obtain ⟨arg, isArg, rfl⟩ := mem_map.mp inArgs
    exact ⟨arg, .inl (.inl (.inr isArg)), rfl⟩
  · simp only [mem_cons, not_mem_nil, or_false] at inVar
    rcases inVar with rfl | rfl
    all_goals exact ⟨_, .inl (.inr ⟨var, isVar, by simp⟩), rfl⟩
  · obtain ⟨output, isOutput, rfl⟩ := mem_map.mp inPaths
    exact ⟨output.2.path, .inl (.inl (.inl (.inl (.inl ⟨output, isOutput, by simp⟩)))), rfl⟩
  · rw [OrdMap.keys, toDaemon_inputDrvs sorted, map_map] at inNames
    obtain ⟨input, isInput, rfl⟩ := mem_map.mp inNames
    exact ⟨fileName input.drv, .inr (.inl (mem_map.mpr ⟨input, isInput, rfl⟩)), rfl⟩
  · obtain ⟨source, isSource, rfl⟩ := mem_map.mp inSources
    exact ⟨source, .inl (.inl (.inl (.inr isSource))), rfl⟩

theorem Clean.text (clean : Clean fileName drv) : (toDaemon fileName drv).Text := by
  intro s isString
  obtain ⟨t, isText, rfl⟩ := mem_strings_toDaemon clean.sorted isString
  exact zero_notMem_encode t (clean.noNul t isText)

/-- The text determines the paths of the outputs. -/
theorem outputPaths_eq {ι' : Type} {fileName' : ι' → Str} {drv' : Fields ι'}
    (sorted : Sorted fileName drv) (sorted' : Sorted fileName' drv')
    (same : (toDaemon fileName drv).outputs = (toDaemon fileName' drv').outputs) :
    drv.outputs.map (·.2.path) = drv'.outputs.map (·.2.path) := by
  have entries := congrArg entries same
  rw [toDaemon_outputs sorted, toDaemon_outputs sorted'] at entries
  have paths := congrArg (List.map (·.2.path)) entries
  rw [map_map, map_map] at paths
  have encoding : Function.Injective encode := fun _ _ => Utf8.encode_injective
  apply map_injective_iff.mpr encoding
  rw [map_map, map_map]
  exact paths

end Clean

/-! ### Fixed outputs -/

section Fixed

variable {ι : Type} (fileName : ι → Str) (drv : Fields ι)

/-- What `derivation` is given for a fixed output. -/
structure FixedOutput (output : DerivationOutput) (algo : Str) (h : Hash) : Prop where
  hash : output.hash = some h.hash
  hashAlgo : output.hashAlgo = some algo
  algorithm : encode algo = printHashType h.type

/-- A hash is given only for a single output named `out`. -/
def FixedShape : Prop :=
  ∀ output ∈ drv.outputs, output.2.hash ≠ none →
    drv.outputs = [(str "out", output.2)] ∧ ∃ algo h, FixedOutput output.2 algo h

variable {drv} {output : DerivationOutput} {algo : Str} {h : Hash}

theorem FixedOutput.toDaemon (fixed : FixedOutput output algo h) :
    toDaemonOutput output = ⟨encode output.path,
      (if output.recursive then ascii "r:" else []) ++ printHashType h.type, printHash h⟩ := by
  have recursive : encode (if output.recursive then str "r:" else []) =
      if output.recursive then ascii "r:" else [] := by
    cases output.recursive
    · rfl
    · exact encode_str "r:" (by decide)
  simp only [toDaemonOutput, hashAlgoString, outputHash, fixed.hash, fixed.hashAlgo, encode_append,
    recursive, fixed.algorithm, Option.map_some, Option.getD_some, encode_base16String, printHash]

theorem FixedOutput.hash_ne_nil (fixed : FixedOutput output algo h) : (toDaemonOutput output).hash ≠ [] := by
  rw [fixed.toDaemon]
  intro (empty : printHash h = [])
  have length := length_printHash h
  rw [empty] at length
  have positive : ∀ type : HashType, 0 < type.size := by
    intro type
    cases type <;> decide
  have := positive h.type
  rw [length_nil] at length
  omega

/-- Both see a fixed output, or neither does. -/
theorem fixed_cases (shape : FixedShape drv) (sorted : Sorted fileName drv) :
    (fixedText drv = none ∧ fixedOutput (toDaemon fileName drv) = none) ∨
    ∃ output algo h, drv.outputs = [(str "out", output)] ∧ FixedOutput output algo h ∧
      fixedOutput (toDaemon fileName drv) = some (toDaemonOutput output) ∧
      (fixedText drv).map encode = some (fixedOutputText (toDaemonOutput output)) := by
  have out : encode (str "out") = ascii "out" := encode_str "out" (by decide)
  by_cases given : ∃ output ∈ drv.outputs, output.2.hash ≠ none
  · obtain ⟨output, isOutput, hasHash⟩ := given
    obtain ⟨single, algo, h, fixed⟩ := shape output isOutput hasHash
    refine .inr ⟨output.2, algo, h, single, fixed, ?_, ?_⟩
    · rw [fixedOutput, toDaemon_outputs sorted, single]
      simp [out, fixed.hash_ne_nil]
    · have colon : encode (str ":") = ascii ":" := encode_str ":" (by decide)
      have start : encode (str "fixed:out:") = ascii "fixed:out:" := encode_str "fixed:out:" (by decide)
      obtain ⟨name, path, hashAlgo, hash, recursive⟩ := output
      obtain rfl : hashAlgo = some algo := fixed.hashAlgo
      obtain rfl : hash = some h.hash := fixed.hash
      simp only [fixedText, single, Option.map_some, encode_append, start, colon, fixedOutputText,
        toDaemonOutput, hashAlgoString, outputHash, Option.getD_some, append_assoc]
  · have noHash : ∀ output ∈ drv.outputs, output.2.hash = none := by
      intro output isOutput
      by_contra hasHash
      exact given ⟨output, isOutput, hasHash⟩
    left
    constructor
    · rw [fixedText]
      split
      · next name path hashAlgo hash recursive single =>
        have none := noHash _ (single ▸ mem_singleton_self _)
        cases none
      · rfl
    · rw [fixedOutput, toDaemon_outputs sorted]
      split
      · next name out single =>
        rw [if_neg]
        rintro ⟨_, hasHash⟩
        obtain ⟨output, isOutput, same⟩ := mem_map.mp (single ▸ mem_singleton_self (name, out))
        apply hasHash
        rw [← (Prod.mk.inj same).2, toDaemonOutput, outputHash, noHash output isOutput]
        rfl
      · rfl

end Fixed

/-! ### Hashes in place of the inputs -/

section Masked

variable (sha256 : Sha256) {drv : Fields Derivation}

/-- What is written for an input in place of its file name. -/
def hashString16 (input : Input) : Str := base16String (derivationHash sha256 input.drv.fields)

theorem plain_base16String (bv : Bytes) : Plain (base16String bv) := by
  have digits : ∀ c ∈ str "0123456789abcdef", c ∉ specialChars := by decide
  exact fun c isDigit => digits c (mem_of_mem_digits (by decide) isDigit)

variable (distinct : (drv.inputs.map (hashString16 sha256)).Nodup)

include distinct

theorem maskedList_nodup : (drv.inputs.map fun input =>
    (⟨hashString16 sha256 input, input.subDerivations⟩ : DerivationInput Str)).Nodup := by
  apply List.Nodup.of_map (·.drv)
  rw [map_map]
  exact distinct

/-- No duplicates are deleted, so that the inputs are only sorted. -/
theorem maskedInputs_inputs : (maskedInputs sha256 drv).inputs =
    sortBy (·.drv) (drv.inputs.map fun input =>
      (⟨hashString16 sha256 input, input.subDerivations⟩ : DerivationInput Str)) :=
  congrArg (sortBy fun input : DerivationInput Str => input.drv) (eraseDups_eq_self _ (maskedList_nodup sha256 distinct))

theorem mem_maskedInputs {masked : DerivationInput Str}
    (isMasked : masked ∈ (maskedInputs sha256 drv).inputs) :
    ∃ input ∈ drv.inputs, masked = ⟨hashString16 sha256 input, input.subDerivations⟩ := by
  rw [maskedInputs_inputs sha256 distinct, mem_sortBy] at isMasked
  obtain ⟨input, isInput, same⟩ := mem_map.mp isMasked
  exact ⟨input, isInput, same.symm⟩

theorem clean_maskedInputs (clean : Clean fileName drv) : Clean id (maskedInputs sha256 drv) := by
  have plainName : ∀ s ∈ plainStrings id (maskedInputs sha256 drv), Plain s ∨
      s ∈ plainStrings fileName drv := by
    intro s isPlain
    rcases mem_append.mp isPlain with isName | isOther
    · obtain ⟨masked, isMasked, rfl⟩ := mem_map.mp isName
      obtain ⟨input, _, rfl⟩ := mem_maskedInputs sha256 distinct isMasked
      exact .inl (plain_base16String _)
    · exact .inr (mem_append_right _ isOther)
  have escaped : ∀ s ∈ escapedStrings (maskedInputs sha256 drv), s ∈ escapedStrings drv := by
    intro s isEscaped
    simp only [escapedStrings, mem_append] at isEscaped ⊢
    rcases isEscaped with (((inOutputs | inInputs) | inSources) | inArgs) | inVars
    · exact .inl (.inl (.inl (.inl inOutputs)))
    · obtain ⟨masked, isMasked, isName⟩ := mem_flatMap.mp inInputs
      obtain ⟨input, isInput, rfl⟩ := mem_maskedInputs sha256 distinct isMasked
      exact .inl (.inl (.inl (.inr (mem_flatMap.mpr ⟨input, isInput, isName⟩))))
    · exact .inl (.inl (.inr inSources))
    · exact .inl (.inr inArgs)
    · exact .inr inVars
  constructor
  · refine ⟨clean.sorted.outputs, ?_, ?_, clean.sorted.sources, clean.sorted.envVars⟩
    · rw [maskedInputs_inputs sha256 distinct]
      apply sortBy_increasing fun input : DerivationInput Str => input.drv
      rw [map_map]
      exact distinct
    · intro masked isMasked
      obtain ⟨input, isInput, rfl⟩ := mem_maskedInputs sha256 distinct isMasked
      exact clean.sorted.subDerivations input isInput
  · intro s inMasked
    rcases mem_append.mp inMasked with isEscaped | isPlain
    · exact clean.noNul s (mem_append_left _ (escaped s isEscaped))
    · rcases plainName s isPlain with plain | isOld
      · exact plain.noNul
      · exact clean.noNul s (mem_append_right _ isOld)
  · intro s isPlain
    rcases plainName s isPlain with plain | isOld
    · exact plain.noEscape
    · exact clean.plain s isOld

/-- The client's sorted list and the daemon's map have the same entries. -/
theorem toDaemon_maskedInputs : toDaemon id (maskedInputs sha256 drv) =
    { toDaemon fileName drv with inputDrvs := .ofList (drv.inputs.map fun input =>
        (encode (hashString16 sha256 input), stringSet input.subDerivations)) } := by
  have perm := (sortBy_perm (fun input : DerivationInput Str => input.drv) (drv.inputs.map fun input =>
    (⟨hashString16 sha256 input, input.subDerivations⟩ : DerivationInput Str))).map
      fun input => (encode input.drv, stringSet input.subDerivations)
  rw [← maskedInputs_inputs sha256 distinct, map_map] at perm
  have keys : ((drv.inputs.map fun input =>
      (encode (hashString16 sha256 input), stringSet input.subDerivations)).map Prod.fst).Nodup := by
    have encoded := distinct.map (f := encode) fun _ _ => Utf8.encode_injective
    rw [map_map] at encoded ⊢
    exact encoded
  have inputs : ofList ((maskedInputs sha256 drv).inputs.map fun input =>
        (encode (id input.drv), stringSet input.subDerivations)) =
      ofList (drv.inputs.map fun input =>
        (encode (hashString16 sha256 input), stringSet input.subDerivations)) :=
    (ofList_perm perm.symm keys).symm
  rw [toDaemon, inputs]
  rfl

/-- What the daemon hashes, when its table has the client's hashes of the inputs. -/
theorem mask_eq (clean : Clean fileName drv) (table : DrvHashes)
    (known : ∀ input ∈ drv.inputs, ∃ h, table.find (encode input.drv.fileName) = some h ∧
      h.1.hash = derivationHash sha256 input.drv.fields) :
    mask table (toDaemon fileName drv) = toDaemon id (maskedInputs sha256 drv) := by
  have entry : ∀ input ∈ drv.inputs,
      maskInput table (encode input.drv.fileName, stringSet input.subDerivations) =
        some (encode (hashString16 sha256 input), stringSet input.subDerivations) := by
    intro input isInput
    obtain ⟨h, found, agrees⟩ := known input isInput
    simp only [maskInput, found, Option.map_some, hashString16, ← agrees, encode_base16String, printHash]
  have inputs : (toDaemon fileName drv).inputDrvs.entries.filterMap (maskInput table) =
      drv.inputs.map fun input => (encode (hashString16 sha256 input), stringSet input.subDerivations) := by
    rw [toDaemon_inputDrvs clean.sorted, filterMap_map, ← filterMap_eq_map]
    exact filterMap_congr entry
  rw [mask, inputs, toDaemon_maskedInputs sha256 distinct]

end Masked

end Guix.Client
