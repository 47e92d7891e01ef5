import Guix.Client.DerivationHash

/-!
# Derivations made by `derivation`

A derivation is made by calls of `derivation` for its inputs and for itself, and the daemon
has written its text to the store. Both then read the same derivation from the file.
-/

namespace Guix.Client

open Sorting List LibStore.Derivations Derivation LibStore.Derivations.Derivation LibStore

/-! ### Derivations that can be hashed and that are in the store -/

/-- The texts that are hashed: short enough for the daemon, and without a collision. -/
structure HashedTexts (sha256 : Sha256) (texts : Set Bytes) : Prop where
  noCollision : texts.InjOn sha256
  short : ∀ text ∈ texts, text.length < 2 ^ 32

section Hashable

variable (sha256 : Sha256) (texts : Set Bytes) (store : Store)

structure Hashable (drv : Fields Derivation) : Prop where
  clean : Clean fileName drv
  shape : FixedShape drv
  distinct : (drv.inputs.map (hashString16 sha256)).Nodup
  hashed : hashedText sha256 drv ∈ texts

structure Stored (d : Derivation) : Prop where
  hashable : Hashable sha256 texts d.fields
  absolute : ∀ p ∈ (toDaemon fileName d.fields).paths, isAbsolute p
  plain : Plain d.fileName
  valid : store.isValidPath (encode d.fileName) = true
  contents : store.readFile (encode d.fileName) =
    .ok (derivationBytevector fileName d.fields)

variable {sha256 texts store} {drv : Fields Derivation} {d d' : Derivation}

/-- What is hashed, in the terms of the daemon. -/
theorem Hashable.hashedText_cases (hashable : Hashable sha256 texts drv) :
    (fixedOutput (toDaemon fileName drv) = none ∧
      hashedText sha256 drv = unparseDerivation (toDaemon id (maskedInputs sha256 drv))) ∨
    ∃ output algo h, drv.outputs = [(str "out", output)] ∧ FixedOutput output algo h ∧
      fixedOutput (toDaemon fileName drv) = some (toDaemonOutput output) ∧
      hashedText sha256 drv = fixedOutputText (toDaemonOutput output) := by
  rcases fixed_cases fileName hashable.shape hashable.clean.sorted with
    ⟨noText, noOutput⟩ | ⟨output, algo, h, single, fixed, isFixed, text⟩
  · left
    refine ⟨noOutput, ?_⟩
    rw [hashedText, noText]
    exact (clean_maskedInputs sha256 hashable.distinct hashable.clean).bytevector
  · obtain ⟨written, isText, same⟩ := Option.map_eq_some_iff.mp text
    refine .inr ⟨output, algo, h, single, fixed, isFixed, ?_⟩
    rw [hashedText, isText]
    exact same

/-- The path of a fixed output is what follows the first slash of the text that is hashed. -/
theorem FixedOutput.path_of_text {output : DerivationOutput} {algo : Str} {h : Hash}
    (fixed : FixedOutput output algo h) (absolute : isAbsolute (encode output.path)) :
    (fixedOutputText (toDaemonOutput output)).dropWhile (· != slash) = encode output.path := by
  have mode : ∀ b ∈ (if output.recursive then ascii "r:" else []), b ≠ slash := by
    cases output.recursive <;> decide
  have type : ∀ b ∈ printHashType h.type, b ≠ slash := by
    cases h.type <;> decide
  have front : ∀ b ∈ ascii "fixed:out:" ++ ((if output.recursive then ascii "r:" else [])
      ++ printHashType h.type) ++ ascii ":" ++ printHash h ++ ascii ":", (b != slash) = true := by
    have literals : (∀ b ∈ ascii "fixed:out:", b ≠ slash) ∧ (∀ b ∈ ascii ":", b ≠ slash) ∧
      ∀ b ∈ base16Chars, b ≠ slash := by decide
    simp only [mem_append, bne_iff_ne, ne_eq]
    rintro b ((((isStart | (inMode | inType)) | isColon) | isDigit) | isColon)
    · exact literals.1 b isStart
    · exact mode b inMode
    · exact type b inType
    · exact literals.2.1 b isColon
    · exact literals.2.2 b (mem_printHash isDigit)
    · exact literals.2.1 b isColon
  have path : (encode output.path).dropWhile (· != slash) = encode output.path := by
    cases bytes : encode output.path with
    | nil => rfl
    | cons b rest =>
      rw [bytes] at absolute
      obtain rfl : b = slash := Option.some.inj absolute
      simp
  rw [fixed.toDaemon]
  simp only [fixedOutputText]
  rw [dropWhile_append_of_pos front, path]

theorem fixedText_ne_printed (output : LibStore.Derivations.DerivationOutput)
    (drv : LibStore.Derivations.Derivation) : fixedOutputText output ≠ unparseDerivation drv := by
  intro same
  have heads := congrArg head? same
  have first : (fixedOutputText output).head? = some 102 := rfl
  have second : (unparseDerivation drv).head? = some 68 := rfl
  rw [first, second] at heads
  exact absurd heads (by decide)

/-- Derivations with the same text to hash have the same output paths. -/
theorem Stored.paths_of_hashedText (stored : Stored sha256 texts store d)
    (stored' : Stored sha256 texts store d')
    (same : hashedText sha256 d.fields = hashedText sha256 d'.fields) :
    d.fields.outputs.map (·.2.path) = d'.fields.outputs.map (·.2.path) := by
  have absolute : ∀ {d : Derivation} {output : DerivationOutput}, Stored sha256 texts store d →
      d.fields.outputs = [(str "out", output)] → isAbsolute (encode output.path) := by
    intro d output stored single
    apply stored.absolute
    rw [paths, toDaemon_outputs stored.hashable.clean.sorted, single]
    simp [toDaemonOutput]
  rcases stored.hashable.hashedText_cases with ⟨_, text⟩ | ⟨output, algo, h, single, fixed, _, text⟩ <;>
    rcases stored'.hashable.hashedText_cases with
      ⟨_, text'⟩ | ⟨output', algo', h', single', fixed', _, text'⟩ <;>
    rw [text, text'] at same
  · -- both are printed, and a printed text is read back
    have clean := clean_maskedInputs sha256 stored.hashable.distinct stored.hashable.clean
    have clean' := clean_maskedInputs sha256 stored'.hashable.distinct stored'.hashable.clean
    have sameDrv := LibStore.Derivations.unparseDerivation_injective clean.text clean'.text same
    have paths := outputPaths_eq clean.sorted clean'.sorted
      (congrArg outputs sameDrv)
    exact paths
  · exact absurd same.symm (fixedText_ne_printed _ _)
  · exact absurd same (fixedText_ne_printed _ _)
  · have paths := congrArg (dropWhile (· != slash)) same
    rw [fixed.path_of_text (absolute stored single), fixed'.path_of_text (absolute stored' single')] at paths
    rw [single, single', map_singleton, map_singleton, Utf8.encode_injective paths]

theorem base16String_injective {bv bv' : Bytes} (same : base16String bv = base16String bv') : bv = bv' := by
  have bytes := congrArg encode same
  rw [encode_base16String, encode_base16String] at bytes
  have parsed := congrArg parseBytes bytes
  rw [parseBytes_printBytes, parseBytes_printBytes] at parsed
  exact Option.some.inj parsed

section

variable (stored : Stored sha256 texts store d)
include stored

/-- So have derivations with the same hash, when there is no collision. -/
theorem Stored.paths_of_hash (hashes : HashedTexts sha256 texts)
    (stored' : Stored sha256 texts store d')
    (same : derivationHash sha256 d.fields = derivationHash sha256 d'.fields) :
    d.fields.outputs.map (·.2.path) = d'.fields.outputs.map (·.2.path) := by
  rw [derivationHash_eq, derivationHash_eq] at same
  apply stored.paths_of_hashedText stored'
  apply hashes.noCollision stored.hashable.hashed stored'.hashable.hashed
  apply Subtype.ext
  have type := (sha256 (hashedText sha256 d.fields)).2
  have type' := (sha256 (hashedText sha256 d'.fields)).2
  simp only [sha256Bytes] at same
  generalize (sha256 (hashedText sha256 d.fields)).1 = h at *
  generalize (sha256 (hashedText sha256 d'.fields)).1 = h' at *
  obtain ⟨t, bytes, size⟩ := h
  obtain ⟨t', bytes', size'⟩ := h'
  subst same type type'
  rfl

/-! ### The file -/

theorem Stored.readDerivation (fuel : Nat)
    (enough : (derivationBytevector fileName d.fields).length < fuel) :
    readDerivation store fuel (encode d.fileName) =
      .ok (toDaemon fileName d.fields) := by
  have clean := stored.hashable.clean
  rw [clean.bytevector] at enough
  have parsed := parseDerivation_printed _ clean.text stored.absolute
    (store.stale (encode d.fileName)) fuel enough
  rw [LibStore.Derivations.readDerivation, stored.contents, clean.bytevector]
  simp only [Except.mapError, bind, Except.bind, parsed]

/-- Nothing else is read from the file, whether from this store or from what it was before. -/
theorem Stored.readDerivation_unique {earlier : Store}
    (kept : ∀ path text, earlier.readFile path = .ok text → store.readFile path = .ok text)
    {fuel : Nat} {drv2 : LibStore.Derivations.Derivation}
    (ran : LibStore.Derivations.readDerivation earlier fuel (encode d.fileName) = .ok drv2) :
    drv2 = toDaemon fileName d.fields := by
  have clean := stored.hashable.clean
  rw [LibStore.Derivations.readDerivation] at ran
  cases read : earlier.readFile (encode d.fileName) with
  | error e =>
    rw [read] at ran
    cases ran
  | ok text =>
    have contents := kept _ _ read
    rw [stored.contents] at contents
    obtain rfl := Except.ok.inj contents
    rw [read, clean.bytevector] at ran
    simp only [Except.mapError, bind, Except.bind] at ran
    split at ran
    · next drv next parsed =>
      obtain rfl := Except.ok.inj ran
      exact LibStore.Derivations.parseDerivation_printed_unique _ _ clean.text stored.absolute _ _ _ parsed
    · cases ran
    · cases ran

theorem Stored.paths_of_file
    (stored' : Stored sha256 texts store d') (same : d.fileName = d'.fileName) :
    d.fields.outputs.map (·.2.path) = d'.fields.outputs.map (·.2.path) := by
  have clean := stored.hashable.clean
  have clean' := stored'.hashable.clean
  have contents := stored.contents
  rw [same, stored'.contents, clean.bytevector, clean'.bytevector] at contents
  have sameDrv := unparseDerivation_injective clean'.text clean.text
    (Except.ok.inj contents)
  exact (outputPaths_eq clean'.sorted clean.sorted
    (congrArg outputs sameDrv)).symm

end

end Hashable

/-! ### Calls of `derivation` -/

/-- The inputs of a call. -/
def DerivationArgs.derivationInputs (a : DerivationArgs) : List Input :=
  a.inputs.filterMap InputArg.toInput

/-- The strings of a call that are written to the derivation. -/
def DerivationArgs.strings (a : DerivationArgs) (storePrefix : Str) (addToStore : Str → Str) : List Str :=
  [a.system, a.builder] ++ a.args ++ a.hashAlgo.toList
    ++ (userSystemEnvVars a).flatMap (fun var => [var.1, var.2])
    ++ a.derivationInputs.flatMap (·.subDerivations)
    ++ (a.inputs.filterMap (InputArg.toSource storePrefix addToStore) ++ a.sources)

/-- What a call must be like. -/
structure Acceptable (storePrefix : Str) (addToStore : Str → Str) (a : DerivationArgs) : Prop where
  outputs : a.outputs.Nodup
  items : ∀ output ∈ a.outputs, checkStoreName (encode (outputItem a.name output)) = .ok ⟨⟩
  envVars : ((userSystemEnvVars a).map (·.1)).Nodup
  plain : ∀ s ∈ [a.system, a.builder], ∀ c ∈ s, c ∉ escapeCharSet
  requested : ∀ input ∈ a.derivationInputs, input.subDerivations.Pairwise (· < ·)
  fixed : a.hash ≠ none → a.outputs = [str "out"] ∧
    ∃ algo h, FixedOutput ⟨[], a.hashAlgo, a.hash, a.recursive⟩ algo h
  noNul : ∀ s ∈ a.strings storePrefix addToStore, '\x00' ∉ s
  short : ∀ output ∈ a.outputs, (encode output).length + (encode storePrefix).length
    + (encode (outputItem a.name output)).length + 200 < 2 ^ 32

section Made

variable (sha256 : Sha256) (storePrefix : Str) (texts : Set Bytes) (store : Store)

/-- The daemon has accepted the references and has written the text to the file `file`. -/
structure Written (name : Str) (fields : Fields Derivation) (file : Str) : Prop where
  references : ∀ reference ∈ derivationReferences fields,
    isStorePath (encode storePrefix) (encode reference) = true
  path : computeStorePathForText sha256 (encode storePrefix) (encode (name ++ str ".drv"))
      (derivationBytevector fileName fields)
      (pathSet ((derivationReferences fields).map encode)) = .ok (encode file)
  valid : store.isValidPath (encode file) = true
  contents : store.readFile (encode file) = .ok (derivationBytevector fileName fields)

/-- What `derivation` returned for a call with inputs that it returned. -/
inductive Made : Derivation → Prop
  | derivation (addToStore : Str → Str) (hashFold : HashFold) (a : DerivationArgs)
      (fields : Fields Derivation) (file : Str)
      (inputs : ∀ input ∈ a.derivationInputs, Made input.drv)
      (acceptable : Acceptable storePrefix addToStore a)
      (returned : derivationFields sha256 storePrefix addToStore hashFold a = some fields)
      (written : Written sha256 storePrefix store a.name fields file)
      (hashed : hashedText sha256 fields ∈ texts)
      (hashedMasked : hashedText sha256 (maskedDerivation storePrefix addToStore hashFold a) ∈ texts) :
      Made (.mk fields file)

section Call

variable {sha256 storePrefix texts store} {addToStore : Str → Str} {hashFold : HashFold}
  {a : DerivationArgs} {masked : Fields Derivation} (acceptable : Acceptable storePrefix addToStore a)
  (isMasked : masked = maskedDerivation storePrefix addToStore hashFold a)

section Masked

include isMasked

theorem mem_masked_inputs {input : Input} (isInput : input ∈ masked.inputs) :
    input ∈ coalesceDuplicateInputs hashFold a.derivationInputs := by
  subst isMasked
  exact (mem_sortBy _ _ _).mp isInput

theorem forall_masked_inputs {P : Derivation → Prop}
    (requested : ∀ input ∈ a.derivationInputs, input.subDerivations.Pairwise (· < ·))
    (given : ∀ input ∈ a.derivationInputs, P input.drv) : ∀ input ∈ masked.inputs, P input.drv := by
  intro input isInput
  obtain ⟨_, ⟨other, isOther, same⟩, _⟩ := mem_coalesceDuplicateInputs requested
    (mem_masked_inputs isMasked isInput)
  rw [same]
  exact given other isOther

theorem mem_masked_outputs (output : Str × DerivationOutput) : output ∈ masked.outputs ↔
    ∃ name ∈ a.outputs, output = (name, ⟨[], a.hashAlgo, a.hash, a.recursive⟩) := by
  simp only [isMasked, maskedDerivation, mem_map, mem_sortBy, eq_comm]

end Masked

include acceptable

/-- The name of an output is part of the name of a store item. -/
theorem Acceptable.plain_output {output : Str} (isOutput : output ∈ a.outputs) : Plain output := by
  have item := plain_of_checkStoreName _ (acceptable.items output isOutput)
  rw [outputItem] at item
  split at item
  · next isOut =>
    subst isOut
    intro c
    revert c
    decide
  · exact fun c inOutput => item c (mem_append_right _ inOutput)

/-! ### Output paths -/

/-- An output as it is before it has a path. -/
def DerivationArgs.output (a : DerivationArgs) : DerivationOutput := ⟨[], a.hashAlgo, a.hash, a.recursive⟩

variable (sha256) in
theorem Acceptable.makeOutputPath_eq (regular : a.hash = none) (output : Str)
    (isOutput : output ∈ a.outputs) (h : Sha256Hash) :
    makeOutputPath sha256 (encode storePrefix) (encode output) h.1 (encode a.name) =
      .ok (encode (pathOfOutput sha256 storePrefix a.name h.1.hash output a.output)) := by
  have short := acceptable.short output isOutput
  have size : h.1.type.size = 32 := by rw [h.2]; rfl
  rw [pathOfOutput, DerivationArgs.output, regular]
  apply Client.makeOutputPath_eq _ _ _ _ _ (acceptable.items output isOutput)
  have seven : (ascii "output:").length = 7 := by decide
  rw [length_fingerprint, length_append, seven]
  omega

variable (sha256) in
theorem Acceptable.makeFixedOutputPath_eq {algo : Str} {h : Hash} (single : a.outputs = [str "out"])
    (fixed : FixedOutput a.output algo h) (drvHash : Bytes) :
    makeFixedOutputPath sha256 (encode storePrefix) a.recursive h.type h (encode a.name) =
      .ok (encode (pathOfOutput sha256 storePrefix a.name drvHash (str "out") a.output)) := by
  have isOutput : str "out" ∈ a.outputs := by rw [single]; exact mem_singleton_self _
  have item : outputItem a.name (str "out") = a.name := if_pos rfl
  have accepted := acceptable.items _ isOutput
  have short := acceptable.short _ isOutput
  rw [item] at accepted short
  have hash : a.output.hash = some h.hash := fixed.hash
  have hashAlgo : a.output.hashAlgo = some algo := fixed.hashAlgo
  have length := LibStore.StoreItem.length_fingerprint_fixedOutput_le sha256 (encode storePrefix) a.recursive
    h.type h (encode a.name)
  rw [Client.makeFixedOutputPath_eq sha256 storePrefix a.name algo a.recursive h.type h fixed.algorithm
    accepted (by omega), pathOfOutput, hash, hashAlgo]
  rfl

variable (sha256) in
theorem Acceptable.path_made {output : Str} (isOutput : output ∈ a.outputs) (h : Sha256Hash) :
    ∃ type hash name, makeStorePath sha256 (encode storePrefix) type hash name =
      .ok (encode (pathOfOutput sha256 storePrefix a.name h.1.hash output a.output)) := by
  by_cases regular : a.hash = none
  · exact ⟨_, _, _, acceptable.makeOutputPath_eq sha256 regular output isOutput h⟩
  · obtain ⟨single, algo, g, fixed⟩ := acceptable.fixed regular
    obtain rfl : output = str "out" := by
      rw [single] at isOutput
      exact mem_singleton.mp isOutput
    have made := acceptable.makeFixedOutputPath_eq sha256 single fixed h.1.hash
    rw [makeFixedOutputPath] at made
    split at made
    · exact ⟨_, _, _, made⟩
    · exact ⟨_, _, _, made⟩

include isMasked

theorem Acceptable.shape_masked : FixedShape masked := by
  intro output isOutput hasHash
  obtain ⟨name, _, rfl⟩ := (mem_masked_outputs isMasked output).mp isOutput
  obtain ⟨single, fixed⟩ := acceptable.fixed hasHash
  refine ⟨?_, fixed⟩
  simp only [isMasked, maskedDerivation, single]
  rfl

theorem Acceptable.shape_paths : FixedShape (withOutputPaths sha256 storePrefix a.name masked) := by
  intro output isOutput hasHash
  obtain ⟨before, isBefore, rfl⟩ := mem_map.mp isOutput
  obtain ⟨single, algo, h, fixed⟩ := acceptable.shape_masked isMasked before isBefore hasHash
  have name : before.1 = str "out" := by
    rw [single] at isBefore
    rw [mem_singleton.mp isBefore]
  refine ⟨?_, algo, h, fixed.hash, fixed.hashAlgo, fixed.algorithm⟩
  simp only [withOutputPaths, single, map_singleton, name]

theorem Acceptable.outputs_made (output : Str × DerivationOutput)
    (isOutput : output ∈ (withOutputPaths sha256 storePrefix a.name masked).outputs) :
    ∃ type hash name, makeStorePath sha256 (encode storePrefix) type hash name =
      .ok (encode output.2.path) := by
  obtain ⟨before, isBefore, rfl⟩ := mem_map.mp isOutput
  obtain ⟨name, isName, rfl⟩ := (mem_masked_outputs isMasked before).mp isBefore
  have made := acceptable.path_made sha256 isName (sha256 (hashedText sha256 masked))
  rw [derivationHash_eq]
  exact made

/-- The strings of the derivation before it has output paths. -/
theorem Acceptable.escaped_noNul (s : Str) (isEscaped : s ∈ escapedStrings masked) : '\x00' ∉ s := by
  have given := acceptable.noNul
  simp only [DerivationArgs.strings, mem_append] at given
  simp only [escapedStrings, mem_append, mem_flatMap] at isEscaped
  rcases isEscaped with (((⟨output, isOutput, inOutput⟩ | ⟨input, isInput, isName⟩) | isSource) | isArg)
    | ⟨var, isVar, inVar⟩
  · obtain ⟨name, isName, rfl⟩ := (mem_masked_outputs isMasked output).mp isOutput
    simp only [mem_cons, not_mem_nil, or_false] at inOutput
    rcases inOutput with rfl | rfl | rfl | rfl
    · exact (acceptable.plain_output isName).noNul
    · exact not_mem_nil
    · rw [hashAlgoString]
      cases algo : a.hashAlgo with
      | none => exact not_mem_nil
      | some algo' =>
        have inAlgo : '\x00' ∉ algo' := given algo' (.inl (.inl (.inl (.inr (by simp [algo])))))
        have mode : ∀ recursive : Bool, '\x00' ∉ (if recursive then str "r:" else []) := by decide
        rw [mem_append, not_or]
        exact ⟨mode a.recursive, inAlgo⟩
    · rw [outputHash]
      cases a.hash with
      | none => exact not_mem_nil
      | some hash => exact (plain_base16String hash).noNul
  · obtain ⟨_, _, names⟩ := mem_coalesceDuplicateInputs acceptable.requested
      (mem_masked_inputs isMasked isInput)
    obtain ⟨other, isOther, inOther⟩ := names s isName
    exact given s (.inl (.inr (mem_flatMap.mpr ⟨other, isOther, inOther⟩)))
  · simp only [isMasked, maskedDerivation, mem_sortBy, mem_eraseDups, mem_append] at isSource
    exact given s (.inr isSource)
  · subst isMasked
    exact given s (.inl (.inl (.inl (.inl (.inr isArg)))))
  · simp only [isMasked, maskedDerivation, mem_sortBy, mem_envVarsWithEmptyOutputs] at isVar
    simp only [mem_cons, not_mem_nil, or_false] at inVar
    rcases isVar with ⟨isOutput, isEmpty⟩ | ⟨_, isVar⟩
    · rcases inVar with rfl | rfl
      · exact (acceptable.plain_output isOutput).noNul
      · rw [isEmpty]
        exact not_mem_nil
    · exact given s (.inl (.inl (.inr (mem_flatMap.mpr ⟨var, isVar, by simpa using inVar⟩))))

section Inputs

variable (hashes : HashedTexts sha256 texts)
  (storedInputs : ∀ input ∈ a.derivationInputs, Stored sha256 texts store input.drv)

omit acceptable isMasked in
theorem coalesceKey_eq {input other : Input}
    (paths : input.drv.fields.outputs.map (·.2.path) = other.drv.fields.outputs.map (·.2.path)) :
    coalesceKey input = coalesceKey other :=
  congrArg (stringJoin (str " ")) paths

include storedInputs

theorem Acceptable.clean_masked : Clean fileName masked := by
  have stored := forall_masked_inputs isMasked acceptable.requested storedInputs
  have escaped := acceptable.escaped_noNul isMasked
  have plainNames : ∀ s ∈ plainStrings fileName masked, Plain s ∨ s ∈ [a.system, a.builder] := by
    intro s isPlain
    rcases mem_append.mp isPlain with isName | isOther
    · obtain ⟨input, isInput, rfl⟩ := mem_map.mp isName
      exact .inl (stored input isInput).plain
    · subst isMasked
      exact .inr isOther
  subst isMasked
  constructor
  · constructor
    · apply pairwise_map.mpr
      exact sortBy_increasing id a.outputs (by rw [map_id]; exact acceptable.outputs)
    · -- inputs with the same file would have been coalesced
      apply sortBy_increasing fun input : Input => input.drv.fileName
      apply nodup_map_of_determined _ _ (coalesceDuplicateInputs_distinct acceptable.requested)
      intro input isInput other isOther same
      exact coalesceKey_eq ((stored input ((mem_sortBy _ _ _).mpr isInput)).paths_of_file
        (stored other ((mem_sortBy _ _ _).mpr isOther)) same)
    · intro input isInput
      exact (mem_coalesceDuplicateInputs acceptable.requested
        (mem_masked_inputs rfl isInput)).1
    · apply sortBy_increasing id
      rw [map_id]
      exact nodup_eraseDups _
    · exact sortBy_increasing _ _ (envVarsWithEmptyOutputs_distinct _ _ acceptable.envVars)
  · intro s isString
    rcases mem_append.mp isString with isEscaped | isPlain
    · exact escaped s isEscaped
    · rcases plainNames s isPlain with plain | isOther
      · exact plain.noNul
      · apply acceptable.noNul
        simp only [DerivationArgs.strings, mem_append]
        exact .inl (.inl (.inl (.inl (.inl isOther))))
  · intro s isPlain
    rcases plainNames s isPlain with plain | isOther
    · exact plain.noEscape
    · exact acceptable.plain s isOther

include hashes

/-- Inputs with the same hash would have been coalesced. -/
theorem Acceptable.distinct_masked : (masked.inputs.map (hashString16 sha256)).Nodup := by
  have stored := forall_masked_inputs isMasked acceptable.requested storedInputs
  have keys : (masked.inputs.map coalesceKey).Nodup := by
    subst isMasked
    exact ((sortBy_perm _ _).map coalesceKey).nodup_iff.mpr
      (coalesceDuplicateInputs_distinct acceptable.requested)
  apply nodup_map_of_determined _ _ keys
  intro input isInput other isOther same
  apply coalesceKey_eq
  exact (stored input isInput).paths_of_hash hashes (stored other isOther) (base16String_injective same)

end Inputs

end Call

section WithPaths

variable {sha256 storePrefix texts store} {name : Str} {drv : Fields Derivation}

theorem withOutputPaths_value (var : Str × Str)
    (isVar : var ∈ (withOutputPaths sha256 storePrefix name drv).envVars) :
    (∃ output ∈ (withOutputPaths sha256 storePrefix name drv).outputs,
      output.1 = var.1 ∧ var.2 = output.2.path) ∨ var ∈ drv.envVars := by
  obtain ⟨old, isOld, rfl⟩ := mem_map.mp isVar
  cases found : (withOutputPaths sha256 storePrefix name drv).outputs.find?
      fun output => output.1 = old.1 with
  | none =>
    right
    have value : (old.1, (Option.map (fun output : Str × DerivationOutput => output.2.path)
        ((withOutputPaths sha256 storePrefix name drv).outputs.find?
          fun output => output.1 = old.1)).getD old.2) = old := by
      rw [found]
      rfl
    exact value.symm ▸ isOld
  | some output =>
    left
    refine ⟨output, mem_of_find?_eq_some found, by simpa using find?_some found, ?_⟩
    change (Option.map _ ((withOutputPaths sha256 storePrefix name drv).outputs.find? _)).getD _ = _
    rw [found]
    rfl

theorem clean_withOutputPaths (clean : Clean fileName drv)
    (paths : ∀ output ∈ (withOutputPaths sha256 storePrefix name drv).outputs, Plain output.2.path) :
    Clean fileName (withOutputPaths sha256 storePrefix name drv) := by
  have sorted := clean.sorted
  have old : ∀ s ∈ escapedStrings drv, '\x00' ∉ s :=
    fun s isEscaped => clean.noNul s (mem_append_left _ isEscaped)
  simp only [escapedStrings, mem_append, mem_flatMap] at old
  constructor
  · exact ⟨pairwise_map.mpr sorted.outputs, sorted.inputs, sorted.subDerivations, sorted.sources,
      pairwise_map.mpr sorted.envVars⟩
  · intro s isString
    rcases mem_append.mp isString with isEscaped | isPlain
    · simp only [escapedStrings, mem_append, mem_flatMap] at isEscaped
      rcases isEscaped with (((⟨output, isOutput, inOutput⟩ | inInputs) | inSources) | inArgs)
        | ⟨var, isVar, inVar⟩
      · have plain := paths output isOutput
        obtain ⟨before, isBefore, rfl⟩ := mem_map.mp isOutput
        simp only [mem_cons, not_mem_nil, or_false] at inOutput
        rcases inOutput with rfl | rfl | rfl | rfl
        · exact old _ (.inl (.inl (.inl (.inl ⟨before, isBefore, by simp⟩))))
        · exact plain.noNul
        · exact old _ (.inl (.inl (.inl (.inl ⟨before, isBefore, by simp [hashAlgoString]⟩))))
        · exact old _ (.inl (.inl (.inl (.inl ⟨before, isBefore, by simp [outputHash]⟩))))
      · exact old s (.inl (.inl (.inl (.inr inInputs))))
      · exact old s (.inl (.inl (.inr inSources)))
      · exact old s (.inl (.inr inArgs))
      · simp only [mem_cons, not_mem_nil, or_false] at inVar
        rcases withOutputPaths_value var isVar with ⟨output, isOutput, sameName, value⟩ | isOld
        · rcases inVar with rfl | rfl
          · obtain ⟨before, isBefore, rfl⟩ := mem_map.mp isOutput
            exact sameName ▸ old _ (.inl (.inl (.inl (.inl ⟨before, isBefore, by simp⟩))))
          · exact value ▸ (paths output isOutput).noNul
        · exact old s (.inr ⟨var, isOld, by simpa using inVar⟩)
    · exact clean.noNul s (mem_append_right _ isPlain)
  · exact clean.plain

end WithPaths

theorem isAbsolute_of_isStorePath {nixStore path : Path} (inStore : isStorePath nixStore path = true) :
    isAbsolute path := by
  simp only [isStorePath, isInStore, isInDir, Bool.and_eq_true, beq_iff_eq] at inStore
  rw [isAbsolute, head?_eq_getElem?]
  exact inStore.1.1.1.1

variable {sha256 storePrefix texts store}

theorem returned_eq {addToStore : Str → Str} {hashFold : HashFold} {a : DerivationArgs}
    {fields : Fields Derivation}
    (returned : derivationFields sha256 storePrefix addToStore hashFold a = some fields) :
    ∃ masked, masked = maskedDerivation storePrefix addToStore hashFold a ∧
      fields = withOutputPaths sha256 storePrefix a.name masked := by
  rw [derivationFields, addOutputPaths] at returned
  split at returned
  · cases returned
  · exact ⟨_, rfl, (Option.some.inj returned).symm⟩

/-- What was made can be read from the store and hashed. -/
theorem Made.stored (directory : StoreDirectory storePrefix) (hashes : HashedTexts sha256 texts)
    {d : Derivation} (made : Made sha256 storePrefix texts store d) : Stored sha256 texts store d := by
  induction made with
  | derivation addToStore hashFold a fields file inputs acceptable returned written hashed _ ih =>
    obtain ⟨masked, isMasked, rfl⟩ := returned_eq returned
    have outputs := @Acceptable.outputs_made sha256 _ _ _ _ _ acceptable isMasked
    have plain : ∀ output ∈ (withOutputPaths sha256 storePrefix a.name masked).outputs,
        Plain output.2.path := by
      intro output isOutput
      obtain ⟨_, _, _, made⟩ := outputs output isOutput
      exact plain_of_makeStorePath directory made
    have clean := clean_withOutputPaths (acceptable.clean_masked isMasked ih) plain
    have distinct := acceptable.distinct_masked isMasked hashes ih
    refine ⟨⟨clean, acceptable.shape_paths isMasked, distinct, hashed⟩, ?_, ?_,
      written.valid, written.contents⟩
    · -- the daemon only accepts references that are absolute
      intro p isPath
      have references : ∀ s ∈ derivationReferences (withOutputPaths sha256 storePrefix a.name masked),
          isAbsolute (encode s) := fun s isReference => isAbsolute_of_isStorePath (written.references s isReference)
      have sources := stringSet_keys clean.sorted.sources
      simp only [paths, mem_append] at isPath
      rcases isPath with (isOutput | isInput) | isSource
      · rw [Derivation.fields, toDaemon_outputs clean.sorted, map_map] at isOutput
        obtain ⟨output, member, rfl⟩ := mem_map.mp isOutput
        obtain ⟨_, _, _, made⟩ := outputs output member
        exact absolute_of_makeStorePath directory made
      · rw [OrdMap.keys, Derivation.fields, toDaemon_inputDrvs clean.sorted, map_map] at isInput
        obtain ⟨input, member, rfl⟩ := mem_map.mp isInput
        exact references _ (mem_append_left _ (mem_map.mpr ⟨input, member, rfl⟩))
      · obtain ⟨source, member, rfl⟩ := mem_map.mp (sources ▸ isSource)
        exact references _ (mem_append_right _ member)
    · exact plain_of_makeStorePath directory written.path

theorem Made.inputs {d : Derivation} (made : Made sha256 storePrefix texts store d) :
    ∀ input ∈ d.fields.inputs, Made sha256 storePrefix texts store input.drv := by
  obtain ⟨addToStore, hashFold, a, fields, file, inputs, acceptable, returned, _, _, _⟩ := made
  obtain ⟨masked, isMasked, rfl⟩ := returned_eq returned
  exact forall_masked_inputs isMasked acceptable.requested inputs

end Made

end Guix.Client
