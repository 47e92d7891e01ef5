import Guix.LibStore.DerivationHash

/-!
# What the hash of a derivation tells

Two derivations with the same hash have the same outputs, sources, platform, builder,
arguments and environment, and request the same outputs from their input derivations, if
the outputs that each of them requests from input derivations of one hash are merged in the
last one. Without that the hash says nothing about the requests that were replaced.
-/

namespace Guix.LibStore.Derivations

open Grammar Hoare List Derivation OrdMap

variable {sha256 : Sha256} {store : Store} {drvHashes : DrvHashes} {drv drv1 drv2 : Derivation}

/-! ### The printed text determines the derivation -/

theorem unparseDerivation_injective (text1 : drv1.Text) (text2 : drv2.Text)
    (same : unparseDerivation drv1 = unparseDerivation drv2) : drv1 = drv2 := by
  have reads : ∀ drv : Derivation, drv.Text →
      parseFields parseString ((unparseDerivation drv).length + 1) ⟨unparseDerivation drv, .const 0⟩ =
        .ok drv ⟨ascii ")", .const 0⟩ := by
    intro drv text
    exact parseFields_unparseDerivation sinks_string opens_quoted drv
      (fun s inStrings => text s (mem_append_left _ inStrings))
      (fun p inPaths => quoted_printString (text p (mem_append_right _ inPaths)))
      (.const 0) _ (Nat.lt_succ_self _)
  have first := reads drv1 text1
  rw [same, reads drv2 text2] at first
  exact (EStateM.Result.ok.inj first).1.symm

/-! ### Requests -/

/-- The derivation requests this output from an input derivation of hash `h`. -/
def Requests (drvHashes : DrvHashes) (drv : Derivation) (h : Sha256Hash) (name : Bytes) : Prop :=
  ∃ input ∈ drv.inputDrvs.entries, drvHashes.find input.1 = some h ∧ name ∈ input.2.keys
  deriving Decidable

/-- Equal but for the input derivations, and with the same requests for every hash. -/
structure SameModulo (drvHashes : DrvHashes) (drv1 drv2 : Derivation) : Prop where
  outputs : drv1.outputs = drv2.outputs
  inputSrcs : drv1.inputSrcs = drv2.inputSrcs
  platform : drv1.platform = drv2.platform
  builder : drv1.builder = drv2.builder
  args : drv1.args = drv2.args
  env : drv1.env = drv2.env
  requests : ∀ h name, Requests drvHashes drv1 h name ↔ Requests drvHashes drv2 h name

abbrev LastInput (drvHashes : DrvHashes) (drv : Derivation) (input : Path × StringSet) : Prop :=
  LastOf (fun other : Path × StringSet => drvHashes.find other.1) drv.inputDrvs.entries input

/-- Of the input derivations of one hash the last one, in the order of their paths, requests
all outputs that are requested from any of them. -/
def Merged (drvHashes : DrvHashes) (drv : Derivation) : Prop :=
  ∀ last h, LastInput drvHashes drv last → drvHashes.find last.1 = some h →
    ∀ name, Requests drvHashes drv h name → name ∈ last.2.keys

theorem mem_mask (known : Known drvHashes drv) (entry : Bytes × StringSet) :
    entry ∈ (mask drvHashes drv).inputDrvs.entries ↔
      ∃ input, LastInput drvHashes drv input ∧ maskInput drvHashes input = some entry := by
  rw [mask, mem_ofList]
  apply lastOf_filterMap
  · intro input isInput
    obtain ⟨h, found⟩ := known input isInput
    simp [maskInput, found]
  · intro a b a' b' maskedA maskedB
    obtain ⟨g, foundG, rfl⟩ := Option.map_eq_some_iff.mp maskedA
    obtain ⟨h, foundH, rfl⟩ := Option.map_eq_some_iff.mp maskedB
    rw [foundG, foundH]
    constructor
    · exact fun same => congrArg some (printHash_injective same)
    · exact fun same => by rw [Option.some.inj same]

theorem requests_iff_mask (known : Known drvHashes drv) (merged : Merged drvHashes drv)
    (h : Sha256Hash) (name : Bytes) :
    Requests drvHashes drv h name ↔
      ∃ names, (printHash h.1, names) ∈ (mask drvHashes drv).inputDrvs.entries ∧
        name ∈ names.keys := by
  constructor
  · intro requests
    have ⟨input, isInput, found, _⟩ := requests
    obtain ⟨last, isLast, same⟩ := exists_lastOf
      (fun other => drvHashes.find other.1) ⟨input, isInput, found⟩
    refine ⟨last.2, (mem_mask known _).mpr ⟨last, isLast, ?_⟩, merged last h isLast same name requests⟩
    rw [maskInput, same]
    rfl
  · rintro ⟨names, isEntry, isName⟩
    obtain ⟨last, isLast, masked⟩ := (mem_mask known _).mp isEntry
    obtain ⟨g, found, same⟩ := Option.map_eq_some_iff.mp masked
    obtain ⟨sameHash, rfl⟩ := Prod.mk.inj same
    exact ⟨last, isLast.mem, by rw [found, printHash_injective sameHash], isName⟩

theorem mask_extends {s s' : DrvHashes} (known : Known s drv) (more : Extends s s') :
    mask s' drv = mask s drv := by
  rw [mask, mask, maskInput_extends more known]

theorem Known.extends {s s' : DrvHashes} (known : Known s drv) (more : Extends s s') :
    Known s' drv := by
  intro input isInput
  obtain ⟨h, found⟩ := known input isInput
  exact ⟨h, more _ _ found⟩

theorem Merged.extends {s s' : DrvHashes} (merged : Merged s drv) (known : Known s drv)
    (more : Extends s s') : Merged s' drv := by
  have same : ∀ input ∈ drv.inputDrvs.entries, s'.find input.1 = s.find input.1 := by
    intro input isInput
    obtain ⟨h, found⟩ := known input isInput
    rw [found, more _ _ found]
  rintro last h isLast found name ⟨input, isInput, foundInput, isName⟩
  have isLast' : LastInput s drv last := by
    obtain ⟨before, after, split, others⟩ := isLast
    refine ⟨before, after, split, fun other later => ?_⟩
    have apart : s'.find other.1 ≠ s'.find last.1 := others other later
    rwa [same other (by simp [split, later]), same last (by simp [split])] at apart
  apply merged last h isLast'
  · rwa [← same last isLast.mem]
  · exact ⟨input, isInput, by rwa [← same input isInput], isName⟩

theorem sameModulo_of_mask (known1 : Known drvHashes drv1) (known2 : Known drvHashes drv2)
    (merged1 : Merged drvHashes drv1) (merged2 : Merged drvHashes drv2)
    (same : mask drvHashes drv1 = mask drvHashes drv2) : SameModulo drvHashes drv1 drv2 := by
  obtain ⟨outputs, -, inputSrcs, platform, builder, args, env⟩ := mk.inj same
  refine ⟨outputs, inputSrcs, platform, builder, args, env, fun h name => ?_⟩
  rw [requests_iff_mask known1 merged1, requests_iff_mask known2 merged2, same]

/-! ### The text of a masked derivation -/

theorem zero_notMem_printHash (h : Hash) : 0 ∉ printHash h :=
  fun isDigit => absurd (mem_printHash isDigit) (by decide)

theorem Derivation.Text.input (text : drv.Text) {input : Path × StringSet}
    (isInput : input ∈ drv.inputDrvs.entries) : 0 ∉ input.1 ∧ ∀ name ∈ input.2.keys, 0 ∉ name := by
  constructor
  · apply text
    simp only [paths, OrdMap.keys, mem_append]
    exact .inr (.inl (.inr (mem_map_of_mem isInput)))
  · intro name isName
    apply text
    simp only [strings, mem_append, mem_flatMap]
    exact .inl (.inl (.inl (.inl (.inr ⟨input, isInput, isName⟩))))

theorem Derivation.Text.withInputs (text : drv.Text) {inputs : OrdMap Path StringSet}
    (inputTexts : ∀ input ∈ inputs.entries, 0 ∉ input.1 ∧ ∀ name ∈ input.2.keys, 0 ∉ name) :
    Text { drv with inputDrvs := inputs } := by
  intro s inNew
  have original := text s
  simp only [strings, paths, mem_append, mem_flatMap] at inNew original
  rcases inNew with ((((output | ⟨input, isInput, isName⟩) | fixed) | arg) | var) | (outPath | isKey) | source
  · exact original (.inl (.inl (.inl (.inl (.inl output)))))
  · exact (inputTexts input isInput).2 s isName
  · exact original (.inl (.inl (.inl (.inr fixed))))
  · exact original (.inl (.inl (.inr arg)))
  · exact original (.inl (.inr var))
  · exact original (.inr (.inl (.inl outPath)))
  · obtain ⟨input, isInput, rfl⟩ := mem_map.mp isKey
    exact (inputTexts input isInput).1
  · exact original (.inr (.inr source))

theorem mask_text (known : Known drvHashes drv) (text : drv.Text) : (mask drvHashes drv).Text := by
  refine text.withInputs fun entry isEntry => ?_
  obtain ⟨input, isLast, masked⟩ := (mem_mask known entry).mp isEntry
  obtain ⟨h, _, rfl⟩ := Option.map_eq_some_iff.mp masked
  exact ⟨zero_notMem_printHash h.1, (text.input isLast.mem).2⟩

theorem length_commas_le (first : Bool) (items : List Bytes) :
    (commas first items).length ≤ (items.map fun item => item.length + 1).sum := by
  induction items generalizing first with
  | nil => exact Nat.le_refl _
  | cons item items ih =>
    have rest := ih false
    have separator : (if first then [] else ascii ",").length ≤ 1 := by cases first <;> decide
    simp only [commas, length_append, map_cons, sum_cons]
    omega

theorem sum_le_length_commas (first : Bool) (items : List Bytes) :
    (items.map length).sum ≤ (commas first items).length := by
  induction items generalizing first with
  | nil => exact Nat.le_refl _
  | cons item items ih =>
    have rest := ih false
    simp only [commas, length_append, map_cons, sum_cons]
    omega

/-- The input derivations are one part of the text. -/
theorem length_unparseDerivation (inputs : OrdMap Path StringSet) :
    (unparseDerivation { drv with inputDrvs := inputs }).length =
      (unparseDerivation { drv with inputDrvs := .empty }).length +
        (commas true (inputs.entries.map printInputDrv)).length := by
  simp only [unparseDerivation, length_append, empty, map_nil, commas,
    length_nil, Nat.add_zero]
  ac_rfl

theorem length_unparseDerivation_le (inputs : OrdMap Path StringSet) (extra : Nat)
    (bound : (commas true (inputs.entries.map printInputDrv)).length ≤
      (commas true (drv.inputDrvs.entries.map printInputDrv)).length + extra) :
    (unparseDerivation { drv with inputDrvs := inputs }).length ≤
      (unparseDerivation drv).length + extra := by
  have whole : (unparseDerivation drv).length = _ := length_unparseDerivation drv.inputDrvs
  rw [length_unparseDerivation, whole]
  omega

/-- The text with room for a hash in the place of each input derivation fits `unsigned int`. -/
def Short (drv : Derivation) : Prop :=
  (unparseDerivation drv).length + 65 * drv.inputDrvs.entries.length < 2 ^ 32

theorem printString_hash (h : Hash) : printString (printHash h) = [quote] ++ printHash h ++ [quote] := by
  have plain : ∀ c ∈ base16Chars, escape c = [c] := by decide
  have noEscape : (printHash h).flatMap escape = printHash h := by
    rw [flatMap_congr fun c isDigit => plain c (mem_printHash isDigit), flatMap_singleton']
  rw [printString, cstr_eq_self (zero_notMem_printHash h), noEscape]

theorem length_maskInput_le {input : Path × StringSet} {entry : Bytes × StringSet}
    (masked : maskInput drvHashes input = some entry) :
    (printInputDrv entry).length + 1 ≤ (printInputDrv input).length + 65 := by
  obtain ⟨h, _, rfl⟩ := Option.map_eq_some_iff.mp masked
  have hashLength : (printString (printHash h.1)).length = 66 := by
    rw [printString_hash, length_append, length_append, length_printHash, h.2]
    rfl
  have pathLength : 2 ≤ (printString input.1).length := by
    simp [printString]
  simp only [printInputDrv, length_append, hashLength]
  omega

theorem mask_short (short : Short drv) : (unparseDerivation (mask drvHashes drv)).length < 2 ^ 32 := by
  have items : ∀ inputs : List (Path × StringSet),
      ((inputs.filterMap (maskInput drvHashes)).map fun entry => (printInputDrv entry).length + 1).sum
        ≤ ((inputs.map printInputDrv).map length).sum + 65 * inputs.length := by
    intro inputs
    induction inputs with
    | nil => exact Nat.le_refl _
    | cons input inputs ih =>
      simp only [map_cons, sum_cons, length_cons]
      cases masked : maskInput drvHashes input with
      | none =>
        rw [filterMap_cons_none masked]
        omega
      | some entry =>
        have bound := length_maskInput_le masked
        rw [filterMap_cons_some masked, map_cons, sum_cons]
        omega
  have list : (commas true ((mask drvHashes drv).inputDrvs.entries.map printInputDrv)).length ≤
      (commas true (drv.inputDrvs.entries.map printInputDrv)).length +
        65 * drv.inputDrvs.entries.length := by
    calc (commas true ((mask drvHashes drv).inputDrvs.entries.map printInputDrv)).length
        ≤ ((mask drvHashes drv).inputDrvs.entries.map
            fun entry => (printInputDrv entry).length + 1).sum := by
          have bound := length_commas_le true ((mask drvHashes drv).inputDrvs.entries.map printInputDrv)
          rwa [map_map] at bound
      _ ≤ ((drv.inputDrvs.entries.filterMap (maskInput drvHashes)).map
            fun entry => (printInputDrv entry).length + 1).sum := sum_ofList_le _ _
      _ ≤ ((drv.inputDrvs.entries.map printInputDrv).map length).sum +
            65 * drv.inputDrvs.entries.length := items _
      _ ≤ _ := Nat.add_le_add_right (sum_le_length_commas true _) _
  have bound : (unparseDerivation (mask drvHashes drv)).length ≤ _ :=
    length_unparseDerivation_le _ _ list
  rw [Short] at short
  omega

/-! ### Confusion -/

/-- The derivation without the input derivations whose requests are replaced. -/
def prune (drvHashes : DrvHashes) (drv : Derivation) : Derivation :=
  { drv with inputDrvs :=
      ⟨lastOfEach (fun input => drvHashes.find input.1) drv.inputDrvs.entries,
        drv.inputDrvs.sorted.sublist (lastOfEach_sublist _)⟩ }

theorem prune_known (known : Known drvHashes drv) : Known drvHashes (prune drvHashes drv) :=
  fun input isInput => known input ((lastOfEach_sublist _).subset isInput)

theorem lastInput_prune (input : Path × StringSet) :
    LastInput drvHashes (prune drvHashes drv) input ↔ LastInput drvHashes drv input :=
  lastOf_lastOfEach _ input

theorem mask_prune (known : Known drvHashes drv) :
    mask drvHashes (prune drvHashes drv) = mask drvHashes drv := by
  have inputs : (mask drvHashes (prune drvHashes drv)).inputDrvs = (mask drvHashes drv).inputDrvs := by
    apply ext_mem
    intro entry
    simp only [mem_mask known, mem_mask (prune_known known), lastInput_prune]
  have others : mask drvHashes (prune drvHashes drv) =
      { mask drvHashes drv with inputDrvs := (mask drvHashes (prune drvHashes drv)).inputDrvs } := rfl
  rw [others, inputs]

theorem requests_prune {h : Sha256Hash} {name : Bytes}
    (requests : Requests drvHashes (prune drvHashes drv) h name) :
    ∃ last, LastInput drvHashes drv last ∧ drvHashes.find last.1 = some h ∧ name ∈ last.2.keys := by
  obtain ⟨input, isInput, found, isName⟩ := requests
  exact ⟨input, (mem_lastOfEach _ _).mp isInput, found, isName⟩

theorem prune_merged : Merged drvHashes (prune drvHashes drv) := by
  intro last h isLast found name requests
  obtain ⟨other, isLastOther, foundOther, isName⟩ := requests_prune requests
  have same : other = last :=
    isLastOther.unique ((lastInput_prune last).mp isLast) (foundOther.trans found.symm)
  exact same ▸ isName

/-- A derivation is merged if it requests no more than what is left when it is pruned. -/
theorem merged_of_prune (same : SameModulo drvHashes drv (prune drvHashes drv)) :
    Merged drvHashes drv := by
  intro last h isLast found name requests
  obtain ⟨other, isLastOther, foundOther, isName⟩ := requests_prune ((same.requests h name).mp requests)
  exact isLastOther.unique isLast (foundOther.trans found.symm) ▸ isName

theorem prune_text (text : drv.Text) : (prune drvHashes drv).Text :=
  text.withInputs fun _ isInput => text.input ((lastOfEach_sublist _).subset isInput)

theorem length_commas_sublist {items items' : List Bytes} (sublist : items'.Sublist items)
    (first : Bool) : (commas first items').length ≤ (commas first items).length := by
  induction sublist generalizing first with
  | slnil => exact Nat.le_refl _
  | @cons items' items item _ ih =>
    have comma : (commas first items').length ≤ (commas false items').length := by
      cases items' with
      | nil => exact Nat.le_refl _
      | cons => cases first <;> simp [commas]
    have rest := ih false
    simp only [commas, length_append]
    omega
  | cons_cons item _ ih =>
    simp only [commas, length_append]
    exact Nat.add_le_add_left (ih false) _

theorem prune_short (short : Short drv) : Short (prune drvHashes drv) := by
  have sublist : (prune drvHashes drv).inputDrvs.entries.Sublist drv.inputDrvs.entries :=
    lastOfEach_sublist _
  have fewer := sublist.length_le
  have list := length_commas_sublist (sublist.map printInputDrv) true
  have bound : (unparseDerivation (prune drvHashes drv)).length ≤ _ :=
    length_unparseDerivation_le _ 0 list
  rw [Short] at short ⊢
  omega

theorem inputHash_cached {path : Path} {h : Sha256Hash} (cached : drvHashes.find path = some h)
    (fuel : Nat) (recurse : Derivation → HashM Sha256Hash) :
    wp (inputHash store fuel recurse path) (fun g s => g = h ∧ s = drvHashes) (fun _ _ => False)
      drvHashes := by
  rw [inputHash, wp_bind, wp_get, cached]
  exact ⟨rfl, rfl⟩

variable (sha256 store) in
/-- With the hashes of all input derivations in the table no file is read. -/
theorem hashDerivationModulo_cached (known : Known drvHashes drv)
    (notFixed : isFixedOutputDrv drv = false) :
    hashDerivationModulo sha256 store 1 drv drvHashes =
      .ok (hashString sha256 (unparseDerivation (mask drvHashes drv))) drvHashes := by
  have none : fixedOutput drv = none := by simpa [isFixedOutputDrv] using notFixed
  have runs : wp (hashDerivationModulo sha256 store 1 drv) (fun hash s =>
      hash = hashString sha256 (unparseDerivation (mask drvHashes drv)) ∧ s = drvHashes)
      (fun _ _ => False) drvHashes := by
    rw [hashDerivationModulo, none]
    simp only [wp_bind, wp_pure]
    have loop := wp_foldlM drv.inputDrvs.entries
      (addInput store 0 (hashDerivationModulo sha256 store 0)) .empty
      (fun done inputs2 s => inputs2 = ofList (done.filterMap (maskInput drvHashes)) ∧
        s = drvHashes) (fun _ _ => False) drvHashes ⟨rfl, rfl⟩
    apply wp_imp (loop ?_)
    rintro inputs2 s ⟨rfl, rfl⟩
    exact ⟨rfl, rfl⟩
    · rintro done input todo inputs2 s split ⟨rfl, rfl⟩
      obtain ⟨h, found⟩ := known input (by simp [split])
      rw [addInput, wp_bind]
      apply wp_imp (inputHash_cached found 0 _)
      rintro g s ⟨rfl, rfl⟩
      exact ⟨(ofList_maskInput_append done found).symm, rfl⟩
  obtain ⟨hash, s, ran, rfl, rfl⟩ := wp_returns runs
  exact ran

/-- A derivation is confused with no merged one if and only if it is merged itself. Here
`texts` are strings among which SHA-256 has no collision, and what is hashed is one of them. -/
theorem hashDerivationModulo_same_iff (texts : Set Bytes) (noCollision : texts.InjOn sha256)
    (fuel : Nat) (before after : DrvHashes) (hash : Sha256Hash)
    (ran : hashDerivationModulo sha256 store fuel drv before = .ok hash after)
    (notFixed : isFixedOutputDrv drv = false) (text : drv.Text) (short : Short drv)
    (hashed : unparseDerivation (mask after drv) ∈ texts) :
    Merged after drv ↔
      ∀ fuel2 drv2 after2, hashDerivationModulo sha256 store fuel2 drv2 after = .ok hash after2 →
        isFixedOutputDrv drv2 = false → drv2.Text → Short drv2 →
        unparseDerivation (mask after2 drv2) ∈ texts → Merged after2 drv2 →
        SameModulo after2 drv drv2 := by
  have spec := hashDerivationModulo_spec sha256 store fuel drv before notFixed
  obtain ⟨_, known, isHash⟩ := wp_ok spec ran
  rw [hashString_of_lt sha256 (mask_short short)] at isHash
  constructor
  · intro merged fuel2 drv2 after2 ran2 notFixed2 text2 short2 hashed2 merged2
    have spec2 := hashDerivationModulo_spec sha256 store fuel2 drv2 after notFixed2
    obtain ⟨more, known2, isHash2⟩ := wp_ok spec2 ran2
    rw [hashString_of_lt sha256 (mask_short short2)] at isHash2
    -- no collision, so the masked derivations are printed alike
    have sameText := noCollision hashed hashed2 (isHash.symm.trans isHash2)
    have same := unparseDerivation_injective (mask_text known text) (mask_text known2 text2) sameText
    rw [← mask_extends known more] at same
    exact sameModulo_of_mask (known.extends more) known2 (merged.extends known more) merged2 same
  · intro notConfused
    apply merged_of_prune
    apply notConfused 1 (prune after drv) after
    · rw [hashDerivationModulo_cached sha256 store (prune_known known) notFixed, mask_prune known, isHash,
        hashString_of_lt sha256 (mask_short short)]
    · exact notFixed
    · exact prune_text text
    · exact prune_short short
    · rwa [mask_prune known]
    · exact prune_merged

/-! ### Two packages that differ in how their source is fetched -/

/-- A hash that keeps the length of its input apart. -/
def lengthHash : Sha256 := fun s =>
  ⟨⟨.sha256, replicate 32 (UInt8.ofNat s.length), length_replicate⟩, rfl⟩

/-- A derivation that runs `/sh` with these arguments. -/
def script (outputs : List (Bytes × DerivationOutput)) (inputs : List (Path × List Bytes))
    (args : List Bytes) : Derivation where
  outputs := .ofList outputs
  inputDrvs := .ofList (inputs.map fun input => (input.1, .ofList (input.2.map (·, ⟨⟩))))
  inputSrcs := .empty
  platform := ascii "x"
  builder := ascii "/sh"
  args := args
  env := .empty

def source : DerivationOutput := ⟨ascii "/gnu/src", ascii "sha256", ascii "00"⟩

def fetch (url : Bytes) : Derivation := script [(ascii "out", source)] [] [url]

/-- A package with two outputs. -/
def package (fetcher : Path) : Derivation :=
  script [(ascii "dev", ⟨ascii "/gnu/dev", [], []⟩), (ascii "out", ⟨ascii "/gnu/out", [], []⟩)]
    [(fetcher, [ascii "out"])] []

/-- The two packages `/gnu/1` and `/gnu/2` differ only in the mirror their source is from. -/
def mirrors : Store where
  isValidPath _ := true
  readFile path :=
    if path = ascii "/gnu/1" then .ok (unparseDerivation (package (ascii "/gnu/f")))
    else if path = ascii "/gnu/2" then .ok (unparseDerivation (package (ascii "/gnu/g")))
    else if path = ascii "/gnu/f" then .ok (unparseDerivation (fetch (ascii "mirror")))
    else .ok (unparseDerivation (fetch (ascii "other mirror")))
  stale _ := .const 0

/-- The two packages have the same hash. -/
def sameHash : DrvHashes :=
  (empty.insert (ascii "/gnu/1") (lengthHash [])).insert (ascii "/gnu/2") (lengthHash [])

/-- What the first package is asked for, the second one is asked for too. -/
def usesMore : Derivation :=
  script [(ascii "out", ⟨[], [], []⟩)]
    [(ascii "/gnu/1", [ascii "dev"]), (ascii "/gnu/2", [ascii "dev", ascii "out"])] []

theorem hashDerivationModulo_same_usesMore : Merged sameHash usesMore ∧
    ∀ fuel2 drv2 after2, hashDerivationModulo lengthHash mirrors fuel2 drv2 sameHash =
        .ok (lengthHash (unparseDerivation (mask sameHash usesMore))) after2 →
      isFixedOutputDrv drv2 = false → drv2.Text → Short drv2 →
      unparseDerivation (mask after2 drv2) = unparseDerivation (mask sameHash usesMore) →
      Merged after2 drv2 → SameModulo after2 usesMore drv2 := by
  have inputs : ∀ input ∈ usesMore.inputDrvs.entries, sameHash.find input.1 = some (lengthHash []) ∧
      ∀ name ∈ input.2.keys, name ∈ [ascii "dev", ascii "out"] := by decide +kernel
  have known : Known sameHash usesMore := fun input isInput => ⟨_, (inputs input isInput).1⟩
  have merged : Merged sameHash usesMore := by
    rintro last h isLast _ name ⟨input, isInput, _, isName⟩
    have second : LastInput sameHash usesMore (ascii "/gnu/2", ofList [(ascii "dev", ⟨⟩), (ascii "out", ⟨⟩)]) :=
      ⟨[_], [], rfl, nofun⟩
    obtain rfl := isLast.unique second ((inputs last isLast.mem).1.trans (inputs _ second.mem).1.symm)
    exact (inputs input isInput).2 name isName
  have short : Short usesMore := by
    unfold Short
    decide +kernel
  have ran := hashDerivationModulo_cached lengthHash mirrors known (by decide +kernel)
  rw [hashString_of_lt _ (mask_short short)] at ran
  exact ⟨merged, (hashDerivationModulo_same_iff {unparseDerivation (mask sameHash usesMore)}
    (Set.injOn_singleton _ _) 1 sameHash sameHash _ ran (by decide +kernel)
    (by unfold Text; decide +kernel) short rfl).mp merged⟩

def usesBoth : Derivation :=
  script [(ascii "out", ⟨[], [], []⟩)] [(ascii "/gnu/1", [ascii "dev"]), (ascii "/gnu/2", [ascii "out"])] []

def usesOne : Derivation :=
  script [(ascii "out", ⟨[], [], []⟩)] [(ascii "/gnu/2", [ascii "out"])] []

/-- The texts that are hashed, given the table that results. -/
def hashedTexts (drvHashes : DrvHashes) : List Bytes :=
  [fixedOutputText source, unparseDerivation (mask drvHashes (package (ascii "/gnu/f"))),
    unparseDerivation (mask drvHashes usesOne)]

/-- The output `dev` that `usesBoth` requests does not show in its hash. -/
theorem hashDerivationModulo_confuses :
    ∃ hash after after2,
      hashDerivationModulo lengthHash mirrors 300 usesBoth .empty = .ok hash after ∧
      hashDerivationModulo lengthHash mirrors 300 usesOne after = .ok hash after2 ∧
      isFixedOutputDrv usesBoth = false ∧ isFixedOutputDrv usesOne = false ∧
      {s | s ∈ hashedTexts after2}.InjOn lengthHash ∧ ¬ SameModulo after2 usesBoth usesOne := by
  have runs : (match hashDerivationModulo lengthHash mirrors 300 usesBoth .empty with
      | .ok hash after =>
        match hashDerivationModulo lengthHash mirrors 300 usesOne after with
        | .ok hash2 after2 => decide (hash = hash2 ∧
            (∀ a ∈ hashedTexts after2, ∀ b ∈ hashedTexts after2, lengthHash a = lengthHash b → a = b) ∧
            ∃ entry ∈ after2.entries, Requests after2 usesBoth entry.2 (ascii "dev") ∧
              ¬ Requests after2 usesOne entry.2 (ascii "dev"))
        | .error _ _ => false
      | .error _ _ => false) = true := by decide +kernel
  cases outcome : hashDerivationModulo lengthHash mirrors 300 usesBoth .empty with
  | error => simp only [outcome, Bool.false_eq_true] at runs
  | ok hash after =>
    cases outcome2 : hashDerivationModulo lengthHash mirrors 300 usesOne after with
    | error => simp only [outcome, outcome2, Bool.false_eq_true] at runs
    | ok hash2 after2 =>
      simp only [outcome, outcome2, decide_eq_true_eq] at runs
      obtain ⟨rfl, apart, entry, _, requested, notRequested⟩ := runs
      refine ⟨hash, after, after2, rfl, outcome2, by decide, by decide, ?_, ?_⟩
      · exact fun a isA b isB => apart a isA b isB
      · exact fun same => notRequested ((same.requests entry.2 (ascii "dev")).mp requested)

end Guix.LibStore.Derivations
