import Guix.Client.DerivationMade
import Guix.LibStore.CheckDerivationOutputs

/-!
# The daemon accepts what `derivation` makes

The daemon's table of hashes agrees with `derivation-hash` on every derivation that was made,
whatever else has been hashed before. It therefore computes the paths that the client wrote.
-/

namespace Guix.Client

open Sorting Hoare List LibStore.Derivations Derivation LibStore OrdMap

variable {d : Derivation} {table : DrvHashes} {output : Str × DerivationOutput}

section

variable (sha256 : Sha256) (storePrefix : Str) (texts : Set Bytes) (store : Store)

/-! ### The hashes agree -/

/-- For what was made the table has the client's hash. -/
def Agrees (table : DrvHashes) : Prop :=
  ∀ d, Made sha256 storePrefix texts store d → ∀ h, table.find (encode d.fileName) = some h →
    h.1.hash = derivationHash sha256 d.fields

/-- What can be hashed, with inputs that were made. -/
structure Ready (drv : Fields Derivation) : Prop where
  hashable : Hashable sha256 texts drv
  inputs : ∀ input ∈ drv.inputs, Made sha256 storePrefix texts store input.drv

variable {sha256 storePrefix texts store}

theorem Made.ready (directory : StoreDirectory storePrefix) (hashes : HashedTexts sha256 texts)
    (made : Made sha256 storePrefix texts store d) :
    Ready sha256 storePrefix texts store d.fields :=
  ⟨(made.stored directory hashes).hashable, made.inputs⟩

theorem Agrees.insert (agrees : Agrees sha256 storePrefix texts store table) {path : Path} {h : Sha256Hash}
    (new : ∀ d, Made sha256 storePrefix texts store d → encode d.fileName = path →
      h.1.hash = derivationHash sha256 d.fields) :
    Agrees sha256 storePrefix texts store (table.insert path h) := by
  intro d made g found
  rw [find_eq_some_iff, mem_insert] at found
  rcases found with isNew | ⟨_, isOld⟩
  · obtain ⟨same, rfl⟩ := Prod.mk.inj isNew
    exact new d made same
  · exact agrees d made g ((find_eq_some_iff _ _ _).mpr isOld)

/-- The hash of a printed derivation, once the table has the hashes of its inputs. -/
theorem Ready.hash_mask (hashes : HashedTexts sha256 texts) {drv : Fields Derivation}
    (ready : Ready sha256 storePrefix texts store drv)
    (agrees : Agrees sha256 storePrefix texts store table)
    (known : Known table (toDaemon fileName drv))
    (regular : fixedOutput (toDaemon fileName drv) = none) :
    (hashString sha256 (unparseDerivation (mask table (toDaemon fileName drv)))).1.hash =
      derivationHash sha256 drv := by
  have hashable := ready.hashable
  have inTable : ∀ input ∈ drv.inputs, ∃ h, table.find (encode input.drv.fileName) = some h ∧
      h.1.hash = derivationHash sha256 input.drv.fields := by
    intro input isInput
    obtain ⟨h, found⟩ := known (encode input.drv.fileName, stringSet input.subDerivations) (by
      rw [toDaemon_inputDrvs hashable.clean.sorted]
      exact mem_map.mpr ⟨input, isInput, rfl⟩)
    exact ⟨h, found, agrees _ (ready.inputs input isInput) h found⟩
  rcases hashable.hashedText_cases with ⟨_, text⟩ | ⟨output, _, _, _, _, isFixed, _⟩
  · rw [mask_eq sha256 hashable.distinct hashable.clean table inTable, ← text,
      hashString_of_lt sha256 (hashes.short _ hashable.hashed), derivationHash_eq]
    rfl
  · rw [regular] at isFixed
    cases isFixed

/-- Whatever is hashed, the table keeps agreeing, and for what was made the hash is the
client's. -/
theorem hashDerivationModulo_agrees (directory : StoreDirectory storePrefix)
    (hashes : HashedTexts sha256 texts) {earlier : Store}
    (kept : ∀ path text, earlier.readFile path = .ok text → store.readFile path = .ok text)
    (fuel : Nat) (drv : LibStore.Derivations.Derivation) (s : DrvHashes)
    (agrees : Agrees sha256 storePrefix texts store s) :
    wp (hashDerivationModulo sha256 earlier fuel drv)
      (fun h s' => Agrees sha256 storePrefix texts store s' ∧
        ∀ fields, Ready sha256 storePrefix texts store fields →
          drv = toDaemon fileName fields → h.1.hash = derivationHash sha256 fields)
      (fun _ => Agrees sha256 storePrefix texts store) s := by
  induction fuel generalizing drv s with
  | zero => exact agrees
  | succ fuel ih =>
    rw [hashDerivationModulo]
    split
    · next out isFixed =>
      refine ⟨agrees, fun fields ready same => ?_⟩
      subst same
      rcases ready.hashable.hashedText_cases with ⟨regular, _⟩ | ⟨output, _, _, _, _, isFixed', text⟩
      · rw [regular] at isFixed
        cases isFixed
      · rw [isFixed] at isFixed'
        obtain rfl := Option.some.inj isFixed'
        rw [← text, hashString_of_lt sha256 (hashes.short _ ready.hashable.hashed), derivationHash_eq]
        rfl
    · next regular =>
      -- an input is hashed by the same function, with less fuel
      have loop : wp (drv.inputDrvs.entries.foldlM
            (addInput earlier fuel (hashDerivationModulo sha256 earlier fuel)) .empty)
          (fun _ s' => Agrees sha256 storePrefix texts store s')
          (fun _ => Agrees sha256 storePrefix texts store) s := by
        apply wp_foldlM _ _ _ (fun _ _ s' => Agrees sha256 storePrefix texts store s') _ s agrees
        intro _ input _ _ s1 _ agrees1
        rw [addInput, wp_bind, inputHash, wp_bind, wp_get]
        cases cached : s1.find input.1 with
        | some h => exact agrees1
        | none =>
          simp only [wp_ite, wp_bind, wp_ofExcept, wp_modify, wp_pure, wp_throw]
          refine ⟨fun _ => ⟨fun drv2 read => ?_, fun _ _ => agrees1⟩, fun _ => agrees1⟩
          apply wp_imp (ih drv2 s1 agrees1)
          intro h s2 after
          apply after.1.insert
          intro d made same
          apply after.2 d.fields (made.ready directory hashes)
          exact (made.stored directory hashes).readDerivation_unique kept (same ▸ read)
      rw [wp_bind]
      apply wp_mono (wp_and (LibStore.Derivations.maskInputs_spec fuel _ drv
        (LibStore.Derivations.hashDerivationModulo_extends fuel) s) loop)
      · rintro inputs2 s' ⟨⟨_, known, rfl⟩, agrees'⟩
        refine ⟨agrees', fun fields ready same => ?_⟩
        subst same
        exact ready.hash_mask hashes agrees' known regular
      · exact fun _ _ after => after.2

/-! ### Hashing ends -/

/-- With enough fuel the derivation is hashed, whatever is in the table. -/
def Returns (sha256 : Sha256) (store : Store) (drv : LibStore.Derivations.Derivation) : Prop :=
  ∃ enough, ∀ fuel, enough ≤ fuel → ∀ s,
    wp (hashDerivationModulo sha256 store fuel drv) (fun _ _ => True) (fun _ _ => False) s

theorem exists_bound {α : Type} {P : α → Nat → Prop} {items : List α}
    (each : ∀ a ∈ items, ∃ enough, ∀ n, enough ≤ n → P a n) :
    ∃ enough, ∀ a ∈ items, ∀ n, enough ≤ n → P a n := by
  induction items with
  | nil => exact ⟨0, by simp⟩
  | cons a rest ih =>
    obtain ⟨first, holds⟩ := each a mem_cons_self
    obtain ⟨others, hold⟩ := ih (forall_mem_cons.mp each).2
    refine ⟨max first others, fun b member n large => ?_⟩
    rcases mem_cons.mp member with rfl | inRest
    · exact holds n (Nat.le_trans (Nat.le_max_left _ _) large)
    · exact hold b inRest n (Nat.le_trans (Nat.le_max_right _ _) large)

theorem hashDerivationModulo_returns {drv : Fields Derivation} (sorted : Sorted fileName drv)
    (stored : ∀ input ∈ drv.inputs, Stored sha256 texts store input.drv)
    (inputs : ∀ input ∈ drv.inputs,
      Returns sha256 store (toDaemon fileName input.drv.fields)) :
    Returns sha256 store (toDaemon fileName drv) := by
  have readable : ∀ input ∈ drv.inputs, ∃ enough, ∀ fuel, enough ≤ fuel →
      LibStore.Derivations.readDerivation store fuel (encode input.drv.fileName) =
        .ok (toDaemon fileName input.drv.fields) :=
    fun input isInput => ⟨_, fun fuel enough => (stored input isInput).readDerivation fuel enough⟩
  obtain ⟨enoughRead, read⟩ := exists_bound readable
  obtain ⟨enoughHash, hash⟩ := exists_bound inputs
  refine ⟨max enoughRead enoughHash + 1, fun fuel enough s => ?_⟩
  obtain ⟨fuel, rfl⟩ := Nat.exists_eq_add_of_le' (Nat.le_trans (Nat.le_add_left 1 _) enough)
  rw [hashDerivationModulo]
  split
  · trivial
  · rw [wp_bind]
    apply wp_imp (wp_foldlM _ _ _ (fun _ _ _ => True) (fun _ _ => False) s trivial ?_)
      (fun _ _ _ => trivial)
    intro done entry todo _ s1 split _
    -- every entry is the file of an input
    have isEntry : entry ∈ (toDaemon fileName drv).inputDrvs.entries := by
      rw [split]
      simp
    rw [toDaemon_inputDrvs sorted] at isEntry
    obtain ⟨input, isInput, rfl⟩ := mem_map.mp isEntry
    rw [addInput, wp_bind, inputHash, wp_bind, wp_get]
    cases s1.find (encode input.drv.fileName) with
    | some h => trivial
    | none =>
      simp only [(stored input isInput).valid, if_true, read input isInput fuel (by omega), wp_bind]
      exact hash input isInput fuel (by omega) s1

theorem Made.returns (directory : StoreDirectory storePrefix) (hashes : HashedTexts sha256 texts)
    (made : Made sha256 storePrefix texts store d) :
    Returns sha256 store (toDaemon fileName d.fields) := by
  have ready := made.ready directory hashes
  induction made with
  | derivation addToStore hashFold a fields file inputs acceptable returned _ _ _ ih =>
    obtain ⟨masked, isMasked, rfl⟩ := returned_eq returned
    apply hashDerivationModulo_returns ready.hashable.clean.sorted
    · exact fun input isInput => (ready.inputs input isInput).stored directory hashes
    · exact forall_masked_inputs isMasked
        (P := fun d => Returns sha256 store (toDaemon fileName d.fields))
        acceptable.requested fun input isInput =>
          ih input isInput ((inputs input isInput).ready directory hashes)

/-! ### The outputs and their environment variables -/

section Variables

variable {name : Str} {drv : Fields Derivation}

theorem outputVar_mem (sorted : Sorted fileName drv)
    (isOutput : output ∈ (withOutputPaths sha256 storePrefix name drv).outputs) {value : Str}
    (isVar : (output.1, value) ∈ drv.envVars) :
    (output.1, output.2.path) ∈ (withOutputPaths sha256 storePrefix name drv).envVars := by
  have names : (withOutputPaths sha256 storePrefix name drv).outputs.Pairwise fun a b => a.1 ≠ b.1 :=
    pairwise_map.mpr (sorted.outputs.imp fun less => less.ne)
  apply mem_map.mpr
  refine ⟨(output.1, value), isVar, ?_⟩
  have found : (withOutputPaths sha256 storePrefix name drv).outputs.find?
      (fun other => other.1 = output.1) = some output := by
    cases found : (withOutputPaths sha256 storePrefix name drv).outputs.find?
        fun other => other.1 = output.1 with
    | none =>
      have differs := find?_eq_none.mp found output isOutput
      simp at differs
    | some other =>
      have sameName : other.1 = output.1 := by simpa using find?_some found
      rw [inj_on_of_nodup_map (pairwise_map.mpr names)
        (mem_of_find?_eq_some found) isOutput sameName]
  change (_, (Option.map _ ((withOutputPaths sha256 storePrefix name drv).outputs.find? _)).getD _) = _
  rw [found]
  rfl

theorem otherVar_mem {var : Str × Str} (isVar : var ∈ drv.envVars)
    (other : ∀ output ∈ drv.outputs, output.1 ≠ var.1) :
    var ∈ (withOutputPaths sha256 storePrefix name drv).envVars := by
  apply mem_map.mpr
  refine ⟨var, isVar, ?_⟩
  have notFound : (withOutputPaths sha256 storePrefix name drv).outputs.find?
      (fun output => output.1 = var.1) = none := by
    apply find?_eq_none.mpr
    intro output isOutput
    obtain ⟨before, isBefore, rfl⟩ := mem_map.mp isOutput
    simpa using other before isBefore
  change (_, (Option.map _ ((withOutputPaths sha256 storePrefix name drv).outputs.find? _)).getD _) = _
  rw [notFound]
  rfl

end Variables

/-- What a call of `derivation` hashes and what it writes. -/
structure Calls (sha256 : Sha256) (storePrefix : Str) (addToStore : Str → Str) (a : DerivationArgs)
    (masked drv : Fields Derivation) : Prop where
  isMasked : ∃ hashFold, masked = maskedDerivation storePrefix addToStore hashFold a
  isDrv : drv = withOutputPaths sha256 storePrefix a.name masked
  sorted : Sorted fileName masked
  sortedPaths : Sorted fileName drv

section Call

variable {addToStore : Str → Str} {a : DerivationArgs} {masked drv : Fields Derivation}
  (calls : Calls sha256 storePrefix addToStore a masked drv)
include calls

theorem Calls.mem_masked_outputs (output : Str × DerivationOutput) :
    output ∈ masked.outputs ↔ ∃ name ∈ a.outputs, output = (name, ⟨[], a.hashAlgo, a.hash, a.recursive⟩) := by
  obtain ⟨hashFold, isMasked⟩ := calls.isMasked
  exact Client.mem_masked_outputs isMasked output

theorem Calls.mem_outputs (isOutput : output ∈ drv.outputs) :
    ∃ name ∈ a.outputs, output = (name, ⟨output.2.path, a.hashAlgo, a.hash, a.recursive⟩) := by
  rw [calls.isDrv] at isOutput
  obtain ⟨before, isBefore, rfl⟩ := mem_map.mp isOutput
  obtain ⟨name, isName, rfl⟩ := (calls.mem_masked_outputs before).mp isBefore
  exact ⟨name, isName, rfl⟩

theorem Calls.mem_masked_envVars (var : Str × Str) :
    var ∈ masked.envVars ↔ var ∈ envVarsWithEmptyOutputs a.outputs (userSystemEnvVars a) := by
  obtain ⟨hashFold, rfl⟩ := calls.isMasked
  exact mem_sortBy _ _ _

theorem Calls.outputVar_masked {output : Str} (isOutput : output ∈ a.outputs) :
    (output, []) ∈ masked.envVars :=
  (calls.mem_masked_envVars _).mpr ((mem_envVarsWithEmptyOutputs _ _ _).mpr (.inl ⟨isOutput, rfl⟩))

/-- Without its paths the derivation is what the client hashed. -/
theorem Calls.withoutPaths_toDaemon :
    withoutPaths (toDaemon fileName drv) = toDaemon fileName masked := by
  have outputs : (toDaemon fileName drv).outputs.mapValues (fun out => { out with path := [] }) =
      (toDaemon fileName masked).outputs := by
    ext1
    change map _ (toDaemon fileName drv).outputs.entries = _
    rw [toDaemon_outputs calls.sortedPaths, toDaemon_outputs calls.sorted, map_map, calls.isDrv,
      withOutputPaths, map_map]
    apply map_congr_left
    intro output isOutput
    obtain ⟨name, _, rfl⟩ := (calls.mem_masked_outputs output).mp isOutput
    rfl
  have names : (toDaemon fileName drv).outputs.entries.map Prod.fst =
      (sortBy id a.outputs).map encode := by
    obtain ⟨hashFold, isMasked⟩ := calls.isMasked
    rw [toDaemon_outputs calls.sortedPaths, map_map, calls.isDrv, withOutputPaths, map_map, isMasked,
      maskedDerivation, map_map]
    rfl
  have env : (toDaemon fileName drv).outputs.entries.foldl
          (fun env output => env.insert output.1 []) (toDaemon fileName drv).env =
      (toDaemon fileName masked).env := by
    apply ext_mem
    intro e
    rw [mem_foldl_insert_const, names, toDaemon_env calls.sorted, toDaemon_env calls.sortedPaths]
    simp only [mem_map, mem_sortBy]
    constructor
    · rintro (⟨⟨output, isOutput, same⟩, isEmpty⟩ | ⟨notOutput, var, isVar, rfl⟩)
      · exact ⟨_, calls.outputVar_masked isOutput, Prod.ext same isEmpty.symm⟩
      · rw [calls.isDrv] at isVar
        rcases withOutputPaths_value var isVar with ⟨output, isOutput, sameName, _⟩ | isOld
        · obtain ⟨name, isName, same⟩ := calls.mem_outputs (calls.isDrv ▸ isOutput)
          rw [same] at sameName
          exact absurd ⟨name, isName, congrArg encode sameName⟩ notOutput
        · exact ⟨var, isOld, rfl⟩
    · rintro ⟨var, isVar, rfl⟩
      rcases (mem_envVarsWithEmptyOutputs _ _ _).mp ((calls.mem_masked_envVars var).mp isVar) with
        ⟨isOutput, isEmpty⟩ | ⟨notOutput, _⟩
      · exact .inl ⟨⟨var.1, isOutput, rfl⟩, congrArg encode isEmpty⟩
      · refine .inr ⟨?_, var, calls.isDrv ▸ otherVar_mem isVar ?_, rfl⟩
        · rintro ⟨output, isOutput, same⟩
          exact notOutput (Utf8.encode_injective same ▸ isOutput)
        · intro output isOutput same
          obtain ⟨name, isName, rfl⟩ := (calls.mem_masked_outputs output).mp isOutput
          exact notOutput (same ▸ isName)
  rw [withoutPaths, outputs, env, calls.isDrv]
  rfl

/-- The daemon finds the path of an output in the variable of its name. -/
theorem Calls.find_outputVar (isOutput : output ∈ drv.outputs) :
    (toDaemon fileName drv).env.find (encode output.1) = some (encode output.2.path) := by
  obtain ⟨name, isName, same⟩ := calls.mem_outputs isOutput
  have isName : output.1 ∈ a.outputs := by rwa [same]
  rw [find_eq_some_iff, toDaemon_env calls.sortedPaths]
  refine mem_map.mpr ⟨(output.1, output.2.path), ?_, rfl⟩
  rw [calls.isDrv] at isOutput ⊢
  exact outputVar_mem calls.sorted isOutput (calls.outputVar_masked isName)

end Call

/-! ### The check -/

theorem parseHashInfo_fixed {output : DerivationOutput} {algo : Str} {h : Hash}
    (fixed : FixedOutput output algo h) :
    parseHashInfo (toDaemonOutput output) = .ok (output.recursive, h) := by
  have noMode : ∀ type : HashType, (printHashType type).take 2 ≠ ascii "r:" := by
    intro type
    cases type <;> decide
  have parsed : ∀ type : HashType, parseHashType (printHashType type) = some type := by
    intro type
    cases type <;> decide
  rw [fixed.toDaemon, parseHashInfo]
  cases output.recursive with
  | false =>
    simp only [Bool.false_eq_true, if_false, nil_append, noMode, decide_false, parsed,
      parseHash_printHash]
    rfl
  | true =>
    have mode : (ascii "r:" ++ printHashType h.type).take 2 = ascii "r:" := rfl
    have rest : (ascii "r:" ++ printHashType h.type).drop 2 = printHashType h.type := rfl
    simp only [if_true, mode, decide_true, rest, parsed, parseHash_printHash]
    rfl

theorem checkOutput_ok (drvPath : Path) (drv : LibStore.Derivations.Derivation) (name : Bytes)
    (out : LibStore.Derivations.DerivationOutput) (found : drv.env.find name = some out.path) :
    checkOutput drvPath drv name out out.path = .ok ⟨⟩ := by
  rw [checkOutput, if_neg]
  simp [found]

/-- The tables that the daemon can have: it starts with none, and has hashed any derivations
since, from stores with files that this one still has. -/
inductive Reached (sha256 : Sha256) (store : Store) : DrvHashes → Prop
  | empty : Reached sha256 store .empty
  | hashed (earlier : Store) (fuel : Nat) (drv : LibStore.Derivations.Derivation)
      (before after : DrvHashes) (h : Sha256Hash)
      (kept : ∀ path text, earlier.readFile path = .ok text → store.readFile path = .ok text)
      (reached : Reached sha256 store before)
      (ran : hashDerivationModulo sha256 earlier fuel drv before = .ok h after) :
      Reached sha256 store after
  | failed (earlier : Store) (fuel : Nat) (drv : LibStore.Derivations.Derivation)
      (before after : DrvHashes) (error : LibStore.Derivations.HashDerivationError)
      (kept : ∀ path text, earlier.readFile path = .ok text → store.readFile path = .ok text)
      (reached : Reached sha256 store before)
      (ran : hashDerivationModulo sha256 earlier fuel drv before = .error error after) :
      Reached sha256 store after

theorem Reached.agrees (directory : StoreDirectory storePrefix) (hashes : HashedTexts sha256 texts)
    (reached : Reached sha256 store table) : Agrees sha256 storePrefix texts store table := by
  induction reached with
  | empty =>
    exact nofun
  | hashed earlier fuel drv before after h kept _ ran ih =>
    exact (wp_ok (hashDerivationModulo_agrees directory hashes kept fuel drv before ih) ran).1
  | failed earlier fuel drv before after error kept _ ran ih =>
    have after := wp_error (hashDerivationModulo_agrees directory hashes kept fuel drv before ih) ran
    exact after

section Check

variable {addToStore : Str → Str} {a : DerivationArgs} (acceptable : Acceptable storePrefix addToStore a)
  {masked drv : Fields Derivation} (calls : Calls sha256 storePrefix addToStore a masked drv)

include acceptable calls

theorem Acceptable.checkFixedOutput_ok (hasHash : a.hash ≠ none) (drvPath : Path) :
    checkFixedOutput sha256 (encode storePrefix) drvPath (encode a.name)
      (toDaemon fileName drv) = .ok ⟨⟩ := by
  obtain ⟨single, algo, h, fixed⟩ := acceptable.fixed hasHash
  have out : encode (str "out") = ascii "out" := encode_str "out" (by decide)
  -- the only output, with its path
  obtain ⟨path, isOutput, made⟩ : ∃ path,
      (str "out", ⟨path, a.hashAlgo, a.hash, a.recursive⟩) ∈ drv.outputs ∧
      makeFixedOutputPath sha256 (encode storePrefix) a.recursive h.type h (encode a.name) =
        .ok (encode path) := by
    rw [calls.isDrv]
    refine ⟨_, mem_map.mpr ⟨_, (calls.mem_masked_outputs _).mpr
      ⟨str "out", single ▸ mem_singleton_self _, rfl⟩, rfl⟩, ?_⟩
    exact acceptable.makeFixedOutputPath_eq sha256 single fixed _
  have found : (toDaemon fileName drv).outputs.find (ascii "out") =
        some (toDaemonOutput ⟨path, a.hashAlgo, a.hash, a.recursive⟩) := by
    rw [find_eq_some_iff, toDaemon_outputs calls.sortedPaths, ← out]
    exact mem_map.mpr ⟨_, isOutput, rfl⟩
  have withPath : FixedOutput ⟨path, a.hashAlgo, a.hash, a.recursive⟩ algo h :=
    ⟨fixed.hash, fixed.hashAlgo, fixed.algorithm⟩
  have var := calls.find_outputVar isOutput
  have checked := checkOutput_ok drvPath _ _ (toDaemonOutput ⟨path, a.hashAlgo, a.hash, a.recursive⟩) var
  simp only [checkFixedOutput, found, parseHashInfo_fixed withPath, bind, Except.bind, made,
    Except.mapError]
  exact checked

/-- The loop over the outputs, once the hash is known. -/
theorem Acceptable.checkRegular_ok (regular : a.hash = none) (drvPath : Path) {h : Sha256Hash}
    (agrees : h.1.hash = derivationHash sha256 masked)
    {entry : Bytes × LibStore.Derivations.DerivationOutput}
    (isEntry : entry ∈ (toDaemon fileName drv).outputs.entries) :
    (do
      let outPath ← (makeOutputPath sha256 (encode storePrefix) entry.1 h.1
        (encode a.name)).mapError .name
      checkOutput drvPath (toDaemon fileName drv) entry.1 entry.2 outPath :
      Except LibStore.Derivations.CheckError Unit) = .ok ⟨⟩ := by
  rw [toDaemon_outputs calls.sortedPaths] at isEntry
  obtain ⟨output, isOutput, rfl⟩ := mem_map.mp isEntry
  have checked := checkOutput_ok drvPath _ _ (toDaemonOutput output.2) (calls.find_outputVar isOutput)
  rw [calls.isDrv] at isOutput
  obtain ⟨before, isBefore, rfl⟩ := mem_map.mp isOutput
  obtain ⟨name, isName, rfl⟩ := (calls.mem_masked_outputs before).mp isBefore
  have made := acceptable.makeOutputPath_eq sha256 regular name isName h
  rw [agrees] at made
  simp only [made, Except.mapError, bind, Except.bind]
  exact checked

theorem Acceptable.isFixedOutputDrv_iff :
    isFixedOutputDrv (toDaemon fileName drv) = true ↔ a.hash ≠ none := by
  have shape : FixedShape drv := by
    obtain ⟨hashFold, isMasked⟩ := calls.isMasked
    rw [calls.isDrv]
    exact acceptable.shape_paths isMasked
  rw [isFixedOutputDrv, Option.isSome_iff_ne_none]
  rcases fixed_cases fileName shape calls.sortedPaths with
    ⟨noText, noOutput⟩ | ⟨output, _, _, single, fixed, isFixed, _⟩
  · -- a call with a hash has a text to hash
    rw [noOutput]
    constructor
    · exact fun absurd => (absurd rfl).elim
    · intro hasHash
      obtain ⟨single, algo, h, fixed⟩ := acceptable.fixed hasHash
      have hash : a.hash = some h.hash := fixed.hash
      have hashAlgo : a.hashAlgo = some algo := fixed.hashAlgo
      obtain ⟨hashFold, isMasked⟩ := calls.isMasked
      simp only [fixedText, calls.isDrv, withOutputPaths, isMasked, maskedDerivation, single] at noText
      simp [sortBy, hash, hashAlgo] at noText
  · rw [isFixed]
    constructor
    · intro _ none
      obtain ⟨name, _, same⟩ := calls.mem_outputs (single ▸ mem_singleton_self (str "out", output))
      have hash := fixed.hash
      rw [(Prod.mk.inj same).2] at hash
      exact absurd (none.symm.trans hash) (by simp)
    · exact fun _ => Option.some_ne_none _

end Check

/-- What `derivation` made is accepted by the daemon, whatever it has hashed before. -/
theorem checkDerivationOutputs_made (directory : StoreDirectory storePrefix)
    (hashes : HashedTexts sha256 texts) {d : Derivation} (made : Made sha256 storePrefix texts store d)
    {table : DrvHashes} (reached : Reached sha256 store table) :
    ∃ enough, ∀ fuel, enough ≤ fuel → ∃ drv after,
      LibStore.Derivations.readDerivation store fuel (encode d.fileName) = .ok drv ∧
      checkDerivationOutputs sha256 store (encode storePrefix) fuel (encode d.fileName) drv table =
        .ok ⟨⟩ after := by
  have stored := made.stored directory hashes
  obtain ⟨addToStore, hashFold, a, fields, file, inputs, acceptable, returned, written, _, hashedMasked⟩ :=
    made
  obtain ⟨masked, isMasked, rfl⟩ := returned_eq returned
  have storedInputs : ∀ input ∈ a.derivationInputs, Stored sha256 texts store input.drv :=
    fun input isInput => (inputs input isInput).stored directory hashes
  have clean := acceptable.clean_masked isMasked storedInputs
  have calls : Calls sha256 storePrefix addToStore a masked _ :=
    ⟨⟨hashFold, isMasked⟩, rfl, clean.sorted, stored.hashable.clean.sorted⟩
  have madeInputs := forall_masked_inputs isMasked acceptable.requested inputs
  have ready : Ready sha256 storePrefix texts store masked :=
    ⟨⟨clean, acceptable.shape_masked isMasked, acceptable.distinct_masked isMasked hashes storedInputs,
      isMasked ▸ hashedMasked⟩, madeInputs⟩
  obtain ⟨enough, ends⟩ := hashDerivationModulo_returns clean.sorted
    (fun input isInput => (madeInputs input isInput).stored directory hashes)
    (fun input isInput => (madeInputs input isInput).returns directory hashes)
  refine ⟨max enough ((derivationBytevector fileName (withOutputPaths sha256 storePrefix a.name
    masked)).length + 1), fun fuel large => ?_⟩
  have read := stored.readDerivation fuel (Nat.le_trans (Nat.le_max_right _ _) large)
  have accepted : wp (checkDerivationOutputs sha256 store (encode storePrefix) fuel (encode file)
      (toDaemon fileName (withOutputPaths sha256 storePrefix a.name masked)))
      (fun _ _ => True) (fun _ _ => False) table := by
    have name : (storePathToName (encode storePrefix) (encode file)).mapError
        LibStore.Derivations.CheckError.name = .ok (encode a.name ++ ascii ".drv") := by
      rw [storePathToName_of_makeStorePath directory written.path, encode_append,
        encode_str ".drv" (by decide)]
      rfl
    have suffix : hasSuffix (encode a.name ++ ascii ".drv") (ascii ".drv") = true := by
      simp [hasSuffix]
    have stem : (encode a.name ++ ascii ".drv").take
        ((encode a.name ++ ascii ".drv").length - (ascii ".drv").length) = encode a.name := by
      rw [length_append, Nat.add_sub_cancel, take_left']
      rfl
    simp only [checkDerivationOutputs, name, wp_bind, wp_ofExcept, Except.ok.injEq,
      forall_eq', reduceCtorEq, false_implies, implies_true, and_true, suffix, if_true, stem]
    rw [wp_ite]
    constructor
    · intro isFixed
      have hasHash := (acceptable.isFixedOutputDrv_iff calls).mp isFixed
      rw [wp_ofExcept, acceptable.checkFixedOutput_ok calls hasHash]
      exact ⟨fun _ _ => trivial, fun _ same => by cases same⟩
    · intro notFixed
      have regular : a.hash = none := by
        by_contra hasHash
        exact notFixed ((acceptable.isFixedOutputDrv_iff calls).mpr hasHash)
      -- the daemon hashes what the client hashed
      rw [calls.withoutPaths_toDaemon, wp_bind, wp_focus]
      apply wp_mono (wp_and (ends fuel (Nat.le_trans (Nat.le_max_left _ _) large) table)
        (hashDerivationModulo_agrees directory hashes (fun _ _ same => same) fuel _ table
          (reached.agrees directory hashes)))
      · intro h s' after
        have agrees := after.2.2 _ ready rfl
        apply wp_forM_const _ _ (fun _ => True) _ s' trivial
        intro entry isEntry s1 _
        rw [wp_ofExcept, acceptable.checkRegular_ok calls regular _ agrees isEntry]
        exact ⟨fun _ _ => trivial, fun _ same => by cases same⟩
      · exact fun _ _ fails => fails.1
  obtain ⟨_, after, ran, _⟩ := wp_returns accepted
  exact ⟨_, after, read, ran⟩

end

/-! ### A package with a source from two mirrors -/

/-- A hash that is easy to compute. -/
def checksum : Sha256 := fun s =>
  ⟨⟨.sha256, replicate 32 (UInt8.ofNat (s.foldl (fun h b => (7 * h + b.toNat) % 256) 0)),
    length_replicate⟩, rfl⟩

def inOrder : HashFold := ⟨id, .refl⟩

def gnuStore : Str := str "/s"

/-- What a call writes, and to which file. -/
def call (a : DerivationArgs) : Fields Derivation :=
  withOutputPaths checksum gnuStore a.name (maskedDerivation gnuStore id inOrder a)

def callFile (a : DerivationArgs) : Str :=
  storePath checksum gnuStore (str "text" ++ (derivationReferences (call a)).flatMap (str ":" ++ ·))
    (sha256Bytes checksum (derivationBytevector fileName (call a))) (a.name ++ str ".drv")

def called (a : DerivationArgs) : Derivation := .mk (call a) (callFile a)

/-- The same file from one of two mirrors. -/
def mirror (second : Bool) : DerivationArgs where
  name := str "src"
  builder := str "/sh"
  args := [if second then str "b" else str "a"]
  system := str "x"
  hash := some (replicate 16 0)
  hashAlgo := some (str "md5")

/-- A package with two outputs and the source from both mirrors, one of them in the deprecated
convention. -/
def packageArgs : DerivationArgs where
  name := str "pkg"
  builder := str "/sh"
  args := [str "\""]
  system := str "x"
  inputs := [.input ⟨called (mirror false), [str "out"]⟩, .derivation (called (mirror true)) []]
  outputs := [str "out", str "doc"]

/-- A store with the files of some calls. -/
def storeOf (calls : List DerivationArgs) : Store where
  isValidPath _ := true
  readFile path :=
    match calls.find? fun a => encode (callFile a) = path with
    | some a => .ok (derivationBytevector fileName (call a))
    | none => .error []
  stale _ := .const 0

def packageCalls : List DerivationArgs := [mirror false, mirror true, packageArgs]

/-- What is hashed for these calls, with the paths of the outputs and without them. -/
def hashedTexts : List Bytes := packageCalls.flatMap fun a =>
  [hashedText checksum (call a), hashedText checksum (maskedDerivation gnuStore id inOrder a)]

theorem hashedTexts_short : ∀ text ∈ hashedTexts, text.length < 2 ^ 32 ∧
    ∀ text' ∈ hashedTexts, checksum text = checksum text' → text = text' := by
  decide +kernel

theorem packageCalls_written : ∀ a ∈ packageCalls,
    (∀ reference ∈ derivationReferences (call a), isStorePath (encode gnuStore) (encode reference)) ∧
    computeStorePathForText checksum (encode gnuStore) (encode (a.name ++ str ".drv"))
      (derivationBytevector fileName (call a))
      (pathSet ((derivationReferences (call a)).map encode)) = .ok (encode (callFile a)) ∧
    (storeOf packageCalls).readFile (encode (callFile a)) =
      .ok (derivationBytevector fileName (call a)) := by
  decide +kernel

def packageTexts : Set Bytes := fun text => text ∈ hashedTexts

theorem packageTexts_hashed : HashedTexts checksum packageTexts :=
  ⟨fun text isText text' isText' => (hashedTexts_short text isText).2 text' isText',
    fun text isText => (hashedTexts_short text isText).1⟩

theorem gnuStore_directory : StoreDirectory gnuStore := by
  refine ⟨by decide, ?_⟩
  unfold Plain
  decide

theorem made_called {a : DerivationArgs} (isCall : a ∈ packageCalls)
    (inputs : ∀ input ∈ a.derivationInputs,
      Made checksum gnuStore packageTexts (storeOf packageCalls) input.drv)
    (acceptable : Acceptable gnuStore id a)
    (returned : derivationFields checksum gnuStore id inOrder a = some (call a)) :
    Made checksum gnuStore packageTexts (storeOf packageCalls) (called a) := by
  obtain ⟨references, path, contents⟩ := packageCalls_written a isCall
  apply Made.derivation id inOrder a (call a) (callFile a) inputs acceptable returned
    ⟨references, path, rfl, contents⟩
  · exact mem_flatMap.mpr ⟨_, isCall, mem_cons_self⟩
  · exact mem_flatMap.mpr ⟨_, isCall, mem_cons_of_mem _ mem_cons_self⟩

theorem mirror_acceptable (second : Bool) : Acceptable gnuStore id (mirror second) where
  outputs := by cases second <;> decide
  items := by cases second <;> decide
  envVars := by cases second <;> decide
  plain := by cases second <;> decide
  requested := by cases second <;> decide
  fixed _ := ⟨rfl, str "md5", ⟨.md5, replicate 16 0, rfl⟩, rfl, rfl, by decide⟩
  noNul := by cases second <;> decide
  short := by cases second <;> decide

theorem made_mirror (second : Bool) :
    Made checksum gnuStore packageTexts (storeOf packageCalls) (called (mirror second)) := by
  apply made_called _ _ (mirror_acceptable second) rfl
  · cases second <;> simp [packageCalls]
  · exact nofun

theorem packageArgs_acceptable : Acceptable gnuStore id packageArgs where
  outputs := by decide
  items := by decide
  envVars := by decide
  plain := by decide
  requested := by decide
  fixed hasHash := absurd rfl hasHash
  noNul := by decide
  short := by decide

theorem made_package : Made checksum gnuStore packageTexts (storeOf packageCalls) (called packageArgs) := by
  apply made_called (by simp [packageCalls]) _ packageArgs_acceptable rfl
  have inputs : packageArgs.derivationInputs =
      [⟨called (mirror false), [str "out"]⟩, ⟨called (mirror true), [str "out"]⟩] := rfl
  rw [inputs]
  simp only [mem_cons, not_mem_nil, or_false, forall_eq_or_imp, forall_eq]
  exact ⟨made_mirror false, made_mirror true⟩

theorem checkDerivationOutputs_package : ∃ enough, ∀ fuel, enough ≤ fuel → ∃ drv after,
    LibStore.Derivations.readDerivation (storeOf packageCalls) fuel (encode (callFile packageArgs)) =
      .ok drv ∧
    checkDerivationOutputs checksum (storeOf packageCalls) (encode gnuStore) fuel
      (encode (callFile packageArgs)) drv .empty = .ok ⟨⟩ after :=
  checkDerivationOutputs_made gnuStore_directory packageTexts_hashed made_package .empty

/-- A hash of one byte for an algorithm with hashes of 16 bytes. -/
def shortHash : DerivationArgs := { mirror false with hash := some [0] }

/-- The daemon refuses the hash, although the call is otherwise like that for a mirror. -/
theorem checkDerivationOutputs_shortHash :
    (checkStoreName (encode shortHash.name) = .ok ⟨⟩ ∧ shortHash.outputs = [str "out"] ∧
      ((userSystemEnvVars shortHash).map (·.1)).Nodup ∧
      (∀ s ∈ [shortHash.system, shortHash.builder], ∀ c ∈ s, c ∉ escapeCharSet) ∧ shortHash.inputs = []) ∧
    derivationFields checksum gnuStore id inOrder shortHash = some (call shortHash) ∧
    Written checksum gnuStore (storeOf [shortHash]) shortHash.name (call shortHash) (callFile shortHash) ∧
    ∀ fuel table, checkDerivationOutputs checksum (storeOf [shortHash]) (encode gnuStore) fuel
      (encode (callFile shortHash)) (toDaemon fileName (call shortHash)) table =
        .error (.hash (.length .md5 (ascii "00"))) table := by
  have evaluated : (∀ reference ∈ derivationReferences (call shortHash),
        isStorePath (encode gnuStore) (encode reference)) ∧
      computeStorePathForText checksum (encode gnuStore) (encode (shortHash.name ++ str ".drv"))
        (derivationBytevector fileName (call shortHash))
        (pathSet ((derivationReferences (call shortHash)).map encode)) =
          .ok (encode (callFile shortHash)) ∧
      storePathToName (encode gnuStore) (encode (callFile shortHash)) = .ok (ascii "src.drv") ∧
      isFixedOutputDrv (toDaemon fileName (call shortHash)) = true ∧
      checkFixedOutput checksum (encode gnuStore) (encode (callFile shortHash)) (ascii "src")
        (toDaemon fileName (call shortHash)) = .error (.hash (.length .md5 (ascii "00"))) := by
    decide +kernel
  obtain ⟨references, path, name, isFixed, refused⟩ := evaluated
  have contents : (storeOf [shortHash]).readFile (encode (callFile shortHash)) =
      .ok (derivationBytevector fileName (call shortHash)) := by
    simp [storeOf]
  refine ⟨⟨by decide, rfl, by decide, by decide, rfl⟩, rfl, ⟨references, path, rfl, contents⟩,
    fun fuel table => ?_⟩
  have stem : (ascii "src.drv").take ((ascii "src.drv").length - (ascii ".drv").length) = ascii "src" := by
    decide
  have suffix : hasSuffix (ascii "src.drv") (ascii ".drv") = true := by decide
  simp only [checkDerivationOutputs, name, Except.mapError, MonadExcept.ofExcept, pure_bind, suffix,
    if_true, stem, isFixed, refused]
  rfl

end Guix.Client
