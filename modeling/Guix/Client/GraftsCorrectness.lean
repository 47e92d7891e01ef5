import Guix.Client.Grafts
import Guix.Lib.Assoc

/-!
# The grafts of a derivation

`cumulative-grafts` returns a list that contains the given grafts, or the empty list: the
latter when the outputs refer to something, and no way down the references ends at an item
without references or at the origin of a graft.
-/

namespace Guix.Client

open Hoare List Fallible Assoc

/-! ### References and their origins -/

variable {outputs deps : List Str} {output path : Str}

section Origins

variable {D : Type} (graph : DerivationGraph D)
variable {drv : D}

theorem mem_nonSelfReferences_iff (ran : nonSelfReferences graph drv outputs = .ok deps) (dep : Str) :
    dep ∈ deps ↔
      (∃ output ∈ outputs, ∃ path, derivationOutputPath graph drv output = .ok path ∧
        dep ∈ graph.references path) ∧
      ∀ output ∈ outputs, derivationOutputPath graph drv output ≠ .ok dep := by
  obtain ⟨self, isSelf, ran⟩ := bind_ok.mp ran
  cases ran
  have mem_self : ∀ path, path ∈ self ↔
      ∃ output ∈ outputs, derivationOutputPath graph drv output = .ok path := by
    intro path
    constructor
    · exact mem_of_mapM_ok isSelf path
    · rintro ⟨output, member, made⟩
      obtain ⟨path', inSelf, made'⟩ := mapM_ok_of_mem isSelf output member
      cases made.symm.trans made'
      exact inSelf
  simp only [mem_filter, mem_flatMap, decide_eq_true_eq, mem_self, not_exists, not_and]
  constructor
  · rintro ⟨⟨path, ⟨output, member, made⟩, refers⟩, other⟩
    exact ⟨⟨output, member, path, made, refers⟩, other⟩
  · rintro ⟨⟨output, member, path, made, refers⟩, other⟩
    exact ⟨⟨path, ⟨output, member, made⟩, refers⟩, other⟩

theorem rank_lt_of_mem_nonSelfReferences (ran : nonSelfReferences graph drv outputs = .ok deps) {dep : Str}
    (member : dep ∈ deps) :
    ∃ output ∈ outputs, ∃ path, derivationOutputPath graph drv output = .ok path ∧
      graph.rank dep < graph.rank path := by
  obtain ⟨⟨output, isOutput, path, made, refers⟩, others⟩ := (mem_nonSelfReferences_iff graph ran dep).mp member
  have other : dep ≠ path := fun same => others output isOutput (same ▸ made)
  exact ⟨output, isOutput, path, made, graph.references_rank path dep refers other⟩

/-- The derivation has these outputs. -/
abbrev HasOutputs (drv : D) (outputs : List Str) : Prop :=
  ∀ output ∈ outputs, ∃ path, derivationOutputPath graph drv output = .ok path

theorem nonSelfReferences_returns (named : HasOutputs graph drv outputs) :
    ∃ deps, nonSelfReferences graph drv outputs = .ok deps := by
  obtain ⟨self, isSelf⟩ := mapM_returns named
  exact ⟨_, bind_ok.mpr ⟨self, isSelf, rfl⟩⟩

theorem outputs_named (ran : nonSelfReferences graph drv outputs = .ok deps) : HasOutputs graph drv outputs := by
  obtain ⟨self, isSelf, _⟩ := bind_ok.mp ran
  intro output member
  obtain ⟨path, _, made⟩ := mapM_ok_of_mem isSelf output member
  exact ⟨path, made⟩

/-- Each name is looked up as the one output that has it. -/
theorem derivationOutputPath_iff :
    derivationOutputPath graph drv output = .ok path ↔ (output, path) ∈ graph.outputPaths drv := by
  rw [derivationOutputPath]
  constructor
  · intro made
    split at made
    next path' found =>
      cases made
      exact mem_of_lookup found
    next => cases made
  · intro member
    rw [lookup_of_mem (graph.outputNames_nodup drv) member]

theorem rank_lt_graftFuel (named : derivationOutputPath graph drv output = .ok path) :
    graph.rank path < graftFuel graph drv := by
  have member : graph.rank path ∈ (graph.outputPaths drv).map fun output => graph.rank output.2 :=
    mem_map.mpr ⟨(output, path), (derivationOutputPath_iff graph).mp named, rfl⟩
  exact Nat.lt_succ_of_le (single_le_sum (fun _ _ => Nat.zero_le _) _ member)

/-- The pairs found name outputs at the items that were wanted. -/
def NamesOutputs (wanted : List Str) (found : List (D × Str) × List Str) : Prop :=
  (∀ origin ∈ found.1, ∃ path ∈ wanted, (origin.2, path) ∈ graph.outputPaths origin.1) ∧
    ∀ item ∈ found.2, item ∈ wanted

theorem lookupDerivers_names (drv : D) {wanted : List Str} {found : List (D × Str) × List Str}
    (names : NamesOutputs graph wanted found) :
    NamesOutputs graph wanted (lookupDerivers graph drv found.1 found.2) := by
  -- each step of the `fold2` looks at one of the outputs of `drv`
  refine foldlRecOn (motive := NamesOutputs graph wanted) _ _ names fun found names output isOutput => ?_
  rw [lookupDeriver]
  split
  next isItem =>
    refine ⟨forall_mem_cons.mpr ⟨⟨output.2, names.2 _ isItem, isOutput⟩, names.1⟩, fun item member => ?_⟩
    exact names.2 item (mem_filter.mp member).1
  next => exact names

variable [DecidableEq D]

theorem originsLoop_names {fuel : Nat} {queue : List D} {items wanted : List Str}
    {result found : List (D × Str)} {visited : List D} (names : NamesOutputs graph wanted (result, items))
    (ran : originsLoop graph fuel queue items result visited = some found) :
    ∀ origin ∈ found, ∃ path ∈ wanted, (origin.2, path) ∈ graph.outputPaths origin.1 := by
  fun_induction originsLoop graph fuel queue items result visited with
  | case1 => cases ran
  | case2 | case3 =>
    cases ran
    exact names.1
  | case4 _ _ _ _ _ _ _ _ ih => exact ih names ran
  | case5 _ drv _ _ _ _ _ _ _ _ looked ih =>
    have found := lookupDerivers_names graph drv names
    rw [looked] at found
    exact ih found ran

/-- An origin names an output of a derivation, at the path of one of the items. -/
theorem mem_referenceOrigins {items : List Str} {origin : D × Str}
    (member : origin ∈ referenceOrigins graph drv items) :
    ∃ path ∈ items, derivationOutputPath graph origin.1 origin.2 = .ok path := by
  obtain ⟨path, isItem, isOutput⟩ := originsLoop_names graph
    ⟨by simp, fun _ member => member⟩ (Option.some_get (originsLoop_of_fuel graph drv items)).symm
    origin member
  exact ⟨path, isItem, (derivationOutputPath_iff graph).mpr isOutput⟩

end Origins

/-! ### Lists of grafts -/

section Lists

variable {D N : Type} (graph : DerivationGraph D)

/-- The origin of a graft is an item, or an output that its derivation has. -/
def ValidGraft (graft : Graft D N) : Prop := ∃ path, graftOriginFileName graph graft = .ok path

variable {graph}
variable {graft : Graft D N}

theorem isGraftOrigin_returns (named : graftOriginFileName graph graft = .ok path) (drv : D) (output : Str) :
    ∃ found, isGraftOrigin graph drv output graft = .ok found ∧ (found = true ↔
      (∃ origin, graft.origin = .derivation origin) ∧ graft.originOutput = some output ∧
        derivationOutputPath graph drv output = .ok path) := by
  obtain ⟨origin, originOutput, _, _⟩ := graft
  cases origin with
  | item => exact ⟨false, rfl, by simp⟩
  | derivation origin =>
    cases originOutput with
    | none => cases named
    | some originOutput =>
      rw [isGraftOrigin]
      dsimp only
      split
      next same =>
        subst same
        split
        next result found =>
          have named : derivationOutputPath graph origin originOutput = .ok path := named
          exact ⟨decide (result = path), by rw [named]; rfl, by simp [derivationOutputPath, found]⟩
        next missing => exact ⟨false, rfl, by simp [derivationOutputPath, missing]⟩
      next other => exact ⟨false, rfl, by simp [other]⟩

variable {grafts : List (Graft D N)}

theorem findGraftOrigin_returns (valid : ∀ graft ∈ grafts, ValidGraft graph graft) (drv : D)
    (output : Str) : ∃ found, findGraftOrigin graph drv output grafts = .ok found := by
  induction grafts with
  | nil => exact ⟨false, rfl⟩
  | cons graft grafts ih =>
    obtain ⟨path, named⟩ := valid graft mem_cons_self
    obtain ⟨first, isFirst, _⟩ := isGraftOrigin_returns named drv output
    obtain ⟨rest, isRest⟩ := ih (forall_mem_cons.mp valid).2
    rw [findGraftOrigin, isFirst]
    cases first with
    | true => exact ⟨true, rfl⟩
    | false => exact ⟨rest, isRest⟩

theorem applicableGrafts_returns (valid : ∀ graft ∈ grafts, ValidGraft graph graft) (deps : List Str) :
    ∃ applicable, applicableGrafts graph deps grafts = .ok applicable := by
  induction grafts with
  | nil => exact ⟨[], rfl⟩
  | cons graft grafts ih =>
    obtain ⟨path, named⟩ := valid graft mem_cons_self
    obtain ⟨rest, isRest⟩ := ih (forall_mem_cons.mp valid).2
    exact ⟨_, by rw [applicableGrafts, named]; simp only [bind, Except.bind, isRest]; rfl⟩

theorem mem_outputGrafts {drv : D} {new : N} (named : HasOutputs graph drv outputs)
    (member : graft ∈ outputGrafts drv new outputs) :
    graft.replacement = .grafted new ∧ ValidGraft graph graft := by
  obtain ⟨output, isOutput, rfl⟩ := mem_map.mp member
  exact ⟨rfl, named output isOutput⟩

end Lists

/-! ### What is kept -/

variable {keeps : Prop}

section Keeps

variable {D N : Type} (graph : DerivationGraph D) (grafts : List (Graft D N))

/-- What a list of grafts for a derivation has, of the list it was computed from. -/
structure Answer (keeps : Prop) (all : List (Graft D N)) : Prop where
  contains : keeps → ∀ graft ∈ grafts, graft ∈ all
  lost : ¬ keeps → all = []
  valid : ∀ graft ∈ all, ValidGraft graph graft
  new : ∀ graft ∈ all, graft ∈ grafts ∨ ∃ new, graft.replacement = .grafted new

variable {graph grafts}

theorem answer_grafts (holds : keeps) (valid : ∀ graft ∈ grafts, ValidGraft graph graft) :
    Answer graph grafts keeps grafts where
  contains := fun _ _ member => member
  lost := fun fails => absurd holds fails
  valid := valid
  new := fun _ member => .inl member

variable {drv : D}

/-- Grafts of the outputs themselves are only added to a list that was kept. -/
theorem Answer.add {all applicable : List (Graft D N)} (answer : Answer graph grafts keeps all)
    (named : HasOutputs graph drv outputs) (new : N)
    (applies : applicableGrafts graph deps all = .ok applicable) (some : applicable ≠ []) :
    Answer graph grafts keeps (outputGrafts drv new outputs ++ all) where
  contains kept graft member := mem_append_right _ (answer.contains kept graft member)
  lost lost := by
    rw [answer.lost lost] at applies
    cases applies
    exact absurd rfl some
  valid := forall_mem_append.mpr ⟨fun _ added => (mem_outputGrafts named added).2, answer.valid⟩
  new := forall_mem_append.mpr ⟨fun _ added => .inr ⟨new, (mem_outputGrafts named added).1⟩, answer.new⟩

variable (graph grafts) [DecidableEq D]

/-- From the outputs of `drv`, some way down the references, from each item to the
derivations reachable from its own that produce its references, ends at an item that has no
other references or at the origin of a graft. -/
inductive Keeps : D → List Str → Prop
  | leaf {drv : D} {outputs : List Str} (none : nonSelfReferences graph drv outputs = .ok []) :
      Keeps drv outputs
  | origin {drv : D} {outputs deps : List Str} {origin : D × Str}
      (refers : nonSelfReferences graph drv outputs = .ok deps)
      (produced : origin ∈ referenceOrigins graph drv deps)
      (grafted : findGraftOrigin graph origin.1 origin.2 grafts = .ok true) : Keeps drv outputs
  | dependency {drv : D} {outputs deps : List Str} {origin : D × Str}
      (refers : nonSelfReferences graph drv outputs = .ok deps)
      (produced : origin ∈ referenceOrigins graph drv deps)
      (kept : Keeps origin.1 [origin.2]) : Keeps drv outputs

/-- The grafts are kept by an origin of a graft, and by what keeps them. -/
def OriginKeeps (origin : D × Str) : Prop :=
  findGraftOrigin graph origin.1 origin.2 grafts = .ok true ∨ Keeps graph grafts origin.1 [origin.2]

variable {graph grafts}

theorem keeps_iff (refers : nonSelfReferences graph drv outputs = .ok deps) (some : deps ≠ []) :
    Keeps graph grafts drv outputs ↔
      ∃ origin ∈ referenceOrigins graph drv deps, OriginKeeps graph grafts origin := by
  constructor
  · intro kept
    cases kept with
    | leaf none => exact absurd (Except.ok.inj (refers.symm.trans none)) some
    | origin refers' produced grafted =>
      cases refers.symm.trans refers'
      exact ⟨_, produced, .inl grafted⟩
    | dependency refers' produced kept =>
      cases refers.symm.trans refers'
      exact ⟨_, produced, .inr kept⟩
  · rintro ⟨origin, produced, grafted | kept⟩
    · exact .origin refers produced grafted
    · exact .dependency refers produced kept

/-! ### Runs -/

section Run

variable (graph) (cond : List (Graft D N) → Prop)
  (good : List (Graft D N) → D → List Str → List (Graft D N) → Prop)

/-- Every entry of the cache for grafts that meet the condition is good for its key. -/
def GoodCache (cache : GraftCache D N) : Prop :=
  ∀ entry ∈ cache, cond entry.1.2.2 → ∀ drv, graph.fileName drv = entry.1.1 →
    good entry.1.2.2 drv entry.1.2.1 entry.2

variable (grafts)

/-- The list for one origin of a reference. -/
def GoodOrigin (origin : D × Str) (all : List (Graft D N)) : Prop :=
  (findGraftOrigin graph origin.1 origin.2 grafts = .ok true ∧ all = grafts) ∨
    (findGraftOrigin graph origin.1 origin.2 grafts = .ok false ∧ good grafts origin.1 [origin.2] all)

/-- What a computation leaves: the cache is good, and so is the list for grafts that meet the
condition. -/
def Yields (made : List (Graft D N) → Prop) (all : List (Graft D N)) (cache : GraftCache D N) : Prop :=
  GoodCache graph cond good cache ∧ (cond grafts → made all)

/-- A computation only fails for grafts that do not meet the condition, an output that is not
there, or without the fuel for the references. -/
def Excused (fuel : Nat) (drv : D) (outputs : List Str) (cache : GraftCache D N) : Prop :=
  GoodCache graph cond good cache ∧ (cond grafts → 0 < fuel →
    ¬ ∀ output ∈ outputs, ∃ path, derivationOutputPath graph drv output = .ok path ∧
      graph.rank path < fuel)

/-- The steps of a run of `cumulative-grafts` make good lists. -/
structure GraftRule [DecidableEq N] (shallow : Shallow D N) : Prop where
  valid : cond grafts → ∀ graft ∈ grafts, ValidGraft graph graft
  leaf : ∀ drv outputs, nonSelfReferences graph drv outputs = .ok [] → cond grafts →
    good grafts drv outputs grafts
  merged : ∀ drv outputs deps (found : List (List (Graft D N))),
    nonSelfReferences graph drv outputs = .ok deps → deps ≠ [] → cond grafts →
    (∀ origin ∈ referenceOrigins graph drv deps, ∃ all ∈ found, GoodOrigin graph grafts good origin all) →
    (∀ all ∈ found, ∃ origin ∈ referenceOrigins graph drv deps, GoodOrigin graph grafts good origin all) →
    ∃ applicable, applicableGrafts graph deps found.flatten.eraseDups = .ok applicable ∧
      good grafts drv outputs (if applicable = [] then found.flatten.eraseDups
        else outputGrafts drv (shallow drv applicable outputs) outputs ++ found.flatten.eraseDups)

variable {graph cond good grafts} {cache : GraftCache D N}

/-- The origins of the references are ranked below the outputs. -/
theorem excused_origin {fuel : Nat} {origin : D × Str}
    (refers : nonSelfReferences graph drv outputs = .ok deps)
    (produced : origin ∈ referenceOrigins graph drv deps)
    (excused : Excused graph grafts cond good fuel origin.1 [origin.2] cache) :
    Excused graph grafts cond good (fuel + 1) drv outputs cache := by
  refine ⟨excused.1, fun holds _ named => ?_⟩
  obtain ⟨path, isDep, made⟩ := mem_referenceOrigins graph produced
  obtain ⟨output, isOutput, path', made', lower⟩ := rank_lt_of_mem_nonSelfReferences graph refers isDep
  obtain ⟨path'', made'', low⟩ := named output isOutput
  cases made'.symm.trans made''
  apply excused.2 holds (by omega)
  intro output member
  rw [mem_singleton.mp member]
  exact ⟨path, made, by omega⟩

variable [DecidableEq N] {compute : GraftM D N (List (Graft D N))} {fails : GraftError → GraftCache D N → Prop}

/-- A computed list is cached; a cached one is as good. -/
theorem wp_withCache (sound : GoodCache graph cond good cache)
    (computes : wp compute (Yields graph grafts cond good (good grafts drv outputs)) fails cache) :
    wp (withCache (graph.fileName drv, outputs, grafts) compute)
      (Yields graph grafts cond good (good grafts drv outputs)) fails cache := by
  rw [withCache, wp_bind, wp_get]
  cases found : cache.lookup (graph.fileName drv, outputs, grafts) with
  | some result =>
    exact ⟨sound, fun holds => sound _ (mem_of_lookup found) holds drv rfl⟩
  | none =>
    rw [wp_bind]
    apply wp_imp computes
    rintro all cache' ⟨sound', isGood⟩
    refine ⟨forall_mem_cons.mpr ⟨fun holds drv' sameFile => ?_, sound'⟩, isGood⟩
    rw [graph.fileName_injective drv' drv sameFile]
    exact isGood holds

variable {shallow : Shallow D N} (rule : GraftRule graph grafts cond good shallow)
include rule

/-- Whatever the grafts and outputs are, the cache stays good; for grafts that meet the
condition, with enough fuel, there is a good list. -/
theorem GraftRule.cumulativeGrafts (fuel : Nat) (drv : D) (outputs : List Str) (cache : GraftCache D N)
    (sound : GoodCache graph cond good cache) :
    wp (cumulativeGrafts graph shallow grafts fuel drv outputs)
      (Yields graph grafts cond good (good grafts drv outputs))
      (fun _ => Excused graph grafts cond good fuel drv outputs) cache := by
  induction fuel generalizing drv outputs cache with
  | zero =>
    rw [Client.cumulativeGrafts, wp_throw]
    exact ⟨sound, fun _ positive => absurd positive (Nat.lt_irrefl 0)⟩
  | succ fuel ih =>
    rw [Client.cumulativeGrafts]
    apply wp_withCache sound
    rw [wp_bind, wp_ofExcept]
    refine ⟨fun deps refers => ?_, fun e refers => ⟨sound, fun _ _ named => ?_⟩⟩
    · rw [wp_ite]
      refine ⟨fun none => ?_, fun some => ?_⟩
      · subst none
        rw [wp_pure]
        exact ⟨sound, rule.leaf drv outputs refers⟩
      · rw [wp_bind]
        -- each origin of a reference has a list, by the rank of its path
        refine wp_imp (wp_mapM _ _ (GoodCache graph cond good)
          (fun origin all => cond grafts → GoodOrigin graph grafts good origin all)
          (fun _ => Excused graph grafts cond good (fuel + 1) drv outputs) cache sound
          fun origin produced cache' sound' => ?_) ?_
        · rw [wp_bind, wp_ofExcept]
          refine ⟨fun isOrigin found => ?_, fun e failed => ⟨sound', fun holds => ?_⟩⟩
          · rw [wp_ite]
            refine ⟨fun isTrue => ⟨sound', fun _ => .inl ⟨isTrue ▸ found, rfl⟩⟩, fun isFalse => ?_⟩
            rw [Bool.eq_false_of_not_eq_true isFalse] at found
            refine wp_mono (ih origin.1 [origin.2] cache' sound') ?_
              fun _ _ excused => excused_origin refers produced excused
            exact fun all _ yields => ⟨yields.1, fun holds => .inr ⟨found, yields.2 holds⟩⟩
          · obtain ⟨found, returned⟩ := findGraftOrigin_returns (rule.valid holds) origin.1 origin.2
            cases failed.symm.trans returned
        · rintro found cache' ⟨sound', made, answers⟩
          have merged := fun holds => rule.merged drv outputs deps found refers some holds
            (fun origin produced => (made origin produced).imp fun _ all => ⟨all.1, all.2 holds⟩)
            (fun all member => (answers all member).imp fun _ origin => ⟨origin.1, origin.2 holds⟩)
          rw [wp_bind, wp_ofExcept]
          refine ⟨fun applicable applies => ?_, fun e applies => ⟨sound', fun holds => ?_⟩⟩
          · rw [wp_ite]
            refine ⟨fun none => ⟨sound', fun holds => ?_⟩, fun applied => ⟨sound', fun holds => ?_⟩⟩
            all_goals
              obtain ⟨applicable', applies', isGood⟩ := merged holds
              cases applies.symm.trans applies'
            · rwa [if_pos none] at isGood
            · rwa [if_neg applied] at isGood
          · obtain ⟨applicable, returned, _⟩ := merged holds
            cases applies.symm.trans returned
    · obtain ⟨deps, returned⟩ := nonSelfReferences_returns graph
        fun output member => (named output member).imp fun _ path => path.1
      cases refers.symm.trans returned

theorem GraftRule.graftDerivation (drv : D) (outputs : List Str) (cache : GraftCache D N)
    (sound : GoodCache graph cond good cache) :
    wp (graftDerivation graph shallow drv grafts outputs) (fun _ => GoodCache graph cond good)
      (fun _ => GoodCache graph cond good) cache := by
  have spec := rule.cumulativeGrafts (graftFuel graph drv) drv outputs cache sound
  rw [wp, Client.graftDerivation]
  rw [wp] at spec
  cases ran : Client.cumulativeGrafts graph shallow grafts (graftFuel graph drv) drv outputs cache with
  | error e cache' => exact sound
  | ok all cache' =>
    rw [ran] at spec
    cases all with
    | nil => exact spec.1
    | cons first rest => exact spec.1

end Run

/-! ### Answers -/

variable (graph) in
/-- Every entry of the cache for valid grafts is an answer for its key. -/
def SoundCache (cache : GraftCache D N) : Prop :=
  ∀ entry ∈ cache, (∀ graft ∈ entry.1.2.2, ValidGraft graph graft) → ∀ drv,
    graph.fileName drv = entry.1.1 →
    Answer graph entry.1.2.2 (Keeps graph entry.1.2.2 drv entry.1.2.1) entry.2

theorem soundCache_nil : SoundCache (N := N) graph [] := by
  exact nofun

theorem GoodOrigin.answer {origin : D × Str} {all : List (Graft D N)}
    (valid : ∀ graft ∈ grafts, ValidGraft graph graft)
    (isGood : GoodOrigin graph grafts
      (fun grafts drv outputs => Answer graph grafts (Keeps graph grafts drv outputs)) origin all) :
    Answer graph grafts (OriginKeeps graph grafts origin) all := by
  rcases isGood with ⟨found, rfl⟩ | ⟨notFound, answer⟩
  · exact answer_grafts (.inl found) valid
  · have same : OriginKeeps graph grafts origin ↔ Keeps graph grafts origin.1 [origin.2] := by
      simp [OriginKeeps, notFound]
    rwa [propext same]

variable [DecidableEq N]

/-- The merged answers of the origins are an answer for the derivation that refers to them. -/
theorem answer_merged {found : List (List (Graft D N))}
    (refers : nonSelfReferences graph drv outputs = .ok deps) (some : deps ≠ [])
    (made : ∀ origin ∈ referenceOrigins graph drv deps, ∃ all ∈ found,
      Answer graph grafts (OriginKeeps graph grafts origin) all)
    (answers : ∀ all ∈ found, ∃ origin ∈ referenceOrigins graph drv deps,
      Answer graph grafts (OriginKeeps graph grafts origin) all) :
    Answer graph grafts (Keeps graph grafts drv outputs) found.flatten.eraseDups where
  contains kept graft member := by
    rw [mem_eraseDups, mem_flatten]
    obtain ⟨origin, produced, keeps⟩ := (keeps_iff refers some).mp kept
    obtain ⟨all, isAnswer, answer⟩ := made origin produced
    exact ⟨all, isAnswer, answer.contains keeps graft member⟩
  lost lost := by
    have empty : ∀ all ∈ found, all = [] := by
      intro all member
      obtain ⟨origin, produced, answer⟩ := answers all member
      exact answer.lost fun keeps => lost ((keeps_iff refers some).mpr ⟨origin, produced, keeps⟩)
    rw [flatten_eq_nil_iff.mpr empty]
    rfl
  valid graft member := by
    rw [mem_eraseDups, mem_flatten] at member
    obtain ⟨all, isAnswer, inAll⟩ := member
    obtain ⟨_, _, answer⟩ := answers all isAnswer
    exact answer.valid graft inAll
  new graft member := by
    rw [mem_eraseDups, mem_flatten] at member
    obtain ⟨all, isAnswer, inAll⟩ := member
    obtain ⟨_, _, answer⟩ := answers all isAnswer
    exact answer.new graft inAll

variable (grafts) in
theorem answerRule (shallow : Shallow D N) :
    GraftRule graph grafts (fun grafts => ∀ graft ∈ grafts, ValidGraft graph graft)
      (fun grafts drv outputs => Answer graph grafts (Keeps graph grafts drv outputs)) shallow where
  valid valid := valid
  leaf _ _ refers valid := answer_grafts (.leaf refers) valid
  merged drv outputs deps found refers some valid made answers := by
    have merged := answer_merged refers some
      (fun origin produced => (made origin produced).imp fun _ all => ⟨all.1, all.2.answer valid⟩)
      (fun all member => (answers all member).imp fun _ origin => ⟨origin.1, origin.2.answer valid⟩)
    obtain ⟨applicable, applies⟩ := applicableGrafts_returns merged.valid deps
    refine ⟨applicable, applies, ?_⟩
    split
    next => exact merged
    next applied => exact merged.add (outputs_named graph refers) _ applies applied

/-! ### Calls -/

variable (graph) in
/-- The caches of a connection, after any calls. -/
inductive ReachableCache : GraftCache D N → Prop
  | empty : ReachableCache []
  | returned {cache cache' : GraftCache D N} {result : Replacement D N}
      (shallow : Shallow D N) (drv : D) (grafts : List (Graft D N))
      (outputs : List Str) (before : ReachableCache cache)
      (ran : graftDerivation graph shallow drv grafts outputs cache = .ok result cache') :
      ReachableCache cache'
  | failed {cache cache' : GraftCache D N} {e : GraftError}
      (shallow : Shallow D N) (drv : D) (grafts : List (Graft D N))
      (outputs : List Str) (before : ReachableCache cache)
      (ran : graftDerivation graph shallow drv grafts outputs cache = .error e cache') :
      ReachableCache cache'

theorem ReachableCache.sound {cache : GraftCache D N} (reachable : ReachableCache graph cache) :
    SoundCache graph cache := by
  induction reachable with
  | empty => exact soundCache_nil
  | returned shallow drv grafts outputs _ ran ih
  | failed shallow drv grafts outputs _ ran ih =>
    have kept := (answerRule grafts shallow).graftDerivation drv outputs _ ih
    rwa [wp, ran] at kept

/-- The derivation itself, a grafted one, or the replacement the grafts name for it. -/
inductive GraftedAs (grafts : List (Graft D N)) (drv : D) : Replacement D N → Prop
  | itself : GraftedAs grafts drv (.derivation drv)
  | grafted (new : N) : GraftedAs grafts drv (.grafted new)
  | named (graft : Graft D N) (member : graft ∈ grafts) (origin : graft.origin = .derivation drv) :
      GraftedAs grafts drv graft.replacement

/-- The grafts are in the list and there is a result exactly when the grafts are kept. -/
theorem graftDerivation_keeps_iff (cache : GraftCache D N) (reachable : ReachableCache graph cache)
    (shallow : Shallow D N) (drv : D) (grafts : List (Graft D N))
    (outputs : List Str) (some : grafts ≠ []) (valid : ∀ graft ∈ grafts, ValidGraft graph graft)
    (named : ∀ output ∈ outputs, ∃ path, derivationOutputPath graph drv output = .ok path) :
    (∃ all result cache',
      cumulativeGrafts graph shallow grafts (graftFuel graph drv) drv outputs cache = .ok all cache' ∧
      graftDerivation graph shallow drv grafts outputs cache = .ok result cache' ∧
      (∀ graft ∈ grafts, graft ∈ all) ∧ GraftedAs grafts drv result) ↔
    Keeps graph grafts drv outputs := by
  have spec := (answerRule grafts shallow).cumulativeGrafts (graftFuel graph drv) drv outputs cache
    reachable.sound
  obtain ⟨all, cache', ran, sound, isAnswer⟩ := wp_returns (wp_mono spec (fun _ _ answers => answers)
    fun _ _ excused => excused.2 valid (Nat.succ_pos _) fun output member =>
      (named output member).imp fun _ path => ⟨path, rank_lt_graftFuel graph path⟩)
  have answer := isAnswer valid
  constructor
  · rintro ⟨all', result, cache'', ran', _, contains, _⟩
    cases ran.symm.trans ran'
    by_contra lost
    obtain ⟨graft, member⟩ := exists_mem_of_ne_nil grafts some
    have inAll := contains graft member
    rw [answer.lost lost] at inAll
    cases inAll
  · intro kept
    have contains := answer.contains kept
    cases all with
    | nil =>
      obtain ⟨graft, member⟩ := exists_mem_of_ne_nil grafts some
      cases contains graft member
    | cons first rest =>
      refine ⟨first :: rest, if first.origin = .derivation drv then first.replacement else .derivation drv,
        cache', ran, by rw [graftDerivation, ran], contains, ?_⟩
      split
      next isOrigin =>
        rcases answer.new first mem_cons_self with member | ⟨new, isNew⟩
        · exact .named first member isOrigin
        · rw [isNew]
          exact .grafted new
      next => exact .itself

end Keeps

section Chain

/-- Three derivations. The output of each refers to that of the next, and that of the last one
to the given items. -/
def chain (refs : List Str) : DerivationGraph (Fin 3) where
  derivations := [0, 1, 2]
  complete := by decide
  inputs := fun drv => if drv = 2 then [] else [drv + 1]
  fileName := fun drv => str "/drv" ++ Nat.toDigits 10 drv
  fileName_injective := by decide
  outputPaths := fun drv => [(str "out", str "/" ++ Nat.toDigits 10 drv)]
  outputNames_nodup := fun _ => nodup_singleton _
  references := fun item =>
    if item = str "/0" then [str "/1"] else if item = str "/1" then [str "/2"]
    else if item = str "/2" then refs.filter (· ∉ [str "/0", str "/1"]) else []
  rank := fun item => if item = str "/0" then 3 else if item = str "/1" then 2 else if item = str "/2" then 1 else 0
  references_rank := by
    intro item r member other
    split at member
    next isFirst => simp_all [str]
    next =>
      split at member
      next => simp_all [str]
      next =>
        split at member
        next isLast => simp_all
        next => cases member

/-- A graft of one plain item by another. -/
def itemGraft : Graft (Fin 3) Unit := ⟨.item (str "/a"), none, .item (str "/b"), none⟩

theorem validGraft_itemGraft (refs : List Str) : ∀ graft ∈ [itemGraft], ValidGraft (chain refs) graft := by
  intro graft member
  rw [mem_singleton.mp member]
  exact ⟨str "/a", rfl⟩

/-- The last output has no references and keeps the graft for the others. -/
theorem graftDerivation_keeps_chain : ∃ all result cache',
    cumulativeGrafts (chain []) (fun _ _ _ => ()) [itemGraft] (graftFuel (chain []) 0) 0
        [str "out"] [] = .ok all cache' ∧
      graftDerivation (chain []) (fun _ _ _ => ()) 0 [itemGraft] [str "out"] [] =
        .ok result cache' ∧
      (∀ graft ∈ [itemGraft], graft ∈ all) ∧ GraftedAs [itemGraft] 0 result := by
  have last : Keeps (chain []) [itemGraft] 2 [str "out"] := .leaf rfl
  have toLast : ((2 : Fin 3), str "out") ∈ referenceOrigins (chain []) 1 [str "/2"] := by decide
  have toSecond : ((1 : Fin 3), str "out") ∈ referenceOrigins (chain []) 0 [str "/1"] := by decide
  have first : Keeps (chain []) [itemGraft] 0 [str "out"] :=
    .dependency rfl toSecond (.dependency rfl toLast last)
  exact (graftDerivation_keeps_iff [] .empty (fun _ _ _ => ()) 0 [itemGraft] [str "out"]
    (cons_ne_nil _ _) (validGraft_itemGraft [])
    (fun output member => ⟨str "/0", by rw [mem_singleton.mp member]; rfl⟩)).mpr first

/-- An output that refers to a plain item loses the graft, and no pattern matches. -/
theorem graftDerivation_loses_grafts :
    let graph := chain [str "/a"]
    ∃ cache', cumulativeGrafts graph (fun _ _ _ => ()) [itemGraft] (graftFuel graph 2) 2 [str "out"] [] =
        .ok [] cache' ∧
      graftDerivation graph (fun _ _ _ => ()) 2 [itemGraft] [str "out"] [] = .error .noMatch cache' :=
  ⟨_, rfl, rfl⟩

end Chain

end Guix.Client
