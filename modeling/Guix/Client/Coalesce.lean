import Guix.Client.Derivation
import Mathlib.Data.List.Induction

/-!
# The lists of a derivation

What `coalesce-duplicate-inputs` and `env-vars-with-empty-outputs` return.
-/

namespace Guix.Client

open Sorting List

/-! ### Inputs -/

/-- The table of `coalesce-duplicate-inputs` once the inputs of a list are in it. -/
structure Coalesced (inputs : List Input) (table : List (Str × Input)) : Prop where
  keys : ∀ entry ∈ table, entry.1 = coalesceKey entry.2
  distinct : (table.map (·.1)).Nodup
  sorted : ∀ entry ∈ table, entry.2.subDerivations.Pairwise (· < ·)
  drvs : ∀ entry ∈ table, ∃ input ∈ inputs, entry.2.drv = input.drv
  names : ∀ entry ∈ table, ∀ name ∈ entry.2.subDerivations,
    ∃ input ∈ inputs, name ∈ input.subDerivations

/-- Either the key is new, or the names are added to those of the entry with the key. -/
theorem coalesceStep_cases (table : List (Str × Input)) (input : Input) :
    ((∀ entry ∈ table, entry.1 ≠ coalesceKey input) ∧
      coalesceStep table input = table ++ [(coalesceKey input, input)]) ∨
    ∃ old, (coalesceKey input, old) ∈ table ∧
      coalesceStep table input = table.map fun entry =>
        if entry.1 = coalesceKey input then
          (coalesceKey input,
            ⟨old.drv, sortBy id (input.subDerivations ++ old.subDerivations).eraseDups⟩)
        else entry := by
  simp only [coalesceStep]
  cases found : table.find? fun entry => entry.1 = coalesceKey input with
  | none =>
    refine .inl ⟨fun entry inTable => ?_, rfl⟩
    simpa using find?_eq_none.mp found entry inTable
  | some entry =>
    obtain ⟨key, old⟩ := entry
    have same : key = coalesceKey input := by simpa using find?_some found
    exact .inr ⟨old, same ▸ mem_of_find?_eq_some found, rfl⟩

theorem mergedNames_sorted (names names2 : List Str) :
    (sortBy id (names ++ names2).eraseDups).Pairwise (· < ·) := by
  apply sortBy_increasing id
  rw [map_id]
  exact nodup_eraseDups _

theorem Coalesced.step {inputs : List Input} {table : List (Str × Input)}
    (holds : Coalesced inputs table) (input : Input)
    (sorted : input.subDerivations.Pairwise (· < ·)) :
    Coalesced (inputs ++ [input]) (coalesceStep table input) := by
  have oldDrv : ∀ entry ∈ table, ∃ other ∈ inputs ++ [input], entry.2.drv = other.drv := by
    intro entry inTable
    obtain ⟨other, isInput, same⟩ := holds.drvs entry inTable
    exact ⟨other, mem_append_left _ isInput, same⟩
  have oldNames : ∀ entry ∈ table, ∀ name ∈ entry.2.subDerivations,
      ∃ other ∈ inputs ++ [input], name ∈ other.subDerivations := by
    intro entry inTable name isName
    obtain ⟨other, isInput, inOther⟩ := holds.names entry inTable name isName
    exact ⟨other, mem_append_left _ isInput, inOther⟩
  have last : input ∈ inputs ++ [input] := by simp
  -- the entries are those of the table and one for the key of the input
  suffices ∃ new : Str × Input,
      (∀ entry ∈ coalesceStep table input, entry ∈ table ∨ entry = new) ∧
      ((coalesceStep table input).map (·.1)).Nodup ∧
      new.1 = coalesceKey new.2 ∧ new.2.subDerivations.Pairwise (· < ·) ∧
      (∃ other ∈ inputs ++ [input], new.2.drv = other.drv) ∧
      ∀ name ∈ new.2.subDerivations, ∃ other ∈ inputs ++ [input], name ∈ other.subDerivations by
    obtain ⟨new, entries, distinct, key, sorted, drv, names⟩ := this
    have each {p : Str × Input → Prop} (ofOld : ∀ entry ∈ table, p entry) (ofNew : p new) :
        ∀ entry ∈ coalesceStep table input, p entry := by
      intro entry isEntry
      rcases entries entry isEntry with isOld | rfl
      · exact ofOld entry isOld
      · exact ofNew
    exact ⟨each holds.keys key, distinct, each holds.sorted sorted, each oldDrv drv,
      each oldNames names⟩
  rcases coalesceStep_cases table input with ⟨new, result⟩ | ⟨old, inTable, result⟩
  · -- a new entry for the input
    rw [result]
    refine ⟨(coalesceKey input, input), by simp, ?_, rfl, sorted, ⟨input, last, rfl⟩,
      fun name isName => ⟨input, last, isName⟩⟩
    rw [map_append, map_singleton, ← concat_eq_append]
    refine holds.distinct.concat fun isOld => ?_
    obtain ⟨entry, inTable, same⟩ := mem_map.mp isOld
    exact new entry inTable same
  · -- the entry `old` of the key gets the names of both
    have sameKey : coalesceKey input = coalesceKey old := holds.keys _ inTable
    have keys : (coalesceStep table input).map (·.1) = table.map (·.1) := by
      rw [result, map_map]
      apply map_congr_left
      intro entry _
      simp only [Function.comp_apply]
      split
      · next same => exact same.symm
      · rfl
    rw [keys, result]
    refine ⟨(coalesceKey input,
        ⟨old.drv, sortBy id (input.subDerivations ++ old.subDerivations).eraseDups⟩),
      ?_, holds.distinct, sameKey, mergedNames_sorted _ _, oldDrv (_, old) inTable, ?_⟩
    · intro entry isEntry
      obtain ⟨before, inTable, rfl⟩ := mem_map.mp isEntry
      split
      · exact .inr rfl
      · exact .inl inTable
    · intro name isName
      rw [mem_sortBy, mem_eraseDups, mem_append] at isName
      rcases isName with isNew | isOld
      · exact ⟨input, last, isNew⟩
      · exact oldNames _ inTable name isOld

theorem coalesced (inputs : List Input)
    (sorted : ∀ input ∈ inputs, input.subDerivations.Pairwise (· < ·)) :
    Coalesced inputs (inputs.foldl coalesceStep []) := by
  induction inputs using reverseRecOn with
  | nil => exact ⟨by simp, nodup_nil, by simp, by simp, by simp⟩
  | append_singleton inputs input ih =>
    rw [foldl_append]
    apply Coalesced.step
    · exact ih fun other isInput => sorted other (mem_append_left _ isInput)
    · exact sorted input (by simp)

section CoalesceDuplicateInputs

variable {hashFold : HashFold} {inputs : List Input}
  (sorted : ∀ input ∈ inputs, input.subDerivations.Pairwise (· < ·))

include sorted

theorem mem_coalesceDuplicateInputs {input : Input}
    (isInput : input ∈ coalesceDuplicateInputs hashFold inputs) :
    input.subDerivations.Pairwise (· < ·) ∧ (∃ other ∈ inputs, input.drv = other.drv) ∧
      ∀ name ∈ input.subDerivations, ∃ other ∈ inputs, name ∈ other.subDerivations := by
  have table := coalesced inputs sorted
  rw [coalesceDuplicateInputs, (hashFold.2 _).mem_iff] at isInput
  obtain ⟨entry, inTable, rfl⟩ := mem_map.mp isInput
  exact ⟨table.sorted entry inTable, table.drvs entry inTable, table.names entry inTable⟩

/-- No two inputs have the same output paths. -/
theorem coalesceDuplicateInputs_distinct :
    ((coalesceDuplicateInputs hashFold inputs).map coalesceKey).Nodup := by
  have table := coalesced inputs sorted
  have keys : ((inputs.foldl coalesceStep []).map (·.2)).map coalesceKey =
      (inputs.foldl coalesceStep []).map (·.1) := by
    rw [map_map]
    apply map_congr_left
    exact fun entry inTable => (table.keys entry inTable).symm
  rw [coalesceDuplicateInputs, ((hashFold.2 _).map coalesceKey).nodup_iff, keys]
  exact table.distinct

end CoalesceDuplicateInputs

/-! ### Environment variables -/

theorem mem_addEmptyOutputs (outputs : List Str) (envVars : List (Str × Str)) (var : Str × Str) :
    var ∈ outputs.foldl addEmptyOutput envVars ↔
      var ∈ envVars ∨ (var.1 ∈ outputs ∧ var.1 ∉ envVars.map (·.1) ∧ var.2 = []) := by
  induction outputs generalizing envVars with
  | nil => simp
  | cons name outputs ih =>
    rw [foldl_cons, ih, addEmptyOutput]
    by_cases known : name ∈ envVars.map (·.1)
    · have same : var.1 = name → var.1 ∈ envVars.map (·.1) := by
        rintro rfl
        exact known
      rw [if_pos known, mem_cons]
      tauto
    · have same : var.1 = name → var.1 ∉ envVars.map (·.1) := by
        rintro rfl
        exact known
      rw [if_neg known, mem_cons, mem_append, mem_singleton, map_append,
        mem_append, map_singleton, mem_singleton, Prod.ext_iff]
      tauto

theorem addEmptyOutputs_distinct (outputs : List Str) (envVars : List (Str × Str))
    (distinct : (envVars.map (·.1)).Nodup) :
    ((outputs.foldl addEmptyOutput envVars).map (·.1)).Nodup := by
  induction outputs generalizing envVars with
  | nil => exact distinct
  | cons name outputs ih =>
    apply ih
    rw [addEmptyOutput]
    split
    · exact distinct
    · next new =>
      rw [map_append, map_singleton, ← concat_eq_append]
      exact distinct.concat new

variable (outputs : List Str) (envVars : List (Str × Str))

theorem emptied_names :
    (envVars.map fun var => if var.1 ∈ outputs then (var.1, []) else var).map (·.1) =
      envVars.map (·.1) := by
  rw [map_map]
  apply map_congr_left
  intro var _
  simp only [Function.comp_apply]
  split <;> rfl

/-- The variables of the outputs are empty and the others are kept. -/
theorem mem_envVarsWithEmptyOutputs (var : Str × Str) :
    var ∈ envVarsWithEmptyOutputs outputs envVars ↔
      (var.1 ∈ outputs ∧ var.2 = []) ∨ (var.1 ∉ outputs ∧ var ∈ envVars) := by
  rw [envVarsWithEmptyOutputs, mem_addEmptyOutputs, emptied_names]
  constructor
  · rintro (emptied | ⟨isOutput, _, isEmpty⟩)
    · obtain ⟨old, isOld, rfl⟩ := mem_map.mp emptied
      split
      · next isOutput => exact .inl ⟨isOutput, rfl⟩
      · next notOutput => exact .inr ⟨notOutput, isOld⟩
    · exact .inl ⟨isOutput, isEmpty⟩
  · rintro (⟨isOutput, isEmpty⟩ | ⟨notOutput, isOld⟩)
    · by_cases known : var.1 ∈ envVars.map (·.1)
      · obtain ⟨old, isOld, sameName⟩ := mem_map.mp known
        refine .inl (mem_map.mpr ⟨old, isOld, ?_⟩)
        rw [if_pos (sameName ▸ isOutput)]
        exact Prod.ext sameName isEmpty.symm
      · exact .inr ⟨isOutput, known, isEmpty⟩
    · exact .inl (mem_map.mpr ⟨var, isOld, if_neg notOutput⟩)

theorem envVarsWithEmptyOutputs_distinct (distinct : (envVars.map (·.1)).Nodup) :
    ((envVarsWithEmptyOutputs outputs envVars).map (·.1)).Nodup := by
  apply addEmptyOutputs_distinct
  rw [emptied_names]
  exact distinct

end Guix.Client
