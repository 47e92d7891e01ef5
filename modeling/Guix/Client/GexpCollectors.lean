import Guix.Client.Gexp
import Guix.Lib.Fallible

/-!
# Needs and declarations of a gexp

`gexp->sexp` and the collectors `gexp-inputs`, `gexp-modules`, `gexp-extensions` and `gexp-outputs`
walk over the same references, each in its own way. Both sides are described by structure here: what
the expansion needs, and what the collectors declare.
-/

namespace Guix.Client.Gexp

open List Fallible

section Structure

variable {Obj F Sexp : Type}

/-! ### Needs -/

/-- The object that lowering reaches through nested inputs. -/
def lowerable : Datum Obj F Sexp → Option Obj
  | .object o => some o
  | .input thing _ _ => lowerable thing
  | _ => none

/-- The target that lowering reaches through nested inputs. -/
def finalTarget (target : Option Str) : Datum Obj F Sexp → Option Str
  | .input thing _ native => finalTarget (effectiveTarget native target) thing
  | _ => target

/-- The dependency is the lowering of the thing. -/
def Lowers (target : Option Str) (output : Str) (thing : Datum Obj F Sexp)
    (dependency : Dependency Obj F) : Prop :=
  ∃ o, lowerable thing = some o ∧ dependency = .lowered ⟨o, output, finalTarget target thing⟩

mutual

/-- What `reference->sexp` needs for an input. -/
def InputNeeds (element : Bool) (target : Option Str) (output : Str) :
    Datum Obj F Sexp → Dependency Obj F → Prop
  | .gexp references modules extensions _, d =>
    d ∈ ownDependencies modules extensions ∨ ReferencesNeed target references d
  | .pair head tail, d =>
    isList tail ∧ (InputNeeds true target (str "out") head d ∨ ElementsNeed target tail d)
  | .object o, d => Lowers target output (.object o : Datum Obj F Sexp) d
  | .input thing output' native, d =>
    if element then InputNeeds false (effectiveTarget native target) output' thing d
    else Lowers target (expandedOutput output (.input thing output' native)) (.input thing output' native) d
  | _, _ => False

def ElementsNeed (target : Option Str) : Datum Obj F Sexp → Dependency Obj F → Prop
  | .pair head tail, d => InputNeeds true target (str "out") head d ∨ ElementsNeed target tail d
  | _, _ => False

def ReferencesNeed (target : Option Str) : List (Datum Obj F Sexp) → Dependency Obj F → Prop
  | [], _ => False
  | .output name :: rest, d => d = .output name ∨ ReferencesNeed target rest d
  | .input thing output native :: rest, d =>
    InputNeeds false (effectiveTarget native target) output thing d ∨ ReferencesNeed target rest d
  | _ :: rest, d => ReferencesNeed target rest d

end

/-! ### Declarations -/

/-- Modules and extensions, which `gexp-attribute` collects. -/
def Dependency.isAttribute : Dependency Obj F → Bool
  | .module _ => true
  | .extension _ => true
  | _ => false

mutual

/-- What the collectors find in the references of a gexp. -/
def ReferencesDeclare (target : Option Str) : List (Datum Obj F Sexp) → Dependency Obj F → Prop
  | [], _ => False
  | .output name :: rest, d => d = .output name ∨ ReferencesDeclare target rest d
  | .input (.gexp references modules extensions _) _ native :: rest, d =>
    (d ∈ ownDependencies modules extensions ∨
      ReferencesDeclare (effectiveTarget native target) references d) ∨
    ReferencesDeclare target rest d
  | .input (.pair head tail) _ native :: rest, d =>
    -- only `gexp-attribute` insists on a proper list
    ((d.isAttribute → isList tail) ∧ TreeDeclares target native (.pair head tail) d) ∨
    ReferencesDeclare target rest d
  | .input (.object o) output native :: rest, d =>
    Lowers (effectiveTarget native target) output (.object o : Datum Obj F Sexp) d ∨
    ReferencesDeclare target rest d
  | .input (.input thing output' native') output native :: rest, d =>
    Lowers (effectiveTarget native target) output (.input thing output' native') d ∨
    ReferencesDeclare target rest d
  | _ :: rest, d => ReferencesDeclare target rest d

/-- What the collectors find in a list with a native flag. -/
def TreeDeclares (target : Option Str) (native : Bool) : Datum Obj F Sexp → Dependency Obj F → Prop
  | .pair head tail, d => TreeDeclares target native head d ∨ TreeDeclares target native tail d
  | .input thing output _, d => Lowers (effectiveTarget native target) output thing d
  | .object o, d => Lowers (effectiveTarget native target) (str "out") (.object o : Datum Obj F Sexp) d
  | .output name, d => d = .output name
  | .gexp references modules extensions _, d =>
    d ∈ ownDependencies modules extensions ∨ ReferencesDeclare target references d
  | _, _ => False

end

end Structure

section Logs

variable {Obj F Sexp : Type} (lib : GexpLibrary Obj F Sexp)

theorem lowerObject_eq_ok_iff (target : Option Str) (thing : Datum Obj F Sexp) (o : Obj)
    (target' : Option Str) :
    lowerObject lib target thing = .ok (o, target') ↔
      lowerable thing = some o ∧ lib.hasCompiler o ∧ target' = finalTarget target thing := by
  induction thing using lowerable.induct generalizing target with
  | case1 o' =>
    simp only [lowerObject, lowerable, finalTarget]
    split
    · simp only [Except.ok.injEq, Prod.mk.injEq, Option.some.injEq]
      grind
    · simp only [reduceCtorEq, Option.some.injEq, false_iff]
      grind
  | case2 thing output native ih => exact ih (effectiveTarget native target)
  | case3 thing notObject notInput =>
    have failed : ∃ e, lowerObject lib target thing = .error e := by
      cases thing <;> simp_all [lowerObject]
    obtain ⟨e, failed⟩ := failed
    rw [failed, lowerable.eq_3 thing notObject notInput]
    simp

/-! ### The expansion -/

/-- An object of the dependency has a compiler. -/
def Compiled : Dependency Obj F → Prop
  | .lowered lowering => lib.hasCompiler lowering.object
  | _ => True

/-- The dependencies of an expansion are those that the structure needs, and their objects have
compilers. -/
structure Logs (log : List (Dependency Obj F)) (needs : Dependency Obj F → Prop) : Prop where
  mem_iff : ∀ d, d ∈ log ↔ needs d
  compiled : ∀ d ∈ log, Compiled lib d

variable {log : List (Dependency Obj F)} {needs needs' : Dependency Obj F → Prop}
variable {lib} in
theorem Logs.append {log' : List (Dependency Obj F)} (first : Logs lib log needs)
    (second : Logs lib log' needs') :
    Logs lib (log ++ log') fun d => needs d ∨ needs' d where
  mem_iff d := by rw [mem_append, first.mem_iff d, second.mem_iff d]
  compiled d member := (mem_append.mp member).elim (first.compiled d) (second.compiled d)

variable {lib} in
theorem Logs.congr (logs : Logs lib log needs) (same : ∀ d, needs' d ↔ needs d) : Logs lib log needs' where
  mem_iff d := by rw [logs.mem_iff d, same d]
  compiled := logs.compiled

theorem logs_nil : Logs lib [] fun _ => False where
  mem_iff d := by simp
  compiled d member := by simp at member

theorem logs_own (modules : List (ModuleSpec F)) (extensions : List F) :
    Logs lib (ownDependencies modules extensions) fun d => d ∈ ownDependencies modules extensions where
  mem_iff d := Iff.rfl
  compiled d member := by
    cases d with
    | lowered lowering => simp [ownDependencies] at member
    | _ => trivial

theorem logs_output (name : Str) : Logs lib [.output name] fun d => d = .output name where
  mem_iff d := mem_singleton
  compiled d member := by
    rw [mem_singleton] at member
    subst member
    trivial

/-- An expansion that succeeds has the dependencies that the structure needs. -/
def Expands {α : Type} (expansion : Except GexpError (α × List (Dependency Obj F)))
    (needs : Dependency Obj F → Prop) : Prop :=
  ∀ s log, expansion = .ok (s, log) → Logs lib log needs

section Expands

variable {lib} {α β γ : Type} {expansion : Except GexpError (α × List (Dependency Obj F))}
  {expansion' : Except GexpError (β × List (Dependency Obj F))}

theorem Expands.congr (expands : Expands lib expansion needs) (same : ∀ d, needs' d ↔ needs d) :
    Expands lib expansion needs' := fun s log ok => (expands s log ok).congr same

theorem Logs.expands (logs : Logs lib log needs) (s : α) : Expands lib (.ok (s, log)) needs := by
  rintro _ _ ⟨⟩
  exact logs

theorem Expands.both (first : Expands lib expansion needs) (second : Expands lib expansion' needs')
    (f : α × List (Dependency Obj F) → β × List (Dependency Obj F) → γ) :
    Expands lib (do let a ← expansion; let b ← expansion'; return (f a b, a.2 ++ b.2)) fun d => needs d ∨ needs' d := by
  intro s log ok
  obtain ⟨a, isFirst, ok⟩ := bind_ok.mp ok
  obtain ⟨b, isSecond, result⟩ := bind_ok.mp ok
  cases result
  exact (first a.1 a.2 isFirst).append (second b.1 b.2 isSecond)

theorem Logs.before (logs : Logs lib log needs) (rest : Expands lib expansion needs')
    (f : α × List (Dependency Obj F) → γ) :
    Expands lib (do let a ← expansion; return (f a, log ++ a.2)) fun d => needs d ∨ needs' d :=
  (logs.expands ()).both rest fun _ a => f a

end Expands

theorem lowerExpandObject_logs (system : Str) (target : Option Str) (output : Str) (thing : Datum Obj F Sexp) :
    Expands lib (lowerExpandObject lib system target output thing)
      (Lowers target (expandedOutput output thing) thing) := by
  intro s log expanded
  obtain ⟨⟨o, target'⟩, lowered, result⟩ := bind_ok.mp expanded
  cases result
  obtain ⟨reached, compiled, rfl⟩ := (lowerObject_eq_ok_iff lib target thing o target').mp lowered
  refine ⟨fun d => ?_, forall_mem_singleton.mpr compiled⟩
  simp [Lowers, reached]

mutual

theorem inputToSexp_logs (system : Str) (element : Bool) (target : Option Str) (output : Str)
    (thing : Datum Obj F Sexp) :
    Expands lib (inputToSexp lib system element target output thing) (InputNeeds element target output thing) := by
  cases thing with
  | gexp references modules extensions proc =>
    rw [inputToSexp]
    have rest := referencesToSexp_logs system target references
    exact ((logs_own lib modules extensions).before rest _).congr fun d => by rw [InputNeeds]
  | pair head tail =>
    rw [inputToSexp]
    split
    · next proper =>
      have first := inputToSexp_logs system true target (str "out") head
      have rest := elementsToSexp_logs system target tail
      exact (first.both rest _).congr fun d => by simp [InputNeeds, proper]
    · next improper => exact ((logs_nil lib).expands _).congr fun d => by simp [InputNeeds, improper]
  | object o =>
    rw [inputToSexp]
    have logs := lowerExpandObject_logs lib system target output (.object o)
    exact logs.congr fun d => by simp [InputNeeds, expandedOutput]
  | input thing output' native =>
    rw [inputToSexp]
    split
    · next isElement =>
      have logs := inputToSexp_logs system false (effectiveTarget native target) output' thing
      exact logs.congr fun d => by simp [InputNeeds, isElement]
    · next notElement =>
      have logs := lowerExpandObject_logs lib system target output (.input thing output' native)
      exact logs.congr fun d => by simp [InputNeeds, notElement]
  | output | procedure =>
    rw [inputToSexp]
    rintro _ _ ⟨⟩
  | nil | string | atom =>
    rw [inputToSexp]
    exact ((logs_nil lib).expands _).congr fun d => by simp [InputNeeds]

theorem elementsToSexp_logs (system : Str) (target : Option Str) (lst : Datum Obj F Sexp) :
    Expands lib (elementsToSexp lib system target lst) (ElementsNeed target lst) := by
  cases lst with
  | pair head tail =>
    rw [elementsToSexp]
    have first := inputToSexp_logs system true target (str "out") head
    exact (first.both (elementsToSexp_logs system target tail) _).congr fun d => by rw [ElementsNeed]
  | _ =>
    simp only [elementsToSexp]
    exact ((logs_nil lib).expands _).congr fun d => by simp [ElementsNeed]

theorem referencesToSexp_logs (system : Str) (target : Option Str) (references : List (Datum Obj F Sexp)) :
    Expands lib (referencesToSexp lib system target references) (ReferencesNeed target references) := by
  match references with
  | [] =>
    rw [referencesToSexp]
    exact ((logs_nil lib).expands _).congr fun d => by rw [ReferencesNeed]
  | reference :: rest =>
    have logs := referencesToSexp_logs system target rest
    cases reference with
    | output name =>
      rw [referencesToSexp]
      exact ((logs_output lib name).before logs _).congr fun d => by rw [ReferencesNeed]
    | input thing output native =>
      rw [referencesToSexp]
      have first := inputToSexp_logs system false (effectiveTarget native target) output thing
      exact (first.both logs _).congr fun d => by rw [ReferencesNeed]
    | _ =>
      rw [referencesToSexp]
      · exact ((logs_nil lib).before logs _).congr fun d => by rw [ReferencesNeed, false_or] <;> simp
      all_goals simp

end

/-! ### The inputs -/

/-- `lower-inputs` lowers one of the inputs like this. -/
def Records (target : Option Str) (inputs : List (Input Obj F Sexp)) (lowering : Lowering Obj) : Prop :=
  ∃ input ∈ inputs, lowerInput lib target input = .ok (.object lowering)

section Records

variable {lib} (target : Option Str) (input : Input Obj F Sexp) (inputs inputs' : List (Input Obj F Sexp))
  (lowering : Lowering Obj)

theorem lowerInput_eq_object_iff :
    lowerInput lib target input = .ok (.object lowering) ↔
      Lowers (effectiveTarget input.native target) input.output input.thing (.lowered lowering) ∧
        lib.hasCompiler lowering.object := by
  obtain ⟨thing, output, native⟩ := input
  obtain ⟨o, output', target'⟩ := lowering
  have general : (do
      let lowered ← lowerObject lib (effectiveTarget native target) thing
      return LoweredInput.object ⟨lowered.1, output, lowered.2⟩ :
      Except GexpError (LoweredInput Obj)) = .ok (.object ⟨o, output', target'⟩) ↔
      Lowers (effectiveTarget native target) output thing (.lowered ⟨o, output', target'⟩) ∧
        lib.hasCompiler o := by
    rw [bind_ok]
    constructor
    · rintro ⟨⟨o'', target''⟩, lowered, result⟩
      cases result
      obtain ⟨reached, compiled, rfl⟩ := (lowerObject_eq_ok_iff lib _ thing _ _).mp lowered
      exact ⟨⟨_, reached, rfl⟩, compiled⟩
    · rintro ⟨⟨o'', reached, same⟩, compiled⟩
      cases same
      exact ⟨⟨o, _⟩, (lowerObject_eq_ok_iff lib _ thing o _).mpr ⟨reached, compiled, rfl⟩, rfl⟩
  cases thing with
  | string s =>
    simp only [lowerInput, Lowers, lowerable]
    split <;> simp
  | _ => exact general

theorem records_nil : ¬ Records lib target ([] : List (Input Obj F Sexp)) lowering := by
  simp [Records]

theorem records_cons :
    Records lib target (input :: inputs) lowering ↔
      (Lowers (effectiveTarget input.native target) input.output input.thing (.lowered lowering) ∧
        lib.hasCompiler lowering.object) ∨ Records lib target inputs lowering := by
  simp [Records, lowerInput_eq_object_iff]

theorem records_append :
    Records lib target (inputs ++ inputs') lowering ↔
      Records lib target inputs lowering ∨ Records lib target inputs' lowering := by
  simp [Records, or_and_right, exists_or]

/-- Native inputs are lowered as they are without a target. -/
theorem records_setNative :
    Records lib target (inputs.map Input.setNative) lowering ↔ Records lib none inputs lowering := by
  have same : ∀ input : Input Obj F Sexp,
      lowerInput lib target input.setNative = lowerInput lib none input := by
    rintro ⟨thing, output, native⟩
    cases native <;> rfl
  simp [Records, same]

end Records

theorem own_not_lowered (modules : List (ModuleSpec F)) (extensions : List F) (lowering : Lowering Obj) :
    .lowered lowering ∉ ownDependencies modules extensions := by
  simp [ownDependencies]

theorem own_not_output (modules : List (ModuleSpec F)) (extensions : List F) (name : Str) :
    (.output name : Dependency Obj F) ∉ ownDependencies modules extensions := by
  simp [ownDependencies]

mutual

theorem gexpInputs_records (target : Option Str) (lowering : Lowering Obj) :
    (references : List (Datum Obj F Sexp)) →
    (Records lib target (gexpInputs lib references) lowering ↔
      ReferencesDeclare target references (.lowered lowering) ∧ lib.hasCompiler lowering.object)
  | [] => by simp [gexpInputs, ReferencesDeclare, records_nil]
  | reference :: rest => by
    have ih := gexpInputs_records target lowering rest
    cases reference with
    | output name => simp [gexpInputs, ReferencesDeclare, ih]
    | input thing output native =>
      cases thing with
      | gexp references modules extensions proc =>
        have inner := gexpInputs_records (effectiveTarget native target) lowering references
        cases native with
        | true =>
          simp [gexpInputs, ReferencesDeclare, records_append, records_setNative, ih, own_not_lowered,
            effectiveTarget] at inner ⊢
          rw [inner]
          tauto
        | false =>
          simp [gexpInputs, ReferencesDeclare, records_append, ih, own_not_lowered, effectiveTarget] at inner ⊢
          rw [inner]
          tauto
      | pair head tail =>
        rw [gexpInputs, treeInputs_records target native lowering (.pair head tail), ih, ReferencesDeclare]
        simp [Dependency.isAttribute, or_and_right]
      | object o =>
        rw [gexpInputs, ReferencesDeclare]
        split
        · simp [records_cons, ih, or_and_right]
        · next missing =>
          rw [ih]
          simp only [Lowers, lowerable]
          grind
      | input thing' output' native' =>
        simp [gexpInputs, ReferencesDeclare, records_cons, ih, or_and_right]
      | string s =>
        simp only [gexpInputs, ReferencesDeclare]
        split
        · simp [records_cons, ih, Lowers, lowerable]
        · exact ih
      | _ => simp [gexpInputs, ReferencesDeclare, ih]
    | _ => simp [gexpInputs, ReferencesDeclare, ih]

theorem treeInputs_records (target : Option Str) (native : Bool) (lowering : Lowering Obj) :
    (tree : Datum Obj F Sexp) → (result : List (Input Obj F Sexp)) →
    (Records lib target (treeInputs lib native tree result) lowering ↔
      (TreeDeclares target native tree (.lowered lowering) ∧ lib.hasCompiler lowering.object) ∨
        Records lib target result lowering)
  | .pair head tail, result => by
    rw [treeInputs, treeInputs_records target native lowering tail,
      treeInputs_records target native lowering head, TreeDeclares]
    tauto
  | .input thing output _, result => by simp [treeInputs, TreeDeclares, records_cons]
  | .object o, result => by
    rw [treeInputs, TreeDeclares]
    split
    · simp [records_cons]
    · next missing =>
      simp only [Lowers, lowerable]
      grind
  | .string s, result => by
    simp only [treeInputs, TreeDeclares]
    split
    · simp [records_cons, Lowers, lowerable]
    · simp
  | .gexp references modules extensions proc, result => by
    rw [treeInputs, records_append, gexpInputs_records target lowering references, TreeDeclares]
    simp [own_not_lowered]
  | .output _, result | .nil, result | .atom _, result | .procedure, result => by
    simp [treeInputs, TreeDeclares]

end

end Logs

/-! ### Modules, extensions and outputs -/

section Attributes

variable {α : Type}
variable {same : α → α → Bool}

theorem mem_of_mem_keepFirst {kept : List α} {item item' : α}
    (member : item ∈ keepFirst same kept item') : item ∈ kept ∨ item = item' := by
  unfold keepFirst at member
  split at member
  · exact .inl member
  · exact (mem_cons.mp member).symm

theorem mem_of_mem_deleteDuplicates {lst : List α} {item : α}
    (member : item ∈ deleteDuplicates same lst) : item ∈ lst := by
  have fold : ∀ (lst kept : List α), item ∈ lst.foldl (keepFirst same) kept → item ∈ kept ∨ item ∈ lst := by
    intro lst
    induction lst with
    | nil => simp
    | cons head tail ih =>
      intro kept inFold
      rcases ih (keepFirst same kept head) inFold with inKept | inTail
      · rcases mem_of_mem_keepFirst inKept with inKept | rfl
        · exact .inl inKept
        · simp
      · exact .inr (mem_cons_of_mem head inTail)
  simpa using fold lst [] (mem_reverse.mp member)

/-- Of the items that are the same the first one stays. -/
theorem exists_mem_deleteDuplicates {lst : List α} {item : α} (member : item ∈ lst) :
    ∃ kept ∈ deleteDuplicates same lst, kept = item ∨ same kept item = true := by
  have fold : ∀ (lst kept : List α), (∃ first ∈ kept, first = item ∨ same first item = true) ∨ item ∈ lst →
      ∃ first ∈ lst.foldl (keepFirst same) kept, first = item ∨ same first item = true := by
    intro lst
    induction lst with
    | nil => simp
    | cons head tail ih =>
      intro kept found
      refine ih (keepFirst same kept head) ?_
      unfold keepFirst
      split
      · next duplicate =>
        grind
      · grind
  obtain ⟨first, isFirst, found⟩ := fold lst [] (.inr member)
  exact ⟨first, mem_reverse.mpr isFirst, found⟩

theorem mem_deleteDuplicates [DecidableEq α] (lst : List α) (item : α) :
    item ∈ deleteDuplicates (fun a b => decide (a = b)) lst ↔ item ∈ lst := by
  refine ⟨mem_of_mem_deleteDuplicates, fun member => ?_⟩
  obtain ⟨kept, isKept, same⟩ := @exists_mem_deleteDuplicates α (fun a b => decide (a = b)) lst item member
  have equal : kept = item := by simpa using same
  exact equal ▸ isKept

end Attributes

section Collectors

variable {Obj F Sexp : Type}
variable {d : Dependency Obj F}

theorem ne_output_of_isAttribute (isAttribute : d.isAttribute) (name : Str) : d ≠ .output name := by
  rintro rfl
  simp [Dependency.isAttribute] at isAttribute

theorem not_lowers_of_isAttribute (isAttribute : d.isAttribute) (target : Option Str) (output : Str)
    (thing : Datum Obj F Sexp) : ¬ Lowers target output thing d := by
  rintro ⟨o, -, rfl⟩
  simp [Dependency.isAttribute] at isAttribute

section Attribute

variable {α : Type} [DecidableEq α] {self : List (ModuleSpec F) → List F → List α}
  {wrap : α → Dependency Obj F} (isAttribute : ∀ a, (wrap a).isAttribute)
  (isOwn : ∀ a modules extensions, a ∈ self modules extensions ↔ wrap a ∈ ownDependencies modules extensions)
  (a : α)

include isAttribute isOwn

mutual

theorem mem_attributeReferences (target : Option Str) :
    (references : List (Datum Obj F Sexp)) → (result : List α) →
    (a ∈ attributeReferences self references result ↔ ReferencesDeclare target references (wrap a) ∨ a ∈ result)
  | [], result => by simp [attributeReferences, ReferencesDeclare]
  | reference :: rest, result => by
    have ih := mem_attributeReferences target rest
    cases reference with
    | output name => simp [attributeReferences, ReferencesDeclare, ih, ne_output_of_isAttribute (isAttribute a)]
    | input thing output native =>
      cases thing with
      | gexp references modules extensions proc =>
        have inner := mem_attributeReferences (effectiveTarget native target) references []
        simp only [attributeReferences, ih, mem_append, mem_deleteDuplicates, mem_reverse, inner,
          ReferencesDeclare, isOwn]
        simp only [not_mem_nil, or_false]
        tauto
      | pair head tail =>
        simp only [attributeReferences, ReferencesDeclare, isAttribute, true_imp_iff]
        split
        · next proper =>
          rw [ih, mem_attributeTree target native (.pair head tail) result]
          simp only [proper, true_and]
          tauto
        · next improper => simp [ih, improper]
      | object | input =>
        simp [attributeReferences, ReferencesDeclare, ih, not_lowers_of_isAttribute (isAttribute a)]
      | _ => simp [attributeReferences, ReferencesDeclare, ih]
    | _ => simp [attributeReferences, ReferencesDeclare, ih]

theorem mem_attributeTree (target : Option Str) (native : Bool) :
    (tree : Datum Obj F Sexp) → (result : List α) →
    (a ∈ attributeTree self tree result ↔ TreeDeclares target native tree (wrap a) ∨ a ∈ result)
  | tree, result => by
    cases tree with
    | pair head tail =>
      rw [attributeTree, mem_attributeTree target native tail,
        mem_attributeTree target native head, TreeDeclares]
      tauto
    | gexp references modules extensions proc =>
      have inner := mem_attributeReferences target references []
      simp only [attributeTree, mem_append, mem_deleteDuplicates, mem_reverse, inner, TreeDeclares, isOwn]
      simp
    | input | object => simp [attributeTree, TreeDeclares, not_lowers_of_isAttribute (isAttribute a)]
    | output name => simp [attributeTree, TreeDeclares, ne_output_of_isAttribute (isAttribute a)]
    | _ => simp [attributeTree, TreeDeclares]

end

end Attribute

mutual

theorem mem_outputReferences (target : Option Str) (name : Str) :
    (references : List (Datum Obj F Sexp)) → (result : List Str) →
    (name ∈ outputReferences references result ↔ ReferencesDeclare target references (.output name) ∨ name ∈ result)
  | [], result => by simp [outputReferences, ReferencesDeclare]
  | reference :: rest, result => by
    have ih := mem_outputReferences target name rest
    cases reference with
    | output name' =>
      simp only [outputReferences, ReferencesDeclare, ih, mem_cons, Dependency.output.injEq]
      tauto
    | input thing output native =>
      cases thing with
      | gexp references modules extensions proc =>
        have inner := mem_outputReferences (effectiveTarget native target) name references []
        simp only [outputReferences, ih, mem_append, mem_deleteDuplicates, inner, ReferencesDeclare, own_not_output]
        simp only [not_mem_nil, or_false, false_or]
        tauto
      | pair head tail =>
        rw [outputReferences, ReferencesDeclare, ih, mem_outputTree target native name (.pair head tail) result]
        simp only [Dependency.isAttribute, Bool.false_eq_true, false_imp_iff, true_and]
        tauto
      | object | input => simp [outputReferences, ReferencesDeclare, ih, Lowers]
      | _ => simp [outputReferences, ReferencesDeclare, ih]
    | _ => simp [outputReferences, ReferencesDeclare, ih]

theorem mem_outputTree (target : Option Str) (native : Bool) (name : Str) :
    (tree : Datum Obj F Sexp) → (result : List Str) →
    (name ∈ outputTree tree result ↔ TreeDeclares target native tree (.output name) ∨ name ∈ result)
  | tree, result => by
    cases tree with
    | pair head tail =>
      rw [outputTree, mem_outputTree target native name tail, mem_outputTree target native name head, TreeDeclares]
      tauto
    | gexp references modules extensions proc =>
      have inner := mem_outputReferences target name references []
      simp only [outputTree, mem_append, mem_deleteDuplicates, inner, TreeDeclares, own_not_output]
      simp
    | output name' => simp [outputTree, TreeDeclares]
    | input | object => simp [outputTree, TreeDeclares, Lowers]
    | _ => simp [outputTree, TreeDeclares]

end

end Collectors

end Guix.Client.Gexp
