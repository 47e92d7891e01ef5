import Guix.Client.GexpCollectors

/-!
# What a gexp declares and what its code depends on

The collectors of a gexp return all that its code depends on where they agree with the expansion:
`Agree` follows both walks at once, and compares the targets and outputs that they arrive at.
-/

namespace Guix.Client.Gexp

open List LoweredInput

/-! ### Agreement -/

variable {declared expanded : Option Str} {output : Str}

section Agreement

variable {Obj F Sexp : Type}

/-- The input is lowered for the same target and output on both sides. -/
def Settled (declared expanded : Option Str) (output : Str) (thing : Datum Obj F Sexp) : Prop :=
  (lowerable thing).isSome →
    finalTarget declared thing = finalTarget expanded thing ∧ expandedOutput output thing = output

mutual

/-- The code of the input depends on nothing. -/
def Silent (element : Bool) : Datum Obj F Sexp → Prop
  | .gexp references modules extensions _ => modules = [] ∧ extensions = [] ∧ SilentReferences references
  | .pair head tail => isList tail → Silent true head ∧ SilentElements tail
  | .object _ => False
  | .input thing _ _ => if element then Silent false thing else lowerable thing = none
  | _ => True

def SilentElements : Datum Obj F Sexp → Prop
  | .pair head tail => Silent true head ∧ SilentElements tail
  | _ => True

def SilentReferences : List (Datum Obj F Sexp) → Prop
  | [] => True
  | .output _ :: _ => False
  | .input thing _ _ :: rest => Silent false thing ∧ SilentReferences rest
  | _ :: rest => SilentReferences rest

end

mutual

/-- The inputs of a gexp are declared for the target that they are expanded for, when its inputs are
lowered for one target and its code is expanded for another one. -/
def Agree (declared expanded : Option Str) : List (Datum Obj F Sexp) → Prop
  | [] => True
  | .input (.gexp references _ _ _) _ native :: rest =>
    Agree (effectiveTarget native declared) (effectiveTarget native expanded) references ∧
      Agree declared expanded rest
  | .input (.pair head tail) _ native :: rest =>
    AgreeElement declared native (effectiveTarget native expanded) (.pair head tail) ∧
      Agree declared expanded rest
  | .input (.object o) output native :: rest =>
    Settled (effectiveTarget native declared) (effectiveTarget native expanded) output
      (.object o : Datum Obj F Sexp) ∧ Agree declared expanded rest
  | .input (.input thing output' native') output native :: rest =>
    Settled (effectiveTarget native declared) (effectiveTarget native expanded) output
      (.input thing output' native') ∧ Agree declared expanded rest
  | _ :: rest => Agree declared expanded rest

/-- An element of a list: its inputs inherit the native flag of the list, but those of a gexp do not,
and inputs that hold a gexp or a list are not searched. -/
def AgreeElement (declared : Option Str) (native : Bool) (expanded : Option Str) : Datum Obj F Sexp → Prop
  | .input thing output native' =>
    Settled (effectiveTarget native declared) (effectiveTarget native' expanded) output thing ∧
      (lowerable thing = none → Silent false thing)
  | .gexp references _ _ _ => Agree declared expanded references
  | .pair head tail =>
    isList tail → AgreeElement declared native expanded head ∧ AgreeElements declared native expanded tail
  | .object o =>
    Settled (effectiveTarget native declared) expanded (str "out") (.object o : Datum Obj F Sexp)
  | _ => True

def AgreeElements (declared : Option Str) (native : Bool) (expanded : Option Str) : Datum Obj F Sexp → Prop
  | .pair head tail =>
    AgreeElement declared native expanded head ∧ AgreeElements declared native expanded tail
  | _ => True

end

mutual

theorem silent_iff (target : Option Str) (element : Bool) (output : Str) :
    (thing : Datum Obj F Sexp) → (Silent element thing ↔ ∀ d, ¬ InputNeeds element target output thing d)
  | .gexp references modules extensions proc => by
    have inner := silentReferences_iff target references
    have own : (modules = [] ∧ extensions = []) ↔
        ∀ d : Dependency Obj F, d ∉ ownDependencies modules extensions := by
      rw [← eq_nil_iff_forall_not_mem]
      simp [ownDependencies]
    simp only [Silent, InputNeeds, inner, not_or, forall_and, ← own, and_assoc]
  | .pair head tail => by
    have first := silent_iff target true (str "out") head
    have rest := silentElements_iff target tail
    simp only [Silent, InputNeeds, first, rest, not_and, not_or, ← forall_and]
    exact ⟨fun h d proper => h proper d, fun h proper d => h d proper⟩
  | .object o => by simp [Silent, InputNeeds, Lowers, lowerable]
  | .input thing output' native => by
    have inner := silent_iff (effectiveTarget native target) false output' thing
    cases element with
    | true => simp [Silent, InputNeeds, inner]
    | false =>
      simp only [Silent, InputNeeds, Lowers, lowerable]
      cases lowerable thing <;> simp
  | .output _ | .procedure | .nil | .string _ | .atom _ => by simp [Silent, InputNeeds]

theorem silentElements_iff (target : Option Str) (lst : Datum Obj F Sexp) :
    SilentElements lst ↔ ∀ d, ¬ ElementsNeed target lst d := by
  cases lst with
  | pair head tail =>
    have first := silent_iff target true (str "out") head
    have rest := silentElements_iff target tail
    simp only [SilentElements, ElementsNeed, first, rest, not_or, forall_and]
  | _ => simp [SilentElements, ElementsNeed]

theorem silentReferences_iff (target : Option Str) :
    (references : List (Datum Obj F Sexp)) → (SilentReferences references ↔ ∀ d, ¬ ReferencesNeed target references d)
  | [] => by simp [SilentReferences, ReferencesNeed]
  | reference :: rest => by
    have ih := silentReferences_iff target rest
    cases reference with
    | output name =>
      simp only [SilentReferences, ReferencesNeed, false_iff, not_forall]
      exact ⟨.output name, by simp⟩
    | input thing output native =>
      have first := silent_iff (effectiveTarget native target) false output thing
      simp only [SilentReferences, ReferencesNeed, first, ih, not_or, forall_and]
    | _ => simp only [SilentReferences, ReferencesNeed, ih]

end

variable {thing : Datum Obj F Sexp} {d : Dependency Obj F}

theorem Settled.lowers (settled : Settled declared expanded output thing)
    (lowers : Lowers expanded (expandedOutput output thing) thing d) : Lowers declared output thing d := by
  obtain ⟨o, reached, rfl⟩ := lowers
  obtain ⟨sameTarget, sameOutput⟩ := settled (by simp [reached])
  exact ⟨o, reached, by rw [sameTarget, sameOutput]⟩

/-- An input that leads to an object needs nothing but its lowering. -/
theorem inputNeeds_iff_lowers {target : Option Str} (reached : (lowerable thing).isSome) :
    InputNeeds false target output thing d ↔ Lowers target (expandedOutput output thing) thing d := by
  cases thing with
  | object o => simp [InputNeeds, expandedOutput]
  | input thing output' native => simp [InputNeeds]
  | _ => simp [lowerable] at reached

/-! ### Mentions -/

/-- What a gexp mentions: objects, modules as `module=?` compares them, extensions and outputs. -/
inductive Mention (Obj F : Type)
  | object (o : Obj)
  | module (name : List Str) (arrow : Bool)
  | extension (file : F)
  | output (name : Str)

def ModuleSpec.mention : ModuleSpec F → Mention Obj F
  | .name module => .module module false
  | .arrow module _ => .module module true

def Dependency.mention : Dependency Obj F → Mention Obj F
  | .lowered lowering => .object lowering.object
  | .module spec => spec.mention
  | .extension file => .extension file
  | .output name => .output name

mutual

def mentions : Datum Obj F Sexp → List (Mention Obj F)
  | .object o => [.object o]
  | .input thing _ _ => mentions thing
  | .output name => [.output name]
  | .gexp references modules extensions _ =>
    (ownDependencies modules extensions).map Dependency.mention ++ referencesMentions references
  | .pair head tail => mentions head ++ mentions tail
  | _ => []

def referencesMentions : List (Datum Obj F Sexp) → List (Mention Obj F)
  | [] => []
  | reference :: rest => mentions reference ++ referencesMentions rest

end

/-- All of the dependencies are mentioned. -/
def Within (dependencies : Dependency Obj F → Prop) (mentions : List (Mention Obj F)) : Prop :=
  ∀ d, dependencies d → d.mention ∈ mentions

variable {ms ms' : List (Mention Obj F)}

theorem Within.or {first second : Dependency Obj F → Prop} (inFirst : Within first ms)
    (inSecond : Within second ms') : Within (fun d => first d ∨ second d) (ms ++ ms') := by
  rintro d (isFirst | isSecond)
  · exact mem_append_left ms' (inFirst d isFirst)
  · exact mem_append_right ms (inSecond d isSecond)

theorem within_lowers (target : Option Str) (output : Str) (thing : Datum Obj F Sexp) :
    Within (Lowers target output thing) (mentions thing) := by
  rintro d ⟨o, reached, rfl⟩
  induction thing using lowerable.induct generalizing target with
  | case1 o' =>
    cases reached
    simp [mentions, Dependency.mention]
  | case2 thing output' native ih =>
    exact ih (effectiveTarget native target) reached
  | case3 thing notObject notInput =>
    rw [lowerable.eq_3 thing notObject notInput] at reached
    cases reached

theorem within_own (modules : List (ModuleSpec F)) (extensions : List F) :
    Within (· ∈ ownDependencies modules extensions)
      ((ownDependencies modules extensions : List (Dependency Obj F)).map Dependency.mention) :=
  fun _ member => mem_map_of_mem member

theorem within_output (name : Str) : Within (fun d : Dependency Obj F => d = .output name)
    (mentions (.output name : Datum Obj F Sexp)) := by
  rintro d rfl
  simp [mentions, Dependency.mention]

/-! ### Exactness -/

/-- The same dependency, where modules are compared as `module=?` does. -/
def Dependency.Same : Dependency Obj F → Dependency Obj F → Prop
  | .module spec, .module spec' => (spec.mention : Mention Obj F) = spec'.mention
  | d, d' => d = d'

theorem Dependency.Same.mention_eq {d' : Dependency Obj F} (same : d.Same d') : d.mention = d'.mention := by
  cases d <;> cases d' <;> simp_all [Dependency.Same, Dependency.mention]

/-- Everything that is needed is declared. -/
def Provides (declares needs : Dependency Obj F → Prop) : Prop :=
  ∀ d, needs d → ∃ d', d'.Same d ∧ declares d'

theorem settled_of_provides
    (provides : Provides (Lowers declared output thing) (Lowers expanded (expandedOutput output thing) thing)) :
    Settled declared expanded output thing := by
  intro reached
  obtain ⟨o, isReached⟩ := Option.isSome_iff_exists.mp reached
  obtain ⟨d, same, o', isReached', rfl⟩ := provides _ ⟨o, isReached, rfl⟩
  simp only [Dependency.Same, Dependency.lowered.injEq, Lowering.mk.injEq] at same
  exact ⟨same.2.2, same.2.1.symm⟩

/-- A part of a gexp: what it needs is declared where both walks agree; and they have to agree
where nothing is mentioned twice. -/
structure Part (agree : Prop) (declares needs : Dependency Obj F → Prop) (ms : List (Mention Obj F)) :
    Prop where
  declared : agree → ∀ d, needs d → declares d
  agrees : ms.Nodup → Provides declares needs → agree
  inDeclares : Within declares ms
  inNeeds : Within needs ms

namespace Part

variable {agree agree' : Prop} {declares declares' needs needs' : Dependency Obj F → Prop}

theorem congr (part : Part agree declares needs ms)
    (same : (agree' ↔ agree) ∧ ∀ d, (declares' d ↔ declares d) ∧ (needs' d ↔ needs d)) :
    Part agree' declares' needs' ms := by
  obtain rfl : agree' = agree := propext same.1
  obtain rfl : declares' = declares := funext fun d => propext (same.2 d).1
  obtain rfl : needs' = needs := funext fun d => propext (same.2 d).2
  exact part

/-- Where nothing is mentioned twice, each of two parts has to provide for itself. -/
theorem or (first : Part agree declares needs ms) (second : Part agree' declares' needs' ms') :
    Part (agree ∧ agree') (fun d => declares d ∨ declares' d) (fun d => needs d ∨ needs' d)
      (ms ++ ms') where
  declared both d := Or.imp (first.declared both.1 d) (second.declared both.2 d)
  agrees distinct provides := by
    obtain ⟨distinctFirst, distinctSecond, disjoint⟩ := nodup_append.mp distinct
    refine ⟨first.agrees distinctFirst fun d isNeeded => ?_,
      second.agrees distinctSecond fun d isNeeded => ?_⟩
    · obtain ⟨d', same, isDeclared | isDeclared⟩ := provides d (.inl isNeeded)
      · exact ⟨d', same, isDeclared⟩
      · exact absurd same.mention_eq.symm
          (disjoint _ (first.inNeeds d isNeeded) _ (second.inDeclares d' isDeclared))
    · obtain ⟨d', same, isDeclared | isDeclared⟩ := provides d (.inr isNeeded)
      · exact absurd same.mention_eq
          (disjoint _ (first.inDeclares d' isDeclared) _ (second.inNeeds d isNeeded))
      · exact ⟨d', same, isDeclared⟩
  inDeclares := first.inDeclares.or second.inDeclares
  inNeeds := first.inNeeds.or second.inNeeds

theorem same (within : Within needs ms) : Part True needs needs ms :=
  ⟨fun _ _ isNeeded => isNeeded, fun _ _ => trivial, within, within⟩

theorem needless (within : Within declares ms) : Part True declares (fun _ => False) ms :=
  ⟨fun _ _ => False.elim, fun _ _ => trivial, within, fun _ => False.elim⟩

theorem nothing : Part True (fun _ : Dependency Obj F => False) (fun _ => False) ms :=
  needless fun _ => False.elim

theorem lowers (declared expanded : Option Str) (output : Str) (thing : Datum Obj F Sexp) :
    Part (Settled declared expanded output thing) (Lowers declared output thing)
      (Lowers expanded (expandedOutput output thing) thing) (mentions thing) :=
  ⟨fun settled _ => settled.lowers, fun _ => settled_of_provides, within_lowers _ _ _, within_lowers _ _ _⟩

theorem guard (part : Part agree declares needs ms) (condition : Prop) :
    Part (condition → agree) declares (fun d => condition ∧ needs d) ms where
  declared agree d isNeeded := part.declared (agree isNeeded.1) d isNeeded.2
  agrees distinct provides holds := part.agrees distinct fun d isNeeded => provides d ⟨holds, isNeeded⟩
  inDeclares := part.inDeclares
  inNeeds d isNeeded := part.inNeeds d isNeeded.2

/-- The end of an improper list is not expanded. -/
theorem elements {native : Bool} {item : Datum Obj F Sexp} (notPair : ∀ head tail, item ≠ .pair head tail)
    (part : Part (AgreeElement declared native expanded item) (TreeDeclares declared native item) needs
      (mentions item)) :
    Part (AgreeElement declared native expanded item) (TreeDeclares declared native item) needs
      (mentions item) ∧
    Part (AgreeElements declared native expanded item) (TreeDeclares declared native item)
      (ElementsNeed expanded item) (mentions item) := by
  refine ⟨part, (needless part.inDeclares).congr ?_⟩
  cases item <;> simp_all [AgreeElements, ElementsNeed]

end Part

mutual

theorem references_part (declared expanded : Option Str) : (references : List (Datum Obj F Sexp)) →
    Part (Agree declared expanded references) (ReferencesDeclare declared references)
      (ReferencesNeed expanded references) (referencesMentions references)
  | [] => Part.nothing.congr (by simp [Agree, ReferencesDeclare, ReferencesNeed])
  | reference :: rest => by
    have ih := references_part declared expanded rest
    rw [referencesMentions]
    cases reference with
    | output name =>
      exact ((Part.same (within_output name)).or ih).congr (by simp [Agree, ReferencesDeclare, ReferencesNeed])
    | input thing output native =>
      rw [mentions]
      cases thing with
      | gexp references modules extensions proc =>
        have inner := references_part (effectiveTarget native declared) (effectiveTarget native expanded) references
        rw [mentions]
        exact (((Part.same (within_own modules extensions)).or inner).or ih).congr
          (by simp [Agree, ReferencesDeclare, ReferencesNeed, InputNeeds])
      | pair head tail =>
        have list := (tree_part declared native (effectiveTarget native expanded) (.pair head tail)).1
        simp only [InputNeeds] at list
        -- an improper list is declared in part, but it needs nothing
        have part : Part (AgreeElement declared native (effectiveTarget native expanded) (.pair head tail))
            (fun d => (d.isAttribute → isList tail) ∧ TreeDeclares declared native (.pair head tail) d)
            (InputNeeds false (effectiveTarget native expanded) output (.pair head tail))
            (mentions (.pair head tail)) := by
          simp only [InputNeeds]
          refine ⟨fun agree d needs => ⟨fun _ => needs.1, list.declared agree d needs⟩,
            fun distinct provides => list.agrees distinct fun d isNeeded => ?_,
            fun d declares => list.inDeclares d declares.2, list.inNeeds⟩
          obtain ⟨d', same, -, isDeclared⟩ := provides d isNeeded
          exact ⟨d', same, isDeclared⟩
        exact (part.or ih).congr (by simp [Agree, ReferencesDeclare, ReferencesNeed])
      | object | input =>
        exact ((Part.lowers (effectiveTarget native declared) (effectiveTarget native expanded) output _).or ih).congr
          (by simp [Agree, ReferencesDeclare, ReferencesNeed, InputNeeds, expandedOutput])
      | _ =>
        exact (Part.nothing.or ih).congr (by simp [Agree, ReferencesDeclare, ReferencesNeed, InputNeeds])
    | _ =>
      exact (Part.nothing.or ih).congr (by simp [Agree, ReferencesDeclare, ReferencesNeed])

theorem tree_part (declared : Option Str) (native : Bool) (expanded : Option Str) :
    (item : Datum Obj F Sexp) →
    Part (AgreeElement declared native expanded item) (TreeDeclares declared native item)
      (InputNeeds true expanded (str "out") item) (mentions item) ∧
    Part (AgreeElements declared native expanded item) (TreeDeclares declared native item)
      (ElementsNeed expanded item) (mentions item)
  | .input thing output native' => by
    refine Part.elements (by nofun) ?_
    have silent := silent_iff (effectiveTarget native' expanded) false output thing
    have lowers := Part.lowers (effectiveTarget native declared) (effectiveTarget native' expanded) output thing
    rw [mentions]
    refine Part.congr ?_ ⟨by rw [AgreeElement],
      fun d => ⟨by rw [TreeDeclares], by rw [InputNeeds, if_pos rfl]⟩⟩
    cases reached : lowerable thing with
    | some o =>
      exact lowers.congr ⟨by simp, fun d => ⟨Iff.rfl, inputNeeds_iff_lowers (by simp [reached])⟩⟩
    | none =>
      have needs : Within (InputNeeds false (effectiveTarget native' expanded) output thing) (mentions thing) := by
        intro d
        cases thing with
        | gexp references modules extensions proc =>
          have inner := references_part declared (effectiveTarget native' expanded) references
          rw [InputNeeds, mentions]
          exact ((within_own modules extensions).or inner.inNeeds) d
        | pair head tail =>
          have list := (tree_part declared native (effectiveTarget native' expanded) (.pair head tail)).1
          simpa only [InputNeeds] using list.inNeeds d
        | _ => simp_all [InputNeeds, Lowers, lowerable]
      -- the input is not searched, so there must be nothing in it
      refine ⟨fun agree d isNeeded => absurd isNeeded (silent.mp (agree.2 rfl) d), fun _ provides => ?_,
        lowers.inDeclares, needs⟩
      refine ⟨by simp [Settled, reached], fun _ => silent.mpr fun d isNeeded => ?_⟩
      obtain ⟨d', -, o, isReached, -⟩ := provides d isNeeded
      rw [reached] at isReached
      cases isReached
  | .gexp references modules extensions proc => by
    have inner := references_part declared expanded references
    refine Part.elements (by nofun) ?_
    rw [mentions]
    exact ((Part.same (within_own modules extensions)).or inner).congr
      (by simp [AgreeElement, TreeDeclares, InputNeeds])
  | .pair head tail => by
    have both := (tree_part declared native expanded head).1.or (tree_part declared native expanded tail).2
    rw [mentions]
    exact ⟨(both.guard (isList tail)).congr (by simp [AgreeElement, TreeDeclares, InputNeeds]),
      both.congr (by simp [AgreeElements, TreeDeclares, ElementsNeed])⟩
  | .object o => by
    have lowers := Part.lowers (effectiveTarget native declared) expanded (str "out") (.object o : Datum Obj F Sexp)
    exact Part.elements (by nofun) <| lowers.congr
      (by simp [AgreeElement, TreeDeclares, InputNeeds, expandedOutput])
  | .output name => by
    refine Part.elements (by nofun) ?_
    exact (Part.needless (within_output name)).congr (by simp [AgreeElement, TreeDeclares, InputNeeds])
  | .nil | .string _ | .atom _ | .procedure => Part.elements (by nofun) <| Part.nothing.congr
      (by simp [AgreeElement, TreeDeclares, InputNeeds])

end

end Agreement

section Theorem

variable {Obj F Sexp : Type} (lib : GexpLibrary Obj F Sexp)

/-- Everything but modules is compared by equality. -/
theorem same_iff_eq {d d' : Dependency Obj F} (other : ∀ spec, d ≠ .module spec) : d'.Same d ↔ d' = d := by
  cases d' <;> cases d <;> simp_all [Dependency.Same]

theorem Dependency.Same.refl (d : Dependency Obj F) : d.Same d := by
  cases d <;> rfl

variable (target : Option Str) (references : List (Datum Obj F Sexp)) (modules : List (ModuleSpec F))
  (extensions : List F)

theorem mem_gexpAttribute {α : Type} [DecidableEq α] {self : List (ModuleSpec F) → List F → List α}
    {wrap : α → Dependency Obj F} (isAttribute : ∀ a, (wrap a).isAttribute)
    (isOwn : ∀ a modules extensions, a ∈ self modules extensions ↔ wrap a ∈ ownDependencies modules extensions)
    (a : α) :
    a ∈ self modules extensions ++ (attributeReferences self references []).reverse ↔
      wrap a ∈ ownDependencies modules extensions ∨ ReferencesDeclare target references (wrap a) := by
  rw [mem_append, mem_reverse, isOwn,
    mem_attributeReferences isAttribute isOwn a target references []]
  simp

theorem gexpToSexp_logs {system : Str} {proc : List Sexp → Sexp} {s : Sexp}
    {dependencies : List (Dependency Obj F)}
    (expanded : gexpToSexp lib system target references modules extensions proc = .ok (s, dependencies)) :
    Logs lib dependencies fun d => d ∈ ownDependencies modules extensions ∨ ReferencesNeed target references d := by
  have logs := inputToSexp_logs lib system false target (str "out") _ s dependencies expanded
  exact logs.congr fun d => by rw [InputNeeds]

variable [DecidableEq F]

/-- The dependency is among what the collectors return: `lower-inputs` lowers an input to it, or it
is among the modules, extensions or outputs. -/
def Declared (target : Option Str) (references : List (Datum Obj F Sexp)) (modules : List (ModuleSpec F))
    (extensions : List F) : Dependency Obj F → Prop
  | .lowered lowering =>
    ∃ input ∈ gexpInputs lib references, lowerInput lib target input = .ok (.object lowering)
  | .module spec => ∃ spec' ∈ gexpModules references modules extensions, sameModule spec' spec
  | .extension file => file ∈ gexpExtensions references modules extensions
  | .output name => name ∈ gexpOutputs references

theorem sameModule_iff (spec spec' : ModuleSpec F) :
    sameModule spec spec' = true ↔ (spec.mention : Mention Obj F) = spec'.mention := by
  cases spec <;> cases spec' <;> simp [sameModule, ModuleSpec.mention]

theorem declared_module_iff (spec : ModuleSpec F) :
    (∃ spec' ∈ gexpModules references modules extensions, sameModule spec' spec) ↔
      ∃ spec', (spec'.mention : Mention Obj F) = spec.mention ∧
        ((.module spec' : Dependency Obj F) ∈ ownDependencies modules extensions ∨
          ReferencesDeclare target references (.module spec')) := by
  have attributes := @mem_gexpAttribute Obj F Sexp target references modules extensions (ModuleSpec F) _
    (fun modules _ => modules) .module (by simp [Dependency.isAttribute]) (by simp [ownDependencies])
  constructor
  · rintro ⟨spec', member, same⟩
    exact ⟨spec', (sameModule_iff spec' spec).mp same,
      (attributes spec').mp (mem_of_mem_deleteDuplicates member)⟩
  · rintro ⟨spec', same, declares⟩
    obtain ⟨kept, isKept, keptFor⟩ :=
      @exists_mem_deleteDuplicates _ sameModule _ _ ((attributes spec').mpr declares)
    refine ⟨kept, isKept, ?_⟩
    rcases keptFor with rfl | alike
    · exact (sameModule_iff kept spec).mpr same
    · exact (sameModule_iff kept spec).mpr (((sameModule_iff kept spec').mp alike).trans same)

theorem declared_iff {d : Dependency Obj F} (compiled : Compiled lib d) :
    Declared lib target references modules extensions d ↔
      ∃ d', d'.Same d ∧ (d' ∈ ownDependencies modules extensions ∨ ReferencesDeclare target references d') := by
  cases d with
  | module spec =>
    rw [Declared, declared_module_iff target references modules extensions spec]
    constructor
    · rintro ⟨spec', same, declares⟩
      exact ⟨.module spec', same, declares⟩
    · rintro ⟨d', same, declares⟩
      cases d' with
      | module spec' => exact ⟨spec', same, declares⟩
      | _ => cases same
  | lowered lowering =>
    have records := gexpInputs_records lib target lowering references
    have hasCompiler : lib.hasCompiler lowering.object := compiled
    simp only [hasCompiler, and_true] at records
    simp only [same_iff_eq (d := .lowered lowering) (by simp), exists_eq_left, own_not_lowered, false_or]
    exact records
  | extension file =>
    have attributes := @mem_gexpAttribute Obj F Sexp target references modules extensions F _
      (fun _ extensions => extensions) .extension (by simp [Dependency.isAttribute]) (by simp [ownDependencies])
    simp only [same_iff_eq (d := .extension file) (by simp), exists_eq_left, ← attributes file]
    exact mem_deleteDuplicates _ file
  | output name =>
    have outputs := mem_outputReferences target name references []
    simp only [not_mem_nil, or_false] at outputs
    simp only [same_iff_eq (d := .output name) (by simp), exists_eq_left, own_not_output, false_or, ← outputs]
    exact mem_deleteDuplicates _ name

/-- `lower-inputs` returns every declared lowering that is not plain data. -/
theorem mem_lowerInputs {lowering : Lowering Obj}
    (declared : Declared lib target references modules extensions (.lowered lowering))
    (isInput : isInput lib (.object lowering)) {lowered : List (LoweredInput Obj)}
    (ran : lowerInputs lib target (gexpInputs lib references) = .ok lowered) : .object lowering ∈ lowered := by
  obtain ⟨input, isRecorded, lowers⟩ := declared
  obtain ⟨results, isResults, result⟩ := Fallible.bind_ok.mp ran
  cases result
  obtain ⟨result, isResult, lowers'⟩ := Fallible.mapM_ok_of_mem isResults input isRecorded
  rw [lowers] at lowers'
  cases lowers'
  exact mem_filter.mpr ⟨isResult, isInput⟩

/-- When a gexp expands, its collectors return all that its code depends on if they agree with the
expansion about the target and the output of every input; and they have to agree, unless something is
mentioned more than once. -/
theorem gexpToSexp_declared_agree (system : Str) (target : Option Str)
    (references : List (Datum Obj F Sexp)) (modules : List (ModuleSpec F)) (extensions : List F)
    (proc : List Sexp → Sexp) (s : Sexp) (dependencies : List (Dependency Obj F))
    (expanded : gexpToSexp lib system target references modules extensions proc = .ok (s, dependencies)) :
    (Agree target target references →
      (∀ d ∈ dependencies, Declared lib target references modules extensions d) ∧
      ∀ lowered, lowerInputs lib target (gexpInputs lib references) = .ok lowered →
        ∀ lowering, .lowered lowering ∈ dependencies → isInput lib (.object lowering) →
          .object lowering ∈ lowered) ∧
    ((mentions (.gexp references modules extensions proc)).Nodup →
      (∀ d ∈ dependencies, Declared lib target references modules extensions d) →
      Agree target target references) := by
  have logs := gexpToSexp_logs lib target references modules extensions expanded
  have part := (Part.same (within_own modules extensions)).or (references_part target target references)
  constructor
  · intro agree
    have declared : ∀ d ∈ dependencies, Declared lib target references modules extensions d := by
      intro d member
      rw [declared_iff lib target references modules extensions (logs.compiled d member)]
      exact ⟨d, Dependency.Same.refl d, part.declared ⟨trivial, agree⟩ d ((logs.mem_iff d).mp member)⟩
    exact ⟨declared, fun lowered ran lowering member isInput =>
      mem_lowerInputs lib target references modules extensions (declared _ member) isInput ran⟩
  · intro distinct declared
    refine (part.agrees distinct fun d needs => ?_).2
    have member := (logs.mem_iff d).mpr needs
    exact (declared_iff lib target references modules extensions (logs.compiled d member)).mp
      (declared d member)

/-! ### A native input in a list -/

/-- Objects are numbers, and code is the list of what it refers to. -/
def listLibrary : GexpLibrary Nat Nat (List Nat) where
  hasCompiler _ := true
  expand o _ _ _ := [o]
  isSelfQuoting _ _ := false
  isDirectStorePath _ := false
  isStorePath _ := false
  list items := items.flatten
  quote _ := []
  getenv _ := []

/-- A native package next to a list that holds a package: both are declared as they are lowered. -/
theorem gexpToSexp_declared_lists :
    Declared listLibrary (some (str "aarch64-linux-gnu"))
      [.input (.object 0) (str "bin") true, .input (.pair (.object 1) .nil) (str "out") false] [] []
      (.lowered ⟨1, str "out", some (str "aarch64-linux-gnu")⟩) := by
  have declared := (gexpToSexp_declared_agree listLibrary (str "x86_64-linux")
    (some (str "aarch64-linux-gnu"))
    [.input (.object 0) (str "bin") true, .input (.pair (.object 1) .nil) (str "out") false] [] []
    List.flatten [0, 1]
    [.lowered ⟨0, str "bin", none⟩, .lowered ⟨1, str "out", some (str "aarch64-linux-gnu")⟩] rfl).1
  refine (declared ?_).1 _ (by simp)
  simp [Agree, AgreeElement, AgreeElements, Settled, effectiveTarget, finalTarget, expandedOutput]

/-- `#~(list #$@(list (gexp-input package #:native? #t)))` when cross-compiling: the code refers to
the native package, and the derivation gets the cross-compiled one. -/
theorem gexpToSexp_native_undeclared :
    gexpToSexp listLibrary (str "x86_64-linux") (some (str "aarch64-linux-gnu"))
      [.input (.pair (.input (.object 0) (str "out") true) .nil) (str "out") false] [] [] List.flatten =
      .ok ([0], [.lowered ⟨0, str "out", none⟩]) ∧
    lowerInputs listLibrary (some (str "aarch64-linux-gnu")) (gexpInputs listLibrary
      [.input (.pair (.input (.object 0) (str "out") true) .nil) (str "out") false]) =
      .ok [.object ⟨0, str "out", some (str "aarch64-linux-gnu")⟩] ∧
    ¬ Declared listLibrary (some (str "aarch64-linux-gnu"))
      [.input (.pair (.input (.object 0) (str "out") true) .nil) (str "out") false] [] []
      (.lowered ⟨0, str "out", none⟩) := by
  refine ⟨rfl, rfl, ?_⟩
  rintro ⟨input, recorded, lowers⟩
  rw [lowerInput_eq_object_iff] at lowers
  simp only [gexpInputs, treeInputs, mem_singleton] at recorded
  subst recorded
  simp [Lowers, effectiveTarget, finalTarget] at lowers

end Theorem

end Guix.Client.Gexp
