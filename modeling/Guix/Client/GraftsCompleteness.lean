import Guix.Client.GraftsCorrectness

/-!
# The closure of a grafted derivation

`graft-derivation/shallow` makes derivations whose outputs refer to what the original
outputs refer to, mapped through the grafts. When the grafts are kept, no origin of a graft
is left in the closure of what `graft-derivation` returns, and what cannot reach an origin
is not touched, the outputs of the derivation itself apart.
-/

namespace Guix.Client

open Hoare Worklist List Except

/-! ### Items and their references -/

/-- An item of the graph, or an output of a derivation that `graft-derivation/shallow`
returned. -/
inductive GraftedItem (N : Type)
  | old (path : Str)
  | new (drv : N) (output : Str)
  deriving DecidableEq

/-- What the store has once the grafts were built: the references of the new outputs, and the
items that replacements stand for. -/
structure GraftedStore {D : Type} (graph : DerivationGraph D) (N : Type) where
  references : N → Str → List (GraftedItem N)
  resolve : Replacement D N → Option Str → GraftedItem N
  resolve_derivation : ∀ drv output path, derivationOutputPath graph drv output = .ok path →
    resolve (.derivation drv) (some output) = .old path
  resolve_grafted : ∀ new output, resolve (.grafted new) (some output) = .new new output
  resolve_item : ∀ path output, resolve (.item path) output = .old path

variable {path : Str}

section Store

variable {D N : Type} {graph : DerivationGraph D} (store : GraftedStore graph N)

def GraftedStore.succ : GraftedItem N → List (GraftedItem N)
  | .old path => (graph.references path).map .old
  | .new drv output => store.references drv output

variable (graph) in
/-- What a reference becomes in the output of a new derivation: the mapping is that of the
grafts, followed by that of the outputs themselves. -/
def mappedReference (resolve : Replacement D N → Option Str → GraftedItem N) (drv : D) (new : N)
    (outputs : List Str) (grafts : List (Graft D N)) (item : Str) : GraftedItem N :=
  match grafts.find? fun graft => graftOriginFileName graph graft = .ok item with
  | some graft => resolve graft.replacement graft.replacementOutput
  | none =>
    match outputs.find? fun output => derivationOutputPath graph drv output = .ok item with
    | some output => .new new output
    | none => .old item

/-- The outputs of `graft-derivation/shallow` have the references of the original ones, mapped
through the grafts. -/
def GraftedStore.Rewrites (shallow : Shallow D N) : Prop :=
  ∀ drv grafts outputs, ∀ output ∈ outputs, ∀ path, derivationOutputPath graph drv output = .ok path →
    store.references (shallow drv grafts outputs) output =
      (graph.references path).map
        (mappedReference graph store.resolve drv (shallow drv grafts outputs) outputs grafts)

theorem GraftedStore.reach_old {item : GraftedItem N} (reach : Reach store.succ (.old path) item) :
    ∃ path', item = .old path' ∧ Reach graph.references path path' := by
  induction reach with
  | refl => exact ⟨path, rfl, .refl⟩
  | tail _ edge ih =>
    obtain ⟨path', rfl, reaches⟩ := ih
    obtain ⟨r, refers, rfl⟩ := mem_map.mp edge
    exact ⟨r, rfl, reaches.tail refers⟩

end Store

variable {output : Str} {outputs deps : List Str}

section Graph

variable {D : Type} (graph : DerivationGraph D)

/-- What an output refers to is a plain source, or an output of the same derivation or of one
of its transitive inputs. The name of an output is part of its path. -/
structure Sourced : Prop where
  referenced : ∀ drv output path, (output, path) ∈ graph.outputPaths drv → ∀ r ∈ graph.references path,
    (graph.references r = [] ∧ ∀ drv' output', (output', r) ∉ graph.outputPaths drv') ∨
      ∃ drv', Reach graph.inputs drv drv' ∧ ∃ output', (output', r) ∈ graph.outputPaths drv'
  named : ∀ drv drv' output output' path, (output, path) ∈ graph.outputPaths drv →
    (output', path) ∈ graph.outputPaths drv' → output = output'

variable {drv : D}

/-! ### All origins are found -/

/-- One of the pairs is an output at the path. -/
def Found (result : List (D × Str)) (path : Str) : Prop :=
  ∃ origin ∈ result, (origin.2, path) ∈ graph.outputPaths origin.1

/-- The items of `todo` that were stripped are found, and none of them is left. -/
structure Stripped (todo : List (Str × Str)) (before after : List (D × Str) × List Str) : Prop where
  grows : ∀ path, Found graph before.1 path → Found graph after.1 path
  keeps : ∀ path ∈ before.2, path ∈ after.2 ∨ Found graph after.1 path
  fewer : ∀ path ∈ after.2, path ∈ before.2
  gone : ∀ output ∈ todo, output.2 ∉ after.2

theorem foldl_lookupDeriver {drv : D} {todo : List (Str × Str)} (found : List (D × Str) × List Str)
    (inOutputs : ∀ output ∈ todo, output ∈ graph.outputPaths drv) :
    Stripped graph todo found (todo.foldl (lookupDeriver drv) found) := by
  induction todo generalizing found with
  | nil => exact ⟨fun _ isFound => isFound, fun _ member => .inl member, fun _ member => member, by simp⟩
  | cons output todo ih =>
    rw [foldl_cons, lookupDeriver]
    have later := (forall_mem_cons.mp inOutputs).2
    split
    next wanted =>
      have rest := ih (⟨drv, output.1⟩ :: found.1, found.2.filter (· ≠ output.2)) later
      refine ⟨?_, ?_, ?_, ?_⟩
      · rintro path ⟨origin, member, isOutput⟩
        exact rest.grows path ⟨origin, mem_cons_of_mem _ member, isOutput⟩
      · intro path isItem
        by_cases same : path = output.2
        · exact .inr (rest.grows path
            ⟨(drv, output.1), mem_cons_self, same ▸ inOutputs output mem_cons_self⟩)
        · exact rest.keeps path (mem_filter.mpr ⟨isItem, by simpa using same⟩)
      · exact fun path isLeft => (mem_filter.mp (rest.fewer path isLeft)).1
      · rw [forall_mem_cons]
        refine ⟨fun isLeft => ?_, rest.gone⟩
        simpa using (mem_filter.mp (rest.fewer _ isLeft)).2
    next unwanted =>
      have rest := ih found later
      refine { rest with gone := ?_ }
      rw [forall_mem_cons]
      exact ⟨fun isLeft => unwanted (rest.fewer _ isLeft), rest.gone⟩

variable [DecidableEq D]

theorem originsLoop_complete {fuel : Nat} {queue : List D} {wanted items : List Str}
    {result found : List (D × Str)} {visited : List D} {start : D}
    (left : ∀ path ∈ wanted, path ∈ items ∨ Found graph result path)
    (stripped : ∀ drv ∈ visited, ∀ output ∈ graph.outputPaths drv, output.2 ∉ items)
    (closed : Closed graph.inputs visited queue) (starts : start ∈ visited ∨ start ∈ queue)
    (ran : originsLoop graph fuel queue items result visited = some found) {drv : D}
    (reached : Reach graph.inputs start drv) {output : Str × Str} (isOutput : output ∈ graph.outputPaths drv)
    (isWanted : output.2 ∈ wanted) : Found graph found output.2 := by
  fun_induction originsLoop graph fuel queue items result visited with
  | case1 => cases ran
  | case2 _ items result visited =>
    cases ran
    have seen := closed.reach (starts.resolve_right not_mem_nil) reached
    exact (left _ isWanted).resolve_left (stripped drv seen output isOutput)
  | case3 =>
    cases ran
    exact (left _ isWanted).resolve_left not_mem_nil
  | case4 _ head rest items result visited _ seen ih =>
    refine ih left stripped (closed.skip seen) ?_ ran
    rw [mem_cons] at starts
    rcases starts with isVisited | rfl | inRest
    · exact .inl isVisited
    · exact .inl seen
    · exact .inr inRest
  | case5 _ head rest items result visited _ _ result' items' looked ih =>
    have stripping : Stripped graph _ (result, items) (lookupDerivers graph head result items) :=
      foldl_lookupDeriver graph _ fun _ member => member
    rw [looked] at stripping
    refine ih ?_ ?_ ?_ ?_ ran
    · intro path isWanted
      rcases left path isWanted with isItem | isFound
      · exact stripping.keeps path isItem
      · exact .inr (stripping.grows path isFound)
    · rw [forall_mem_cons]
      exact ⟨stripping.gone, fun drv seen output isOutput isLeft =>
        stripped drv seen output isOutput (stripping.fewer _ isLeft)⟩
    · exact fun a isVisited b edge =>
        (closed.visit a isVisited b edge).imp_right perm_append_comm.mem_iff.mp
    · rw [mem_cons] at starts ⊢
      rcases starts with isVisited | rfl | inRest
      · exact .inl (.inr isVisited)
      · exact .inl (.inl rfl)
      · exact .inr (mem_append_left _ inRest)

/-- Every item that a derivation reachable from `drv` produces has an origin. -/
theorem referenceOrigins_complete {drv' : D} {items : List Str} (reached : Reach graph.inputs drv drv')
    (isOutput : (output, path) ∈ graph.outputPaths drv')
    (wanted : path ∈ items) : Found graph (referenceOrigins graph drv items) path :=
  originsLoop_complete graph
    (fun _ member => .inl member) (by simp) (closed_nil _ _) (.inr mem_cons_self)
    (Option.some_get (originsLoop_of_fuel graph drv items)).symm reached isOutput wanted

end Graph

/-! ### Items that reach an origin -/

section Affected

variable {D N : Type} (graph : DerivationGraph D) (grafts : List (Graft D N))

def IsOrigin (path : Str) : Prop := ∃ graft ∈ grafts, graftOriginFileName graph graft = .ok path

def Affected (path : Str) : Prop := ∃ origin, IsOrigin graph grafts origin ∧ Reach graph.references path origin

/-- The origin of every graft is an output of a derivation. -/
def OfOutputs : Prop := ∀ graft ∈ grafts, ∃ drv output path, graft.origin = .derivation drv ∧
  graft.originOutput = some output ∧ derivationOutputPath graph drv output = .ok path

variable {graph grafts} {drv : D} {outputs deps : List Str} {output path dep : Str} {graft : Graft D N}

theorem OfOutputs.named (ofOutputs : OfOutputs graph grafts) (member : graft ∈ grafts) :
    ∃ drv output path, graft.origin = .derivation drv ∧ graft.originOutput = some output ∧
      derivationOutputPath graph drv output = .ok path ∧ graftOriginFileName graph graft = .ok path := by
  obtain ⟨drv, output, path, isDrv, isOutput, made⟩ := ofOutputs graft member
  refine ⟨drv, output, path, isDrv, isOutput, made, ?_⟩
  rw [graftOriginFileName, isDrv, isOutput]
  exact made

theorem OfOutputs.valid (ofOutputs : OfOutputs graph grafts) : ∀ graft ∈ grafts, ValidGraft graph graft := by
  intro graft member
  obtain ⟨_, _, path, _, _, _, named⟩ := ofOutputs.named member
  exact ⟨path, named⟩

theorem IsOrigin.affected (isOrigin : IsOrigin graph grafts path) : Affected graph grafts path :=
  ⟨path, isOrigin, .refl⟩

theorem Affected.of_refers (affected : Affected graph grafts dep)
    (refers : dep ∈ graph.references path) : Affected graph grafts path :=
  affected.imp fun _ origin => ⟨origin.1, .head refers origin.2⟩

/-- Unless the outputs are origins themselves, an output reaches an origin through one of the
references to other items. -/
theorem affected_dep (ran : nonSelfReferences graph drv outputs = .ok deps)
    (others : ∀ output ∈ outputs, ∀ path, derivationOutputPath graph drv output = .ok path →
      ¬ IsOrigin graph grafts path)
    (member : output ∈ outputs) (made : derivationOutputPath graph drv output = .ok path)
    (affected : Affected graph grafts path) : ∃ dep ∈ deps, Affected graph grafts dep := by
  obtain ⟨origin, isOrigin, reach⟩ := affected
  let isSelf (path : Str) : Prop := ∃ output ∈ outputs, derivationOutputPath graph drv output = .ok path
  have otherOrigin : ¬ isSelf origin := fun ⟨output', member', made'⟩ =>
    others output' member' origin made' isOrigin
  obtain ⟨last, dep, ⟨output', member', made'⟩, edge, leaves, rest⟩ :=
    reach.leaves (show isSelf path from ⟨output, member, made⟩) otherOrigin
  refine ⟨dep, (mem_nonSelfReferences_iff graph ran dep).mpr ⟨⟨output', member', last, made', edge⟩, ?_⟩,
    origin, isOrigin, rest⟩
  exact fun output'' member'' made'' => leaves ⟨output'', member'', made''⟩

theorem affected_of_dep (ran : nonSelfReferences graph drv outputs = .ok deps) (isDep : dep ∈ deps)
    (affected : Affected graph grafts dep) :
    ∃ output ∈ outputs, ∃ path, derivationOutputPath graph drv output = .ok path ∧
      Affected graph grafts path := by
  obtain ⟨⟨output, member, path, made, refers⟩, _⟩ := (mem_nonSelfReferences_iff graph ran dep).mp isDep
  exact ⟨output, member, path, made, affected.of_refers refers⟩

/-- A plain source does not reach an origin: what does is produced by a derivation. -/
theorem Sourced.produced (sourced : Sourced graph) (ofOutputs : OfOutputs graph grafts)
    (isOutput : (output, path) ∈ graph.outputPaths drv)
    (refers : dep ∈ graph.references path) (affected : Affected graph grafts dep) :
    ∃ drv', Reach graph.inputs drv drv' ∧ ∃ output', (output', dep) ∈ graph.outputPaths drv' := by
  refine (sourced.referenced drv output path isOutput dep refers).resolve_left fun source => ?_
  obtain ⟨origin, ⟨graft, member, named⟩, reach⟩ := affected
  rcases reach.cases_head with same | ⟨next, edge, _⟩
  · obtain ⟨drv', output', _, _, _, made, named'⟩ := ofOutputs.named member
    cases named.symm.trans named'
    exact source.2 drv' output' (same ▸ (derivationOutputPath_iff graph).mp made)
  · rw [source.1] at edge
    cases edge

/-- A graft is found for exactly the outputs at the path of an origin. -/
theorem findGraftOrigin_iff (sourced : Sourced graph) (ofOutputs : OfOutputs graph grafts)
    (made : derivationOutputPath graph drv output = .ok path) :
    findGraftOrigin graph drv output grafts = .ok true ↔ IsOrigin graph grafts path := by
  induction grafts with
  | nil => simp [findGraftOrigin, IsOrigin]
  | cons graft grafts ih =>
    have later : OfOutputs graph grafts := fun graft' member =>
      ofOutputs graft' (mem_cons_of_mem graft member)
    obtain ⟨origin, output', path', isDrv, isOutput, made', named⟩ := ofOutputs.named mem_cons_self
    obtain ⟨first, isFirst, found⟩ := isGraftOrigin_returns named drv output
    have splits : IsOrigin graph (graft :: grafts) path ↔ first = true ∨ IsOrigin graph grafts path := by
      have atPath : graftOriginFileName graph graft = .ok path ↔ first = true := by
        rw [found, named, made, isDrv, isOutput, ok.injEq, ok.injEq]
        constructor
        · -- the output of the origin has the same path, hence the same name
          rintro rfl
          exact ⟨⟨origin, rfl⟩, congrArg some (sourced.named origin drv output' output path'
            ((derivationOutputPath_iff graph).mp made') ((derivationOutputPath_iff graph).mp made)), rfl⟩
        · exact fun same => same.2.2.symm
      rw [← atPath]
      simp [IsOrigin]
    rw [findGraftOrigin, isFirst, splits]
    cases first with
    | true => exact ⟨fun _ => .inl rfl, fun _ => rfl⟩
    | false => exact (ih later).trans ⟨.inr, fun holds => holds.resolve_left (by simp)⟩

theorem mem_applicableGrafts {all applicable : List (Graft D N)}
    (ran : applicableGrafts graph deps all = .ok applicable) (graft : Graft D N) :
    graft ∈ applicable ↔ graft ∈ all ∧ ∃ path ∈ deps, graftOriginFileName graph graft = .ok path := by
  induction all generalizing applicable with
  | nil =>
    cases ran
    simp
  | cons head all ih =>
    obtain ⟨origin, named, ran⟩ := Fallible.bind_ok.mp ran
    obtain ⟨rest, isRest, ran⟩ := Fallible.bind_ok.mp ran
    cases ran
    have mem_rest := ih isRest
    have ofHead : (∃ path ∈ deps, graftOriginFileName graph head = .ok path) ↔ origin ∈ deps := by
      simp [named]
    by_cases same : graft = head
    · subst same
      split
      next applies => simp [ofHead, applies]
      next unused => simp [mem_rest, ofHead, unused]
    · split
      next => simp [mem_rest, same]
      next => simp [mem_rest, same]

end Affected

/-! ### Grafts that leave no origin -/

section Replaced

variable {D N : Type} {graph : DerivationGraph D} (store : GraftedStore graph N) (grafts : List (Graft D N))

/-- The grafts that may be applied: the given ones, and those of an output that reaches an
origin to one where every reference that reaches an origin was replaced. -/
inductive Replaced : Graft D N → Prop
  | given {graft : Graft D N} (member : graft ∈ grafts) : Replaced graft
  | variant {shallow : Shallow D N} {drv : D} {output path : Str}
      {deps : List Str} {applicable : List (Graft D N)} (rewrites : store.Rewrites shallow)
      (made : derivationOutputPath graph drv output = .ok path)
      (refers : nonSelfReferences graph drv [output] = .ok deps)
      (affected : Affected graph grafts path) (other : ¬ IsOrigin graph grafts path)
      (covers : ∀ dep ∈ deps, Affected graph grafts dep →
        ∃ graft ∈ applicable, graftOriginFileName graph graft = .ok dep)
      (only : ∀ graft ∈ applicable, Replaced graft) :
      Replaced ⟨.derivation drv, some output, .grafted (shallow drv applicable [output]), some output⟩

/-- The outputs of `drv`, rewritten with grafts that leave no reference that reaches an
origin. -/
structure Rewritten (shallow : Shallow D N) (drv : D) (outputs : List Str)
    (applicable : List (Graft D N)) : Prop where
  rewrites : store.Rewrites shallow
  covers : ∀ deps, nonSelfReferences graph drv outputs = .ok deps → ∀ dep ∈ deps,
    Affected graph grafts dep → ∃ graft ∈ applicable, graftOriginFileName graph graft = .ok dep
  only : ∀ graft ∈ applicable, Replaced store grafts graft

variable {store grafts} {shallow : Shallow D N} {drv : D} {output path : Str}
  {applicable : List (Graft D N)}

theorem named_singleton (made : derivationOutputPath graph drv output = .ok path) :
    HasOutputs graph drv [output] :=
  forall_mem_singleton.mpr ⟨path, made⟩

theorem Replaced.valid {graft : Graft D N} (replaced : Replaced store grafts graft)
    (ofOutputs : OfOutputs graph grafts) : ValidGraft graph graft := by
  cases replaced with
  | given member => exact ofOutputs.valid graft member
  | variant _ made => exact ⟨_, made⟩

theorem Rewritten.replaced (rewritten : Rewritten store grafts shallow drv [output] applicable)
    (made : derivationOutputPath graph drv output = .ok path) (affected : Affected graph grafts path)
    (other : ¬ IsOrigin graph grafts path) :
    Replaced store grafts
      ⟨.derivation drv, some output, .grafted (shallow drv applicable [output]), some output⟩ := by
  obtain ⟨deps, refers⟩ := nonSelfReferences_returns graph (named_singleton made)
  exact .variant rewritten.rewrites made refers affected other (rewritten.covers deps refers) rewritten.only

end Replaced

/-! ### Closures -/

section Closure

variable {D N : Type} {graph : DerivationGraph D} {store : GraftedStore graph N} {grafts : List (Graft D N)}
  {graft : Graft D N} {item item' : GraftedItem N} {path : Str}

/-- What a reference of a rewritten output becomes: the replacement of a graft, another of the
outputs, or it stays as it is and does not reach an origin. -/
theorem Rewritten.mapped_cases {shallow : Shallow D N} {drv : D}
    {applicable : List (Graft D N)} (rewritten : Rewritten store grafts shallow drv outputs applicable)
    (named : HasOutputs graph drv outputs)
    (member : output ∈ outputs) (made : derivationOutputPath graph drv output = .ok path) (new : N)
    {r : Str} (refers : r ∈ graph.references path) :
    (∃ graft ∈ applicable, graftOriginFileName graph graft = .ok r ∧
      mappedReference graph store.resolve drv new outputs applicable r =
        store.resolve graft.replacement graft.replacementOutput) ∨
    (∃ output' ∈ outputs, derivationOutputPath graph drv output' = .ok r ∧
      mappedReference graph store.resolve drv new outputs applicable r = .new new output') ∨
    (¬ Affected graph grafts r ∧
      mappedReference graph store.resolve drv new outputs applicable r = .old r) := by
  rw [mappedReference]
  split
  next graft found =>
    exact .inl ⟨graft, mem_of_find?_eq_some found, by simpa using find?_some found, rfl⟩
  next noGraft =>
    split
    next output' found =>
      exact .inr (.inl ⟨output', mem_of_find?_eq_some found, by simpa using find?_some found, rfl⟩)
    next noSelf =>
      refine .inr (.inr ⟨fun affected => ?_, rfl⟩)
      -- otherwise a graft for it would have been applied
      obtain ⟨deps, ran⟩ := nonSelfReferences_returns graph named
      have isDep : r ∈ deps := by
        rw [mem_nonSelfReferences_iff graph ran]
        exact ⟨⟨output, member, path, made, refers⟩, by simpa using noSelf⟩
      obtain ⟨graft, inApplicable, isOrigin⟩ := rewritten.covers deps ran r isDep affected
      simpa [isOrigin] using find?_eq_none.mp noGraft graft inApplicable

variable (store grafts) in
/-- The items that a grafted closure may hold. -/
inductive Purged : GraftedItem N → Prop
  | replacement {graft : Graft D N} {item : GraftedItem N} (member : graft ∈ grafts)
      (reach : Reach store.succ (store.resolve graft.replacement graft.replacementOutput) item) : Purged item
  | unaffected {path : Str} (unaffected : ¬ Affected graph grafts path) : Purged (.old path)
  | rewritten {shallow : Shallow D N} {drv : D} {outputs : List Str}
      {applicable : List (Graft D N)} {output : Str}
      (rewritten : Rewritten store grafts shallow drv outputs applicable)
      (named : ∀ output ∈ outputs, ∃ path, derivationOutputPath graph drv output = .ok path)
      (member : output ∈ outputs) : Purged (.new (shallow drv applicable outputs) output)

theorem Replaced.rewritten (replaced : Replaced store grafts graft) (isNew : graft ∉ grafts) :
    ∃ shallow drv output path applicable, Rewritten store grafts shallow drv [output] applicable ∧
      derivationOutputPath graph drv output = .ok path ∧ Affected graph grafts path ∧
      graftOriginFileName graph graft = .ok path ∧
      store.resolve graft.replacement graft.replacementOutput =
        .new (shallow drv applicable [output]) output := by
  cases replaced with
  | given member => exact absurd member isNew
  | @variant shallow drv output path deps applicable rewrites made refers affected _ covers only =>
    have rewritten : Rewritten store grafts shallow drv [output] applicable := by
      refine ⟨rewrites, fun deps' refers' => ?_, only⟩
      cases refers.symm.trans refers'
      exact covers
    exact ⟨shallow, drv, output, path, applicable, rewritten, made, affected, made,
      store.resolve_grafted _ output⟩

theorem Replaced.purged (replaced : Replaced store grafts graft) :
    Purged store grafts (store.resolve graft.replacement graft.replacementOutput) := by
  by_cases member : graft ∈ grafts
  · exact .replacement member .refl
  · obtain ⟨shallow, drv, output, path, applicable, rewritten, made, _, _, resolved⟩ :=
      replaced.rewritten member
    rw [resolved]
    exact .rewritten rewritten (named_singleton made) mem_cons_self

theorem Purged.step (purged : Purged store grafts item) (edge : item' ∈ store.succ item) :
    Purged store grafts item' := by
  cases purged with
  | replacement member reach => exact .replacement member (reach.tail edge)
  | unaffected unaffected =>
    obtain ⟨r, refers, rfl⟩ := mem_map.mp edge
    exact .unaffected fun affected => unaffected (affected.of_refers refers)
  | @rewritten shallow drv outputs applicable output rewritten named member =>
    obtain ⟨path, made⟩ := named output member
    rw [GraftedStore.succ, rewritten.rewrites drv applicable outputs output member path made] at edge
    obtain ⟨r, refers, rfl⟩ := mem_map.mp edge
    rcases rewritten.mapped_cases named member made _ refers with
      ⟨graft, inApplicable, _, mapped⟩ | ⟨output', member', _, mapped⟩ | ⟨unaffected, mapped⟩ <;> rw [mapped]
    · exact (rewritten.only graft inApplicable).purged
    · exact .rewritten rewritten named member'
    · exact .unaffected unaffected

theorem Purged.reach (purged : Purged store grafts item) (reach : Reach store.succ item item') :
    Purged store grafts item' := by
  induction reach with
  | refl => exact purged
  | tail _ edge ih => exact ih.step edge

theorem Purged.notOrigin {origin : Str} (purged : Purged store grafts (.old origin))
    (apart : ∀ graft ∈ grafts, ∀ origin, IsOrigin graph grafts origin →
      ¬ Reach store.succ (store.resolve graft.replacement graft.replacementOutput) (.old origin)) :
    ¬ IsOrigin graph grafts origin := by
  intro isOrigin
  cases purged with
  | replacement member reach => exact apart _ member origin isOrigin reach
  | unaffected unaffected => exact unaffected isOrigin.affected

variable (store grafts) in
/-- The item stands for `path` of the original closure: a copy of it was only made when it
reaches an origin, or is one of the outputs `top`. -/
inductive StandsFor (top : Str → Prop) : GraftedItem N → Str → Prop
  | itself {path : Str} (unaffected : ¬ Affected graph grafts path) : StandsFor top (.old path) path
  | rewritten {shallow : Shallow D N} {drv : D} {outputs : List Str}
      {applicable : List (Graft D N)} {output path : Str}
      (rewritten : Rewritten store grafts shallow drv outputs applicable)
      (named : ∀ output ∈ outputs, ∃ path, derivationOutputPath graph drv output = .ok path)
      (copied : ∀ output ∈ outputs, ∀ path, derivationOutputPath graph drv output = .ok path →
        Affected graph grafts path ∨ top path)
      (member : output ∈ outputs) (made : derivationOutputPath graph drv output = .ok path) :
      StandsFor top (.new (shallow drv applicable outputs) output) path

variable {top : Str → Prop}

theorem StandsFor.step {r : Str} (stands : StandsFor store grafts top item path) (refers : r ∈ graph.references path)
    (other : ¬ IsOrigin graph grafts r) : ∃ item' ∈ store.succ item, StandsFor store grafts top item' r := by
  cases stands with
  | itself unaffected =>
    exact ⟨.old r, mem_map.mpr ⟨r, refers, rfl⟩,
      .itself fun affected => unaffected (affected.of_refers refers)⟩
  | @rewritten shallow drv outputs applicable output _ rewritten named copied member made =>
    rw [GraftedStore.succ, rewritten.rewrites drv applicable outputs output member path made]
    refine ⟨_, mem_map.mpr ⟨r, refers, rfl⟩, ?_⟩
    rcases rewritten.mapped_cases named member made _ refers with
      ⟨graft, inApplicable, isOrigin, mapped⟩ | ⟨output', member', made', mapped⟩ | ⟨unaffected, mapped⟩
    · -- a given graft would make it an origin
      obtain ⟨shallow', drv', output', path', applicable', rewritten', made', affected, isOrigin', resolved⟩ :=
        (rewritten.only graft inApplicable).rewritten fun given => other ⟨graft, given, isOrigin⟩
      cases isOrigin.symm.trans isOrigin'
      rw [mapped, resolved]
      refine .rewritten rewritten' (named_singleton made') ?_ mem_cons_self made'
      intro output'' isOutput path'' made''
      cases mem_singleton.mp isOutput
      cases made'.symm.trans made''
      exact .inl affected
    · rw [mapped]
      exact .rewritten rewritten named copied member' made'
    · rw [mapped]
      exact .itself unaffected

variable (graph grafts) in
/-- `path` leads to `item` without going through an origin. -/
abbrev ReachAround (path item : Str) : Prop :=
  Relation.ReflTransGen (fun a b => b ∈ graph.references a ∧ ¬ IsOrigin graph grafts b) path item

theorem StandsFor.reach {path' : Str} (stands : StandsFor store grafts top item path)
    (around : ReachAround graph grafts path path') :
    ∃ item', Reach store.succ item item' ∧ StandsFor store grafts top item' path' := by
  induction around with
  | refl => exact ⟨item, .refl, stands⟩
  | tail _ edge ih =>
    obtain ⟨item', reach, stands'⟩ := ih
    obtain ⟨item'', next, stands''⟩ := stands'.step edge.1 edge.2
    exact ⟨item'', reach.tail next, stands''⟩

/-- Only the outputs `top` are copied without need. -/
theorem StandsFor.unchanged (stands : StandsFor store grafts top item path) (unaffected : ¬ Affected graph grafts path)
    (other : ¬ top path) : item = .old path := by
  cases stands with
  | itself => rfl
  | rewritten _ _ copied member made =>
    rcases copied _ member path made with affected | isTop
    · exact absurd affected unaffected
    · exact absurd isTop other

end Closure

/-! ### Cumulative grafts -/

section Cumulative

variable {D N : Type} {graph : DerivationGraph D} (store : GraftedStore graph N) (grafts : List (Graft D N))

/-- The list for outputs that reach no origin has only the given grafts. Any other list starts
with the grafts of the outputs to rewritten ones. -/
def Completed (drv : D) (outputs : List Str) (all : List (Graft D N)) : Prop :=
  ∀ deps, nonSelfReferences graph drv outputs = .ok deps →
    ((∀ dep ∈ deps, ¬ Affected graph grafts dep) ∧ ∀ graft ∈ all, graft ∈ grafts) ∨
    ((∃ dep ∈ deps, Affected graph grafts dep) ∧ ∃ shallow applicable rest,
      Rewritten store grafts shallow drv outputs applicable ∧
      all = outputGrafts drv (shallow drv applicable outputs) outputs ++ rest ∧
      ∀ graft ∈ rest, Replaced store grafts graft)

/-- The list for one origin of a reference. -/
def OriginCompleted (origin : D × Str) (all : List (Graft D N)) : Prop :=
  (findGraftOrigin graph origin.1 origin.2 grafts = .ok true ∧ all = grafts) ∨
    (findGraftOrigin graph origin.1 origin.2 grafts = .ok false ∧
      Completed store grafts origin.1 [origin.2] all)

variable {store grafts}

section One

variable {origin : D × Str} {all : List (Graft D N)} {path : Str}
  (made : derivationOutputPath graph origin.1 origin.2 = .ok path)

include made

/-- A recursive call was for an output at the path, whose references reach an origin when it
does. -/
theorem Completed.cases (completed : Completed store grafts origin.1 [origin.2] all)
    (other : ¬ IsOrigin graph grafts path) :
    (¬ Affected graph grafts path ∧ ∀ graft ∈ all, graft ∈ grafts) ∨
    (Affected graph grafts path ∧ ∃ shallow applicable rest,
      Rewritten store grafts shallow origin.1 [origin.2] applicable ∧
      all = ⟨.derivation origin.1, some origin.2, .grafted (shallow origin.1 applicable [origin.2]),
        some origin.2⟩ :: rest ∧ ∀ graft ∈ rest, Replaced store grafts graft) := by
  obtain ⟨deps, refers⟩ := nonSelfReferences_returns graph (named_singleton made)
  have others : ∀ output ∈ [origin.2], ∀ path', derivationOutputPath graph origin.1 output = .ok path' →
      ¬ IsOrigin graph grafts path' := by
    intro output member path' made'
    cases mem_singleton.mp member
    cases made.symm.trans made'
    exact other
  rcases completed deps refers with ⟨unaffected, given⟩ | ⟨⟨dep, isDep, affected⟩, rewritten⟩
  · refine .inl ⟨fun affected => ?_, given⟩
    obtain ⟨dep, isDep, affected⟩ := affected_dep refers others mem_cons_self made affected
    exact unaffected dep isDep affected
  · obtain ⟨output, member, path', made', affected'⟩ := affected_of_dep refers isDep affected
    cases mem_singleton.mp member
    cases made.symm.trans made'
    exact .inr ⟨affected', rewritten⟩

theorem OriginCompleted.given (completed : OriginCompleted store grafts origin all)
    (unaffected : ¬ Affected graph grafts path) : ∀ graft ∈ all, graft ∈ grafts := by
  rcases completed with ⟨_, rfl⟩ | ⟨_, completed⟩
  · exact fun _ member => member
  · rcases completed.cases made fun isOrigin => unaffected isOrigin.affected with ⟨_, given⟩ | ⟨affected, _⟩
    · exact given
    · exact absurd affected unaffected

variable (sourced : Sourced graph) (ofOutputs : OfOutputs graph grafts)
  (completed : OriginCompleted store grafts origin all)

include sourced ofOutputs completed

/-- The given grafts are found for their own origins only. -/
theorem OriginCompleted.origin_or : (IsOrigin graph grafts path ∧ all = grafts) ∨
    (¬ IsOrigin graph grafts path ∧ Completed store grafts origin.1 [origin.2] all) := by
  rw [← findGraftOrigin_iff sourced ofOutputs made]
  refine completed.imp_right fun ⟨notFound, completed⟩ => ⟨?_, completed⟩
  rw [notFound]
  nofun

/-- Whatever is found for an origin may be applied. -/
theorem OriginCompleted.replaced : ∀ graft ∈ all, Replaced store grafts graft := by
  intro graft member
  rcases completed.origin_or made sourced ofOutputs with ⟨_, rfl⟩ | ⟨other, completed⟩
  · exact .given member
  · rcases completed.cases made other with ⟨_, given⟩ | ⟨affected, shallow, applicable, rest, rewritten, rfl, only⟩
    · exact .given (given graft member)
    · rcases mem_cons.mp member with rfl | inRest
      · exact rewritten.replaced made affected other
      · exact only graft inRest

/-- A graft is found for every origin that reaches one of the given grafts. -/
theorem OriginCompleted.covers (affected : Affected graph grafts path) :
    ∃ graft ∈ all, graftOriginFileName graph graft = .ok path := by
  rcases completed.origin_or made sourced ofOutputs with ⟨isOrigin, rfl⟩ | ⟨other, completed⟩
  · exact isOrigin
  · rcases completed.cases made other with ⟨unaffected, _⟩ | ⟨_, shallow, applicable, rest, _, rfl, _⟩
    · exact absurd affected unaffected
    · exact ⟨_, mem_cons_self, made⟩

end One

variable [DecidableEq D] [DecidableEq N]
variable {drv : D} {shallow : Shallow D N}

/-- The merged lists of the origins of the references, and what is done with them. -/
theorem completed_merged (sourced : Sourced graph) (ofOutputs : OfOutputs graph grafts)
    {found : List (List (Graft D N))} (rewrites : store.Rewrites shallow)
    (refers : nonSelfReferences graph drv outputs = .ok deps)
    (made : ∀ origin ∈ referenceOrigins graph drv deps, ∃ all ∈ found, OriginCompleted store grafts origin all)
    (completed : ∀ all ∈ found, ∃ origin ∈ referenceOrigins graph drv deps,
      OriginCompleted store grafts origin all) :
    ∃ applicable, applicableGrafts graph deps found.flatten.eraseDups = .ok applicable ∧
      Completed store grafts drv outputs (if applicable = [] then found.flatten.eraseDups
        else outputGrafts drv (shallow drv applicable outputs) outputs ++ found.flatten.eraseDups) := by
  have mem_merged : ∀ graft, graft ∈ found.flatten.eraseDups ↔ ∃ all ∈ found, graft ∈ all := by
    intro graft
    rw [mem_eraseDups, mem_flatten]
  have replaced : ∀ graft ∈ found.flatten.eraseDups, Replaced store grafts graft := by
    intro graft member
    obtain ⟨all, isAll, inAll⟩ := (mem_merged graft).mp member
    obtain ⟨origin, produced, complete⟩ := completed all isAll
    obtain ⟨path, _, isPath⟩ := mem_referenceOrigins graph produced
    exact complete.replaced isPath sourced ofOutputs graft inAll
  obtain ⟨applicable, applies⟩ := applicableGrafts_returns
    (fun graft member => (replaced graft member).valid ofOutputs) deps
  have covers : ∀ dep ∈ deps, Affected graph grafts dep →
      ∃ graft ∈ applicable, graftOriginFileName graph graft = .ok dep := by
    intro dep isDep affected
    obtain ⟨⟨output, _, path, isPath, refersTo⟩, _⟩ := (mem_nonSelfReferences_iff graph refers dep).mp isDep
    obtain ⟨drv', reached, output', isOutput⟩ := sourced.produced ofOutputs
      ((derivationOutputPath_iff graph).mp isPath) refersTo affected
    obtain ⟨origin, produced, isOutput'⟩ := referenceOrigins_complete graph reached isOutput isDep
    obtain ⟨all, isAll, complete⟩ := made origin produced
    obtain ⟨graft, inAll, isOrigin⟩ := complete.covers ((derivationOutputPath_iff graph).mpr isOutput') sourced
      ofOutputs affected
    refine ⟨graft, (mem_applicableGrafts applies graft).mpr ⟨?_, dep, isDep, isOrigin⟩, isOrigin⟩
    exact (mem_merged graft).mpr ⟨all, isAll, inAll⟩
  refine ⟨applicable, applies, fun deps' refers' => ?_⟩
  cases refers.symm.trans refers'
  by_cases affected : ∃ dep ∈ deps, Affected graph grafts dep
  · obtain ⟨dep, isDep, reaches⟩ := affected
    obtain ⟨graft, inApplicable, _⟩ := covers dep isDep reaches
    rw [if_neg (ne_nil_of_mem inApplicable)]
    refine .inr ⟨⟨dep, isDep, reaches⟩, shallow, applicable, _, ⟨rewrites, ?_, ?_⟩, rfl, replaced⟩
    · intro deps' refers'
      cases refers.symm.trans refers'
      exact covers
    · exact fun graft member => replaced graft ((mem_applicableGrafts applies graft).mp member).1
  · have unaffected : ∀ dep ∈ deps, ¬ Affected graph grafts dep := fun dep isDep reaches =>
      affected ⟨dep, isDep, reaches⟩
    have given : ∀ graft ∈ found.flatten.eraseDups, graft ∈ grafts := by
      intro graft member
      obtain ⟨all, isAll, inAll⟩ := (mem_merged graft).mp member
      obtain ⟨origin, produced, complete⟩ := completed all isAll
      obtain ⟨path, isDep, isPath⟩ := mem_referenceOrigins graph produced
      exact complete.given isPath (unaffected path isDep) graft inAll
    have none : applicable = [] := by
      rw [eq_nil_iff_forall_not_mem]
      intro graft member
      obtain ⟨inMerged, path, isDep, isOrigin⟩ := (mem_applicableGrafts applies graft).mp member
      exact unaffected path isDep (IsOrigin.affected ⟨graft, given graft inMerged, isOrigin⟩)
    rw [if_pos none]
    exact .inl ⟨unaffected, given⟩

variable (store) in
/-- The entries of the cache for grafts of outputs. -/
def CompletedCache (cache : GraftCache D N) : Prop :=
  ∀ entry ∈ cache, OfOutputs graph entry.1.2.2 → ∀ drv, graph.fileName drv = entry.1.1 →
    Completed store entry.1.2.2 drv entry.1.2.1 entry.2

variable (grafts) in
theorem completedRule (sourced : Sourced graph) (rewrites : store.Rewrites shallow) :
    GraftRule graph grafts (OfOutputs graph) (Completed store) shallow where
  valid := OfOutputs.valid
  leaf drv outputs refers _ deps' refers' := by
    cases refers.symm.trans refers'
    exact .inl ⟨by simp, fun _ member => member⟩
  merged _ _ _ _ refers _ ofOutputs made completed :=
    completed_merged sourced ofOutputs rewrites refers made completed

end Cumulative

/-! ### Calls -/

section Calls

variable {D N : Type} [DecidableEq D] [DecidableEq N] {graph : DerivationGraph D}

/-- The caches of a connection, after any calls that rewrite the references. -/
inductive RewritingCache (store : GraftedStore graph N) : GraftCache D N → Prop
  | empty : RewritingCache store []
  | returned {cache cache' : GraftCache D N} {result : Replacement D N}
      {shallow : Shallow D N} (rewrites : store.Rewrites shallow) (drv : D)
      (grafts : List (Graft D N)) (outputs : List Str) (before : RewritingCache store cache)
      (ran : graftDerivation graph shallow drv grafts outputs cache = .ok result cache') :
      RewritingCache store cache'
  | failed {cache cache' : GraftCache D N} {e : GraftError}
      {shallow : Shallow D N} (rewrites : store.Rewrites shallow) (drv : D)
      (grafts : List (Graft D N)) (outputs : List Str) (before : RewritingCache store cache)
      (ran : graftDerivation graph shallow drv grafts outputs cache = .error e cache') :
      RewritingCache store cache'

variable {store : GraftedStore graph N}
variable {cache : GraftCache D N}

theorem RewritingCache.reachable (rewriting : RewritingCache store cache) :
    ReachableCache graph cache := by
  induction rewriting with
  | empty => exact .empty
  | returned _ drv grafts outputs _ ran ih => exact .returned _ drv grafts outputs ih ran
  | failed _ drv grafts outputs _ ran ih => exact .failed _ drv grafts outputs ih ran

variable {shallow : Shallow D N}

theorem RewritingCache.completed (sourced : Sourced graph)
    (rewriting : RewritingCache store cache) : CompletedCache store cache := by
  induction rewriting with
  | empty => exact fun _ member => absurd member not_mem_nil
  | returned rewrites drv grafts outputs _ ran ih
  | failed rewrites drv grafts outputs _ ran ih =>
    have kept := (completedRule grafts sourced rewrites).graftDerivation drv outputs _ ih
    rwa [wp, ran] at kept

/-- The closure of the result has no origin. What is reached without going through an origin
and does not reach one itself is still there, the outputs of the derivation apart, which stay
when none of them reaches an origin. -/
structure Grafted (store : GraftedStore graph N) (grafts : List (Graft D N)) (drv : D) (outputs : List Str)
    (result : Replacement D N) : Prop where
  noOrigin : ∀ output ∈ outputs, ∀ origin, IsOrigin graph grafts origin →
    ¬ Reach store.succ (store.resolve result (some output)) (.old origin)
  unchanged : ∀ output ∈ outputs, ∀ path, derivationOutputPath graph drv output = .ok path →
    ∀ item, ReachAround graph grafts path item → ¬ Affected graph grafts item →
    (∀ output' ∈ outputs, derivationOutputPath graph drv output' ≠ .ok item) →
    Reach store.succ (store.resolve result (some output)) (.old item)
  itself : (∀ output ∈ outputs, ∀ path, derivationOutputPath graph drv output = .ok path →
    ¬ Affected graph grafts path) → result = .derivation drv

section Results

variable {grafts : List (Graft D N)} {drv : D} {outputs : List Str} (named : HasOutputs graph drv outputs)

omit [DecidableEq D] [DecidableEq N]
include named

theorem grafted_itself (unaffected : ∀ output ∈ outputs, ∀ path,
      derivationOutputPath graph drv output = .ok path → ¬ Affected graph grafts path) :
    Grafted store grafts drv outputs (.derivation drv) where
  noOrigin output member origin isOrigin reach := by
    obtain ⟨path, made⟩ := named output member
    rw [store.resolve_derivation drv output path made] at reach
    obtain ⟨path', same, reaches⟩ := store.reach_old reach
    cases same
    exact unaffected output member path made ⟨origin, isOrigin, reaches⟩
  unchanged output member path made item around itemUnaffected other := by
    rw [store.resolve_derivation drv output path made]
    have stands : StandsFor store grafts (fun _ => False) (.old path) path :=
      .itself (unaffected output member path made)
    obtain ⟨item', reach, stands'⟩ := stands.reach around
    rwa [stands'.unchanged itemUnaffected not_false] at reach
  itself _ := rfl

theorem grafted_rewritten {applicable : List (Graft D N)}
    (rewritten : Rewritten store grafts shallow drv outputs applicable)
    (apart : ∀ graft ∈ grafts, ∀ origin, IsOrigin graph grafts origin →
      ¬ Reach store.succ (store.resolve graft.replacement graft.replacementOutput) (.old origin))
    (affected : ∃ output ∈ outputs, ∃ path, derivationOutputPath graph drv output = .ok path ∧
      Affected graph grafts path) :
    Grafted store grafts drv outputs (.grafted (shallow drv applicable outputs)) where
  noOrigin output member origin isOrigin reach := by
    rw [store.resolve_grafted] at reach
    have purged := Purged.reach (.rewritten rewritten named member) reach
    exact purged.notOrigin apart isOrigin
  unchanged output member path made item around unaffected other := by
    rw [store.resolve_grafted]
    let top (path : Str) : Prop := ∃ output ∈ outputs, derivationOutputPath graph drv output = .ok path
    have stands : StandsFor store grafts top (.new (shallow drv applicable outputs) output) path :=
      .rewritten rewritten named (fun output member path made => .inr ⟨output, member, made⟩) member made
    obtain ⟨item', reach, stands'⟩ := stands.reach around
    rwa [stands'.unchanged unaffected fun ⟨output', member', made'⟩ => other output' member' made'] at reach
  itself unaffected := by
    obtain ⟨output, member, path, made, reaches⟩ := affected
    exact absurd reaches (unaffected output member path made)

end Results

/-- Grafting is complete when the grafts are kept. -/
theorem graftDerivation_grafted (sourced : Sourced graph) (store : GraftedStore graph N)
    (cache : GraftCache D N) (rewriting : RewritingCache store cache)
    (shallow : Shallow D N) (rewrites : store.Rewrites shallow) (drv : D)
    (grafts : List (Graft D N)) (outputs : List Str) (some : grafts ≠ []) (ofOutputs : OfOutputs graph grafts)
    (others : ∀ output path, derivationOutputPath graph drv output = .ok path → ¬ IsOrigin graph grafts path)
    (apart : ∀ graft ∈ grafts, ∀ origin, IsOrigin graph grafts origin →
      ¬ Reach store.succ (store.resolve graft.replacement graft.replacementOutput) (.old origin))
    (named : ∀ output ∈ outputs, ∃ path, derivationOutputPath graph drv output = .ok path)
    (kept : Keeps graph grafts drv outputs) :
    ∃ result cache', graftDerivation graph shallow drv grafts outputs cache = .ok result cache' ∧
      Grafted store grafts drv outputs result := by
  have answers := (answerRule grafts shallow).cumulativeGrafts (graftFuel graph drv) drv outputs cache
    rewriting.reachable.sound
  have completes := (completedRule grafts sourced rewrites).cumulativeGrafts (graftFuel graph drv) drv
    outputs cache (rewriting.completed sourced)
  obtain ⟨all, cache', ran, ⟨_, isAnswer⟩, _, isCompleted⟩ := wp_returns (wp_mono (wp_and answers completes)
    (fun _ _ both => both) fun _ _ both => both.1.2 ofOutputs.valid (Nat.succ_pos _) fun output member =>
      (named output member).imp fun _ path => ⟨path, rank_lt_graftFuel graph path⟩)
  have contains := (isAnswer ofOutputs.valid).contains kept
  obtain ⟨graft, member⟩ := exists_mem_of_ne_nil grafts some
  have inAll := contains graft member
  obtain ⟨deps, refers⟩ := nonSelfReferences_returns graph named
  rcases isCompleted ofOutputs deps refers with
    ⟨unaffected, given⟩ | ⟨⟨dep, isDep, affected⟩, shallow', applicable, rest, rewritten, rfl, _⟩
  · -- the first graft is one of those given, and not for this derivation
    cases all with
    | nil => cases inAll
    | cons first rest =>
      obtain ⟨origin, output, path, isDrv, isOutput, made, named'⟩ := ofOutputs.named (given first mem_cons_self)
      have other : first.origin ≠ .derivation drv := by
        intro same
        cases isDrv.symm.trans same
        exact others output path made ⟨first, given first mem_cons_self, named'⟩
      refine ⟨.derivation drv, cache', by rw [graftDerivation, ran]; dsimp only; rw [if_neg other], ?_⟩
      apply grafted_itself named
      intro output member path made affected
      obtain ⟨dep, isDep, reaches⟩ := affected_dep refers
        (fun output _ path made => others output path made) member made affected
      exact unaffected dep isDep reaches
  · -- some output reaches an origin, hence there is an output
    obtain ⟨output, member, path, made, reaches⟩ := affected_of_dep refers isDep affected
    refine ⟨.grafted (shallow' drv applicable outputs), cache', ?_,
      grafted_rewritten named rewritten apart ⟨output, member, path, made, reaches⟩⟩
    obtain ⟨first, others', rfl⟩ := exists_cons_of_ne_nil (ne_nil_of_mem member)
    simp [graftDerivation, ran, outputGrafts]

end Calls

section Example

/-- The derivations that `graft-derivation/shallow` makes, kept apart by what they are made
from. -/
inductive ShallowDerivation (D : Type)
  | shallow (drv : D) (grafts : List (Graft D (ShallowDerivation D))) (outputs : List Str)

noncomputable instance ShallowDerivation.decidableEq (D : Type) : DecidableEq (ShallowDerivation D) := Classical.decEq _

variable {D : Type} (graph : DerivationGraph D)

/-- The item of a replacement. What a monadic value stands for is not a store item here. -/
def ShallowDerivation.resolve : Replacement D (ShallowDerivation D) → Option Str → GraftedItem (ShallowDerivation D)
  | .derivation drv, some output =>
    match derivationOutputPath graph drv output with
    | .ok path => .old path
    | .error _ => .old []
  | .derivation _, none => .old []
  | .grafted new, output => .new new (output.getD [])
  | .item path, _ => .old path
  | .monadic, _ => .old []

def ShallowDerivation.references : ShallowDerivation D → Str → List (GraftedItem (ShallowDerivation D))
  | .shallow drv grafts outputs, output =>
    match derivationOutputPath graph drv output with
    | .ok path => (graph.references path).map
        (mappedReference graph (ShallowDerivation.resolve graph) drv (.shallow drv grafts outputs) outputs grafts)
    | .error _ => []

def shallowStore : GraftedStore graph (ShallowDerivation D) where
  references := ShallowDerivation.references graph
  resolve := ShallowDerivation.resolve graph
  resolve_derivation := by
    intro drv output path made
    simp only [ShallowDerivation.resolve, made]
  resolve_grafted := fun _ _ => rfl
  resolve_item := fun _ _ => rfl

theorem shallowStore_rewrites : (shallowStore graph).Rewrites ShallowDerivation.shallow := by
  intro drv grafts outputs output _ path made
  simp only [shallowStore, ShallowDerivation.references, made]

/-- A derivation `true` with two outputs, of which `/out` refers to a source and to the output
`/lib` of the derivation `false`. -/
def documented : DerivationGraph Bool where
  derivations := [true, false]
  complete := by decide
  inputs := fun drv => if drv then [false] else []
  fileName := fun drv => if drv then str "/b.drv" else str "/a.drv"
  fileName_injective := by decide
  outputPaths := fun drv =>
    if drv then [(str "out", str "/out"), (str "doc", str "/doc")] else [(str "out", str "/lib")]
  outputNames_nodup := by decide
  references := fun item => if item = str "/out" then [str "/lib", str "/src"] else []
  rank := fun item => if item = str "/out" then 1 else 0
  references_rank := by
    intro item r member other
    split at member
    next isOut =>
      rw [if_neg (isOut ▸ other), if_pos isOut]
      exact Nat.one_pos
    next => cases member

def libGraft : Graft Bool (ShallowDerivation Bool) := ⟨.derivation false, some (str "out"), .item (str "/new"), none⟩

theorem documented_sourced : Sourced documented where
  referenced := by
    have cases : ∀ drv, ∀ entry ∈ documented.outputPaths drv, ∀ r ∈ documented.references entry.2,
        (documented.references r = [] ∧ ∀ drv', ∀ entry' ∈ documented.outputPaths drv', entry'.2 ≠ r) ∨
          false ∈ documented.inputs drv ∧ (str "out", r) ∈ documented.outputPaths false := by
      decide
    intro drv output path isOutput r refers
    rcases cases drv (output, path) isOutput r refers with ⟨leaf, source⟩ | ⟨isInput, produced⟩
    · exact .inl ⟨leaf, fun drv' output' isOutput' => source drv' _ isOutput' rfl⟩
    · exact .inr ⟨false, .single isInput, str "out", produced⟩
  named := by
    have cases : ∀ drv drv', ∀ entry ∈ documented.outputPaths drv,
        ∀ entry' ∈ documented.outputPaths drv', entry.2 = entry'.2 → entry.1 = entry'.1 := by
      decide
    intro drv drv' output output' path isOutput isOutput'
    exact cases drv drv' (output, path) isOutput (output', path) isOutput' rfl

theorem libGraft_ofOutputs : OfOutputs documented [libGraft] := by
  intro graft member
  rw [mem_singleton.mp member]
  exact ⟨false, str "out", str "/lib", rfl, rfl, rfl⟩

theorem isOrigin_libGraft (isOrigin : IsOrigin documented [libGraft] path) : path = str "/lib" := by
  obtain ⟨graft, member, named⟩ := isOrigin
  rw [mem_singleton.mp member] at named
  exact (ok.inj named).symm

theorem documented_others (output path : Str) (made : derivationOutputPath documented true output = .ok path) :
    ¬ IsOrigin documented [libGraft] path := by
  intro isOrigin
  have other : ∀ entry ∈ documented.outputPaths true, entry.2 ≠ str "/lib" := by decide
  exact other _ ((derivationOutputPath_iff documented).mp made) (isOrigin_libGraft isOrigin)

theorem reach_leaf (leaf : documented.references path = []) {item : GraftedItem (ShallowDerivation Bool)}
    (reach : Reach (shallowStore documented).succ (.old path) item) : item = .old path := by
  rcases reach.cases_head with same | ⟨next, edge, _⟩
  · exact same.symm
  · rw [GraftedStore.succ, leaf] at edge
    cases edge

theorem libGraft_apart : ∀ graft ∈ [libGraft], ∀ origin, IsOrigin documented [libGraft] origin →
    ¬ Reach (shallowStore documented).succ
      ((shallowStore documented).resolve graft.replacement graft.replacementOutput) (.old origin) := by
  intro graft member origin isOrigin reach
  rw [mem_singleton.mp member, isOrigin_libGraft isOrigin] at reach
  have leaf : documented.references (str "/new") = [] := rfl
  exact absurd (reach_leaf leaf reach) (by decide)

theorem keeps_libGraft : Keeps documented [libGraft] true [str "out", str "doc"] := by
  have produced : (false, str "out") ∈ referenceOrigins documented true [str "/lib", str "/src"] := by decide
  exact .origin rfl produced rfl

/-- The output that reaches `/lib` is rewritten; the source stays in the closure. -/
theorem graftDerivation_grafted_documented : ∃ result cache',
    graftDerivation documented ShallowDerivation.shallow true [libGraft] [str "out", str "doc"] [] = .ok result cache' ∧
      Grafted (shallowStore documented) [libGraft] true [str "out", str "doc"] result :=
  graftDerivation_grafted documented_sourced (shallowStore documented) [] .empty ShallowDerivation.shallow
    (shallowStore_rewrites documented) true [libGraft] [str "out", str "doc"] (cons_ne_nil _ _)
    libGraft_ofOutputs documented_others libGraft_apart
    (by simpa using ⟨⟨str "/out", rfl⟩, ⟨str "/doc", rfl⟩⟩) keeps_libGraft

/-- The other output is copied as well, so that the original one is not in the closure. -/
theorem graftDerivation_copies_output :
    let store := shallowStore documented
    let outputs := [str "out", str "doc"]
    Sourced documented ∧ store.Rewrites ShallowDerivation.shallow ∧ OfOutputs documented [libGraft] ∧
      (∀ output path, derivationOutputPath documented true output = .ok path →
        ¬ IsOrigin documented [libGraft] path) ∧
      (∀ graft ∈ [libGraft], ∀ origin, IsOrigin documented [libGraft] origin →
        ¬ Reach store.succ (store.resolve graft.replacement graft.replacementOutput) (.old origin)) ∧
      derivationOutputPath documented true (str "doc") = .ok (str "/doc") ∧
      ¬ Affected documented [libGraft] (str "/doc") ∧
      ∃ result cache',
        graftDerivation documented ShallowDerivation.shallow true [libGraft] outputs [] = .ok result cache' ∧
        ∀ output ∈ outputs, ¬ Reach store.succ (store.resolve result (some output)) (.old (str "/doc")) := by
  refine ⟨documented_sourced, shallowStore_rewrites documented, libGraft_ofOutputs, documented_others,
    libGraft_apart, rfl, ?_, .grafted (.shallow true [libGraft] [str "out", str "doc"]), _, rfl, ?_⟩
  · rintro ⟨origin, isOrigin, reach⟩
    rw [isOrigin_libGraft isOrigin] at reach
    rcases reach.cases_head with same | ⟨next, edge, _⟩
    · exact absurd same (by decide)
    · cases edge
  · intro output member reach
    rcases mem_cons.mp member with rfl | isDoc
    · -- the new `/out` refers to the replacement and to the source
      rcases reach.cases_head with same | ⟨next, edge, rest⟩
      · cases same
      · have refers : next ∈ [.old (str "/new"), .old (str "/src")] := edge
        simp only [mem_cons, not_mem_nil, or_false] at refers
        rcases refers with rfl | rfl
        · exact absurd (reach_leaf rfl rest) (by decide)
        · exact absurd (reach_leaf rfl rest) (by decide)
    · cases mem_singleton.mp isDoc
      rcases reach.cases_head with same | ⟨next, edge, _⟩
      · cases same
      · cases edge

end Example

end Guix.Client
