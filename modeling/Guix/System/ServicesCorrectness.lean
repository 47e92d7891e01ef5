import Guix.System.Services
import Guix.Lib.Graph

/-!
# The law of service folding

Every service that reaches the sink is folded once, with the contributions of all extensions
that target its type, unless a service type has two extensions with the same target: the first
of them is then applied in the place of the second.
-/

namespace Guix.System

open Relation Hoare MemoFold ServiceExtension TransGen Graph
open List hiding beq_eq_decide

/-! ### Graphs of services -/

/-- The services and what their types extend, apart from values and procedures. Every target of
an extension has one instance, and so has the type of the sink; there are no cycles. -/
structure ServiceGraph (S T : Type) [DecidableEq T] where
  services : List S
  kind : S → T
  targets : T → List T
  /-- The types that have a procedure `extend`. -/
  hasExtend : T → Bool
  sink : S
  oneSink : services.filter (fun s => kind s = kind sink) = [sink]
  oneTarget : ∀ s ∈ services, ∀ t ∈ targets (kind s),
    ∃ target, services.filter (fun s => kind s = t) = [target]
  acyclic : ∀ s, ¬ TransGen (fun d s => d ∈ services ∧ s ∈ services ∧ kind s ∈ targets (kind d)) s s

section Graph

variable {S T V : Type} [DecidableEq T] (graph : ServiceGraph S T)

namespace ServiceGraph

def Extends (d s : S) : Prop :=
  d ∈ graph.services ∧ s ∈ graph.services ∧ graph.kind s ∈ graph.targets (graph.kind d)

/-- The service extends the sink, directly or through others. -/
def ReachesSink (s : S) : Prop := ReflTransGen (fun s d => graph.Extends d s) graph.sink s

/-- No service has two extensions for the type of a service that reaches the sink and
composes its extensions. -/
def Unrepeated : Prop :=
  ∀ d ∈ graph.services, ∀ s ∈ graph.services, graph.ReachesSink s → graph.hasExtend (graph.kind s) →
    (graph.targets (graph.kind d)).count (graph.kind s) ≤ 1

/-- Service types and services that make up the graph. Types that extend also compose. -/
structure Fits (types : T → ServiceType T V) (service : S → Service T V) : Prop where
  kind : ∀ s, (service s).kind = graph.kind s
  targets : ∀ t, (types t).extensions.map target = graph.targets t
  hasExtend : ∀ t, (types t).extend.isSome = graph.hasExtend t
  composes : ∀ t, graph.hasExtend t → (types t).compose.isSome

end ServiceGraph

/-! ### Back edges -/

variable {graph} {types : T → ServiceType T V} {service : S → Service T V}

/-- The only instance of a target. -/
def ServiceGraph.instanceOf (graph : ServiceGraph S T) (t : T) : S :=
  ((graph.services.filter fun s => graph.kind s = t).head?).getD graph.sink

variable {d : S} {t : T}

theorem ServiceGraph.filter_target (member : d ∈ graph.services)
    (target : t ∈ graph.targets (graph.kind d)) :
    graph.services.filter (fun s => graph.kind s = t) = [graph.instanceOf t] := by
  obtain ⟨only, isOnly⟩ := graph.oneTarget d member t target
  rw [ServiceGraph.instanceOf, isOnly]
  rfl

variable {s : S}

theorem ServiceGraph.eq_instanceOf_iff (member : d ∈ graph.services)
    (target : t ∈ graph.targets (graph.kind d)) :
    s = graph.instanceOf t ↔ s ∈ graph.services ∧ graph.kind s = t := by
  rw [← mem_singleton, ← graph.filter_target member target, mem_filter, decide_eq_true_eq]

/-- The edges of one service, in the order of its extensions. -/
def edgesOf (graph : ServiceGraph S T) (d : S) : List (S × S) :=
  (graph.targets (graph.kind d)).map fun t => (graph.instanceOf t, d)

section Fits

variable (fits : graph.Fits types service)
include fits

theorem instancesOf_eq (services : List S) (t : T) :
    instancesOf service services t = services.filter fun s => graph.kind s = t := by
  rw [instancesOf]
  simp only [fits.kind]

theorem addEdges_eq (member : d ∈ graph.services) (edges : List (S × S)) :
    addEdges types service graph.services edges d = .ok ((edgesOf graph d).reverse ++ edges) := by
  rw [addEdges, fits.kind, edgesOf, ← fits.targets, List.map_map]
  have targets : ∀ extension ∈ (types (graph.kind d)).extensions,
      extension.target ∈ graph.targets (graph.kind d) := by
    intro extension isExtension
    rw [← fits.targets]
    exact mem_map_of_mem isExtension
  generalize (types (graph.kind d)).extensions = extensions at targets ⊢
  induction extensions generalizing edges with
  | nil => rfl
  | cons extension extensions ih =>
    have only := graph.filter_target member (targets extension mem_cons_self)
    have added : addEdge service graph.services d edges extension =
        .ok ((graph.instanceOf extension.target, d) :: edges) := by
      unfold addEdge
      rw [instancesOf_eq fits, only]
    rw [foldlM_cons, added]
    have rest := ih ((graph.instanceOf extension.target, d) :: edges) (forall_mem_cons.mp targets).2
    refine rest.trans ?_
    simp

theorem foldlM_addEdges_eq {services : List S}
    (sub : services ⊆ graph.services) (edges : List (S × S)) :
    services.foldlM (addEdges types service graph.services) edges =
      .ok ((services.flatMap (edgesOf graph)).reverse ++ edges) := by
  induction services generalizing edges with
  | nil => rfl
  | cons d services ih =>
    rw [foldlM_cons, addEdges_eq fits (sub mem_cons_self)]
    refine (ih (fun s member => sub (mem_cons_of_mem _ member)) _).trans ?_
    simp

variable [DecidableEq S]

/-- The dependents of a service: a service for each of its extensions to the service. -/
def dependentsOf (graph : ServiceGraph S T) (s : S) : List S :=
  ((graph.services.flatMap (edgesOf graph)).reverse.filter fun edge => edge.1 = s).map (·.2)

omit fits in
theorem dependentsIn_eq (edges : List (S × S)) (s : S) :
    dependentsIn edges s = (edges.filter fun edge => edge.1 = s).map (·.2) := by
  rw [dependentsIn, foldl_flip_cons_eq_append, append_nil, reverse_reverse]

theorem serviceBackEdges_eq :
    serviceBackEdges types service graph.services = .ok (dependentsOf graph) := by
  have edges : graph.services.foldlM (addEdges types service graph.services) [] =
      .ok (graph.services.flatMap (edgesOf graph)).reverse := by
    rw [foldlM_addEdges_eq fits (List.Subset.refl _), append_nil]
  rw [serviceBackEdges, edges]
  refine congrArg Except.ok ?_
  funext s
  rw [dependentsIn_eq, dependentsOf]

omit fits in
theorem mem_dependentsOf (s d : S) : d ∈ dependentsOf graph s ↔ graph.Extends d s := by
  simp only [dependentsOf, mem_map, mem_filter, mem_reverse, mem_flatMap, edgesOf,
    decide_eq_true_eq]
  constructor
  · rintro ⟨_, ⟨⟨d', isService, t, isTarget, rfl⟩, same⟩, rfl⟩
    obtain ⟨inside, rfl⟩ := (graph.eq_instanceOf_iff isService isTarget).mp same.symm
    exact ⟨isService, inside, isTarget⟩
  · rintro ⟨isService, inside, isTarget⟩
    refine ⟨(graph.instanceOf (graph.kind s), d), ⟨⟨d, isService, _, isTarget, rfl⟩, ?_⟩, rfl⟩
    exact ((graph.eq_instanceOf_iff isService isTarget).mpr ⟨inside, rfl⟩).symm

/-! ### The law -/

section Law

variable (graph) (types) (service)

/-- The service as it is in the table. -/
def finalService (table : List (S × Service T V)) (s : S) : Service T V :=
  (table.lookup s).getD (service s)

/-- What the extensions of a service to a target contribute. -/
def contributionsOf (table : List (S × Service T V)) (target : T) (d : S) : List V :=
  ((types (graph.kind d)).extensions.filter fun extension => extension.target = target).map
    fun extension => extension.compute (finalService service table d).value

/-- Each extension of each service that targets the type contributes once. -/
def contributions (table : List (S × Service T V)) (target : T) : List V :=
  graph.services.flatMap (contributionsOf graph types service table target)

/-- The law of the fold. -/
structure Folded (root : Service T V) (table : List (S × Service T V)) : Prop where
  root : (graph.sink, root) ∈ table
  once : (table.map (·.1)).Nodup
  reaching : ∀ s, s ∈ table.map (·.1) ↔ graph.ReachesSink s
  kept : ∀ s folded, (s, folded) ∈ table → (types (graph.kind s)).extend = none → folded = service s
  extended : ∀ s folded, (s, folded) ∈ table → ∀ extend, (types (graph.kind s)).extend = some extend →
    ∃ compose parts, (types (graph.kind s)).compose = some compose ∧
      parts.Perm (contributions graph types service table (graph.kind s)) ∧
      folded = ⟨graph.kind s, extend (service s).value (compose parts)⟩

end Law

/-! ### What the fold computes -/

noncomputable def depth (graph : ServiceGraph S T) : S → Nat :=
  rank (fun s d => d ∈ dependentsOf graph s) graph.services.toFinset

omit fits in
theorem depth_lt (s : S) : ∀ d ∈ dependentsOf graph s, depth graph d < depth graph s := by
  have acyclic : Acyclic fun s d => d ∈ dependentsOf graph s := by
    refine Graph.Acyclic.swap (r := fun d s => d ∈ dependentsOf graph s) ?_
    intro s cycle
    exact graph.acyclic s (mono (fun d s edge => (mem_dependentsOf s d).mp edge.2) _ _ cycle)
  intro d isDependent
  have edge := (mem_dependentsOf s d).mp isDependent
  have different : s ≠ d := by
    rintro rfl
    exact graph.acyclic s (.single edge)
  exact acyclic.rank_lt ⟨different, isDependent⟩ (mem_toFinset.mpr edge.1)

/-- What a dependent contributes: its first extension to the target. -/
def appliedValue (types : T → ServiceType T V) (target : T) (dependent : Service T V) : V :=
  match findExtension types dependent.kind target with
  | some extension => extension.compute dependent.value
  | none => dependent.value

/-- A service after the fold of its dependents. -/
def foldedFrom (types : T → ServiceType T V) (service : S → Service T V) (s : S)
    (dependents : List (Service T V)) : Service T V :=
  match (types (service s).kind).extend, (types (service s).kind).compose with
  | some extend, some compose => ⟨(service s).kind, extend (service s).value
      (compose (dependents.map (appliedValue types (service s).kind)))⟩
  | _, _ => service s

omit [DecidableEq S] in
theorem findExtension_isSome {target : T}
    (isTarget : target ∈ graph.targets t) : (findExtension types t target).isSome := by
  rw [← fits.targets] at isTarget
  obtain ⟨extension, isExtension, same⟩ := mem_map.mp isTarget
  rw [findExtension, List.find?_isSome]
  exact ⟨extension, isExtension, by simpa using same⟩

variable {dependent : Service T V}

theorem applyExtension_eq (isDependent : d ∈ dependentsOf graph s)
    (kind : dependent.kind = graph.kind d) :
    applyExtension types service s dependent = .ok (appliedValue types (service s).kind dependent) := by
  have isTarget := ((mem_dependentsOf s d).mp isDependent).2.2
  have found := findExtension_isSome fits isTarget
  rw [← kind, ← fits.kind s] at found
  obtain ⟨extension, isExtension⟩ := Option.isSome_iff_exists.mp found
  unfold applyExtension appliedValue
  rw [isExtension]

theorem foldService_eq {dependents : List (Service T V)}
    (kinds : List.Forall₂ (fun d dependent => dependent.kind = graph.kind d) (dependentsOf graph s)
      dependents) :
    foldService types service s dependents = .ok (foldedFrom types service s dependents) := by
  have applied : dependents.mapM (applyExtension types service s) =
      .ok (dependents.map (appliedValue types (service s).kind)) := by
    apply Fallible.mapM_eq_map
    intro dependent member
    obtain ⟨d, isDependent, kind⟩ := List.Forall₂.exists_of_mem
      (R := fun dependent d => dependent.kind = graph.kind d) kinds.flip member
    exact applyExtension_eq fits isDependent kind
  rw [foldService, applied]
  have composes := fits.composes (service s).kind
  rw [← fits.hasExtend] at composes
  unfold foldedFrom
  -- a type with `extend` has `compose`
  cases isExtend : (types (service s).kind).extend with
  | none => rfl
  | some extend =>
    obtain ⟨compose, isCompose⟩ := Option.isSome_iff_exists.mp (composes (by rw [isExtend]; rfl))
    rw [isCompose]
    rfl

omit [DecidableEq S] in
theorem foldedFrom_kind (s : S) (dependents : List (Service T V)) :
    (foldedFrom types service s dependents).kind = graph.kind s := by
  unfold foldedFrom
  split <;> exact fits.kind s

/-- The table of the fold has all services that reach the sink, each one folded from its dependents. -/
structure FoldTable (graph : ServiceGraph S T) (types : T → ServiceType T V)
    (service : S → Service T V) (root : Service T V) (table : List (S × Service T V)) : Prop where
  root : (graph.sink, root) ∈ table
  once : (table.map (·.1)).Nodup
  reaching : ∀ s, s ∈ table.map (·.1) ↔ graph.ReachesSink s
  folded : ∀ s folded, (s, folded) ∈ table →
    folded = foldedFrom types service s ((dependentsOf graph s).map (finalService service table))

omit fits in
theorem reaches_iff (s : S) :
    Reaches (dependentsOf graph) graph.sink s ↔ graph.ReachesSink s := by
  have same : (fun parent child => child ∈ dependentsOf graph parent) =
      fun s d => graph.Extends d s := by
    funext s d
    exact propext (mem_dependentsOf s d)
  rw [Reaches, same, ServiceGraph.ReachesSink]

omit fits in
theorem runWithState_ok {ε σ α : Type} {program : EStateM ε σ α} {state state' : σ} {value : α}
    (ran : program state = .ok value state') : runWithState program state = .ok (value, state') := by
  rw [runWithState, ran]

theorem foldServices_table :
    ∃ root table, foldServices types service graph.services (graph.kind graph.sink) = .ok (root, table) ∧
      FoldTable graph types service root table := by
  have enough : depth graph graph.sink < graph.services.length + 1 := by
    have bound := rank_le_card (fun s d => d ∈ dependentsOf graph s) graph.services.toFinset graph.sink
    have cards := toFinset_card_le graph.services
    rw [depth]
    omega
  let good : S → Service T V → Prop := fun s folded => folded.kind = graph.kind s
  have visited : wp (visit (dependentsOf graph) (foldService types service) .outOfFuel
        (graph.services.length + 1) graph.sink)
      (fun root table =>
        MemoFold.Consistent (dependentsOf graph) (foldService types service) good table ∧
        (graph.sink, root) ∈ table ∧ Grows (dependentsOf graph) [graph.sink] [] table)
      (fun _ _ => False) [] :=
    wp_visit good (depth graph) depth_lt
      (fun s dependents kinds => ⟨_, foldService_eq fits kinds, foldedFrom_kind fits s dependents⟩)
      (graph.services.length + 1) graph.sink enough [] ⟨by simp, by simp, by simp⟩
  obtain ⟨root, table, ran, consistent, isRoot, grows⟩ := wp_returns visited
  refine ⟨root, table, ?_, isRoot, consistent.nodup, ?_, ?_⟩
  · unfold foldServices
    rw [serviceBackEdges_eq fits, instancesOf_eq fits, graph.oneSink]
    exact runWithState_ok ran
  · intro s
    rw [← reaches_iff]
    constructor
    · intro member
      rcases grows.2 s member with old | ⟨start, isStart, reached⟩
      · cases old
      · exact mem_singleton.mp isStart ▸ reached
    · exact consistent.mem_of_reaches (mem_keys isRoot)
  · intro s folded member
    obtain ⟨results, made, same⟩ := consistent.combined s folded member
    have kinds : List.Forall₂ (fun d (result : Service T V) => result.kind = graph.kind d)
        (dependentsOf graph s) results :=
      made.imp fun d result isEntry => consistent.good d result isEntry
    rw [foldService_eq fits kinds] at same
    have final : (dependentsOf graph s).map (finalService service table) = results := by
      apply forall₂_eq_eq_eq.le
      rw [forall₂_map_left_iff]
      refine made.imp fun d result entry => ?_
      rw [finalService, Assoc.lookup_of_mem consistent.nodup entry]
      rfl
    rw [final]
    exact (Except.ok.inj same).symm

/-! ### Extensions without repetition -/

omit fits in
theorem dependentsOf_eq (isService : s ∈ graph.services) :
    dependentsOf graph s = (graph.services.flatMap fun d =>
      ((graph.targets (graph.kind d)).filter (· = graph.kind s)).map fun _ => d).reverse := by
  rw [dependentsOf, filter_reverse, map_reverse, filter_flatMap, map_flatMap]
  refine congrArg List.reverse ?_
  apply flatMap_congr
  intro d member
  rw [edgesOf, filter_map, List.map_map]
  have sameFilter : (graph.targets (graph.kind d)).filter
        ((fun edge : S × S => decide (edge.1 = s)) ∘ fun t => (graph.instanceOf t, d)) =
      (graph.targets (graph.kind d)).filter (· = graph.kind s) := by
    apply filter_congr
    intro t isTarget
    simp [eq_comm (b := s), graph.eq_instanceOf_iff member isTarget, isService, eq_comm (a := t)]
  rw [sameFilter]
  rfl

omit [DecidableEq S] in
/-- With at most one extension to the target, the first one is all there is. -/
theorem contributions_of_count {target : T}
    (single : (graph.targets (graph.kind d)).count target ≤ 1) (kind : dependent.kind = graph.kind d) :
    (((graph.targets (graph.kind d)).filter (· = target)).map fun _ => appliedValue types target dependent) =
      ((types (graph.kind d)).extensions.filter fun extension => extension.target = target).map
        fun extension => extension.compute dependent.value := by
  rw [← fits.targets, filter_map, List.map_map]
  rw [← fits.targets, List.count, countP_map, countP_eq_length_filter] at single
  simp only [Function.comp_def, beq_eq_decide] at single ⊢
  unfold appliedValue findExtension
  rw [kind]
  generalize (types (graph.kind d)).extensions = extensions at single ⊢
  cases isFilter : extensions.filter (fun extension => decide (extension.target = target)) with
  | nil => rfl
  | cons first rest =>
    have noRest : rest = [] := by
      rw [isFilter, length_cons] at single
      exact length_eq_zero_iff.mp (by omega)
    have found : extensions.find? (fun extension => decide (extension.target = target)) = some first := by
      rw [← List.head?_filter, isFilter]
      rfl
    rw [noRest, found]
    rfl

theorem FoldTable.final_kind {root : Service T V}
    {table : List (S × Service T V)} (folded : FoldTable graph types service root table) (d : S) :
    (finalService service table d).kind = graph.kind d := by
  rw [finalService]
  cases found : table.lookup d with
  | none => exact fits.kind d
  | some final =>
    rw [Option.getD_some, folded.folded d final (Assoc.mem_of_lookup found)]
    exact foldedFrom_kind fits d _

theorem FoldTable.law (unrepeated : graph.Unrepeated)
    {root : Service T V} {table : List (S × Service T V)}
    (folded : FoldTable graph types service root table) : Folded graph types service root table where
  root := folded.root
  once := folded.once
  reaching := folded.reaching
  kept := by
    intro s final member noExtend
    rw [folded.folded s final member]
    unfold foldedFrom
    rw [fits.kind, noExtend]
  extended := by
    intro s final member extend isExtend
    have reaches := (folded.reaching s).mp (mem_keys member)
    have hasExtend : graph.hasExtend (graph.kind s) := by
      rw [← fits.hasExtend, isExtend]
      rfl
    obtain ⟨compose, isCompose⟩ := Option.isSome_iff_exists.mp (fits.composes _ hasExtend)
    have isService : s ∈ graph.services := by
      cases reaches with
      | refl =>
        have inFilter : graph.sink ∈ graph.services.filter fun s => graph.kind s = graph.kind graph.sink := by
          rw [graph.oneSink]
          exact mem_singleton_self _
        exact (mem_filter.mp inFilter).1
      | tail _ edge => exact edge.1
    refine ⟨compose, ((dependentsOf graph s).map (finalService service table)).map
      (appliedValue types (graph.kind s)), isCompose, ?_, ?_⟩
    · rw [dependentsOf_eq isService, List.map_map, map_reverse, map_flatMap, contributions]
      refine (reverse_perm _).trans (List.Perm.of_eq ?_)
      apply flatMap_congr
      intro d isDependent
      rw [List.map_map, contributionsOf]
      exact contributions_of_count fits (unrepeated d isDependent s isService reaches hasExtend)
        (folded.final_kind fits d)
    · rw [folded.folded s final member]
      unfold foldedFrom
      rw [fits.kind, isExtend, isCompose]

end Fits

variable [DecidableEq S]

/-! ### Repeated extensions -/

/-- Extensions that tell whether an earlier one has the same target. -/
def markRepeated (seen : List T) : List T → List (ServiceExtension T Nat)
  | [] => []
  | t :: targets => ⟨t, fun _ => if t ∈ seen then 1 else 0⟩ :: markRepeated (t :: seen) targets

theorem markRepeated_targets (seen targets : List T) :
    (markRepeated seen targets).map target = targets := by
  induction targets generalizing seen with
  | nil => rfl
  | cons t targets ih => rw [markRepeated, map_cons, ih]

theorem markRepeated_find (seen targets : List T) (target : T) (new : target ∉ seen)
    {extension : ServiceExtension T Nat}
    (found : (markRepeated seen targets).find? (fun extension => extension.target = target) = some extension)
    (v : Nat) : extension.compute v = 0 := by
  induction targets generalizing seen with
  | nil => simp [markRepeated] at found
  | cons t targets ih =>
    rw [markRepeated, List.find?_cons] at found
    by_cases same : t = target
    · simp only [same, decide_true, Option.some.injEq] at found
      rw [← found]
      exact if_neg new
    · simp only [same, decide_false] at found
      exact ih (t :: seen) (by simp [new, Ne.symm same]) found

theorem markRepeated_again (seen targets : List T) (target : T)
    (again : 1 < targets.count target ∨ target ∈ seen ∧ target ∈ targets) :
    ∃ extension ∈ markRepeated seen targets, extension.target = target ∧ ∀ v, extension.compute v = 1 := by
  induction targets generalizing seen with
  | nil => simp at again
  | cons t targets ih =>
    by_cases here : t = target ∧ target ∈ seen
    · obtain ⟨rfl, isSeen⟩ := here
      exact ⟨_, mem_cons_self, rfl, fun _ => if_pos isSeen⟩
    · have later : 1 < targets.count target ∨ target ∈ t :: seen ∧ target ∈ targets := by
        by_cases same : t = target
        · subst same
          have twice := again.resolve_right fun both => here ⟨rfl, both.1⟩
          rw [count_cons_self] at twice
          exact .inr ⟨mem_cons_self, count_pos_iff.mp (by omega)⟩
        · simpa [count_cons_of_ne same, Ne.symm same] using again
      obtain ⟨extension, member, isMarked⟩ := ih (t :: seen) later
      exact ⟨extension, mem_cons_of_mem _ member, isMarked⟩

/-- Service types that tell whether a repeated extension has contributed. -/
def probeTypes (graph : ServiceGraph S T) (t : T) : ServiceType T Nat where
  extensions := markRepeated [] (graph.targets t)
  compose := some fun parts => if 1 ∈ parts then 1 else 0
  extend := if graph.hasExtend t then some fun _ composed => composed else none

def probeService (graph : ServiceGraph S T) (s : S) : Service T Nat := ⟨graph.kind s, 0⟩

omit [DecidableEq S] in
theorem probe_fits (graph : ServiceGraph S T) : graph.Fits (probeTypes graph) (probeService graph) where
  kind _ := rfl
  targets t := markRepeated_targets [] (graph.targets t)
  hasExtend t := by
    rw [probeTypes]
    cases graph.hasExtend t <;> rfl
  composes _ _ := rfl

variable {root : Service T Nat} {table : List (S × Service T Nat)}

/-- No service of the probe sees a repeated extension. -/
theorem probe_value (folded : FoldTable graph (probeTypes graph) (probeService graph) root table)
    {final : Service T Nat} (member : (s, final) ∈ table) : final.value = 0 := by
  have noMark : 1 ∉ ((dependentsOf graph s).map (finalService (probeService graph) table)).map
      (appliedValue (probeTypes graph) (graph.kind s)) := by
    intro marked
    rw [List.map_map] at marked
    obtain ⟨d, isDependent, isOne⟩ := mem_map.mp marked
    have isTarget := ((mem_dependentsOf s d).mp isDependent).2.2
    have found := findExtension_isSome (probe_fits graph) isTarget
    rw [← folded.final_kind (probe_fits graph) d] at found
    obtain ⟨extension, isExtension⟩ := Option.isSome_iff_exists.mp found
    rw [Function.comp_apply, appliedValue, isExtension] at isOne
    simp only [markRepeated_find [] _ _ not_mem_nil isExtension] at isOne
    exact absurd isOne (by decide)
  rw [folded.folded s final member]
  unfold foldedFrom
  split
  next extend compose isExtend isCompose =>
    cases isCompose
    simp only [probeTypes] at isExtend
    split at isExtend
    next =>
      cases isExtend
      exact if_neg noMark
    next => cases isExtend
  next => rfl

theorem probe_unlawful (repeated : ¬ graph.Unrepeated)
    (folded : FoldTable graph (probeTypes graph) (probeService graph) root table) :
    ¬ Folded graph (probeTypes graph) (probeService graph) root table := by
  intro law
  simp only [ServiceGraph.Unrepeated, not_forall, Nat.not_le] at repeated
  obtain ⟨d, isDependent, target, _, reaches, hasExtend, twice⟩ := repeated
  obtain ⟨⟨s, final⟩, member, rfl⟩ := mem_map.mp ((folded.reaching target).mpr reaches)
  have isExtend : (probeTypes graph (graph.kind s)).extend = some fun _ composed => composed :=
    if_pos hasExtend
  obtain ⟨compose, parts, isCompose, permuted, same⟩ := law.extended s final member _ isExtend
  obtain ⟨extension, isExtension, isTarget, isOne⟩ := markRepeated_again [] _ _ (.inl twice)
  -- the repeated extension contributes, but the final value does not show it
  have contributes : 1 ∈ parts := by
    rw [permuted.mem_iff, contributions]
    refine mem_flatMap.mpr ⟨d, isDependent, mem_map.mpr ⟨extension, ?_, isOne _⟩⟩
    exact mem_filter.mpr ⟨isExtension, by simpa using isTarget⟩
  have shown : final.value = 1 := by
    cases isCompose
    rw [same]
    exact if_pos contributes
  rw [probe_value folded member] at shown
  cases shown

end Graph

/-- For every graph of services, the law of the fold holds whatever the values and procedures
are exactly when no service extends a type twice. -/
theorem foldServices_lawful_iff {S T : Type} [DecidableEq S] [DecidableEq T] (graph : ServiceGraph S T) :
    (∀ (V : Type) (types : T → ServiceType T V) (service : S → Service T V), graph.Fits types service →
      ∃ root table, foldServices types service graph.services (graph.kind graph.sink) = .ok (root, table) ∧
        Folded graph types service root table) ↔ graph.Unrepeated := by
  constructor
  · intro lawful
    by_contra repeated
    obtain ⟨root, table, ran, law⟩ := lawful Nat (probeTypes graph) (probeService graph) (probe_fits graph)
    obtain ⟨root', table', ran', folded⟩ := foldServices_table (probe_fits graph)
    rw [ran] at ran'
    cases ran'
    exact probe_unlawful repeated folded law
  · intro unrepeated V types service fits
    obtain ⟨root, table, ran, folded⟩ := foldServices_table fits
    exact ⟨root, table, ran, folded.law fits unrepeated⟩

/-! ### Two extensions with one target -/

/-- A service `true` whose type extends that of the sink `false` twice. -/
def twiceGraph : ServiceGraph Bool Bool where
  services := [false, true]
  kind := id
  targets t := if t then [false, false] else []
  hasExtend t := !t
  sink := false
  oneSink := by decide
  oneTarget := by
    intro s _ t isTarget
    exact ⟨false, by cases s <;> simp_all⟩
  acyclic := by
    intro s cycle
    -- only `true` extends, and nothing extends `true`
    obtain ⟨next, edge, _⟩ := head'_iff.mp cycle
    obtain ⟨last, _, edge'⟩ := tail'_iff.mp cycle
    cases s with
    | false => exact absurd edge.2.2 (by simp)
    | true => exact absurd edge'.2.2 (by cases last <;> simp)

def twiceTypes (t : Bool) : ServiceType Bool (List Nat) where
  extensions := if t then [⟨false, fun _ => [1]⟩, ⟨false, fun _ => [2]⟩] else []
  compose := some List.flatten
  extend := if t then none else some List.append

def twiceService (s : Bool) : Service Bool (List Nat) := ⟨s, []⟩

/-- The sink gets the first extension twice and never the second. -/
theorem foldServices_twice :
    twiceGraph.Fits twiceTypes twiceService ∧
      foldServices twiceTypes twiceService twiceGraph.services false =
        .ok (⟨false, [1, 1]⟩, [(false, ⟨false, [1, 1]⟩), (true, ⟨true, []⟩)]) ∧
      ¬ Folded twiceGraph twiceTypes twiceService ⟨false, [1, 1]⟩
        [(false, ⟨false, [1, 1]⟩), (true, ⟨true, []⟩)] := by
  refine ⟨⟨fun _ => rfl, by decide, by decide, fun _ _ => rfl⟩, by decide, fun law => ?_⟩
  obtain ⟨compose, parts, isCompose, permuted, same⟩ :=
    law.extended false ⟨false, [1, 1]⟩ mem_cons_self List.append rfl
  cases isCompose
  have second : [2] ∈ parts := permuted.mem_iff.mpr (by decide)
  have shown : 2 ∈ parts.flatten := mem_flatten.mpr ⟨[2], second, mem_singleton_self 2⟩
  have values : [1, 1] = parts.flatten := congrArg Service.value same
  rw [← values] at shown
  exact absurd shown (by decide)

end Guix.System
