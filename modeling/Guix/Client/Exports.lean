import Guix.Lib.Assoc
import Guix.Lib.Fallible
import Guix.Lib.Graph
import Guix.Lib.Worklist

/-!
# Closures of store items, and exporting them

`requisites` and `topologically-sorted` of `(guix store)` both compute the closure of a list of
items: the first breadth first, the second in the order in which a depth-first traversal is done
with the items. `export-paths` sends them in that order to a daemon that imports them one by
one.

The traversal marks an item before it looks at its references. So a reference that is marked but
not done leads to the item at hand: without cycles it can only be the item itself.
-/

namespace Guix.Client

open List Relation Graph Worklist

inductive StoreError (Item : Type)
  | notValid (path : Item)
  /-- The input was not created by an export. -/
  | notAnExport
  | unfinished

/-- The valid items of a store with their references, which are valid too. -/
structure ClosedStore (Item : Type) where
  rows : List (Item × List Item)
  closed : ∀ row ∈ rows, ∀ b ∈ row.2, b ∈ rows.map (·.1)

section Model

variable {Item : Type} [DecidableEq Item]

/-- The operation `query-references`. -/
def references (store : ClosedStore Item) (path : Item) : Except (StoreError Item) (List Item) :=
  match store.rows.lookup path with
  | some references => .ok references
  | none => .error (.notValid path)

def foldPath {Result : Type} (proc : Item → Result → Result)
    (relatives : Item → Except (StoreError Item) (List Item)) :
    Nat → List Item → Result → List Item → Except (StoreError Item) Result
  | 0, _, _, _ => .error .unfinished
  | _ + 1, [], result, _ => .ok result
  | fuel + 1, path :: rest, result, seen =>
    if path ∈ seen then foldPath proc relatives fuel rest result seen
    else do
      let related ← relatives path
      foldPath proc relatives fuel (rest ++ related) (proc path result) (path :: seen)

variable (store : ClosedStore Item)

def requisites (fuel : Nat) (paths : List Item) : Except (StoreError Item) (List Item) :=
  foldPath .cons (references store) fuel paths [] []

/-- The items visited and those that are done, latest first. -/
def traverse : Nat → List Item → List Item → List Item →
    Except (StoreError Item) (List Item × List Item)
  | 0, _, _, _ => .error .unfinished
  | _ + 1, [], visited, result => .ok (visited, result)
  | fuel + 1, head :: tail, visited, result =>
    if head ∈ visited then traverse fuel tail visited result
    else do
      let refs ← references store head
      let (visited, result) ← traverse fuel refs (head :: visited) result
      traverse fuel tail visited (head :: result)

def topologicallySorted (fuel : Nat) (paths : List Item) : Except (StoreError Item) (List Item) := do
  let (_, result) ← traverse store fuel paths [] []
  return result.reverse

/-- What is written to the port. -/
inductive Wire (Item : Type)
  | int (n : Nat)
  | archive (path : Item) (references : List Item) (sign : Bool)

/-- What the daemon writes for an item, and its answer. -/
def exportPath (path : Item) (sign : Bool) : Except (StoreError Item) (List (Wire Item) × Nat) := do
  return ([.archive path (← references store path) sign], 1)

def exportLoop (sign : Bool) : List Item → Except (StoreError Item) (List (Wire Item))
  | [] => .ok [.int 0]
  | head :: tail => do
    let (sent, answer) ← exportPath store head sign
    if answer = 1 then return .int 1 :: sent ++ (← exportLoop sign tail)
    else return .int 1 :: sent

def exportPaths (fuel : Nat) (paths : List Item) (sign recursive : Bool) :
    Except (StoreError Item) (List (Wire Item)) := do
  let sorted ← topologicallySorted store fuel paths
  exportLoop store sign (if recursive then sorted else sorted.filter (· ∈ paths))

/-- `importPath` of the daemon, without the signature; `registerValidPath` looks the references
up after the item itself has been added. -/
def importPath (valid : List Item) (path : Item) (references : List Item) :
    Except (StoreError Item) (List Item) :=
  if path ∈ valid then .ok valid
  else
    match references.find? (· ∉ path :: valid) with
    | some missing => .error (.notValid missing)
    | none => .ok (path :: valid)

/-- `importPaths` of the daemon: the valid items afterwards. -/
def importPaths : List (Wire Item) → List Item → Except (StoreError Item) (List Item)
  | .int 0 :: _, valid => .ok valid
  | .int 1 :: .archive path references _ :: rest, valid => do
    importPaths rest (← importPath valid path references)
  | _, _ => .error .notAnExport

end Model

section Proof

variable {Item : Type} [DecidableEq Item] {store : ClosedStore Item}

namespace ClosedStore

variable (store)

/-- The references of an item; those of an item that is not valid do not matter. -/
def referencesOf (path : Item) : List Item := (store.rows.lookup path).getD []

def Refers (a b : Item) : Prop := b ∈ store.referencesOf a

/-- The item is one of `paths` or refers to it, directly or not. -/
def InClosure (paths : List Item) (a : Item) : Prop := ∃ path ∈ paths, Reach store.referencesOf path a

def valid : List Item := store.rows.map (·.1)

variable {store}

theorem references_eq {a : Item} (isValid : a ∈ store.valid) :
    references store a = .ok (store.referencesOf a) := by
  rw [references, referencesOf]
  cases found : store.rows.lookup a with
  | none => exact absurd isValid (Assoc.lookup_eq_none_iff.mp found)
  | some refs => rfl

theorem referencesOf_subset (a : Item) : store.referencesOf a ⊆ store.valid := by
  intro b isRef
  rw [referencesOf] at isRef
  cases found : store.rows.lookup a with
  | none =>
    rw [found] at isRef
    cases isRef
  | some refs =>
    rw [found] at isRef
    exact store.closed _ (Assoc.mem_of_lookup found) b isRef

end ClosedStore

open ClosedStore

/-! ### Breadth first -/

theorem foldPath_spec {Result : Type} (proc : Item → Result → Result) (fuel : Nat) (paths : List Item)
    (result : Result) (seen : List Item) (isValid : paths ⊆ store.valid)
    (enough : paths.length + edgesLeft store.referencesOf store.valid seen < fuel)
    (closed : Closed store.referencesOf seen paths) :
    ∃ new, foldPath proc (references store) fuel paths result seen = .ok (new.foldr proc result) ∧
      Explored store.referencesOf paths seen new := by
  induction fuel generalizing paths result seen with
  | zero => omega
  | succ fuel ih =>
    cases paths with
    | nil => exact ⟨[], rfl, .nil closed⟩
    | cons path rest =>
      obtain ⟨pathValid, restValid⟩ := cons_subset.mp isValid
      rw [foldPath]
      rw [length_cons] at enough
      split
      next isSeen =>
        obtain ⟨new, ran, explored⟩ := ih rest result seen restValid (by omega) (closed.skip isSeen)
        exact ⟨new, ran, explored.skip isSeen⟩
      next unseen =>
        have fewer := edgesLeft_visit store.referencesOf pathValid unseen
        have swap (b : Item) : b ∈ rest ++ store.referencesOf path ↔ b ∈ store.referencesOf path ++ rest :=
          perm_append_comm.mem_iff
        obtain ⟨new, ran, explored⟩ :=
          ih (rest ++ store.referencesOf path) (proc path result) (path :: seen)
            (append_subset.mpr ⟨restValid, referencesOf_subset path⟩) (by rw [length_append]; omega)
            fun a isSeen b edge => (closed.visit a isSeen b edge).imp_right (swap b).mpr
        refine ⟨new ++ [path], ?_, explored.visit unseen swap⟩
        rw [references_eq pathValid, foldr_append]
        exact ran

/-! ### Depth first -/

/-- The items that are visited but not done lead to the paths at hand. -/
def Leading (store : ClosedStore Item) (paths visited result : List Item) : Prop :=
  ∀ a ∈ visited, a ∉ result → ∀ path ∈ paths, Reach store.referencesOf a path

theorem traverse_spec (acyclic : Acyclic store.Refers) (fuel : Nat) (paths visited result : List Item)
    (isValid : paths ⊆ store.valid)
    (enough : paths.length + edgesLeft store.referencesOf store.valid visited < fuel)
    (leading : Leading store paths visited result) (sorted : Sorted store.Refers result) :
    ∃ visited' new, traverse store fuel paths visited result = .ok (visited', new ++ result) ∧
      (∀ a, a ∈ visited' ↔ a ∈ new ++ visited) ∧ Visits store.referencesOf paths visited new ∧
      (∀ a ∈ paths, a ∈ new ++ result ∨ a ∈ visited ∧ a ∉ result) ∧ Sorted store.Refers (new ++ result) := by
  induction fuel generalizing paths visited result with
  | zero => omega
  | succ fuel ih =>
    cases paths with
    | nil => exact ⟨visited, [], rfl, fun _ => Iff.rfl, ⟨nodup_nil, by simp, by simp⟩, by simp, sorted⟩
    | cons head tail =>
      obtain ⟨headValid, tailValid⟩ := cons_subset.mp isValid
      rw [traverse]
      rw [length_cons] at enough
      split
      next isVisited =>
        obtain ⟨visited', new, ran, isVisited', visits, covered, sorted'⟩ := ih tail visited result tailValid
          (by omega) (fun a isIn notDone path inTail => leading a isIn notDone path (mem_cons_of_mem _ inTail)) sorted
        refine ⟨visited', new, ran, isVisited', visits.skip, forall_mem_cons.mpr ⟨?_, covered⟩, sorted'⟩
        by_cases done : head ∈ result
        · exact .inl (mem_append_right _ done)
        · exact .inr ⟨isVisited, done⟩
      next unvisited =>
        have fewer := edgesLeft_visit store.referencesOf headValid unvisited
        have leadingRefs : Leading store (store.referencesOf head) (head :: visited) result := by
          intro a isIn notDone path edge
          rcases mem_cons.mp isIn with rfl | earlier
          · exact .single edge
          · exact (leading a earlier notDone head mem_cons_self).tail edge
        obtain ⟨visited', new, ran, isVisited', visits, covered, sorted'⟩ :=
          ih (store.referencesOf head) (head :: visited) result (referencesOf_subset head) (by omega) leadingRefs sorted
        have sortedHead : Sorted store.Refers (head :: (new ++ result)) := by
          refine ⟨fun b edge => (covered b edge.2).resolve_right ?_, sorted'⟩
          rintro ⟨isIn, notDone⟩
          rcases mem_cons.mp isIn with rfl | earlier
          · exact edge.1 rfl
          · exact acyclic.no_return edge (leading b earlier notDone head mem_cons_self)
        have grown (a : Item) : a ∈ visited' ↔ a ∈ head :: new ++ visited := by
          rw [isVisited']
          simp [or_left_comm]
        -- what is visited but not done is as before
        have pending (a : Item) (isIn : a ∈ visited') (notDone : a ∉ head :: (new ++ result)) :
            a ∈ visited ∧ a ∉ result := by
          have := (grown a).mp isIn
          simp only [mem_cons, mem_append, not_or] at this notDone
          tauto
        have fuelLeft := edgesLeft_mono store.referencesOf store.valid fun a isIn => (grown a).mpr (mem_append_right _ isIn)
        obtain ⟨visited'', new', ran', isVisited'', visits', covered', sorted''⟩ :=
          ih tail visited' (head :: (new ++ result)) tailValid (by omega)
            (fun a isIn notDone path inTail =>
              have := pending a isIn notDone
              leading a this.1 this.2 path (mem_cons_of_mem _ inTail)) sortedHead
        refine ⟨visited'', new' ++ head :: new, ?_, fun a => ?_, ?_, ?_, ?_⟩
        · rw [references_eq headValid]
          simp only [bind, Except.bind, ran, ran']
          simp
        · rw [isVisited'', append_assoc, mem_append, mem_append, grown]
        · have first : Visits store.referencesOf (head :: tail) visited (new ++ [head]) :=
            visits.visit unvisited fun b => mem_append_left _
          exact (first.perm (perm_append_singleton head new)).append visits'.skip fun a => (grown a).mpr
        · refine forall_mem_cons.mpr ⟨.inl (by simp), fun a inTail => ?_⟩
          rcases covered' a inTail with isDone | ⟨isIn, notDone⟩
          · exact .inl (by simpa using isDone)
          · exact .inr (pending a isIn notDone)
        · simpa using sorted''

/-! ### Sending in order -/

theorem importPath_ok {valid refs : List Item} {path : Item} (present : ∀ b ∈ refs, b = path ∨ b ∈ valid) :
    ∃ valid', importPath valid path refs = .ok valid' ∧ ∀ a, a ∈ valid' ↔ a = path ∨ a ∈ valid := by
  have none : refs.find? (· ∉ path :: valid) = none := by
    simpa [or_iff_not_imp_left] using present
  rw [importPath, none]
  split
  next isValid => exact ⟨valid, rfl, fun a => ⟨.inr, fun isIn => isIn.elim (· ▸ isValid) id⟩⟩
  next => exact ⟨path :: valid, rfl, fun a => mem_cons⟩

/-- Each item is sent after those of its references that are sent as well. -/
theorem exportLoop_imports (sign : Bool) (kept : Item → Bool) (items done valid : List Item)
    (sorted : Sorted store.Refers (items.reverse ++ done)) (isValid : items ⊆ store.valid)
    (sent : ∀ b ∈ done, kept b → b ∈ valid)
    (others : ∀ a ∈ items, kept a → ∀ b, store.Refers a b → kept b ∨ b ∈ valid) :
    ∃ wire valid', exportLoop store sign (items.filter kept) = .ok wire ∧
      importPaths wire valid = .ok valid' ∧ ∀ a, a ∈ valid' ↔ a ∈ valid ∨ a ∈ items.filter kept := by
  induction items generalizing done valid with
  | nil => exact ⟨_, _, rfl, rfl, by simp⟩
  | cons head tail ih =>
    obtain ⟨headValid, tailValid⟩ := cons_subset.mp isValid
    obtain ⟨headOthers, tailOthers⟩ := forall_mem_cons.mp others
    rw [reverse_cons, append_assoc] at sorted
    cases isKept : kept head with
    | false =>
      rw [filter_cons_of_neg (by simp [isKept])]
      exact ih (head :: done) valid sorted tailValid (forall_mem_cons.mpr ⟨by simp [isKept], sent⟩) tailOthers
    | true =>
      have present : ∀ b ∈ store.referencesOf head, b = head ∨ b ∈ valid := by
        intro b edge
        by_cases self : b = head
        · exact .inl self
        · have before := sorted.of_append.1 b ⟨Ne.symm self, edge⟩
          exact .inr ((headOthers isKept b edge).elim (sent b before) id)
      obtain ⟨valid', imported, isValid'⟩ := importPath_ok present
      have kept' {b : Item} (isIn : b ∈ valid) : b ∈ valid' := (isValid' b).mpr (.inr isIn)
      obtain ⟨wire, valid'', exported, imported', isValid''⟩ := ih (head :: done) valid' sorted tailValid
        (forall_mem_cons.mpr ⟨fun _ => (isValid' head).mpr (.inl rfl), fun b isDone isKept =>
          kept' (sent b isDone isKept)⟩)
        fun a isIn isKept b edge => (tailOthers a isIn isKept b edge).imp_right kept'
      refine ⟨.int 1 :: .archive head (store.referencesOf head) sign :: wire, valid'', ?_, ?_, fun a => ?_⟩
      · rw [filter_cons_of_pos isKept, exportLoop, exportPath, references_eq headValid, exported]
        rfl
      · rw [importPaths, imported]
        exact imported'
      · rw [isValid'', isValid', filter_cons_of_pos isKept, mem_cons]
        tauto

end Proof

/-- Both procedures return the closure of the paths, each item once, and the second one with
every item after its references. What is exported in that order is imported by any store, if
it has the references that are not exported. -/
theorem requisites_topologicallySorted {Item : Type} [DecidableEq Item] (store : ClosedStore Item)
    (paths : List Item) (isValid : paths ⊆ store.valid) :
    ∃ enough, ∀ fuel ≥ enough,
      (∃ items, requisites store fuel paths = .ok items ∧ items.Nodup ∧
        ∀ a, a ∈ items ↔ store.InClosure paths a) ∧
      (Acyclic store.Refers →
        ∃ items, topologicallySorted store fuel paths = .ok items ∧ items.Nodup ∧
          (∀ a, a ∈ items ↔ store.InClosure paths a) ∧ Sorted store.Refers items.reverse ∧
          ∀ (sign recursive : Bool) (valid : List Item),
            (recursive = false → ∀ a ∈ paths, ∀ b, store.Refers a b → b ∈ paths ∨ b ∈ valid) →
            ∃ wire valid', exportPaths store fuel paths sign recursive = .ok wire ∧
              importPaths wire valid = .ok valid' ∧
              ∀ a, a ∈ valid' ↔ a ∈ valid ∨
                if recursive then store.InClosure paths a else a ∈ paths) := by
  refine ⟨paths.length + edgesLeft store.referencesOf store.valid [] + 1, fun fuel enough => ⟨?_, ?_⟩⟩
  · obtain ⟨new, ran, explored⟩ := foldPath_spec .cons fuel paths [] [] isValid enough (closed_nil _ paths)
    refine ⟨new, ?_, explored.distinct, fun a => ?_⟩
    · rw [requisites, ran, foldr_cons_nil]
    · rw [explored.mem_iff]
      simp [ClosedStore.InClosure]
  · intro acyclic
    obtain ⟨visited', new, ran, _, visits, covered, sorted⟩ :=
      traverse_spec acyclic fuel paths [] [] isValid enough (by simp [Leading]) trivial
    simp only [append_nil, not_mem_nil, false_and, or_false] at ran covered sorted
    have inNew (a : Item) : a ∈ new.reverse ↔ store.InClosure paths a := by
      rw [mem_reverse]
      refine ⟨visits.reached a, ?_⟩
      rintro ⟨path, isPath, reach⟩
      rcases reflTransGen_iff_eq_or_transGen.mp (reflTransGen_proper reach) with rfl | more
      · exact covered _ isPath
      · exact sorted.transGen_mem (covered path isPath) more
    have sortedOk : topologicallySorted store fuel paths = .ok new.reverse := by
      rw [topologicallySorted, ran]
      rfl
    have newValid : new.reverse ⊆ store.valid := by
      intro a isNew
      obtain ⟨path, isPath, reach⟩ := (inNew a).mp isNew
      rcases reach.cases_tail with rfl | ⟨_, _, edge⟩
      · exact isValid isPath
      · exact ClosedStore.referencesOf_subset _ edge
    refine ⟨new.reverse, sortedOk, nodup_reverse.mpr visits.distinct, inNew, by rwa [reverse_reverse],
      fun sign recursive valid others => ?_⟩
    have sorted' : Sorted store.Refers (new.reverse.reverse ++ []) := by simpa using sorted
    obtain ⟨wire, valid', exported, imported, isValid'⟩ := exportLoop_imports sign
      (fun a => recursive || a ∈ paths) new.reverse [] valid sorted' newValid (by simp) fun a _ isKept b edge => by
        cases recursive with
        | true => exact .inl rfl
        | false => simpa using others rfl a (by simpa using isKept) b edge
    refine ⟨wire, valid', ?_, imported, fun a => ?_⟩
    · rw [exportPaths, sortedOk, ← exported]
      cases recursive <;> simp [bind, Except.bind]
    · rw [isValid', mem_filter, inNew]
      cases recursive with
      | true => simp
      | false =>
        simp only [Bool.false_or, decide_eq_true_eq, Bool.false_eq_true, if_false]
        tauto

/-- Three items, the first of which refers to the others and to itself. -/
def threeItems : ClosedStore Nat := ⟨[(0, [0, 1, 2]), (1, [2]), (2, [])], by decide⟩

theorem threeItems_acyclic : Acyclic threeItems.Refers := by
  have later : ∀ a b, Proper threeItems.Refers a b → a < b := by
    rintro a b ⟨other, edge⟩
    match a with
    | 0 => omega
    | 1 => rw [mem_singleton.mp (show b ∈ [2] from edge)]; decide
    | 2 => cases edge
    | _ + 3 => cases edge
  exact fun a cycle => Nat.lt_irrefl a (transGen_minimal later a a cycle)

theorem requisites_topologicallySorted_three : ∃ enough, ∀ fuel ≥ enough,
    (∃ items, requisites threeItems fuel [0] = .ok items ∧ items.Nodup ∧
      ∀ a, a ∈ items ↔ threeItems.InClosure [0] a) ∧
    ∃ items wire valid, topologicallySorted threeItems fuel [0] = .ok items ∧
      Sorted threeItems.Refers items.reverse ∧ exportPaths threeItems fuel [0] true true = .ok wire ∧
      importPaths wire [] = .ok valid ∧ ∀ a, a ∈ valid ↔ threeItems.InClosure [0] a := by
  obtain ⟨enough, both⟩ := requisites_topologicallySorted threeItems [0] (by decide)
  refine ⟨enough, fun fuel isEnough => ⟨(both fuel isEnough).1, ?_⟩⟩
  obtain ⟨items, ran, _, _, sorted, exports⟩ := (both fuel isEnough).2 threeItems_acyclic
  obtain ⟨wire, valid, exported, imported, isValid⟩ := exports true true [] (by simp)
  exact ⟨items, wire, valid, ran, sorted, exported, imported, by simpa using isValid⟩

end Guix.Client
