import Guix.Client.Derivations
import Guix.Lib.Assoc

/-!
# Rewriting package graphs

`package-mapping`, `package-input-rewriting` and `package-input-rewriting/spec` of
`(guix packages)`. The procedures make new package objects, whose inputs and replacement are
computed whenever they are read: `Mapping.record` gives the fields of an object from how it was
made. Objects made in the same way are still not the same for `eq?`, unless `replace` finds its
result in the table of `mlambdaq`: see `Memo.replaceq`.
-/

namespace Guix.Client

/-- The packages `P` of the graph, and those the procedures make. -/
inductive Object (P : Type)
  | source (package : P)
  /-- `package/inherit` with a new name. -/
  | renamed (package : Object P)
  /-- `package/inherit` with the property that tags replacements. -/
  | tagged (package : Object P)
  /-- What `replace` makes where it goes on to the inputs. -/
  | mapped (package : Object P)
  /-- What `replace` makes of a package where it stops, for its propagated inputs. -/
  | propagating (package : Object P)
  deriving DecidableEq

inductive PackageInput (O : Type)
  | package (label : Str) (package : O) (outputs : List Str)
  | other (label : Str)
  deriving DecidableEq

/-- `(define (rewrite input) …)` of `package-mapping`. -/
def PackageInput.rewrite (replace : O → O') : PackageInput O → PackageInput O'
  | package label o outputs => package label (replace o) outputs
  | other label => other label

/-- A `<package>`. `rest` holds the fields that nothing here reads. Only the file of a location
is kept. -/
structure Package (P B R : Type) where
  name : Str
  version : Str
  buildSystem : B
  inputs : List (PackageInput (Object P))
  nativeInputs : List (PackageInput (Object P))
  propagatedInputs : List (PackageInput (Object P))
  replacement : Option (Object P)
  /-- The property `hidden?`. -/
  hidden : Bool
  location : Str
  /-- The code of the place of the `define-public` form around it, if there is one. -/
  definitionLocation : Option Nat
  rest : R
  deriving DecidableEq

def Package.explicitInputs (p : Package P B R) : List (PackageInput (Object P)) :=
  p.inputs ++ p.nativeInputs ++ p.propagatedInputs

/-- The location of a package form of this module: the field is innate. -/
def here : Str := str "guix/packages.scm"

/-- The properties `mapping-property` and `replacement-property`. -/
inductive Mark
  | mapping
  | replacement
  deriving DecidableEq

namespace Object

/-- The marks among the properties. They are made by `gensym`, so no package of the graph has
one. -/
def marks : Object P → List Mark
  | source _ => []
  | renamed o => o.marks
  | tagged o => .replacement :: o.marks
  | mapped o | propagating o => .mapping :: o.marks

/-- The package that all the fields come from that no procedure changes. -/
def origin : Object P → P
  | source p => p
  | renamed o | tagged o | mapped o | propagating o => o.origin

/-- `assq-ref`: no object that was made later is a key. -/
def assqRef [BEq P] : Object P → List (P × P) → Option P
  | source p, replacements => replacements.lookup p
  | _, _ => none

end Object

/-- The arguments of `package-mapping`, over a graph of packages. -/
structure Mapping (P B R : Type) where
  packages : P → Package P B R
  proc : Object P → Object P
  cut : Object P → Bool
  deep : Bool
  buildSystemWithPackageMapping : B → B
  /-- The argument of `package-input-rewriting`. -/
  rewriteName : Str → Str

namespace Mapping

variable (m : Mapping P B R)

/-- `(define replace …)`: the procedure that `package-mapping` returns. -/
def replace (o : Object P) : Object P :=
  if .mapping ∈ o.marks then o
  else if m.cut o then
    let o := m.proc o
    -- the number of propagated inputs is that of the origin: see `record_propagatedInputs`
    if !m.deep || (m.packages o.origin).propagatedInputs.isEmpty then o else .propagating o
  else .mapped (m.proc o)

def record : Object P → Package P B R
  | .source p => m.packages p
  | .renamed o =>
    { record o with
      name := m.rewriteName (record o).name
      location := here
      definitionLocation := none
      replacement := (record o).replacement.map .renamed }
  | .tagged o =>
    { record o with
      location := here
      definitionLocation := none
      replacement := (record o).replacement.map .tagged }
  | .mapped o =>
    { record o with
      buildSystem := if m.deep then m.buildSystemWithPackageMapping (record o).buildSystem
        else (record o).buildSystem
      inputs := (record o).inputs.map (.rewrite m.replace)
      nativeInputs := (record o).nativeInputs.map (.rewrite m.replace)
      propagatedInputs := (record o).propagatedInputs.map (.rewrite m.replace)
      definitionLocation := none
      replacement := (record o).replacement.map m.replace }
  | .propagating o =>
    { record o with
      propagatedInputs := (record o).propagatedInputs.map (.rewrite m.replace)
      definitionLocation := none }

theorem record_propagatedInputs (o : Object P) :
    (m.record o).propagatedInputs.isEmpty = (m.packages o.origin).propagatedInputs.isEmpty := by
  induction o with
  | source => rfl
  | renamed o ih | tagged o ih => exact ih
  | mapped o ih | propagating o ih => simpa [record, Object.origin] using ih

end Mapping

/-! ### Memoization -/

/-- A package object in memory: how it was made, and its number among those made in that way. The
packages of the graph have the number 0. -/
structure Instance (P : Type) where
  made : Object P
  number : Nat
  deriving DecidableEq

/-- A package of the graph. -/
def Instance.given (o : Object P) : Instance P := ⟨o, 0⟩

/-- The object that the body of `replace` returns: its argument, a package of the graph or a new
object. -/
def Mapping.result [DecidableEq P] (m : Mapping P B R) (o : Instance P) (next : Nat) : Instance P :=
  if m.replace o.made = o.made then o
  else match m.replace o.made with
    | .source p => .given (.source p)
    | made => ⟨made, next⟩

section Result

variable [DecidableEq P] {m : Mapping P B R} {o : Instance P}

theorem result_given {p q : P} {next : Nat} (image : m.replace (.source p) = .source q) :
    m.result (.given (.source p)) next = .given (.source q) := by
  rw [Mapping.result]
  split
  next same => exact congrArg Instance.given (same.symm.trans image)
  next => simp [Instance.given, image]

theorem result_new {made : Object P} {next : Nat} (image : m.replace o.made = .mapped made)
    (new : .mapped made ≠ o.made) : m.result o next = ⟨.mapped made, next⟩ := by
  rw [Mapping.result, image, if_neg new]

end Result

/-- The table of `mlambdaq`, whose keys are compared with `eq?`, and a number no object has yet. -/
structure Memo [DecidableEq P] (m : Mapping P B R) where
  table : List (Instance P × Instance P) := []
  next : Nat := 1
  sound : ∀ o result, (o, result) ∈ table → ∃ next, result = m.result o next := by simp

namespace Memo

variable [DecidableEq P] {m : Mapping P B R} (memo : Memo m)

/-- A call of `replace`. -/
def replaceq (o : Instance P) : Instance P × Memo m :=
  match memo.table.lookup o with
  | some result => (result, memo)
  | none => (m.result o memo.next, {
      table := (o, m.result o memo.next) :: memo.table
      next := memo.next + 1
      sound := by
        rintro _ _ (_ | ⟨_, known⟩)
        · exact ⟨memo.next, rfl⟩
        · exact memo.sound _ _ known })

/-- `(map rewrite inputs)` when a field of a package that `replace` has made is read. -/
def readInputs (memo : Memo m) : List (PackageInput (Object P)) → List (PackageInput (Instance P)) × Memo m
  | [] => ([], memo)
  | .package label o outputs :: inputs =>
    let called := memo.replaceq (.given o)
    let others := called.2.readInputs inputs
    (.package label called.1 outputs :: others.1, others.2)
  | .other label :: inputs =>
    let others := memo.readInputs inputs
    (.other label :: others.1, others.2)

/-- The table after a sequence of calls. -/
def calls (arguments : List (Instance P)) : Memo m :=
  arguments.foldl (fun memo o => (memo.replaceq o).2) memo

/-- What is in the table stays there. -/
def Extends (memo' : Memo m) : Prop :=
  ∀ o result, memo.table.lookup o = some result → memo'.table.lookup o = some result

variable {memo memo' : Memo m} {o result : Instance P}

theorem replaceq_known (known : memo.table.lookup o = some result) : memo.replaceq o = (result, memo) := by
  rw [replaceq, known]

theorem lookup_replaceq : (memo.replaceq o).2.table.lookup o = some (memo.replaceq o).1 := by
  rw [replaceq]
  split
  next known => exact known
  next => exact List.lookup_cons_self

theorem replaceq_result (memo : Memo m) (o : Instance P) : ∃ next, (memo.replaceq o).1 = m.result o next :=
  (memo.replaceq o).2.sound _ _ (Assoc.mem_of_lookup lookup_replaceq)

theorem extends_replaceq : memo.Extends (memo.replaceq o).2 := by
  intro other result known
  rw [replaceq]
  split
  next => exact known
  next new =>
    have different : (other == o) = false := by
      rw [beq_eq_false_iff_ne]
      rintro rfl
      cases known.symm.trans new
    simpa [List.lookup_cons, different] using known

theorem extends_calls (arguments : List (Instance P)) : memo.Extends (memo.calls arguments) := by
  induction arguments generalizing memo with
  | nil => exact fun _ _ known => known
  | cons o arguments ih => exact fun _ _ known => ih _ _ (extends_replaceq _ _ known)

theorem extends_readInputs (inputs : List (PackageInput (Object P))) : memo.Extends (memo.readInputs inputs).2 := by
  induction inputs generalizing memo with
  | nil => exact fun _ _ known => known
  | cons input inputs ih =>
    cases input with
    | package label o outputs => exact fun _ _ known => ih _ _ (extends_replaceq _ _ known)
    | other label => exact ih

/-- What is read are the results of `replace`, then and later. -/
theorem readInputs_eq (inputs : List (PackageInput (Object P))) (kept : (memo.readInputs inputs).2.Extends memo') :
    (memo.readInputs inputs).1 = inputs.map (.rewrite fun o => (memo'.replaceq (.given o)).1) := by
  induction inputs generalizing memo with
  | nil => rfl
  | cons input inputs ih =>
    cases input with
    | package label o outputs =>
      have known := kept _ _ (extends_readInputs inputs _ _ lookup_replaceq)
      rw [readInputs, List.map_cons, PackageInput.rewrite, replaceq_known known, ih kept]
    | other label => exact congrArg (PackageInput.other label :: ·) (ih kept)

end Memo

section InputRewriting

variable [DecidableEq P] (packages : P → Package P B R) (buildSystemMapping : B → B)
  (replacements : List (P × P)) (rewriteName : Str → Str) (deep recursive : Bool)

def packageInputRewriting : Mapping P B R where
  packages := packages
  buildSystemWithPackageMapping := buildSystemMapping
  rewriteName := rewriteName
  deep := deep
  proc o :=
    if .replacement ∈ o.marks then o
    else match o.assqRef replacements with
      | none => .renamed o
      | some new => if deep then .tagged (.source new) else .source new
  cut o := .replacement ∈ o.marks || (!recursive && (o.assqRef replacements).isSome)

theorem replace_notLeft {o : Object P} (unmarked : o.marks = [])
    (notLeft : o.assqRef replacements = none) :
    (packageInputRewriting packages buildSystemMapping replacements rewriteName deep
      recursive).replace o = .mapped (.renamed o) := by
  simp [Mapping.replace, packageInputRewriting, unmarked, notLeft]

/-- After any calls, a package that is no left-hand side is renamed, and its explicit inputs are
mapped whenever they are read. Later calls find the same object, also for the result itself. -/
theorem packageInputRewriting_image (p : P) (alone : (packages p).replacement = none)
    (before later : List (Instance P)) :
    (let m := packageInputRewriting packages buildSystemMapping replacements rewriteName false false
    let called := (({} : Memo m).calls before).replaceq (.given (.source p))
    let memo := called.2.calls later
    (memo.replaceq (.given (.source p))).1 = called.1 ∧
    (∀ new, replacements.lookup p = some new → called.1 = .given (.source new)) ∧
    (replacements.lookup p = none →
      { m.record called.1.made with location := (packages p).location } =
        { packages p with
          name := rewriteName (packages p).name
          definitionLocation := none
          inputs := (packages p).inputs.map (.rewrite m.replace)
          nativeInputs := (packages p).nativeInputs.map (.rewrite m.replace)
          propagatedInputs := (packages p).propagatedInputs.map (.rewrite m.replace) } ∧
      called.1.made.marks = [.mapping] ∧ (memo.replaceq called.1).1 = called.1 ∧
      ∀ inputs ∈ [(packages p).inputs, (packages p).nativeInputs, (packages p).propagatedInputs],
        (memo.readInputs inputs).1 =
          inputs.map (.rewrite fun o => ((memo.readInputs inputs).2.replaceq (.given o)).1))) := by
  intro m called memo
  obtain ⟨next, isResult⟩ := (({} : Memo m).calls before).replaceq_result (.given (.source p))
  refine ⟨?_, fun new isLeft => ?_, fun notLeft => ?_⟩
  · rw [Memo.replaceq_known (Memo.extends_calls later _ _ Memo.lookup_replaceq)]
  · have image : m.replace (.source p) = .source new := by
      simp [m, Mapping.replace, packageInputRewriting, Object.marks, Object.assqRef, isLeft]
    exact isResult.trans (result_given image)
  · have image : m.replace (.source p) = .mapped (.renamed (.source p)) :=
      replace_notLeft _ _ _ _ _ _ rfl notLeft
    have isNew : called.1 = ⟨.mapped (.renamed (.source p)), next⟩ :=
      isResult.trans (result_new image (by simp [Instance.given]))
    have marked : m.replace called.1.made = called.1.made := by
      simp [isNew, Mapping.replace, Object.marks]
    obtain ⟨_, again⟩ := memo.replaceq_result called.1
    refine ⟨?_, by rw [isNew]; rfl, by rw [again, Mapping.result, if_pos marked],
      fun inputs _ => Memo.readInputs_eq inputs fun _ _ kept => kept⟩
    simp [isNew, Mapping.record, m, packageInputRewriting, alone]

/-- Package 0 `a` depends on the hidden package 1 `b`, and that on 2 `c`. Package 3 is a
variant of 0 whose replacement is 0. -/
def sample : Nat → Package Nat Unit Unit
  | 0 => { plain with inputs := [.package (str "b") (.source 1) []] }
  | 1 => { plain with name := str "b", inputs := [.package (str "c") (.source 2) []], hidden := true }
  | 2 => { plain with name := str "c" }
  | _ => { plain with replacement := some (.source 0) }
where
  plain : Package Nat Unit Unit := {
    name := str "a", version := str "1", buildSystem := (), inputs := [], nativeInputs := []
    propagatedInputs := [], replacement := none, hidden := false
    location := str "gnu/packages/base.scm", definitionLocation := some 1, rest := () }

/-- Package 0 is mapped after 1, and asked for again after 2, a left-hand side. -/
theorem packageInputRewriting_image_sample :
    let m := packageInputRewriting sample id [(2, 1)] (str "x-" ++ ·) false false
    let called := (({} : Memo m).calls [.given (.source 1)]).replaceq (.given (.source 0))
    let memo := called.2.calls [.given (.source 2)]
    (memo.replaceq (.given (.source 0))).1 = called.1 ∧ (memo.replaceq called.1).1 = called.1 := by
  obtain ⟨same, _, image⟩ := packageInputRewriting_image sample id [(2, 1)] (str "x-" ++ ·) 0 rfl
    [.given (.source 1)] [.given (.source 2)]
  exact ⟨same, (image rfl).2.2.1⟩

theorem packageInputRewriting_marks :
    let m := packageInputRewriting sample id [] id false false
    let image := (({} : Memo m).replaceq (.given (.source 2))).1.made
    image.marks ≠ (Object.source 2).marks ∧
      (m.record image).definitionLocation ≠ (sample 2).definitionLocation := by
  decide

/-- The replacement is renamed with the package and once more by `replace`. -/
theorem packageInputRewriting_replacement_iff (p r : P)
    (replaced : (packages p).replacement = some (.source r))
    (notLeft : replacements.lookup p = none ∧ replacements.lookup r = none) :
    let m := packageInputRewriting packages buildSystemMapping replacements rewriteName deep
      recursive
    (∃ o, (m.record (m.replace (.source p))).replacement = some o ∧
      (m.record o).name = rewriteName (packages r).name ∧
      (m.record o).inputs = (packages r).inputs.map (.rewrite m.replace) ∧
      (m.record o).nativeInputs = (packages r).nativeInputs.map (.rewrite m.replace) ∧
      (m.record o).propagatedInputs = (packages r).propagatedInputs.map (.rewrite m.replace) ∧
      ((packages p).name = (packages r).name →
        (m.record (m.replace (.source p))).name = (m.record o).name)) ↔
    rewriteName (rewriteName (packages r).name) = rewriteName (packages r).name := by
  intro m
  have image : m.replace (.source p) = .mapped (.renamed (.source p)) :=
    replace_notLeft _ _ _ _ _ _ rfl notLeft.1
  have twice : m.replace (.renamed (.source r)) = .mapped (.renamed (.renamed (.source r))) :=
    replace_notLeft _ _ _ _ _ _ rfl rfl
  have replacement : (m.record (m.replace (.source p))).replacement =
      some (.mapped (.renamed (.renamed (.source r)))) := by
    rw [image, ← twice]
    simp [m, Mapping.record, packageInputRewriting, replaced]
  constructor
  · rintro ⟨o, isReplacement, name, -⟩
    obtain rfl := Option.some.inj (replacement.symm.trans isReplacement)
    exact name
  · intro once
    refine ⟨_, replacement, once, rfl, rfl, rfl, fun same => ?_⟩
    rw [image]
    exact (congrArg rewriteName same).trans once.symm

theorem packageInputRewriting_replacement_sample :
    let m := packageInputRewriting sample id [] (fun _ => str "x") true false
    ∃ o, (m.record (m.replace (.source 3))).replacement = some o ∧
      (m.record o).name = str "x" := by
  obtain ⟨o, isReplacement, name, -⟩ := (packageInputRewriting_replacement_iff sample id []
    (fun _ => str "x") true false 3 0 rfl ⟨rfl, rfl⟩).mpr rfl
  exact ⟨o, isReplacement, name⟩

theorem packageInputRewriting_renamesTwice :
    let m := packageInputRewriting sample id [] (str "x-" ++ ·) true false
    (m.record (m.replace (.source 3))).name = str "x-a" ∧
      ((m.record (m.replace (.source 3))).replacement.map fun o => (m.record o).name) =
        some (str "x-x-a") := by
  decide

end InputRewriting

/-- The argument of `package-input-rewriting/spec`, with the procedures that read a spec. -/
structure Specs (P : Type) where
  replacements : List (Str × (Object P → P))
  nameAndVersion : Str → Str × Option Str
  versionPrefix : Str → Str → Bool

/-- `find-replacement`: `vhash-fold*` goes from the last spec to the first. -/
def Specs.find (specs : Specs P) (package : Package P B R) : Option (Object P → P) :=
  (specs.replacements.reverse.find? fun (spec, _) =>
    (specs.nameAndVersion spec).1 = package.name &&
      match (specs.nameAndVersion spec).2 with
      | none => true
      | some version => specs.versionPrefix version package.version).map (·.2)

section Specs

variable (packages : P → Package P B R) (buildSystemMapping : B → B) (specs : Specs P)

def packageInputRewritingSpec (deep replaceHidden : Bool) : Mapping P B R where
  packages := packages
  buildSystemWithPackageMapping := buildSystemMapping
  rewriteName := id
  deep := deep
  proc o :=
    if .replacement ∈ o.marks || (!replaceHidden && (packages o.origin).hidden) then o
    else match specs.find (packages o.origin) with
      | none => o
      | some proc => .tagged (.source (proc o))
  cut o := .replacement ∈ o.marks || (specs.find (packages o.origin)).isSome

/-- `cut?` holds of a hidden package that matches, while `rewrite` leaves it as it is. -/
theorem spec_replace (q : P) :
    (packageInputRewritingSpec packages buildSystemMapping specs false false).replace (.source q) =
      match specs.find (packages q) with
      | none => .mapped (.source q)
      | some proc =>
        if (packages q).hidden then .source q else .tagged (.source (proc (.source q))) := by
  cases found : specs.find (packages q) <;>
    simp [Mapping.replace, packageInputRewritingSpec, Object.marks, Object.origin, found]

/-- The package that is explicit input `i` of `o`, if there is one. -/
def Mapping.input? (m : Mapping P B R) (o : Object P) (i : Nat) : Option (Object P) :=
  match (m.record o).explicitInputs[i]? with
  | some (.package _ o _) => some o
  | _ => none

theorem Mapping.input?_mapped (m : Mapping P B R) (o : Object P) (i : Nat) :
    m.input? (.mapped o) i = (m.input? o i).map m.replace := by
  have inputs : (m.record (.mapped o)).explicitInputs =
      (m.record o).explicitInputs.map (.rewrite m.replace) := by
    simp [record, Package.explicitInputs]
  rw [input?, input?, inputs, List.getElem?_map]
  rcases (m.record o).explicitInputs[i]? with _ | ⟨_ | _⟩ <;> rfl

/-- The places of the graph of `p` that are not below a replaced package, as paths of inputs.
`below` tells whether a hidden package that matches a spec lies above. -/
inductive Place (p : P) : List Nat → Bool → P → Prop
  | root : Place p [] false p
  | input {path below q i label q' outputs} (place : Place p path below q)
      (kept : (packages q).hidden = true ∨ specs.find (packages q) = none)
      (input : (packages q).explicitInputs[i]? = some (.package label (.source q') outputs)) :
      Place p (path ++ [i]) (below || (specs.find (packages q)).isSome) q'

/-- Below a hidden package that matches stands the package of the graph itself. -/
theorem Place.image {p q : P} {path : List Nat} {below : Bool}
    (place : Place packages specs p path below q) :
    let m := packageInputRewritingSpec packages buildSystemMapping specs false false
    path.foldlM m.input? (m.replace (.source p)) =
      some (if below then .source q else m.replace (.source q)) := by
  intro m
  induction place with
  | root => rfl
  | @input path below q i label q' outputs place kept input ih =>
    have own : m.input? (.source q) i = some (.source q') := by
      simp [Mapping.input?, Mapping.record, m, packageInputRewritingSpec, input]
    rw [List.foldlM_append, ih]
    cases below with
    | true => simpa using own
    | false =>
      cases found : specs.find (packages q) with
      | none => simp [m, spec_replace, found, Mapping.input?_mapped, own]
      | some proc =>
        have hidden : (packages q).hidden = true := by simpa [found] using kept
        simp [m, spec_replace, found, hidden, own]

end Specs

end Guix.Client
