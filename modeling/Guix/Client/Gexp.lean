import Guix.Client.Derivations

/-!
# G-expressions

`gexp-inputs`, `gexp-outputs`, `gexp-modules`, `gexp-extensions`, `gexp->sexp` and `lower-inputs`
of `(guix gexp)`. A G-expression holds references to Scheme objects of any kind, which are the
type `Datum`; `Obj` are the records that may have a gexp compiler, `F` the file-like objects that
modules and extensions are made of, and `Sexp` the S-expressions that come out. The expansion also
says what the code that comes out depends on.
-/

namespace Guix.Client.Gexp

/-- A module name, or a module name followed by an arrow and a file-like object. -/
inductive ModuleSpec (F : Type)
  | name (name : List Str)
  | arrow (name : List Str) (file : F)
  deriving DecidableEq

/-- Scheme objects that a gexp may refer to. -/
inductive Datum (Obj F Sexp : Type)
  /-- A record other than those of this module. -/
  | object (o : Obj)
  /-- `<gexp-input>`. -/
  | input (thing : Datum Obj F Sexp) (output : Str) (native : Bool)
  /-- `<gexp-output>`. -/
  | output (name : Str)
  /-- `<gexp>`. -/
  | gexp (references : List (Datum Obj F Sexp)) (modules : List (ModuleSpec F)) (extensions : List F)
    (proc : List Sexp → Sexp)
  | nil
  | pair (head tail : Datum Obj F Sexp)
  | string (s : Str)
  /-- Symbols, numbers, Booleans and other self-quoting objects. -/
  | atom (s : Sexp)
  /-- Objects that are not self-quoting, such as procedures. -/
  | procedure

inductive GexpError
  /-- `&gexp-input-error`. -/
  | inputError
  /-- `struct-vtable` of an object that is not a record. -/
  | wrongType
  deriving DecidableEq

/-- What is not part of this module. -/
structure GexpLibrary (Obj F Sexp : Type) where
  /-- Whether `lookup-compiler` finds a compiler. -/
  hasCompiler : Obj → Bool
  /-- What an object expands to for a system, a target and an output. -/
  expand : Obj → Str → Option Str → Str → Sexp
  /-- Whether an object lowers to plain data instead of a derivation or a store item. -/
  isSelfQuoting : Obj → Option Str → Bool
  isDirectStorePath : Str → Bool
  isStorePath : Str → Bool
  list : List Sexp → Sexp
  quote : Datum Obj F Sexp → Sexp
  getenv : Str → Sexp

section Gexp

variable {Obj F Sexp : Type} (lib : GexpLibrary Obj F Sexp)

/-- The target for an input: none when it is native. -/
def effectiveTarget (native : Bool) (target : Option Str) : Option Str :=
  if native then none else target

/-! ### Lowering -/

/-- `lower-object`: the object that is lowered in the end and the target it is lowered for. The
compiler of `<gexp-input>` goes on to the thing of the input. -/
def lowerObject (target : Option Str) : Datum Obj F Sexp → Except GexpError (Obj × Option Str)
  | .object o => if lib.hasCompiler o then .ok (o, target) else .error .inputError
  | .input thing _ native => lowerObject (effectiveTarget native target) thing
  | .output _ => .error .inputError
  | .gexp _ _ _ _ => .error .inputError
  | _ => .error .wrongType

/-- The output that an object expands to: the expander of `<gexp-input>` ignores the output it is
given. -/
def expandedOutput (output : Str) : Datum Obj F Sexp → Str
  | .input thing output _ => expandedOutput output thing
  | _ => output

/-- An object as it is lowered for an expansion or an input. -/
structure Lowering (Obj : Type) where
  object : Obj
  output : Str
  target : Option Str
  deriving DecidableEq

/-- What the code that a gexp expands to depends on. -/
inductive Dependency (Obj F : Type)
  | lowered (lowering : Lowering Obj)
  | module (spec : ModuleSpec F)
  | extension (file : F)
  | output (name : Str)

/-- The modules and extensions of a gexp that is spliced in. -/
def ownDependencies (modules : List (ModuleSpec F)) (extensions : List F) : List (Dependency Obj F) :=
  modules.map .module ++ extensions.map .extension

/-- `lower+expand-object`, and what it lowers. -/
def lowerExpandObject (system : Str) (target : Option Str) (output : Str) (thing : Datum Obj F Sexp) :
    Except GexpError (Sexp × List (Dependency Obj F)) := do
  let lowered ← lowerObject lib target thing
  let output := expandedOutput output thing
  return (lib.expand lowered.1 system lowered.2 output, [.lowered ⟨lowered.1, output, lowered.2⟩])

/-! ### Expansion -/

/-- The pattern `(refs ...)`. -/
def isList : Datum Obj F Sexp → Bool
  | .nil => true
  | .pair _ tail => isList tail
  | _ => false

mutual

/-- `reference->sexp` of an input with the given thing and output. The target is that of the input.
An element of a list that is itself an input takes the place of that input. -/
def inputToSexp (system : Str) (element : Bool) (target : Option Str) (output : Str) :
    Datum Obj F Sexp → Except GexpError (Sexp × List (Dependency Obj F))
  | .gexp references modules extensions proc => do
    let args ← referencesToSexp system target references
    return (proc args.1, ownDependencies modules extensions ++ args.2)
  | .nil => .ok (lib.list [], [])
  | .pair head tail =>
    if isList tail then do
      let item ← inputToSexp system true target (str "out") head
      let items ← elementsToSexp system target tail
      return (lib.list (item.1 :: items.1), item.2 ++ items.2)
    else .ok (lib.quote (.pair head tail), [])
  | .object o => lowerExpandObject lib system target output (.object o)
  | .input thing output' native =>
    if element then inputToSexp system false (effectiveTarget native target) output' thing
    else lowerExpandObject lib system target output (.input thing output' native)
  | .output name => lowerExpandObject lib system target output (.output name)
  | .string s => .ok (lib.quote (.string s), [])
  | .atom s => .ok (s, [])
  | .procedure => .error .inputError

/-- The elements of a list. Those that are not inputs become inputs with the native flag of the
list. -/
def elementsToSexp (system : Str) (target : Option Str) :
    Datum Obj F Sexp → Except GexpError (List Sexp × List (Dependency Obj F))
  | .pair head tail => do
    let item ← inputToSexp system true target (str "out") head
    let items ← elementsToSexp system target tail
    return (item.1 :: items.1, item.2 ++ items.2)
  | _ => .ok ([], [])

/-- `reference->sexp` of the references of a gexp. -/
def referencesToSexp (system : Str) (target : Option Str) :
    List (Datum Obj F Sexp) → Except GexpError (List Sexp × List (Dependency Obj F))
  | [] => .ok ([], [])
  | .output name :: references => do
    let args ← referencesToSexp system target references
    return (lib.getenv name :: args.1, .output name :: args.2)
  | .input thing output native :: references => do
    let arg ← inputToSexp system false (effectiveTarget native target) output thing
    let args ← referencesToSexp system target references
    return (arg.1 :: args.1, arg.2 ++ args.2)
  | other :: references => do
    let args ← referencesToSexp system target references
    return (lib.quote other :: args.1, args.2)

end

/-- `gexp->sexp` of a gexp, and what the code depends on. -/
def gexpToSexp (system : Str) (target : Option Str) (references : List (Datum Obj F Sexp))
    (modules : List (ModuleSpec F)) (extensions : List F) (proc : List Sexp → Sexp) :
    Except GexpError (Sexp × List (Dependency Obj F)) :=
  inputToSexp lib system false target (str "out") (.gexp references modules extensions proc)

/-! ### Inputs -/

/-- A `<gexp-input>` of the list that `gexp-inputs` returns. -/
structure Input (Obj F Sexp : Type) where
  thing : Datum Obj F Sexp
  output : Str
  native : Bool

/-- `set-gexp-input-native?`. -/
def Input.setNative (input : Input Obj F Sexp) : Input Obj F Sexp := { input with native := true }

mutual

/-- `gexp-inputs` of the references of a gexp. -/
def gexpInputs : List (Datum Obj F Sexp) → List (Input Obj F Sexp)
  | [] => []
  | .input (.gexp references _ _ _) _ native :: rest =>
    if native then (gexpInputs references).map Input.setNative ++ gexpInputs rest
    else gexpInputs references ++ gexpInputs rest
  | .input (.string s) output native :: rest =>
    if lib.isDirectStorePath s then ⟨.string s, output, native⟩ :: gexpInputs rest else gexpInputs rest
  | .input (.object o) output native :: rest =>
    if lib.hasCompiler o then ⟨.object o, output, native⟩ :: gexpInputs rest else gexpInputs rest
  | .input (.input thing output' native') output native :: rest =>
    -- there is a compiler for `<gexp-input>`
    ⟨.input thing output' native', output, native⟩ :: gexpInputs rest
  | .input (.pair head tail) _ native :: rest => treeInputs native (.pair head tail) (gexpInputs rest)
  | _ :: rest => gexpInputs rest

/-- The `fold/tree` that scans a list for inputs, which inherit the native flag of the list. -/
def treeInputs (native : Bool) : Datum Obj F Sexp → List (Input Obj F Sexp) → List (Input Obj F Sexp)
  | .pair head tail, result => treeInputs native tail (treeInputs native head result)
  | .input thing output _, result => ⟨thing, output, native⟩ :: result
  | .object o, result => if lib.hasCompiler o then ⟨.object o, str "out", native⟩ :: result else result
  | .string s, result =>
    if lib.isDirectStorePath s then ⟨.string s, str "out", native⟩ :: result else result
  | .gexp references _ _ _, result => gexpInputs references ++ result
  | _, result => result

end

inductive LoweredInput (Obj : Type)
  | item (s : Str)
  /-- The derivation input or store item of an object. -/
  | object (lowering : Lowering Obj)

def lowerInput (target : Option Str) (input : Input Obj F Sexp) : Except GexpError (LoweredInput Obj) :=
  match input.thing with
  | .string s => if lib.isStorePath s then .ok (.item s) else .error .wrongType
  | thing => do
    let lowered ← lowerObject lib (effectiveTarget input.native target) thing
    return .object ⟨lowered.1, input.output, lowered.2⟩

/-- Objects that lower to plain data are left out in the end. -/
def LoweredInput.isInput : LoweredInput Obj → Bool
  | .item _ => true
  | .object lowering => !lib.isSelfQuoting lowering.object lowering.target

def lowerInputs (target : Option Str) (inputs : List (Input Obj F Sexp)) :
    Except GexpError (List (LoweredInput Obj)) := do
  let lowered ← inputs.mapM (lowerInput lib target)
  return lowered.filter (LoweredInput.isInput lib)

/-! ### Modules, extensions and outputs -/

/-- Keep an item unless the same item was kept before. -/
def keepFirst {α : Type} (same : α → α → Bool) (kept : List α) (item : α) : List α :=
  if kept.any fun first => same first item then kept else item :: kept

/-- `delete-duplicates` of SRFI-1. -/
def deleteDuplicates {α : Type} (same : α → α → Bool) (lst : List α) : List α :=
  (lst.foldl (keepFirst same) []).reverse

section Attribute

variable {α : Type} [DecidableEq α] (self : List (ModuleSpec F) → List F → List α)

mutual

/-- The items of the gexps that the references hold, added to `result`. -/
def attributeReferences : List (Datum Obj F Sexp) → List α → List α
  | [], result => result
  | .input (.gexp references modules extensions _) _ _ :: rest, result =>
    attributeReferences rest (deleteDuplicates (· = ·)
      (self modules extensions ++ (attributeReferences references []).reverse) ++ result)
  | .input (.pair head tail) _ _ :: rest, result =>
    if isList tail then attributeReferences rest (attributeTree (.pair head tail) result)
    else attributeReferences rest result
  | _ :: rest, result => attributeReferences rest result

def attributeTree : Datum Obj F Sexp → List α → List α
  | .pair head tail, result => attributeTree tail (attributeTree head result)
  | .gexp references modules extensions _, result =>
    deleteDuplicates (· = ·) (self modules extensions ++ (attributeReferences references []).reverse) ++ result
  | _, result => result

end

/-- `gexp-attribute`. -/
def gexpAttribute (same : α → α → Bool) (references : List (Datum Obj F Sexp))
    (modules : List (ModuleSpec F)) (extensions : List F) : List α :=
  deleteDuplicates same (self modules extensions ++ (attributeReferences self references []).reverse)

end Attribute

variable [DecidableEq F]

/-- `module=?` ignores the right-hand side of an arrow. -/
def sameModule : ModuleSpec F → ModuleSpec F → Bool
  | .arrow name _, .arrow name' _ => name = name'
  | .arrow _ _, .name _ => false
  | .name name, other => ModuleSpec.name name = other

def gexpModules (references : List (Datum Obj F Sexp)) (modules : List (ModuleSpec F))
    (extensions : List F) : List (ModuleSpec F) :=
  gexpAttribute (fun modules _ => modules) sameModule references modules extensions

def gexpExtensions (references : List (Datum Obj F Sexp)) (modules : List (ModuleSpec F))
    (extensions : List F) : List F :=
  gexpAttribute (fun _ extensions => extensions) (· = ·) references modules extensions

mutual

/-- The outputs that references name, added to `result`. -/
def outputReferences : List (Datum Obj F Sexp) → List Str → List Str
  | [], result => result
  | .output name :: rest, result => outputReferences rest (name :: result)
  | .input (.gexp references _ _ _) _ _ :: rest, result =>
    outputReferences rest (deleteDuplicates (· = ·) (outputReferences references []) ++ result)
  | .input (.pair head tail) _ _ :: rest, result =>
    outputReferences rest (outputTree (.pair head tail) result)
  | _ :: rest, result => outputReferences rest result

def outputTree : Datum Obj F Sexp → List Str → List Str
  | .pair head tail, result => outputTree tail (outputTree head result)
  | .output name, result => name :: result
  | .gexp references _ _ _, result =>
    deleteDuplicates (· = ·) (outputReferences references []) ++ result
  | _, result => result

end

def gexpOutputs (references : List (Datum Obj F Sexp)) : List Str :=
  deleteDuplicates (· = ·) (outputReferences references [])

end Gexp

end Guix.Client.Gexp
