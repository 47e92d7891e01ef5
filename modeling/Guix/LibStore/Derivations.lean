import Guix.Lib.Grammar
import Guix.Lib.OrdMap
import Guix.LibStore.StorePaths
import Guix.LibUtil.PathSet

/-!
# Derivations

The parser and the printer of `derivations.cc`, with `expect`, `parseString` and
`endOfList` of `util.cc`. Strings are read from an `istringstream`.

A loop of the parser that does not end runs out of fuel.
-/

namespace Guix.LibStore.Derivations

open Grammar (Parser Fault)

abbrev StringSet := OrdSet Bytes

structure DerivationOutput where
  path : Path
  hashAlgo : Bytes
  hash : Bytes
  deriving DecidableEq

structure Derivation where
  outputs : OrdMap Bytes DerivationOutput
  inputDrvs : OrdMap Path StringSet
  inputSrcs : StringSet
  platform : Bytes
  builder : Path
  args : List Bytes
  env : OrdMap Bytes Bytes
  deriving DecidableEq

/-! ### Parsing -/

inductive FormatError
  | expected (s : Bytes)
  | badPath (s : Bytes)
  deriving DecidableEq, Repr

def FormatError.message : FormatError → Bytes
  | .expected s => ascii "expected string `" ++ s ++ ascii "'"
  | .badPath s => ascii "bad path `" ++ s ++ ascii "' in derivation"

abbrev IStream := Parser UInt8 FormatError

/-- The array that is read into is not initialised. -/
def expect (s : Bytes) : IStream PUnit := Grammar.expect (.expected s) s

def quote : UInt8 := 34
def backslash : UInt8 := 92
def newline : UInt8 := 10
def carriageReturn : UInt8 := 13
def tab : UInt8 := 9

/-- `res += c` for what `get` returned; at the end of the input that is -1. -/
def toChar : Option UInt8 → UInt8
  | some c => c
  | none => 255

/-- The character after a backslash. -/
def unescape (c : Option UInt8) : UInt8 :=
  if c = some 110 then newline
  else if c = some 114 then carriageReturn
  else if c = some 116 then tab
  else toChar c

/-- The loop of `parseString`; it compares what `get` returned with the quote only. -/
def parseStringLoop : Nat → Bytes → IStream Bytes
  | 0, _ => throw .outOfFuel
  | fuel + 1, res => do
    let c ← Grammar.get
    if c = some quote then return res
    else if c = some backslash then do
      let escaped ← Grammar.get
      parseStringLoop fuel (res ++ [unescape escaped])
    else parseStringLoop fuel (res ++ [toChar c])

def parseString (fuel : Nat) : IStream Bytes := do
  expect (ascii "\"")
  parseStringLoop fuel []

def isAbsolute (s : Bytes) : Prop := s.head? = some slash
  deriving Decidable

def parsePath (fuel : Nat) : IStream Path := do
  let s ← parseString fuel
  if isAbsolute s then return s else throw (.failed (.badPath s))

/-- `while (!endOfList(str))`. -/
def parseList {α β : Type} (item : Nat → IStream β) (step : α → β → α) (fuel : Nat) (start : α) :
    IStream α :=
  Grammar.parseList 44 93 item step fuel start

def addString (set : StringSet) (s : Bytes) : StringSet := set.insert s ⟨⟩

def parseStrings (item : Nat → IStream Bytes) (fuel : Nat) : IStream StringSet :=
  parseList item addString fuel .empty

section Parse

variable (path : Nat → IStream Path)

def parseOutput (fuel : Nat) : IStream (Bytes × DerivationOutput) := do
  expect (ascii "(")
  let id ← parseString fuel
  expect (ascii ",")
  let outPath ← path fuel
  expect (ascii ",")
  let hashAlgo ← parseString fuel
  expect (ascii ",")
  let hash ← parseString fuel
  expect (ascii ")")
  return (id, ⟨outPath, hashAlgo, hash⟩)

def parseInputDrv (fuel : Nat) : IStream (Path × StringSet) := do
  expect (ascii "(")
  let drvPath ← path fuel
  expect (ascii ",[")
  let names ← parseStrings parseString fuel
  expect (ascii ")")
  return (drvPath, names)

def parseEnvVar (fuel : Nat) : IStream (Bytes × Bytes) := do
  expect (ascii "(")
  let name ← parseString fuel
  expect (ascii ",")
  let value ← parseString fuel
  expect (ascii ")")
  return (name, value)

/-- Assign each entry to a map. -/
def assign {α : Type} (map : OrdMap Bytes α) (entry : Bytes × α) : OrdMap Bytes α :=
  map.insert entry.1 entry.2

/-- `parseDerivation` up to the last bracket, where paths are read by `path`. -/
def parseFields (fuel : Nat) : IStream Derivation := do
  expect (ascii "Derive([")
  let outputs ← parseList (parseOutput path) assign fuel .empty
  expect (ascii ",[")
  let inputDrvs ← parseList (parseInputDrv path) assign fuel .empty
  expect (ascii ",[")
  let inputSrcs ← parseStrings path fuel
  expect (ascii ",")
  let platform ← parseString fuel
  expect (ascii ",")
  let builder ← parseString fuel
  expect (ascii ",[")
  let args ← parseList parseString (fun args s => args ++ [s]) fuel []
  expect (ascii ",[")
  let env ← parseList parseEnvVar assign fuel .empty
  return ⟨outputs, inputDrvs, inputSrcs, platform, builder, args, env⟩

end Parse

def parseDerivation (fuel : Nat) : IStream Derivation := do
  let drv ← parseFields parsePath fuel
  expect (ascii ")")
  return drv

/-! ### Printing -/

def escape (c : UInt8) : Bytes :=
  if c = quote ∨ c = backslash then [backslash, c]
  else if c = newline then ascii "\\n"
  else if c = carriageReturn then ascii "\\r"
  else if c = tab then ascii "\\t"
  else [c]

/-- The loop ends at the first NUL byte. -/
def printString (s : Bytes) : Bytes := [quote] ++ (cstr s).flatMap escape ++ [quote]

/-- A comma before each item but the first. -/
def commas : Bool → List Bytes → Bytes
  | _, [] => []
  | first, item :: rest => (if first then [] else ascii ",") ++ item ++ commas false rest

def printStrings (ss : List Bytes) : Bytes :=
  ascii "[" ++ commas true (ss.map printString) ++ ascii "]"

def printOutput (entry : Bytes × DerivationOutput) : Bytes :=
  ascii "(" ++ printString entry.1
    ++ ascii "," ++ printString entry.2.path
    ++ ascii "," ++ printString entry.2.hashAlgo
    ++ ascii "," ++ printString entry.2.hash
    ++ ascii ")"

def printInputDrv (entry : Path × StringSet) : Bytes :=
  ascii "(" ++ printString entry.1 ++ ascii "," ++ printStrings entry.2.keys ++ ascii ")"

def printEnvVar (entry : Bytes × Bytes) : Bytes :=
  ascii "(" ++ printString entry.1 ++ ascii "," ++ printString entry.2 ++ ascii ")"

def unparseDerivation (drv : Derivation) : Bytes :=
  ascii "Derive([" ++ commas true (drv.outputs.entries.map printOutput)
    ++ ascii "],[" ++ commas true (drv.inputDrvs.entries.map printInputDrv)
    ++ ascii "]," ++ printStrings drv.inputSrcs.keys
    ++ ascii "," ++ printString drv.platform
    ++ ascii "," ++ printString drv.builder
    ++ ascii "," ++ printStrings drv.args
    ++ ascii ",[" ++ commas true (drv.env.entries.map printEnvVar)
    ++ ascii "])"

end Guix.LibStore.Derivations
