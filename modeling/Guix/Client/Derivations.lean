import Guix.Lib.Utf8
import Guix.LibUtil.Hash

/-!
# Derivations of the client

The records of `(guix derivations)` and `write-derivation`. A Scheme string is a list of
characters; what is written to a port is the string that the port receives.

The input of a derivation is another derivation, or a string once its file name has been
replaced by its hash.
-/

namespace Guix.Client

abbrev Str := List Char

instance lawfulBEqStr : LawfulBEq Str := List.instLawfulBEq

/-- A string literal. -/
def str (s : String) : Str := s.toList

/-- `string->utf8`. -/
def encode (s : Str) : Bytes := Utf8.encode s

structure DerivationOutput where
  path : Str
  hashAlgo : Option Str
  hash : Option Bytes
  recursive : Bool
  deriving DecidableEq

structure DerivationInput (ι : Type) where
  drv : ι
  subDerivations : List Str
  deriving DecidableEq

structure Fields (ι : Type) where
  outputs : List (Str × DerivationOutput)
  inputs : List (DerivationInput ι)
  sources : List Str
  system : Str
  builder : Str
  args : List Str
  envVars : List (Str × Str)
  deriving DecidableEq

/-- `bytevector->base16-string` of `(guix base16)`: the table of octet pairs is the same
digits as those of the daemon. -/
def base16String (bv : Bytes) : Str :=
  bv.flatMap fun b =>
    [(str "0123456789abcdef").getD (b.toNat / 16) '0', (str "0123456789abcdef").getD (b.toNat % 16) '0']

/-! ### Writing -/

section Write

variable {α ι : Type}

def writeSequence (writeItem : α → Str) : List α → Str
  | [] => []
  | [last] => writeItem last
  | item :: rest => writeItem item ++ str "," ++ writeSequence writeItem rest

def writeList (writeItem : α → Str) (lst : List α) : Str :=
  str "[" ++ writeSequence writeItem lst ++ str "]"

def writeTuple (writeItem : α → Str) (lst : List α) : Str :=
  str "(" ++ writeSequence writeItem lst ++ str ")"

/-- `%escape-char-set`. -/
def escapeCharSet : List Char := ['"', '\\', '\n', '\r', '\t']

/-- The procedure `escape` inside `escaped-string`. -/
def escape (c : Char) : Str :=
  if c = '\n' then str "\\n"
  else if c = '\r' then str "\\r"
  else if c = '\t' then str "\\t"
  else ['\\', c]

theorem index_lt {s : Str} {i : Nat} (index : s.findIdx? (· ∈ escapeCharSet) = some i) : i < s.length :=
  (List.findIdx?_eq_some_iff_getElem.mp index).1

theorem length_drop_lt {s : Str} {i : Nat} (inside : i < s.length) : (s.drop (1 + i)).length < s.length := by
  rw [List.length_drop]
  omega

def escapedLoop (s : Str) (result : List Str) : Str :=
  match index : s.findIdx? (· ∈ escapeCharSet) with
  | some i =>
    have inside : i < s.length := index_lt index
    escapedLoop (s.drop (1 + i)) (escape (s.get ⟨i, inside⟩) :: s.take i :: result)
  | none => if result.isEmpty then s else (s :: result).reverse.flatten
termination_by s.length
decreasing_by exact length_drop_lt inside

def escapedString (s : Str) : Str := escapedLoop s []

def writeEscapedString (s : Str) : Str := str "\"" ++ escapedString s ++ str "\""

def writeStringList (lst : List Str) : Str := writeList writeEscapedString lst

def hashAlgoString (output : DerivationOutput) : Str :=
  match output.hashAlgo with
  | some hashAlgo => (if output.recursive then str "r:" else []) ++ hashAlgo
  | none => []

def outputHash (output : DerivationOutput) : Str := (output.hash.map base16String).getD []

def writeOutput (output : Str × DerivationOutput) : Str :=
  writeTuple writeEscapedString
    [output.1, output.2.path, hashAlgoString output.2, outputHash output.2]

/-- The name of the input is written as it is. -/
def writeInput (fileName : ι → Str) (input : DerivationInput ι) : Str :=
  str "(\"" ++ fileName input.drv ++ str "\"," ++ writeStringList input.subDerivations ++ str ")"

def writeEnvVar (envVar : Str × Str) : Str :=
  str "(" ++ writeEscapedString envVar.1 ++ str "," ++ writeEscapedString envVar.2 ++ str ")"

/-- The system and the builder are written by `simple-format` with `~a`, as they are. -/
def writeDerivation (fileName : ι → Str) (drv : Fields ι) : Str :=
  str "Derive(" ++ writeList writeOutput drv.outputs
    ++ str "," ++ writeList (writeInput fileName) drv.inputs
    ++ str "," ++ writeStringList drv.sources
    ++ str ",\"" ++ drv.system ++ str "\",\"" ++ drv.builder ++ str "\","
    ++ writeStringList drv.args
    ++ str "," ++ writeList writeEnvVar drv.envVars
    ++ str ")"

/-- `derivation->bytevector`. -/
def derivationBytevector (fileName : ι → Str) (drv : Fields ι) : Bytes :=
  encode (writeDerivation fileName drv)

end Write

end Guix.Client
