import Guix.Client.Derivations

/-!
# Records in the format of recutils

`recutils->alist` of `(guix records)`, which reads fields, continuation lines and comments
from a port up to an empty line.
-/

namespace Guix.Client

/-- The character sets of Guile that the readers use. -/
structure CharSets where
  upperCase : Char → Bool
  lowerCase : Char → Bool
  whitespace : Char → Bool
  graphic : Char → Bool
  upperCase_ascii : ∀ c : Char, c.isUpper → upperCase c = true

inductive RecordError
  | unmatchedLine (line : Str)
  /-- `string-take` with no index: the line has no colon. -/
  | noColon (line : Str)
  /-- A continuation line that follows no field matches no pattern. -/
  | noField (line : Str)
  deriving DecidableEq

abbrev Alist := List (Str × Str)

def assocRef (alist : Alist) (key : Str) : Option Str :=
  (alist.find? fun entry => entry.1 == key).map (·.2)

/-- What `read-line` returns, call by call, until the end of the text. -/
def readLines (line : Str) : Str → List Str
  | [] => if line = [] then [] else [line]
  | c :: text => if c = '\n' then line :: readLines [] text else readLines (line ++ [c]) text

section Recutils

variable (sets : CharSets)

/-- `%recutils-field-charset`. -/
def recutilsFieldCharset (c : Char) : Bool :=
  sets.upperCase c || sets.lowerCase c || c == '%'

/-- `(string-trim s)`, which trims on the left. -/
def stringTrim (s : Str) : Str := s.dropWhile sets.whitespace

def recutilsLoop : List Str → Alist → Except RecordError Alist
  | [], result => .ok result.reverse
  | [] :: port, result =>
    -- leading empty lines are ignored, another one ends the record
    if result = [] then recutilsLoop port result else .ok result.reverse
  | (first :: rest) :: port, result =>
    let line := first :: rest
    if recutilsFieldCharset sets first then
      match line.idxOf? ':' with
      | none => .error (.noColon line)
      | some colon =>
        recutilsLoop port ((line.take colon, stringTrim sets (line.drop (1 + colon))) :: result)
    else if first = '#' then recutilsLoop port result
    else if first = '+' then
      let newLine := if (str "+ ").isPrefixOf line then line.drop 2 else line.drop 1
      match result with
      | (field, value) :: fields =>
        recutilsLoop port ((field, value ++ str "\n" ++ newLine) :: fields)
      | [] => .error (.noField line)
    else .error (.unmatchedLine line)

def recutilsToAlist (text : Str) : Except RecordError Alist :=
  recutilsLoop sets (readLines [] text) []

end Recutils

/-- The values that `alist->record` passes on for a key that may occur several times. -/
def multipleValues (alist : Alist) (key : Str) : List Str :=
  alist.filterMap fun entry => if entry.1 = key then some entry.2 else none

end Guix.Client
