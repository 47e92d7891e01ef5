import Guix.LibStore.StorePaths

/-!
# Canonical paths

`canonPath`, `absPath`, `dirOf` and `baseNameOf` of `util.cc`. What they ask the system is given by
`SystemCalls`.
-/

namespace Guix.LibUtil

open LibStore (slash)

inductive PathError
  | notAbsolute (path : Path)
  | infiniteRecursion (path : Path)
  | invalidFileName (path : Path)
  | outOfRange
  | system (message : Bytes)
  deriving DecidableEq, Repr

structure SystemCalls where
  isLink : Path → Except PathError Bool
  readLink : Path → Except PathError Path
  getcwd : Except PathError Path

def dot : UInt8 := 46

/-- `s.rfind(c)`; `none` is `npos`. -/
def rfind (s : Bytes) (c : UInt8) : Option Nat := (s.reverse.idxOf? c).map (s.length - 1 - ·)

/-- `s.erase(pos)`, which throws if `pos` is past the end. -/
def eraseFrom (s : Bytes) : Option Nat → Except PathError Bytes
  | some pos => .ok (s.take pos)
  | none => .error .outOfRange

def dirOf (path : Path) : Except PathError Path :=
  match rfind path slash with
  | none => .error (.invalidFileName path)
  | some pos => .ok (if pos = 0 then [slash] else path.take pos)

def baseNameOf (path : Path) : Except PathError Bytes :=
  match rfind path slash with
  | none => .error (.invalidFileName path)
  | some pos => .ok (path.drop (pos + 1))

def maxFollow : Nat := 1024

/-- Whether a component ends where `i` is. -/
def atEnd (i : Bytes) : Bool := i.isEmpty || i[0]? == some slash

theorem length_lt_of_dropWhile {p : UInt8 → Bool} {i rest : Bytes} {c : UInt8}
    (left : i.dropWhile p = c :: rest) : rest.length < i.length := by
  have shorter := (List.dropWhile_sublist (l := i) p).length_le
  rw [left, List.length_cons] at shorter
  exact shorter

/-- The loop of `canonPath`: `i` is what is left of the path, `follow` finds the path that
replaces `s` if that is a symlink to be resolved. -/
def canonLoop (path : Path) (follow : Path → Except PathError (Option Path)) (followCount : Nat)
    (i s : Bytes) : Except PathError Bytes :=
  match left : i.dropWhile (· == slash) with
  | [] => .ok s
  | c :: i =>
    if c == dot && atEnd i then canonLoop path follow followCount i s
    else if c == dot && i[0]? == some dot && atEnd (i.drop 1) then
      match if s.isEmpty then .ok s else eraseFrom s (rfind s slash) with
      | .error e => .error e
      | .ok s => canonLoop path follow followCount (i.drop 1) s
    else
      -- `c` is not a slash, so that it belongs to the component
      let s := s ++ slash :: c :: i.takeWhile (· != slash)
      let i := i.dropWhile (· != slash)
      match follow s with
      | .error e => .error e
      | .ok none => canonLoop path follow followCount i s
      | .ok (some target) =>
        if followCount + 1 ≥ maxFollow then .error (.infiniteRecursion path)
        else canonLoop path follow (followCount + 1) (target ++ i) []
termination_by (maxFollow - followCount, i.length)
decreasing_by
  · exact .right _ (length_lt_of_dropWhile left)
  · apply Prod.Lex.right
    rw [List.length_drop]
    exact Nat.lt_of_le_of_lt (Nat.sub_le _ _) (length_lt_of_dropWhile left)
  · exact .right _ (Nat.lt_of_le_of_lt (List.dropWhile_sublist _).length_le (length_lt_of_dropWhile left))
  · next follows => exact .left _ _ (by omega)

def canonPathWith (follow : Path → Except PathError (Option Path)) (path : Path) :
    Except PathError Path :=
  if path[0]? ≠ some slash then .error (.notAbsolute path)
  else do
    let s ← canonLoop path follow 0 path []
    return if s.isEmpty then [slash] else s

def keepLinks : Path → Except PathError (Option Path) := fun _ => .ok none

def absPath (calls : SystemCalls) (path dir : Path) : Except PathError Path := do
  if path[0]? ≠ some slash then
    let dir ← if dir.isEmpty then calls.getcwd else .ok dir
    canonPathWith keepLinks (dir ++ slash :: path)
  else canonPathWith keepLinks path

def followLink (calls : SystemCalls) (s : Path) : Except PathError (Option Path) := do
  if ← calls.isLink s then
    let target ← calls.readLink s
    let dir ← dirOf s
    some <$> absPath calls target dir
  else return none

def canonPath (calls : SystemCalls) (path : Path) (resolveSymlinks : Bool) : Except PathError Path :=
  canonPathWith (if resolveSymlinks then followLink calls else keepLinks) path

end Guix.LibUtil
