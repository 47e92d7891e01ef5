import Guix.Lib.Separated
import Guix.LibStore.DerivationsGrammar

/-!
# Derivation paths with output names

`parseDrvPathWithOutputs` and `makeDrvPathWithOutputs` of `derivations.cc`, and the functions of
`util.cc` that split and join strings.
-/

namespace Guix.LibStore.Derivations

open List Separated

/-- The tokens between separators. -/
def tokenizeString (separators s : Bytes) : List Bytes :=
  match _ : s.dropWhile (· ∈ separators) with
  | [] => []
  | c :: rest =>
    (c :: rest.takeWhile (· ∉ separators)) :: tokenizeString separators (rest.dropWhile (· ∉ separators))
termination_by s.length
decreasing_by
  next found =>
  have := found ▸ length_dropWhile_le (· ∈ separators) s
  have := length_dropWhile_le (· ∉ separators) rest
  grind

def concatStringsSep (sep : Bytes) (ss : List Bytes) : Bytes :=
  ss.foldl (fun s i => (if s = [] then s else s ++ sep) ++ i) []

def parseDrvPathWithOutputs (s : Bytes) : Path × StringSet :=
  match s.dropWhile (· != 33) with
  | [] => (s, .empty)
  | _ :: rest =>
    (s.takeWhile (· != 33), (tokenizeString (ascii ",") rest).foldl addString .empty)

def makeDrvPathWithOutputs (drvPath : Path) (outputs : StringSet) : Path :=
  if outputs.keys = [] then drvPath
  else drvPath ++ ascii "!" ++ concatStringsSep (ascii ",") outputs.keys

variable {sep : UInt8} {token : Bytes} {rest : List Bytes}

theorem concatStringsSep_eq_joined (nonempty : token ≠ []) :
    concatStringsSep [sep] (token :: rest) = token ++ joined sep rest := by
  rw [concatStringsSep, foldl_cons, if_pos rfl, nil_append]
  induction rest generalizing token with
  | nil => simp [joined]
  | cons next rest ih =>
    rw [foldl_cons, if_neg nonempty, ih (by simp)]
    simp [joined]

theorem tokenizeString_separator (s : Bytes) : tokenizeString [sep] (sep :: s) = tokenizeString [sep] s := by
  rw [tokenizeString, tokenizeString.eq_def [sep] s, dropWhile_cons_of_pos (by simp)]

/-- A token ends at a separator or at the end of the string. -/
theorem tokenizeString_token {s : Bytes} (isToken : token ≠ [] ∧ sep ∉ token) (ends : ∀ c ∈ s.head?, c = sep) :
    tokenizeString [sep] (token ++ s) = token :: tokenizeString [sep] s := by
  obtain ⟨c, token, rfl⟩ := exists_cons_of_ne_nil isToken.1
  obtain ⟨other, others⟩ := not_or.mp (mem_cons.not.mp isToken.2)
  have inside : ∀ b ∈ token, decide (b ∉ [sep]) = true := by
    intro b member
    simpa using ne_of_mem_of_not_mem member others
  rw [tokenizeString, cons_append, dropWhile_cons_of_neg (by simpa using Ne.symm other)]
  dsimp only
  rw [takeWhile_append_of_pos inside, dropWhile_append_of_pos inside]
  cases s with
  | nil => simp
  | cons b s => simp [ends b rfl]

theorem tokenizeString_joined (tokens : ∀ t ∈ token :: rest, t ≠ [] ∧ sep ∉ t) :
    tokenizeString [sep] (token ++ joined sep rest) = token :: rest := by
  induction rest generalizing token with
  | nil =>
    rw [tokenizeString_token (tokens token mem_cons_self) (by simp [joined]), tokenizeString]
    rfl
  | cons next rest ih =>
    obtain ⟨isToken, others⟩ := forall_mem_cons.mp tokens
    have split : joined sep (next :: rest) = sep :: (next ++ joined sep rest) := rfl
    rw [split, tokenizeString_token isToken (by simp), tokenizeString_separator, ih others]

theorem parseDrvPathWithOutputs_make (drvPath : Path) (outputs : StringSet) (plain : 33 ∉ drvPath)
    (names : ∀ name ∈ outputs.keys, name ≠ [] ∧ 44 ∉ name) :
    parseDrvPathWithOutputs (makeDrvPathWithOutputs drvPath outputs) = (drvPath, outputs) ∧
      makeDrvPathWithOutputs drvPath .empty = drvPath := by
  refine ⟨?_, rfl⟩
  have before : ∀ b ∈ drvPath, (b != 33) = true := fun b member =>
    bne_iff_ne.mpr fun same => plain (same ▸ member)
  have all := foldl_addString outputs
  cases keys : outputs.keys with
  | nil =>
    rw [keys] at all
    rw [makeDrvPathWithOutputs, if_pos keys, parseDrvPathWithOutputs, dropWhile_eq_nil_iff.mpr before, ← all]
    rfl
  | cons first rest =>
    rw [keys] at names all
    have made : makeDrvPathWithOutputs drvPath outputs =
        drvPath ++ 33 :: (first ++ joined 44 rest) := by
      rw [makeDrvPathWithOutputs, if_neg (by simp [keys]), keys, append_assoc]
      exact congrArg _ (congrArg _ (concatStringsSep_eq_joined (names first mem_cons_self).1))
    have tokens : tokenizeString (ascii ",") (first ++ joined 44 rest) = first :: rest :=
      tokenizeString_joined names
    rw [made, parseDrvPathWithOutputs, dropWhile_append_of_pos before, takeWhile_append_of_pos before]
    simp [tokens, all]

theorem parseDrvPathWithOutputs_make_bin : let outputs : StringSet := .ofList [(ascii "out", ⟨⟩), (ascii "bin", ⟨⟩)]
    parseDrvPathWithOutputs (makeDrvPathWithOutputs (ascii "/a.drv") outputs) = (ascii "/a.drv", outputs) :=
  (parseDrvPathWithOutputs_make _ _ (by decide) (by decide)).1

end Guix.LibStore.Derivations
