import Guix.Client.Narinfo
import Guix.Lib.Fallible

/-!
# What the signature of a narinfo covers

The signed text is found by a search for the first `Signature:`, the values by reading the
whole text line by line. If the signed text ends in a newline, its fields are the first ones
that are read, and no later line changes them.
-/

namespace Guix.Client

open List Fallible Except Option

/-! ### Lines -/

theorem readLines_append_newline (line above rest : Str) :
    readLines line (above ++ '\n' :: rest) =
      readLines line (above ++ ['\n']) ++ readLines [] rest := by
  induction above generalizing line with
  | nil => simp [readLines]
  | cons c above ih =>
    simp only [cons_append, readLines]
    split
    · rw [ih, cons_append]
    · rw [ih]

theorem readLines_append (line s rest : Str) (oneLine : '\n' ∉ s) :
    readLines line (s ++ rest) = readLines (line ++ s) rest := by
  induction s generalizing line with
  | nil => simp
  | cons c s ih =>
    have notNewline : '\n' ≠ c := ne_of_not_mem_cons oneLine
    rw [cons_append, readLines, if_neg (Ne.symm notNewline),
      ih _ (not_mem_of_not_mem_cons oneLine), append_assoc, singleton_append]

theorem readLines_of_nonempty (line text : Str) (nonempty : line ≠ []) :
    ∃ tail more, readLines line text = (line ++ tail) :: more := by
  induction text generalizing line with
  | nil => exact ⟨[], [], by simp [readLines, nonempty]⟩
  | cons c text ih =>
    rw [readLines]
    split
    · exact ⟨[], readLines [] text, by simp⟩
    · obtain ⟨tail, more, isLine⟩ := ih (line ++ [c]) (by simp)
      exact ⟨c :: tail, more, by simp [isLine]⟩

/-- The text splits where the pattern was found. -/
theorem stringContains_split (pattern s : Str) (i : Nat) (found : stringContains pattern s = some i) :
    ∃ rest, s = s.take i ++ (pattern ++ rest) := by
  induction s generalizing i with
  | nil =>
    rw [stringContains] at found
    split at found
    next empty => exact ⟨[], by simp [empty]⟩
    next => cases found
  | cons c s ih =>
    rw [stringContains] at found
    split at found
    next isPrefix =>
      cases found
      obtain ⟨rest, split⟩ := isPrefixOf_iff_prefix.mp isPrefix
      exact ⟨rest, by simp [split]⟩
    next =>
      obtain ⟨j, later, rfl⟩ := map_eq_some_iff.mp found
      obtain ⟨rest, split⟩ := ih j later
      exact ⟨rest, by rw [take_succ_cons, cons_append, ← split]⟩

/-! ### The fields that were read stay -/

section Recutils

variable (sets : CharSets)

/-- Only the last field can still grow. -/
theorem recutilsLoop_keeps (port : List Str) (last : Str × Str) (fields whole : Alist)
    (read : recutilsLoop sets port (last :: fields) = .ok whole) :
    ∃ tail, whole = fields.reverse ++ tail := by
  induction port generalizing last fields with
  | nil =>
    cases read
    exact ⟨[last], by simp⟩
  | cons line port ih =>
    cases line with
    | nil =>
      cases read
      exact ⟨[last], by simp⟩
    | cons first rest =>
      simp only [recutilsLoop] at read
      split at read
      · split at read
        · cases read
        · obtain ⟨tail, rfl⟩ := ih _ _ read
          exact ⟨last :: tail, by simp⟩
      · split at read
        · exact ih _ _ read
        · split at read
          · exact ih _ _ read
          · cases read

/-- Reading goes on after the first lines with the fields found in them, unless an empty
line has ended the record. -/
theorem recutilsLoop_append (port more : List Str) (result whole : Alist)
    (read : recutilsLoop sets (port ++ more) result = .ok whole) :
    ∃ fields, recutilsLoop sets port result = .ok fields ∧
      (whole = fields ∨ recutilsLoop sets more fields.reverse = .ok whole) := by
  induction port generalizing result with
  | nil => exact ⟨result.reverse, rfl, .inr (by simpa using read)⟩
  | cons line port ih =>
    cases line with
    | nil =>
      simp only [cons_append, recutilsLoop] at read ⊢
      split at read
      next leading =>
        simp only [leading, if_true] at read ⊢
        exact ih [] read
      next ended =>
        rw [if_neg ended]
        cases read
        exact ⟨result.reverse, rfl, .inl rfl⟩
    | cons first rest =>
      simp only [cons_append, recutilsLoop] at read ⊢
      split at read
      next isField =>
        rw [if_pos isField]
        split at read
        next => cases read
        next colon found => exact ih _ read
      next notField =>
        rw [if_neg notField]
        split at read
        next isComment =>
          rw [if_pos isComment]
          exact ih _ read
        next notComment =>
          rw [if_neg notComment]
          split at read
          next isContinuation =>
            rw [if_pos isContinuation]
            split at read
            next => exact ih _ read
            next => cases read
          next => cases read

/-- The line of the signature is a field of its own. -/
theorem recutilsLoop_signature {tail : Str} {more : List Str} {fields whole : Alist}
    (read : recutilsLoop sets ((str "Signature:" ++ tail) :: more) fields = .ok whole) :
    ∃ later, whole = fields.reverse ++ later := by
  have capital : recutilsFieldCharset sets 'S' = true := by
    rw [recutilsFieldCharset, sets.upperCase_ascii 'S' (by decide)]
    rfl
  have line : str "Signature:" ++ tail = 'S' :: (str "ignature:" ++ tail) := rfl
  rw [line, recutilsLoop, if_pos capital] at read
  split at read
  · cases read
  · exact recutilsLoop_keeps sets more _ fields whole read

theorem recutilsToAlist_above {above rest : Str} (newline : above = [] ∨ above.getLast? = some '\n')
    {whole : Alist} (read : recutilsToAlist sets (above ++ (str "Signature:" ++ rest)) = .ok whole) :
    ∃ signed later, recutilsToAlist sets above = .ok signed ∧ whole = signed ++ later := by
  have oneLine : '\n' ∉ str "Signature:" := by decide
  obtain ⟨tail, more, signature⟩ := readLines_of_nonempty (str "Signature:") rest (by decide)
  have lines : readLines [] (above ++ (str "Signature:" ++ rest)) =
      readLines [] above ++ (str "Signature:" ++ tail) :: more := by
    have below : readLines [] (str "Signature:" ++ rest) = (str "Signature:" ++ tail) :: more := by
      rw [readLines_append [] _ rest oneLine, nil_append, signature]
    rcases newline with rfl | ends
    · rw [nil_append, below]
      rfl
    · obtain ⟨front, rfl⟩ := getLast?_eq_some_iff.mp ends
      rw [append_assoc, singleton_append, readLines_append_newline, below]
  rw [recutilsToAlist, lines] at read
  obtain ⟨signed, readAbove, ended | goesOn⟩ := recutilsLoop_append sets _ _ _ _ read
  · exact ⟨signed, [], readAbove, by rw [ended, append_nil]⟩
  · obtain ⟨later, isWhole⟩ := recutilsLoop_signature sets goesOn
    rw [reverse_reverse] at isWhole
    exact ⟨signed, later, readAbove, isWhole⟩

end Recutils

theorem assocRef_append (signed later : Alist) {key : Str} (isSigned : key ∈ signed.map (·.1)) :
    assocRef (signed ++ later) key = assocRef signed key := by
  obtain ⟨entry, inSigned, isKey⟩ := mem_map.mp isSigned
  have found : (signed.find? fun e => e.1 == key).isSome = true := by
    rw [find?_isSome]
    exact ⟨entry, inSigned, by simp [isKey]⟩
  rw [assocRef, assocRef, find?_append, or_of_isSome found]

theorem multipleValues_append (signed later : Alist) (key : Str) :
    multipleValues (signed ++ later) key = multipleValues signed key ++ multipleValues later key :=
  filterMap_append

/-! ### The signed values -/

section Narinfo

variable {υ ν σ : Type} (lib : NarinfoLibrary υ ν σ)

theorem fieldsToAlist_ok (text : Str) (alist : Alist) :
    fieldsToAlist lib text = .ok alist ↔ recutilsToAlist lib.sets text = .ok alist := by
  rw [fieldsToAlist]
  cases recutilsToAlist lib.sets text <;> simp [Except.mapError]

/-- A valid narinfo has the mandatory fields above its signature, and the signature is one
of the hash of the text above it. -/
theorem validNarinfo_signed {sha256 : Sha256} {status : σ → Sha256Hash → SignatureStatus}
    {narinfo : Narinfo υ ν σ} (valid : validNarinfo lib sha256 status narinfo = .ok true) :
    ∃ above fields signature, aboveSignature narinfo.contents = some above ∧
      fieldsToAlist lib above = .ok fields ∧
      (∀ field ∈ mandatoryFields, field ∈ fields.map (·.1)) ∧
      narinfo.signature = some signature ∧
      status signature (sha256 (encode above)) = .validSignature := by
  obtain ⟨hash, isHash, checked⟩ := bind_ok.mp valid
  split at checked
  next =>
    split at checked
    next hash signature isSignature =>
      unfold narinfoSha256 at isHash
      split at isHash
      next => cases isHash
      next above isAbove =>
        obtain ⟨fields, readFields, isHash⟩ := bind_ok.mp isHash
        have signed := ok.inj isHash
        split at signed
        next mandatory =>
          cases signed
          exact ⟨above, fields, signature, isAbove, readFields, mandatory, isSignature,
            of_decide_eq_true (ok.inj checked)⟩
        next => cases signed
    next => cases checked
  next => cases checked

/-- The values of a valid narinfo are those of its signed text. -/
theorem validNarinfo_reads_signed_text (sha256 : Sha256) (status : σ → Sha256Hash → SignatureStatus)
    (text : Str) (url : Option Str) (narinfo : Narinfo υ ν σ)
    (read : readNarinfo lib text url = .ok narinfo)
    (valid : validNarinfo lib sha256 status narinfo = .ok true)
    (newline : (aboveSignature text).bind getLast? = some '\n') :
    ∃ above fields signed signature, aboveSignature text = some above ∧
      narinfo.signature = some signature ∧
      status signature (sha256 (encode above)) = .validSignature ∧
      fieldsToAlist lib above = .ok fields ∧ readNarinfo lib above url = .ok signed ∧
      narinfo.path = signed.path ∧ narinfo.narHash = signed.narHash ∧
      narinfo.references = signed.references ∧
      (str "NarSize" ∈ fields.map (·.1) → narinfo.narSize = signed.narSize) ∧
      (str "Deriver" ∈ fields.map (·.1) → narinfo.deriver = signed.deriver) ∧
      (str "System" ∈ fields.map (·.1) → narinfo.system = signed.system) ∧
      (str "Signature" ∈ fields.map (·.1) → narinfo.signature = signed.signature) := by
  obtain ⟨whole, readAll, made⟩ := bind_ok.mp read
  obtain ⟨uris, isUris, made⟩ := bind_ok.mp made
  obtain ⟨references, isReferences⟩ : ∃ references, assocRef whole (str "References") = some references := by
    cases isReferences : assocRef whole (str "References") with
    | none =>
      rw [isReferences] at made
      cases made
    | some references => exact ⟨references, rfl⟩
  rw [isReferences] at made
  cases made
  obtain ⟨above, fields, signature, isAbove, readAbove, mandatory, signed, verified⟩ :=
    validNarinfo_signed lib valid
  dsimp only at isAbove signed ⊢
  rw [isAbove] at newline
  -- the fields above the signature are the first ones of the whole text
  obtain ⟨i, found, rfl⟩ := map_eq_some_iff.mp isAbove
  obtain ⟨rest, split⟩ := stringContains_split _ _ _ found
  have wholeRead := (fieldsToAlist_ok lib text whole).mp readAll
  rw [split] at wholeRead
  obtain ⟨fields', later, readFields, isWhole⟩ :=
    recutilsToAlist_above lib.sets (.inr newline) wholeRead
  obtain rfl : fields = fields' := by
    rw [(fieldsToAlist_ok lib _ _).mpr readFields] at readAbove
    exact (ok.inj readAbove).symm
  have same : ∀ key ∈ fields.map (·.1), assocRef whole key = assocRef fields key := by
    intro key isKey
    rw [isWhole, assocRef_append fields later isKey]
  have samePath := same _ (mandatory (str "StorePath") (by simp [mandatoryFields]))
  have sameHash := same _ (mandatory (str "NarHash") (by simp [mandatoryFields]))
  have sameReferences := same _ (mandatory (str "References") (by simp [mandatoryFields]))
  -- so reading the signed text alone succeeds too
  rw [isWhole, multipleValues_append] at isUris
  obtain ⟨first, isFirst, _⟩ := mapM_append_ok isUris
  rw [sameReferences] at isReferences
  have alone : alistToNarinfo lib (text.take i) url fields = .ok _ :=
    bind_ok.mpr ⟨first, isFirst, by rw [isReferences]; rfl⟩
  refine ⟨text.take i, fields, _, signature, isAbove, signed, verified, readAbove,
    bind_ok.mpr ⟨fields, readAbove, alone⟩, samePath, sameHash, rfl, ?_, ?_, ?_, ?_⟩
  all_goals
    intro isKey
    simp only [same _ isKey]

end Narinfo

/-! ### A narinfo with fields after its signature -/

/-- ASCII character sets, and strings that stand for themselves. -/
def asciiLibrary : NarinfoLibrary Str Str Str where
  sets := {
    upperCase := Char.isUpper
    lowerCase := Char.isLower
    whitespace := Char.isWhitespace
    graphic := fun c => !c.isWhitespace
    upperCase_ascii := fun _ isUpper => isUpper
  }
  stringToUri := some
  stringToNumber := some
  isOne := (· == str "1")
  canonicalSexp := some

def tamperedNarinfo : Str :=
  str "StorePath: a\nNarHash: b\nReferences: c d\nSignature: 1;h;s\nURL: u\nNarHash: e\n+ f\n"

theorem validNarinfo_reads_signed_text_tampered :
    ∃ (sha256 : Sha256) (narinfo : Narinfo Str Str Str),
      readNarinfo asciiLibrary tamperedNarinfo none = .ok narinfo ∧
      validNarinfo asciiLibrary sha256 (fun _ _ => .validSignature) narinfo = .ok true ∧
      narinfo.narHash = some (str "b") ∧ narinfo.references = [str "c", str "d"] ∧
      ∃ above signed, aboveSignature tamperedNarinfo = some above ∧
        readNarinfo asciiLibrary above none = .ok signed ∧ narinfo.narHash = signed.narHash := by
  let zero : Sha256 := fun _ => ⟨Hash.ofType .sha256, rfl⟩
  let narinfo : Narinfo Str Str Str := {
    path := some (str "a")
    uriBase := none
    uris := [some (str "u")]
    compressions := []
    fileSizes := [none]
    fileHashes := [none]
    narHash := some (str "b")
    narSize := none
    references := [str "c", str "d"]
    deriver := none
    system := none
    signature := some (str "s")
    contents := tamperedNarinfo
  }
  have evaluated : readNarinfo asciiLibrary tamperedNarinfo none = .ok narinfo ∧
      validNarinfo asciiLibrary zero (fun _ _ => .validSignature) narinfo = .ok true ∧
      (aboveSignature tamperedNarinfo).bind getLast? = some '\n' := by decide +kernel
  obtain ⟨read, valid, newline⟩ := evaluated
  obtain ⟨above, _, signed, _, isAbove, _, _, _, alone, _, sameHash, _⟩ :=
    validNarinfo_reads_signed_text asciiLibrary zero (fun _ _ => .validSignature) tamperedNarinfo none
      narinfo read valid newline
  exact ⟨zero, narinfo, read, valid, rfl, rfl, above, signed, isAbove, alone, sameHash⟩

end Guix.Client
