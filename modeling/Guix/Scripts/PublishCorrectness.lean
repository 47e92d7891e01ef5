import Guix.Client.NarinfoCorrectness
import Guix.Lib.Separated
import Guix.Scripts.Publish

/-!
# Narinfos are read back

The text of `narinfo-string` consists of fields, one on each line, so that the reader finds the same
fields, and the signed part ends where the reader looks for its end. The reader collects the URLs,
the compressions and the file sizes in three lists. They fit together if there is a size for each
compression or for none of them.
-/

namespace Guix.Scripts.Publish

open Guix.Client List UInt32

/-! ### Fields -/

section Fields

variable (sets : CharSets)

/-- A field on a line of its own. -/
def renderField (field : Str × Str) : Str := field.1 ++ str ": " ++ field.2 ++ str "\n"

def renderFields (fields : Alist) : Str := fields.flatMap renderField

/-- The field survives being written to a line. -/
structure WellFormed (field : Str × Str) : Prop where
  capital : ∃ first rest, field.1 = first :: rest ∧ first.isUpper
  noColon : ':' ∉ field.1
  keyLine : '\n' ∉ field.1
  valueLine : '\n' ∉ field.2
  trimmed : field.2.dropWhile sets.whitespace = field.2

theorem readLines_renderFields {fields : Alist} (wellFormed : ∀ field ∈ fields, WellFormed sets field) :
    readLines [] (renderFields fields) = fields.map fun field => field.1 ++ str ": " ++ field.2 := by
  induction fields with
  | nil => rfl
  | cons field fields ih =>
    have isField := wellFormed field mem_cons_self
    have oneLine : '\n' ∉ field.1 ++ str ": " ++ field.2 := by
      simp [isField.keyLine, isField.valueLine, str]
    have rest := ih (forall_mem_cons.mp wellFormed).2
    have text : renderFields (field :: fields) =
        (field.1 ++ str ": " ++ field.2) ++ ('\n' :: renderFields fields) := by
      simp [renderFields, renderField, str]
    rw [text, readLines_append [] _ _ oneLine, readLines, if_pos rfl, rest]
    simp

variable (space : sets.whitespace ' ' = true)
include space

theorem recutilsLoop_field {field : Str × Str} (wellFormed : WellFormed sets field) (port : List Str)
    (result : Alist) :
    recutilsLoop sets ((field.1 ++ str ": " ++ field.2) :: port) result =
      recutilsLoop sets port (field :: result) := by
  obtain ⟨first, rest, isKey, isUpper⟩ := wellFormed.capital
  have inCharset : recutilsFieldCharset sets first = true := by
    simp [recutilsFieldCharset, sets.upperCase_ascii first isUpper]
  have line : field.1 ++ str ": " ++ field.2 = first :: (rest ++ str ": " ++ field.2) := by
    simp [isKey]
  have split : field.1 ++ str ": " ++ field.2 = field.1 ++ ':' :: ' ' :: field.2 := by
    simp [str]
  have colon : (field.1 ++ str ": " ++ field.2).idxOf? ':' = some field.1.length := by
    have before : field.1.findIdx? (· == ':') = none := by
      rw [findIdx?_eq_none_iff]
      intro c member
      simpa using ne_of_mem_of_not_mem member wellFormed.noColon
    rw [split, idxOf?, findIdx?_append, before]
    simp [findIdx?_cons]
  have value : stringTrim sets ((field.1 ++ str ": " ++ field.2).drop (1 + field.1.length)) = field.2 := by
    rw [split, Nat.add_comm, ← drop_drop, drop_left, stringTrim]
    simp [space, wellFormed.trimmed]
  have key : (field.1 ++ str ": " ++ field.2).take field.1.length = field.1 := by
    rw [split, take_left]
  rw [line] at colon value key
  rw [line, recutilsLoop, if_pos inCharset]
  simp only [colon, value, key]

theorem recutilsToAlist_renderFields {fields : Alist} (wellFormed : ∀ field ∈ fields, WellFormed sets field) :
    recutilsToAlist sets (renderFields fields) = .ok fields := by
  have loop : ∀ fields result : Alist, (∀ field ∈ fields, WellFormed sets field) →
      recutilsLoop sets (fields.map fun field => field.1 ++ str ": " ++ field.2) result =
        .ok (result.reverse ++ fields) := by
    intro fields
    induction fields with
    | nil => simp [recutilsLoop]
    | cons field fields ih =>
      intro result wellFormed
      rw [map_cons, recutilsLoop_field sets space (wellFormed field mem_cons_self),
        ih _ (forall_mem_cons.mp wellFormed).2]
      simp
  rw [recutilsToAlist, readLines_renderFields sets wellFormed, loop fields [] wellFormed]
  rfl

end Fields

/-! ### The end of the signed part -/

/-- A text that starts with `Signature:` has `Signature` before its first colon. -/
theorem isPrefixOf_signature {segment : Str} (rest : Str) (noColon : ':' ∉ segment) :
    (str "Signature:").isPrefixOf (segment ++ ':' :: rest) = true ↔ segment = str "Signature" := by
  have split : str "Signature:" = str "Signature" ++ [':'] := rfl
  rw [ isPrefixOf_iff_prefix]
  constructor
  · rintro ⟨tail, same⟩
    exact (Separated.first_part (by decide) noColon same).1.symm
  · rintro rfl
    exact ⟨rest, by simp [split]⟩

/-- The search passes over a text in which nothing starts with the pattern. -/
theorem stringContains_skip {pattern : Str} (front rest : Str)
    (other : ∀ back, back ≠ [] → back <:+ front → ¬ pattern.isPrefixOf (back ++ rest) = true) :
    stringContains pattern (front ++ rest) = (stringContains pattern rest).map (· + front.length) := by
  induction front with
  | nil => simp
  | cons c front ih =>
    have differs := other (c :: front) (cons_ne_nil c front) suffix_rfl
    have later := ih fun back nonempty isSuffix => other back nonempty (isSuffix.trans (suffix_cons c front))
    rw [cons_append] at differs ⊢
    rw [stringContains, if_neg differs, later, Option.map_map]
    rfl

/-- Between two colons there is no `Signature:` unless it ends at the second one. -/
theorem stringContains_segment (segment rest : Str) (noColon : ':' ∉ segment)
    (other : ¬ str "Signature" <:+ segment) :
    stringContains (str "Signature:") (segment ++ ':' :: rest) =
      (stringContains (str "Signature:") rest).map (· + (segment.length + 1)) := by
  have skip : stringContains (str "Signature:") (':' :: rest) =
      (stringContains (str "Signature:") rest).map (· + 1) := rfl
  rw [stringContains_skip, skip, Option.map_map]
  · congr 1
    funext position
    exact (Nat.add_assoc position 1 _).trans (by rw [Nat.add_comm 1])
  · intro back _ isSuffix
    rw [isPrefixOf_signature rest fun member => noColon (isSuffix.subset member)]
    rintro rfl
    exact other isSuffix

theorem stringContains_signature (segment rest : Str) (noColon : ':' ∉ segment) :
    stringContains (str "Signature:") (segment ++ (str "Signature:" ++ rest)) = some segment.length := by
  have split : str "Signature:" ++ rest = str "Signature" ++ ':' :: rest := rfl
  have found : stringContains (str "Signature:") (str "Signature:" ++ rest) = some 0 := by
    have isPrefix := (isPrefixOf_signature rest (by decide : ':' ∉ str "Signature")).mpr rfl
    exact if_pos isPrefix
  rw [stringContains_skip, found, Option.map_some, Nat.zero_add]
  intro back nonempty isSuffix
  have noColon' : ':' ∉ back ++ str "Signature" := by
    rw [mem_append, not_or]
    exact ⟨fun member => noColon (isSuffix.subset member), by decide⟩
  rw [split, ← append_assoc, isPrefixOf_signature rest noColon']
  exact fun same => nonempty (append_left_eq_self.mp same)

/-- The search passes over all colons that do not end the field name. -/
theorem stringContains_segments {segments : List Str} {last : Str} (rest : Str)
    (isSegment : ∀ segment ∈ segments, ':' ∉ segment ∧ ¬ str "Signature" <:+ segment) (noColon : ':' ∉ last) :
    stringContains (str "Signature:")
      (segments.flatMap (fun segment => segment ++ [':']) ++ last ++ (str "Signature:" ++ rest)) =
      some (segments.flatMap (fun segment => segment ++ [':']) ++ last).length := by
  induction segments with
  | nil => simpa using stringContains_signature last rest noColon
  | cons segment segments ih =>
    obtain ⟨segmentNoColon, other⟩ := isSegment segment mem_cons_self
    have later := ih (forall_mem_cons.mp isSegment).2
    have split : (segment :: segments).flatMap (fun segment => segment ++ [':']) ++ last ++ (str "Signature:" ++ rest) =
        segment ++ ':' :: (segments.flatMap (fun segment => segment ++ [':']) ++ last ++ (str "Signature:" ++ rest)) := by
      simp
    rw [split, stringContains_segment segment _ segmentNoColon other, later]
    simp only [Option.map_some, flatMap_cons, length_append, length_cons, length_nil,
      Option.some.injEq]
    omega

/-! ### Tokens -/

theorem stringTokenize_intercalate {graphic : Char → Bool} {names : List Str} (space : graphic ' ' = false)
    (isName : ∀ name ∈ names, name ≠ [] ∧ ∀ c ∈ name, graphic c) :
    stringTokenize graphic [] ((str " ").intercalate names) = names := by
  induction names with
  | nil => rfl
  | cons name names ih =>
    obtain ⟨nonempty, isGraphic⟩ := isName name mem_cons_self
    have rest := ih (forall_mem_cons.mp isName).2
    cases names with
    | nil =>
      have token := stringTokenize_token [] [] isGraphic
      rw [append_nil] at token
      rw [intercalate_singleton, token]
      simp [stringTokenize, nonempty]
    | cons next names =>
      rw [intercalate_cons_cons, append_assoc, stringTokenize_token [] _ isGraphic]
      have separator : str " " ++ (str " ").intercalate (next :: names) =
          ' ' :: (str " ").intercalate (next :: names) := rfl
      rw [separator, stringTokenize, if_neg (by simp [space]), nil_append, if_neg nonempty, rest]

theorem stringSplit_append (separator : Char) (field text rest : Str) (without : separator ∉ text) :
    stringSplit separator field (text ++ rest) = stringSplit separator (field ++ text) rest := by
  induction text generalizing field with
  | nil => simp
  | cons c text ih =>
    have differs : c ≠ separator := fun same => without (same ▸ mem_cons_self)
    rw [cons_append, stringSplit, if_neg differs, ih _ (not_mem_of_not_mem_cons without)]
    simp

/-! ### Store items -/

/-- The characters that names of store items consist of. -/
def isNameChar (c : Char) : Bool := c.isAlphanum || c ∈ str "+-._?="

/-- ASCII characters other than control characters and the space. -/
def isVisible (c : Char) : Bool := '!' ≤ c && c ≤ '~'

/-- The path is a name in the store. -/
def IsStoreItem (storeDirectory path : Str) : Prop :=
  ∃ name, path = storeDirectory ++ '/' :: name ∧ name ≠ [] ∧ ∀ c ∈ name, isNameChar c

/-- The path info is that of a valid path. -/
structure ValidInfo (storeDirectory storePath : Str) (pathInfo : PathInfo) : Prop where
  directory : ∀ c ∈ storeDirectory, c = '/' ∨ isNameChar c
  item : IsStoreItem storeDirectory storePath
  references : ∀ reference ∈ pathInfo.references, IsStoreItem storeDirectory reference
  deriver : ∀ deriver ∈ pathInfo.deriver, IsStoreItem storeDirectory deriver

variable {c : Char}

theorem isVisible_of_isNameChar (isName : isNameChar c) : isVisible c := by
  rw [isNameChar, Bool.or_eq_true] at isName
  rcases isName with alphanumeric | mark
  · have ranges : c.isAlphanum = ((decide (c.val ≥ 65 ∧ c.val ≤ 90) || (c.val ≥ 97 && c.val ≤ 122)) ||
        (c.val ≥ 48 && c.val ≤ 57)) := rfl
    simp only [ranges, Bool.or_eq_true, Bool.and_eq_true, decide_eq_true_eq, ge_iff_le,
      le_iff_toNat_le, reduceToNat] at alphanumeric
    simp only [isVisible, Bool.and_eq_true, decide_eq_true_eq, Char.le_def, le_iff_toNat_le,
      Char.reduceVal, reduceToNat]
    omega
  · have all : ∀ c ∈ str "+-._?=", isVisible c = true := by decide
    exact all c (of_decide_eq_true mark)

theorem basename_eq (storeDirectory name : Str) (nonempty : name ≠ []) (isName : ∀ c ∈ name, isNameChar c) :
    basename (storeDirectory ++ '/' :: name) = name := by
  have noSlash : ∀ c ∈ name.reverse, c ≠ '/' := by
    rintro c member rfl
    exact absurd (isName _ (mem_reverse.mp member)) (by decide)
  have reversed : (storeDirectory ++ '/' :: name).reverse = name.reverse ++ '/' :: storeDirectory.reverse := by
    simp
  have start : (name.reverse ++ '/' :: storeDirectory.reverse).dropWhile (· = '/') =
      name.reverse ++ '/' :: storeDirectory.reverse := by
    cases last : name.reverse with
    | nil => exact absurd (reverse_eq_nil_iff.mp last) nonempty
    | cons c rest =>
      simpa using noSlash c (by simp [last])
  rw [basename, reversed, start, takeWhile_append_of_pos (by simpa using noSlash)]
  simp

theorem isVisible_and_ne_colon (isName : isNameChar c) : isVisible c ∧ c ≠ ':' := by
  refine ⟨isVisible_of_isNameChar isName, ?_⟩
  rintro rfl
  exact absurd isName (by decide)

/-- The name of an item is visible, not empty and without a colon. -/
theorem IsStoreItem.basename {storeDirectory path : Str} (isItem : IsStoreItem storeDirectory path) :
    basename path ≠ [] ∧ ∀ c ∈ basename path, isVisible c ∧ c ≠ ':' := by
  obtain ⟨name, rfl, nonempty, isName⟩ := isItem
  rw [basename_eq storeDirectory name nonempty isName]
  exact ⟨nonempty, fun c member => isVisible_and_ne_colon (isName c member)⟩

/-! ### The fields of a narinfo -/

variable {names : List Str} {fields : Alist} {key : Str}

section Narinfo

variable {υ ν σ : Type} (lib : NarinfoLibrary υ ν σ) (server : Server σ)

/-- What the reader and the server take from their libraries: character sets, numbers,
s-expressions and URIs behave as documented. -/
structure Laws (number : Nat → ν) (sexpOfString : Str → Option σ) (base : Str) : Prop where
  space : lib.sets.whitespace ' ' = true
  visible : ∀ c, isVisible c → lib.sets.whitespace c = false
  graphic : ∀ c, isVisible c → lib.sets.graphic c = true
  spaceNotGraphic : lib.sets.graphic ' ' = false
  readsDecimal : ∀ n, lib.stringToNumber (decimal n) = some (number n)
  one : lib.isOne (number 1)
  /-- `base64-decode`, `utf8->string` and `string->canonical-sexp`. -/
  canonicalSexp : ∀ s, lib.canonicalSexp s = (base64Decode s).bind fun bytes => (Utf8.decode bytes).bind sexpOfString
  sexp : ∀ s, sexpOfString (server.sexpToString s) = some s
  /-- URIs consist of visible characters, and those below the base URL can be parsed. -/
  urlVisible : ∀ parts, ∀ c ∈ server.encodeAndJoinUriPath parts, isVisible c
  url : ∀ parts, ∃ uri, narinfoUri lib (some base) (server.encodeAndJoinUriPath parts) = .ok (some uri)
  hostSemicolon : ';' ∉ server.hostName
  hostLine : '\n' ∉ server.hostName

variable (number : Nat → ν) (base storePath : Str) (pathInfo : PathInfo) (compressions : List Compression)
  (narPath : Str) (fileSizes : List (Compression × Nat))

def signedFields : Alist :=
  [(str "StorePath", storePath), (str "NarHash", str "sha256:" ++ nixBase32String pathInfo.hash),
    (str "NarSize", decimal pathInfo.narSize),
    (str "References", (str " ").intercalate (pathInfo.references.map basename))] ++
  pathInfo.deriver.toList.map fun deriver => (str "Deriver", basename deriver)

/-- The value of the field `Signature`. -/
def signatureValue : Str :=
  str "1" ++ ';' :: (server.hostName ++ ';' ::
    base64EncodeString (server.sexpToString (signedString server (signedPart storePath pathInfo))))

def narFields (narPath storePath : Str) (sizes : List (Compression × Nat)) (compression : Compression) : Alist :=
  [(str "URL", narUrl server narPath storePath compression), (str "Compression", compression.type.text)] ++
  (sizeRef sizes compression).toList.map fun size => (str "FileSize", decimal size)

theorem signedPart_eq : signedPart storePath pathInfo = renderFields (signedFields storePath pathInfo) := by
  cases deriver : pathInfo.deriver <;>
    simp [signedPart, signedFields, renderFields, renderField, deriver, str]

theorem storeItemToRecutils_eq (narPath storePath : Str) (sizes : List (Compression × Nat))
    (compression : Compression) :
    storeItemToRecutils server narPath storePath compression (sizeRef sizes compression) =
      renderFields (narFields server narPath storePath sizes compression) := by
  cases size : sizeRef sizes compression <;>
    simp [storeItemToRecutils, narFields, renderFields, renderField, size, str]

/-- The fields of a narinfo. -/
def narinfoFields : Alist :=
  signedFields storePath pathInfo ++ (str "Signature", signatureValue server storePath pathInfo) ::
    (actualCompressions storePath compressions).flatMap
      (narFields server narPath storePath (allFileSizes pathInfo fileSizes))

theorem narinfoString_eq :
    narinfoString server storePath pathInfo compressions narPath fileSizes =
      renderFields (narinfoFields server storePath pathInfo compressions narPath fileSizes) := by
  have nars : ∀ compressions : List Compression,
      (compressions.flatMap fun compression => storeItemToRecutils server narPath storePath compression
        (sizeRef (allFileSizes pathInfo fileSizes) compression)) =
      renderFields (compressions.flatMap
        (narFields server narPath storePath (allFileSizes pathInfo fileSizes))) := by
    intro compressions
    simp only [storeItemToRecutils_eq, renderFields, flatMap_assoc]
  simp only [narinfoString, narinfoFields, nars]
  simp [renderFields, renderField, signatureValue, signedPart_eq, str]

section Values

variable {server storePath pathInfo compressions narPath fileSizes} {storeDirectory : Str}
  {sizes : List (Compression × Nat)} {compression : Compression}

theorem isNameChar_nixBase32String (bytes : Bytes) : ∀ c ∈ nixBase32String bytes, isNameChar c := by
  have digit : ∀ i, isNameChar (nixBase32Chars.getD i '0') = true := by
    intro i
    rw [getD_eq_getElem?_getD]
    cases found : nixBase32Chars[i]? with
    | none => rfl
    | some c =>
      have all : ∀ c ∈ nixBase32Chars, isNameChar c = true := by decide
      exact all c (mem_of_getElem? found)
  have fold : ∀ (j : Nat) (r : Str), (∀ c ∈ r, isNameChar c) → ∀ c ∈ foldQuintets bytes j r, isNameChar c := by
    intro j
    induction j with
    | zero => exact fun r isName => isName
    | succ j ih =>
      intro r isName
      exact ih _ (forall_mem_cons.mpr ⟨digit _, isName⟩)
  intro c member
  exact fold _ [] (by simp) c (mem_reverse.mp member)

theorem isNameChar_decimal (n : Nat) : ∀ c ∈ decimal n, isNameChar c := by
  intro c member
  have isDigit := Nat.isDigit_of_mem_toDigits (by decide) (by decide) member
  have alphanumeric : c.isAlphanum = (c.isAlpha || c.isDigit) := rfl
  simp [isNameChar, alphanumeric, isDigit]

theorem noColon_of_isNameChar {text : Str} (isName : ∀ c ∈ text, isNameChar c) : ':' ∉ text :=
  fun member => (isVisible_and_ne_colon (isName _ member)).2 rfl

theorem mem_intercalate_space (member : c ∈ (str " ").intercalate names) :
    c = ' ' ∨ ∃ name ∈ names, c ∈ name := by
  induction names with
  | nil => simp at member
  | cons name names ih =>
    cases names with
    | nil => exact .inr ⟨name, by simp, by simpa using member⟩
    | cons next names =>
      rw [intercalate_cons_cons, mem_append, mem_append] at member
      rcases member with (inName | space) | later
      · exact .inr ⟨name, by simp, inName⟩
      · exact .inl (by simpa [str] using space)
      · rcases ih later with space | ⟨other, isOther, inOther⟩
        · exact .inl space
        · exact .inr ⟨other, mem_cons_of_mem name isOther, inOther⟩

theorem ValidInfo.isVisible_path (valid : ValidInfo storeDirectory storePath pathInfo) : ∀ c ∈ storePath, isVisible c ∧ c ≠ ':' := by
  obtain ⟨name, rfl, -, isName⟩ := valid.item
  rw [forall_mem_append, forall_mem_cons]
  refine ⟨fun c inDirectory => ?_, by decide, fun c inName => isVisible_and_ne_colon (isName c inName)⟩
  rcases valid.directory c inDirectory with rfl | isName'
  · decide
  · exact isVisible_and_ne_colon isName'

theorem ValidInfo.isName_reference (valid : ValidInfo storeDirectory storePath pathInfo) :
    ∀ name ∈ pathInfo.references.map basename, name ≠ [] ∧ ∀ c ∈ name, isVisible c ∧ c ≠ ':' := by
  intro name member
  obtain ⟨reference, isReference, rfl⟩ := mem_map.mp member
  exact (valid.references reference isReference).basename

theorem noColon_of_isNames (isName : ∀ name ∈ names, name ≠ [] ∧ ∀ c ∈ name, isVisible c ∧ c ≠ ':') :
    ':' ∉ (str " ").intercalate names := by
  intro member
  rcases mem_intercalate_space member with space | ⟨name, isMember, inName⟩
  · exact absurd space (by decide)
  · exact ((isName name isMember).2 _ inName).2 rfl

theorem base64_chars (bytes : Bytes) : ';' ∉ base64Encode bytes ∧ '\n' ∉ base64Encode bytes := by
  have other : ∀ c, c ∉ base64Alphabet → c ≠ '=' → c ∉ base64Encode bytes := by
    intro c notInAlphabet notPadding member
    rcases mem_base64Encode bytes c member with inAlphabet | isPadding
    · exact notInAlphabet inAlphabet
    · exact notPadding isPadding
  exact ⟨other _ (by decide) (by decide), other _ (by decide) (by decide)⟩

theorem noColon_append {a b c : Str} (inB : ':' ∉ b) (apart : ':' ∉ a ∧ ':' ∉ c) : ':' ∉ a ++ b ++ c := by
  simp [apart, inB]

/-- A text between fixed ones is a segment that does not end in the name of the field. -/
theorem segment_append {a b c : Str} (inB : ':' ∉ b) (apart : ':' ∉ a ∧ ':' ∉ c)
    (other : ¬ c <:+ str "Signature" ∧ ¬ str "Signature" <:+ c) :
    ':' ∉ a ++ b ++ c ∧ ¬ str "Signature" <:+ a ++ b ++ c := by
  refine ⟨noColon_append inB apart, fun isSuffix => ?_⟩
  rcases suffix_or_suffix_of_suffix isSuffix (suffix_append _ c) with long | short
  · exact other.2 long
  · exact other.1 short

/-- The signed part ends where the reader looks for its end: it has no field whose name ends in
`Signature`, and no other colons but the one after the hash algorithm. -/
theorem stringContains_signedPart
    (valid : ValidInfo storeDirectory storePath pathInfo) (rest : Str) :
    stringContains (str "Signature:") (signedPart storePath pathInfo ++ (str "Signature:" ++ rest)) =
      some (signedPart storePath pathInfo).length := by
  have inPath : ':' ∉ storePath := fun member => (valid.isVisible_path _ member).2 rfl
  have inHash := noColon_of_isNameChar (isNameChar_nixBase32String pathInfo.hash)
  have inSize := noColon_of_isNameChar (isNameChar_decimal pathInfo.narSize)
  have inReferences := noColon_of_isNames valid.isName_reference
  let segments := [str "StorePath", str " " ++ storePath ++ str "\nNarHash", str " sha256",
    [] ++ nixBase32String pathInfo.hash ++ str "\nNarSize", str " " ++ decimal pathInfo.narSize ++ str "\nReferences"]
  have isSegment : ∀ segment ∈ segments, ':' ∉ segment ∧ ¬ str "Signature" <:+ segment := by
    simp only [segments, forall_mem_cons, not_mem_nil, false_imp_iff, implies_true, and_true]
    refine ⟨by decide, ?_, by decide, ?_, ?_⟩
    · exact segment_append inPath (by decide) (by decide)
    · exact segment_append inHash (by decide) (by decide)
    · exact segment_append inSize (by decide) (by decide)
  cases isDeriver : pathInfo.deriver with
  | none =>
    have split : signedPart storePath pathInfo = segments.flatMap (fun segment => segment ++ [':']) ++
        (str " " ++ (str " ").intercalate (pathInfo.references.map basename) ++ str "\n") := by
      simp [signedPart, isDeriver, segments, str]
    rw [split]
    exact stringContains_segments rest isSegment (noColon_append inReferences (by decide))
  | some deriver =>
    have inDeriver : ':' ∉ basename deriver := fun member =>
      ((valid.deriver deriver isDeriver).basename.2 _ member).2 rfl
    have split : signedPart storePath pathInfo =
        (segments ++ [str " " ++ (str " ").intercalate (pathInfo.references.map basename) ++ str "\nDeriver"]).flatMap
          (fun segment => segment ++ [':']) ++ (str " " ++ basename deriver ++ str "\n") := by
      simp [signedPart, isDeriver, segments, str]
    rw [split]
    refine stringContains_segments rest ?_ (noColon_append inDeriver (by decide))
    rw [forall_mem_append, forall_mem_singleton]
    exact ⟨isSegment, segment_append inReferences (by decide) (by decide)⟩

theorem aboveSignature_narinfoString (valid : ValidInfo storeDirectory storePath pathInfo) :
    aboveSignature (narinfoString server storePath pathInfo compressions narPath fileSizes) =
      some (signedPart storePath pathInfo) := by
  have split : ∃ rest, narinfoString server storePath pathInfo compressions narPath fileSizes =
      signedPart storePath pathInfo ++ (str "Signature:" ++ rest) := by
    simp [narinfoString, str]
  obtain ⟨rest, split⟩ := split
  rw [aboveSignature, split, stringContains_signedPart valid rest]
  simp

theorem key_signedFields {field : Str × Str} (member : field ∈ signedFields storePath pathInfo) :
    field.1 ∈ [str "StorePath", str "NarHash", str "NarSize", str "References", str "Deriver"] := by
  simp only [signedFields, mem_append, mem_cons, not_mem_nil, or_false, mem_map,
    Option.mem_toList] at member
  rcases member with (rfl | rfl | rfl | rfl) | ⟨deriver, -, rfl⟩ <;> simp

theorem key_narFields {field : Str × Str}
    (member : field ∈ narFields server narPath storePath sizes compression) :
    field.1 ∈ [str "URL", str "Compression", str "FileSize"] := by
  simp only [narFields, mem_append, mem_cons, not_mem_nil, or_false, mem_map,
    Option.mem_toList] at member
  rcases member with (rfl | rfl) | ⟨size, -, rfl⟩ <;> simp

theorem multipleValues_eq_nil (other : ∀ field ∈ fields, field.1 ≠ key) :
    multipleValues fields key = [] := by
  rw [multipleValues, filterMap_eq_nil_iff]
  intro field member
  rw [if_neg (other field member)]

/-- What the reader collects for the keys that may occur several times comes from the nars. -/
theorem multipleValues_narinfoFields
    (other : key ∉ [str "StorePath", str "NarHash", str "NarSize", str "References", str "Deriver", str "Signature"]) :
    multipleValues (narinfoFields server storePath pathInfo compressions narPath fileSizes) key =
      (actualCompressions storePath compressions).flatMap fun compression =>
        multipleValues (narFields server narPath storePath (allFileSizes pathInfo fileSizes) compression) key := by
  have signed : multipleValues (signedFields storePath pathInfo) key = [] := by
    refine multipleValues_eq_nil fun field member same => other ?_
    have isKey := key_signedFields member
    rw [same] at isKey
    exact mem_append_left [str "Signature"] isKey
  have signature : str "Signature" ≠ key := fun same => other (by simp [← same])
  rw [narinfoFields, multipleValues_append, signed, nil_append]
  rw [multipleValues, filterMap_cons_none (by simp [signature]), filterMap_flatMap]
  rfl

theorem multipleValues_narFields :
    multipleValues (narFields server narPath storePath sizes compression) (str "URL") =
        [narUrl server narPath storePath compression] ∧
      multipleValues (narFields server narPath storePath sizes compression) (str "Compression") =
        [compression.type.text] ∧
      multipleValues (narFields server narPath storePath sizes compression) (str "FileHash") = [] ∧
      multipleValues (narFields server narPath storePath sizes compression) (str "FileSize") =
        ((sizeRef sizes compression).map decimal).toList := by
  cases size : sizeRef sizes compression <;> simp [multipleValues, narFields, size, str]

theorem multipleValues_nars
    (isFields : fields = narinfoFields server storePath pathInfo compressions narPath fileSizes) :
    multipleValues fields (str "URL") =
        (actualCompressions storePath compressions).map (narUrl server narPath storePath) ∧
      multipleValues fields (str "Compression") =
        (actualCompressions storePath compressions).map (fun compression => compression.type.text) ∧
      multipleValues fields (str "FileHash") = [] ∧
      multipleValues fields (str "FileSize") = ((actualCompressions storePath compressions).filterMap
        (sizeRef (allFileSizes pathInfo fileSizes))).map decimal := by
  rw [isFields]
  refine ⟨?_, ?_, ?_, ?_⟩ <;>
    rw [multipleValues_narinfoFields (by decide)] <;>
    simp only [multipleValues_narFields]
  · exact map_eq_flatMap.symm
  · exact map_eq_flatMap.symm
  · simp
  · simp only [filterMap_eq_flatMap_toList, map_flatMap, Option.toList_map]

theorem assocRef_narinfoFields
    (isFields : fields = narinfoFields server storePath pathInfo compressions narPath fileSizes) :
    assocRef fields (str "StorePath") = some storePath ∧
      assocRef fields (str "NarHash") = some (str "sha256:" ++ nixBase32String pathInfo.hash) ∧
      assocRef fields (str "NarSize") = some (decimal pathInfo.narSize) ∧
      assocRef fields (str "References") = some ((str " ").intercalate (pathInfo.references.map basename)) ∧
      assocRef fields (str "Deriver") = pathInfo.deriver.map basename ∧
      assocRef fields (str "Signature") = some (signatureValue server storePath pathInfo) := by
  rw [isFields]
  refine ⟨?_, ?_, ?_, ?_, ?_, ?_⟩
  · simp [assocRef, narinfoFields, signedFields]
  · simp [assocRef, narinfoFields, signedFields, str]
  · simp [assocRef, narinfoFields, signedFields, str]
  · simp [assocRef, narinfoFields, signedFields, str]
  · have later : ((actualCompressions storePath compressions).flatMap
        (narFields server narPath storePath (allFileSizes pathInfo fileSizes))).find?
        (fun entry => entry.1 == str "Deriver") = none := by
      rw [find?_eq_none]
      intro field member
      obtain ⟨compression, -, isField⟩ := mem_flatMap.mp member
      have isKey := key_narFields isField
      intro same
      rw [eq_of_beq same] at isKey
      exact absurd isKey (by decide)
    cases isDeriver : pathInfo.deriver with
    | some deriver => simp [assocRef, narinfoFields, signedFields, isDeriver, str]
    | none =>
      have front : (signedFields storePath pathInfo).find? (fun entry => entry.1 == str "Deriver") = none := by
        simp [signedFields, isDeriver, str]
      rw [assocRef, narinfoFields, find?_append, front, Option.none_or,
        find?_cons_of_neg (by simp [str]), later]
      rfl
  · cases isDeriver : pathInfo.deriver <;> simp [assocRef, narinfoFields, signedFields, isDeriver, str]

/-- The URI that a client makes of a URL. -/
def resolvedUri (lib : NarinfoLibrary υ ν σ) (base url : Str) : Option υ :=
  match narinfoUri lib (some base) url with
  | .ok uri => uri
  | .error _ => none

end Values

/-- What is published: the URI for each compression, with the compression and the size of the file. -/
def published : List (Choice υ ν) :=
  (actualCompressions storePath compressions).map fun compression =>
    (resolvedUri lib base (narUrl server narPath storePath compression), compression.type.text,
      (sizeRef (allFileSizes pathInfo fileSizes) compression).map number)

/-- What the reader makes of the text. -/
structure ReadBack (narinfo : Narinfo υ ν σ) : Prop where
  path : narinfo.path = some storePath
  narHash : narinfo.narHash = some (str "sha256:" ++ nixBase32String pathInfo.hash)
  narSize : narinfo.narSize = some (number pathInfo.narSize)
  references : narinfo.references = pathInfo.references.map basename
  deriver : narinfo.deriver = pathInfo.deriver.map basename
  signature : narinfo.signature = some (signedString server (signedPart storePath pathInfo))
  contents : narinfo.contents = narinfoString server storePath pathInfo compressions narPath fileSizes
  uris : narinfo.uris = (actualCompressions storePath compressions).map (fun compression =>
    resolvedUri lib base (narUrl server narPath storePath compression))
  types : narinfo.compressions =
    (actualCompressions storePath compressions).map (fun compression => compression.type.text)
  sizes : narinfo.fileSizes = fileNumbers lib
    ((actualCompressions storePath compressions).map (narUrl server narPath storePath))
    (((actualCompressions storePath compressions).filterMap (sizeRef (allFileSizes pathInfo fileSizes))).map decimal)

/-- The narinfo says what the server has. -/
structure Describes (status : σ → Sha256Hash → SignatureStatus) (lib : NarinfoLibrary υ ν σ) (server : Server σ)
    (number : Nat → ν) (base storePath : Str) (pathInfo : PathInfo) (compressions : List Compression)
    (narPath : Str) (fileSizes : List (Compression × Nat)) (narinfo : Narinfo υ ν σ) : Prop where
  path : narinfo.path = some storePath
  narHash : narinfo.narHash = some (str "sha256:" ++ nixBase32String pathInfo.hash)
  narSize : narinfo.narSize = some (number pathInfo.narSize)
  references : narinfo.references = pathInfo.references.map basename
  deriver : narinfo.deriver = pathInfo.deriver.map basename
  valid : validNarinfo lib server.sha256 status narinfo = .ok true
  choices : narinfo.choices =
    published lib server number base storePath pathInfo compressions narPath fileSizes
  offered : ∀ zstd integer fast choice, choice ∈ narinfoPreferredUris zstd integer fast narinfo ↔
    choice ∈ published lib server number base storePath pathInfo compressions narPath fileSizes ∧
      supportedCompression zstd choice.2.1

/-- The sizes are known for all of the compressions or for none of them. -/
def AllOrNone : Prop :=
  (∀ compression ∈ actualCompressions storePath compressions,
    (sizeRef (allFileSizes pathInfo fileSizes) compression).isSome) ∨
  ∀ compression ∈ actualCompressions storePath compressions,
    sizeRef (allFileSizes pathInfo fileSizes) compression = none

theorem mem_narinfoPreferredUris (zstd : Bool) (integer : ν → Option Int) (fast : Bool)
    (narinfo : Narinfo υ ν σ) (choice : Choice υ ν) :
    choice ∈ narinfoPreferredUris zstd integer fast narinfo ↔
      choice ∈ narinfo.choices ∧ supportedCompression zstd choice.2.1 := by
  simp [narinfoPreferredUris, mem_mergeSort]

section Reading

variable {lib server number base storePath pathInfo compressions narPath fileSizes}
  {sexpOfString : Str → Option σ} (laws : Laws lib server number sexpOfString base) {storeDirectory : Str}
include laws

/-- A value of visible characters survives being written to a line. -/
theorem Laws.wellFormed_visible {first : Char} {rest value : Str}
    (isKey : first.isUpper ∧ ':' ∉ first :: rest ∧ '\n' ∉ first :: rest) (isVisible : ∀ c ∈ value, isVisible c) :
    WellFormed lib.sets (first :: rest, value) where
  capital := ⟨first, rest, rfl, isKey.1⟩
  noColon := isKey.2.1
  keyLine := isKey.2.2
  valueLine member := absurd (isVisible _ member) (by decide)
  trimmed := by
    cases value with
    | nil => rfl
    | cons c value => rw [dropWhile_cons_of_neg (by simp [laws.visible c (isVisible c mem_cons_self)])]

theorem Laws.wellFormed_references
    (isName : ∀ name ∈ names, name ≠ [] ∧ ∀ c ∈ name, isVisible c ∧ c ≠ ':') :
    WellFormed lib.sets (str "References", (str " ").intercalate names) where
  capital := ⟨'R', str "eferences", rfl, by decide⟩
  noColon := (by decide : ':' ∉ str "References")
  keyLine := (by decide : '\n' ∉ str "References")
  valueLine member := by
    rcases mem_intercalate_space member with space | ⟨name, isMember, inName⟩
    · exact absurd space (by decide)
    · exact absurd ((isName name isMember).2 _ inName).1 (by decide)
  trimmed := by
    -- the first name starts with a visible character
    cases names with
    | nil => rfl
    | cons name names =>
      obtain ⟨nonempty, visible⟩ := isName name mem_cons_self
      cases name with
      | nil => exact absurd rfl nonempty
      | cons c name =>
        simp only [intercalate_cons_cons_left]
        rw [dropWhile_cons_of_neg (by simp [laws.visible c (visible c mem_cons_self).1])]

theorem Laws.wellFormed_signature :
    WellFormed lib.sets (str "Signature", signatureValue server storePath pathInfo) where
  capital := ⟨'S', str "ignature", rfl, by decide⟩
  noColon := (by decide : ':' ∉ str "Signature")
  keyLine := (by decide : '\n' ∉ str "Signature")
  valueLine := by
    have encoded := (base64_chars (encode (server.sexpToString
      (signedString server (signedPart storePath pathInfo))))).2
    simp [signatureValue, base64EncodeString, laws.hostLine, encoded, str]
  trimmed := by
    have first : signatureValue server storePath pathInfo = '1' :: (signatureValue server storePath pathInfo).tail := rfl
    rw [first, dropWhile_cons_of_neg (by simp [laws.visible '1' (by decide)])]

theorem Laws.wellFormed_narFields {sizes : List (Compression × Nat)} {compression : Compression} :
    ∀ field ∈ narFields server narPath storePath sizes compression, WellFormed lib.sets field := by
  intro field member
  simp only [narFields, mem_append, mem_cons, not_mem_nil, or_false, mem_map,
    Option.mem_toList] at member
  rcases member with (rfl | rfl) | ⟨size, -, rfl⟩
  · exact laws.wellFormed_visible (by decide) (laws.urlVisible _)
  · refine laws.wellFormed_visible (by decide) ?_
    cases compression.type <;> decide
  · exact laws.wellFormed_visible (by decide)
      fun c inDigits => isVisible_of_isNameChar (isNameChar_decimal size c inDigits)

theorem Laws.narinfoSignatureSexp_value :
    narinfoSignatureSexp lib (signatureValue server storePath pathInfo) =
      some (signedString server (signedPart storePath pathInfo)) := by
  have encoded := (base64_chars (encode (server.sexpToString
    (signedString server (signedPart storePath pathInfo))))).1
  have version : lib.stringToNumber (str "1") = some (number 1) := laws.readsDecimal 1
  have fields : stringSplit ';' [] (signatureValue server storePath pathInfo) =
      [str "1", server.hostName, base64EncodeString (server.sexpToString
        (signedString server (signedPart storePath pathInfo)))] := by
    have last := stringSplit_append ';' [] _ [] encoded
    rw [append_nil, nil_append] at last
    rw [signatureValue, stringSplit_append _ _ _ _ (by decide), stringSplit, if_pos rfl,
      stringSplit_append _ _ _ _ laws.hostSemicolon, stringSplit, if_pos rfl, base64EncodeString, last]
    rfl
  rw [narinfoSignatureSexp, fields]
  simp only [version, Option.any_some, laws.one, if_true]
  rw [laws.canonicalSexp, base64EncodeString, base64Decode_encode]
  simp [encode, laws.sexp]

theorem Laws.resolvedUri_narUrl (compression : Compression) :
    ∃ uri, narinfoUri lib (some base) (narUrl server narPath storePath compression) = .ok (some uri) ∧
      resolvedUri lib base (narUrl server narPath storePath compression) = some uri := by
  have resolves : ∃ uri, narinfoUri lib (some base) (narUrl server narPath storePath compression) =
      .ok (some uri) := laws.url _
  obtain ⟨uri, isUri⟩ := resolves
  exact ⟨uri, isUri, by rw [resolvedUri, isUri]⟩

/-- The lists of the reader fit together exactly if all sizes are known or none. -/
theorem Laws.choices_eq_published_iff {narinfo : Narinfo υ ν σ}
    (readBack : ReadBack lib server number base storePath pathInfo compressions narPath fileSizes narinfo) :
    narinfo.choices = published lib server number base storePath pathInfo compressions narPath fileSizes ↔
      AllOrNone storePath pathInfo compressions fileSizes := by
  rw [Narinfo.choices, published, readBack.uris, readBack.types, readBack.sizes, AllOrNone]
  generalize actualCompressions storePath compressions = actual
  generalize allFileSizes pathInfo fileSizes = table
  cases known : actual.filterMap (sizeRef table) with
  | nil =>
    -- no size at all: the reader takes one `#f` for each URL
    have unknown := filterMap_eq_nil_iff.mp known
    have numbers : fileNumbers lib (actual.map (narUrl server narPath storePath)) (map decimal []) =
        actual.map fun compression => (sizeRef table compression).map number := by
      rw [map_nil, fileNumbers, length_map, ← map_const']
      refine map_congr_left fun compression member => ?_
      rw [unknown compression member]
      rfl
    rw [numbers, zip_map', zip_map']
    exact iff_of_true rfl (.inr unknown)
  | cons size more =>
    have numbers : fileNumbers lib (actual.map (narUrl server narPath storePath)) ((size :: more).map decimal) =
        (size :: more).map fun size => some (number size) := by
      rw [map_cons, fileNumbers, ← map_cons, map_map]
      · exact map_congr_left fun size _ => laws.readsDecimal size
      · simp
    rw [numbers, ← known]
    constructor
    · intro same
      left
      have lengths := congrArg length same
      have shorter := length_filterMap_le (sizeRef table) actual
      simp only [length_zip, length_map] at lengths
      exact filterMap_length_eq_length.mp (by omega)
    · rintro (all | unknown)
      · have sized : (actual.filterMap (sizeRef table)).map (fun size => some (number size)) =
            actual.map fun compression => (sizeRef table compression).map number := by
          rw [map_filterMap, filterMap_eq_map_iff_forall_eq_some]
          intro compression member
          obtain ⟨size, isSize⟩ := Option.isSome_iff_exists.mp (all compression member)
          simp [isSize]
        rw [sized, zip_map', zip_map']
      · rw [filterMap_eq_nil_iff.mpr unknown] at known
        cases known

variable (valid : ValidInfo storeDirectory storePath pathInfo)
include valid

theorem Laws.wellFormed_signedFields :
    ∀ field ∈ signedFields storePath pathInfo, WellFormed lib.sets field := by
  intro field member
  simp only [signedFields, mem_append, mem_cons, not_mem_nil, or_false, mem_map,
    Option.mem_toList] at member
  rcases member with (rfl | rfl | rfl | rfl) | ⟨deriver, isDeriver, rfl⟩
  · exact laws.wellFormed_visible (by decide) fun c inPath => (valid.isVisible_path c inPath).1
  · refine laws.wellFormed_visible (by decide) (forall_mem_append.mpr ⟨by decide, fun c inDigits => ?_⟩)
    exact isVisible_of_isNameChar (isNameChar_nixBase32String _ c inDigits)
  · exact laws.wellFormed_visible (by decide)
      fun c inDigits => isVisible_of_isNameChar (isNameChar_decimal _ c inDigits)
  · exact laws.wellFormed_references valid.isName_reference
  · exact laws.wellFormed_visible (by decide)
      fun c inName => ((valid.deriver deriver isDeriver).basename.2 c inName).1

variable (compressions narPath fileSizes) in
theorem Laws.fields_narinfoString :
    fieldsToAlist lib (narinfoString server storePath pathInfo compressions narPath fileSizes) =
      .ok (narinfoFields server storePath pathInfo compressions narPath fileSizes) := by
  rw [fieldsToAlist_ok, narinfoString_eq]
  refine recutilsToAlist_renderFields lib.sets laws.space fun field member => ?_
  simp only [narinfoFields, mem_append, mem_cons, mem_flatMap] at member
  rcases member with isSigned | rfl | ⟨compression, -, isNar⟩
  · exact laws.wellFormed_signedFields valid field isSigned
  · exact laws.wellFormed_signature
  · exact laws.wellFormed_narFields field isNar

theorem Laws.fields_signedPart :
    fieldsToAlist lib (signedPart storePath pathInfo) = .ok (signedFields storePath pathInfo) := by
  rw [fieldsToAlist_ok, signedPart_eq]
  exact recutilsToAlist_renderFields lib.sets laws.space (laws.wellFormed_signedFields valid)

variable (compressions narPath fileSizes) in
theorem Laws.readNarinfo_narinfoString :
    ∃ narinfo, readNarinfo lib (narinfoString server storePath pathInfo compressions narPath fileSizes)
        (some base) = .ok narinfo ∧
      ReadBack lib server number base storePath pathInfo compressions narPath fileSizes narinfo := by
  have fields := laws.fields_narinfoString compressions narPath fileSizes valid
  generalize isFields : narinfoFields server storePath pathInfo compressions narPath fileSizes = alist at fields
  obtain ⟨path, narHash, narSize, references, deriver, signature⟩ := assocRef_narinfoFields isFields.symm
  obtain ⟨urls, types, hashes, sizes⟩ := multipleValues_nars isFields.symm
  have uris : ((actualCompressions storePath compressions).map (narUrl server narPath storePath)).mapM
      (narinfoUri lib (some base)) =
      .ok (((actualCompressions storePath compressions).map (narUrl server narPath storePath)).map
        (resolvedUri lib base)) := by
    refine Fallible.mapM_eq_map fun url member => ?_
    obtain ⟨compression, -, rfl⟩ := mem_map.mp member
    obtain ⟨uri, isUri, isResolved⟩ := laws.resolvedUri_narUrl compression
    rw [isUri, isResolved]
  have tokens : stringTokenize lib.sets.graphic [] ((str " ").intercalate (pathInfo.references.map basename)) =
      pathInfo.references.map basename := by
    refine stringTokenize_intercalate laws.spaceNotGraphic fun name member => ?_
    obtain ⟨nonempty, visible⟩ := valid.isName_reference name member
    exact ⟨nonempty, fun c inName => laws.graphic c (visible c inName).1⟩
  have named : pathInfo.deriver.map basename ≠ some [] := by
    intro isEmpty
    obtain ⟨deriver, isDeriver, empty⟩ := Option.map_eq_some_iff.mp isEmpty
    exact (valid.deriver deriver isDeriver).basename.1 empty
  simp only [readNarinfo, fields, bind, Except.bind, alistToNarinfo, narinfoMaker, uris,
    path, narHash, narSize, references, deriver, signature, types, sizes, hashes, urls, tokens, pure, Except.pure]
  refine ⟨_, rfl, rfl, rfl, laws.readsDecimal _, rfl, if_neg named,
    laws.narinfoSignatureSexp_value, rfl, ?_, rfl, rfl⟩
  simp

theorem Laws.validNarinfo_narinfoString {status : σ → Sha256Hash → SignatureStatus}
    (authorized : ∀ hash, status (server.signatureSexp hash) hash = .validSignature)
    (nonempty : compressions ≠ []) {narinfo : Narinfo υ ν σ}
    (readBack : ReadBack lib server number base storePath pathInfo compressions narPath fileSizes narinfo) :
    validNarinfo lib server.sha256 status narinfo = .ok true := by
  have mandatory : ∀ field ∈ mandatoryFields, field ∈ (signedFields storePath pathInfo).map (·.1) := by
    simp [mandatoryFields, signedFields]
  have hash : narinfoSha256 lib server.sha256 narinfo =
      .ok (some (server.sha256 (encode (signedPart storePath pathInfo)))) := by
    rw [narinfoSha256, readBack.contents, aboveSignature_narinfoString valid]
    simp only [laws.fields_signedPart valid, bind, Except.bind, pure, Except.pure, if_pos mandatory]
  have first : ∃ uri rest, narinfo.uris = some uri :: rest := by
    have actual : actualCompressions storePath compressions ≠ [] := by
      unfold actualCompressions
      split
      · simp
      · exact nonempty
    obtain ⟨compression, rest, isActual⟩ := exists_cons_of_ne_nil actual
    obtain ⟨uri, -, isResolved⟩ := laws.resolvedUri_narUrl compression
    rw [readBack.uris, isActual, map_cons, isResolved]
    exact ⟨uri, _, rfl⟩
  obtain ⟨uri, rest, isFirst⟩ := first
  have accepted := authorized (server.sha256 (encode (signedPart storePath pathInfo)))
  simp only [validNarinfo, hash, isFirst, readBack.signature, bind, Except.bind, pure, Except.pure, signedString, accepted]
  rfl

end Reading

/-- The text of a narinfo, read back, says what the server has, if and only if the size of the file is
known for all of the compressions or for none of them. -/
theorem narinfoString_describes_iff (number : Nat → ν) (sexpOfString : Str → Option σ) (base : Str)
    (laws : Laws lib server number sexpOfString base) (storeDirectory storePath : Str) (pathInfo : PathInfo)
    (valid : ValidInfo storeDirectory storePath pathInfo) (status : σ → Sha256Hash → SignatureStatus)
    (authorized : ∀ hash, status (server.signatureSexp hash) hash = .validSignature)
    (compressions : List Compression) (nonempty : compressions ≠ []) (narPath : Str)
    (fileSizes : List (Compression × Nat)) :
    (∃ narinfo, readNarinfo lib (narinfoString server storePath pathInfo compressions narPath fileSizes)
        (some base) = .ok narinfo ∧
      Describes status lib server number base storePath pathInfo compressions narPath fileSizes narinfo) ↔
    AllOrNone storePath pathInfo compressions fileSizes := by
  obtain ⟨narinfo, read, readBack⟩ := laws.readNarinfo_narinfoString compressions narPath fileSizes valid
  rw [← laws.choices_eq_published_iff readBack]
  constructor
  · rintro ⟨narinfo', read', describes⟩
    rw [read] at read'
    cases read'
    exact describes.choices
  · intro choices
    have accepted := laws.validNarinfo_narinfoString valid authorized nonempty readBack
    refine ⟨narinfo, read, { readBack with valid := accepted, choices, offered := ?_ }⟩
    intro zstd integer fast choice
    rw [mem_narinfoPreferredUris, choices]

end Narinfo

/-! ### A server with two kinds of nars -/

/-- ASCII characters only, decimal numbers, texts as s-expressions and as URIs. -/
def textLibrary : NarinfoLibrary Str Nat Str where
  sets :=
    { upperCase := Char.isUpper
      lowerCase := Char.isLower
      whitespace := Char.isWhitespace
      graphic := isVisible
      upperCase_ascii := fun _ isUpper => isUpper }
  stringToUri s := some s
  stringToNumber s := some (Nat.ofDigitChars 10 s 0)
  isOne n := n = 1
  canonicalSexp s := (base64Decode s).bind fun bytes => (Utf8.decode bytes).bind some

/-- The signature is the hash itself. -/
def textServer : Server Str where
  hostName := str "localhost"
  sha256 _ := ⟨Hash.ofType .sha256, rfl⟩
  signatureSexp hash := hash.1.hash.map fun byte => Char.ofNat byte.toNat
  sexpToString s := s
  splitAndDecodeUriPath path := [path]
  encodeAndJoinUriPath parts := ((str "/").intercalate parts).filter isVisible

theorem textLaws : Laws textLibrary textServer id some (str "http://localhost") where
  space := rfl
  visible c isVisible := by
    simp only [textLibrary, Char.isWhitespace, Bool.or_eq_false_iff, decide_eq_false_iff_not]
    refine ⟨⟨⟨?_, ?_⟩, ?_⟩, ?_⟩ <;> rintro rfl <;> exact absurd isVisible (by decide)
  graphic c isVisible := isVisible
  spaceNotGraphic := by decide
  readsDecimal n := by simp [textLibrary, decimal, Nat.ofDigitChars_ten_toDigits]
  one := rfl
  canonicalSexp s := rfl
  sexp s := rfl
  urlVisible parts c member := (mem_filter.mp member).2
  url parts := ⟨_, rfl⟩
  hostSemicolon := by decide
  hostLine := by decide

def helloPath : Str := str "/gnu/store/00000000000000000000000000000000-hello"

/-- An item that refers to itself and to another one, with its deriver. -/
def helloInfo : PathInfo where
  deriver := some (str "/gnu/store/00000000000000000000000000000000-hello.drv")
  hash := replicate 32 0
  references := [helloPath, str "/gnu/store/11111111111111111111111111111111-libc"]
  narSize := 100

theorem isStoreItem_gnu {name : Str} (isName : name ≠ [] ∧ ∀ c ∈ name, isNameChar c) :
    IsStoreItem (str "/gnu/store") (str "/gnu/store" ++ '/' :: name) := ⟨name, rfl, isName⟩

theorem helloValid : ValidInfo (str "/gnu/store") helloPath helloInfo where
  directory := by decide
  item := isStoreItem_gnu (by decide)
  references := by
    rintro _ (_ | ⟨_, _ | ⟨_, ⟨⟩⟩⟩)
    · exact isStoreItem_gnu (by decide)
    · exact isStoreItem_gnu (by decide)
  deriver := by
    rintro _ ⟨⟩
    exact isStoreItem_gnu (by decide)

/-- With the size of the compressed nar in the table, both URIs are there. -/
theorem narinfoString_describes_sizes :
    ∃ narinfo, readNarinfo textLibrary (narinfoString textServer helloPath helloInfo
        [⟨.gzip, 3⟩, noCompression] (str "nar") [(⟨.gzip, 3⟩, 50)]) (some (str "http://localhost")) = .ok narinfo ∧
      Describes (fun signature hash => if signature = textServer.signatureSexp hash then .validSignature
        else .hashMismatch) textLibrary textServer id (str "http://localhost") helloPath helloInfo
        [⟨.gzip, 3⟩, noCompression] (str "nar") [(⟨.gzip, 3⟩, 50)] narinfo := by
  refine (narinfoString_describes_iff textLibrary textServer id some (str "http://localhost") textLaws
    (str "/gnu/store") helloPath helloInfo helloValid _ (fun hash => if_pos rfl) [⟨.gzip, 3⟩, noCompression]
    (by simp) (str "nar") [(⟨.gzip, 3⟩, 50)]).mpr (.inl ?_)
  decide

/-- Without it, the reader takes the size of the plain nar for that of the compressed one, and the
URI of the plain nar is not offered at all. -/
theorem narinfoString_misaligned :
    ∃ narinfo, readNarinfo textLibrary (narinfoString textServer helloPath helloInfo
        [⟨.gzip, 3⟩, noCompression] (str "nar") []) (some (str "http://localhost")) = .ok narinfo ∧
      narinfo.choices = [(some (str "nar/gzip/00000000000000000000000000000000-hello"), str "gzip", some 100)] ∧
      published textLibrary textServer id (str "http://localhost") helloPath helloInfo
        [⟨.gzip, 3⟩, noCompression] (str "nar") [] =
        [(some (str "nar/gzip/00000000000000000000000000000000-hello"), str "gzip", none),
          (some (str "nar/00000000000000000000000000000000-hello"), str "none", some 100)] := by
  obtain ⟨narinfo, read, readBack⟩ :=
    textLaws.readNarinfo_narinfoString [⟨.gzip, 3⟩, noCompression] (str "nar") [] helloValid
  refine ⟨narinfo, read, ?_, by decide⟩
  rw [Narinfo.choices, readBack.uris, readBack.types, readBack.sizes]
  decide

end Guix.Scripts.Publish
