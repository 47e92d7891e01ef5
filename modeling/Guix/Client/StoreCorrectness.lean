import Guix.Client.DerivationsCorrectness
import Guix.Client.Store
import Guix.LibStore.Fingerprint

/-!
# The client and the daemon compute the same store paths
-/

namespace Guix.Client

open LibStore List Utf8 Hash

/-! ### Base 16 and base 32 -/

theorem encode_base16String (bv : Bytes) : encode (base16String bv) = bv.flatMap printByte := by
  have digits : ∀ n : Fin 16, String.utf8EncodeChar ((str "0123456789abcdef").getD n '0') =
      [base16Chars.getD n 0] := by decide
  induction bv with
  | nil => rfl
  | cons b bv ih =>
    have high := digits ⟨b.toNat / 16, Nat.div_lt_of_lt_mul b.toNat_lt⟩
    have low := digits ⟨b.toNat % 16, Nat.mod_lt _ (by decide)⟩
    simp only [base16String, flatMap_cons] at ih ⊢
    rw [encode_append, ih]
    simp only [encode, encode_cons, encode_nil, high, low, printByte, singleton_append,
      append_nil]

theorem compressedLoop_eq (bv new : Bytes) (size i left : Nat) (length : i + left = bv.length) :
    compressedLoop bv size new i left =
      ((range bv.length).drop i).foldl
        (fun h i => h.modify (i % size) (· ^^^ bv.getD i 0)) new := by
  induction left generalizing new i with
  | zero =>
    rw [drop_of_length_le (by simp; omega)]
    rfl
  | succ left ih =>
    have inside : i < (range bv.length).length := by
      rw [length_range]
      omega
    rw [drop_eq_getElem_cons inside, foldl_cons, compressedLoop, ih _ _ (by omega), getElem_range]
    congr 1
    rw [modify_eq_set_getElem?, getD_eq_getElem?_getD]
    cases found : new[i % size]? with
    | some b => rfl
    | none => simpa using set_eq_of_length_le (getElem?_eq_none_iff.mp found)

theorem compressedHash_eq (bv : Bytes) (size : Nat) : compressedHash bv size = compressHash bv size := by
  rw [compressedHash, compressedLoop_eq bv _ size 0 bv.length (Nat.zero_add _), drop_zero]
  rfl

theorem or_shiftLeft {low : Nat} (high : Nat) {k : Nat} (below : low < 2 ^ k) :
    low ||| high <<< k = low + 2 ^ k * high := by
  rw [Nat.or_comm, Nat.shiftLeft_eq, Nat.mul_comm, ← Nat.two_pow_add_eq_or_of_lt below, Nat.add_comm]

/-- The five bits from bit `j` of a byte on, in arithmetic. -/
theorem quintet_eq (bv : Bytes) (n : Nat) : quintet bv n =
    ((bv.getD (n * 5 / 8) 0).toNat / 2 ^ (n * 5 % 8) + 2 ^ (8 - n * 5 % 8) *
      if n * 5 / 8 + 1 ≥ bv.length then 0 else (bv.getD (n * 5 / 8 + 1) 0).toNat) % 2 ^ 8 % 2 ^ 5 := by
  have below : (bv.getD (n * 5 / 8) 0).toNat / 2 ^ (n * 5 % 8) < 2 ^ (8 - n * 5 % 8) := by
    apply Nat.div_lt_of_lt_mul
    rw [← Nat.pow_add, Nat.add_sub_cancel' (Nat.le_of_lt (Nat.mod_lt _ (by decide)))]
    exact UInt8.toNat_lt _
  have last : n * 5 / 8 ≥ bv.length - 1 ↔ n * 5 / 8 + 1 ≥ bv.length := by omega
  have mask : ∀ c, c &&& 0x1f = c % 2 ^ 5 := fun c => Nat.and_two_pow_sub_one_eq_mod c 5
  simp only [quintet, last, mask, Nat.shiftRight_eq_div_pow]
  split
  · rw [Nat.or_zero, Nat.mul_zero, Nat.add_zero]
  · rw [or_shiftLeft _ below]

theorem quintetRefRight_eq (bv : Bytes) (index : Nat) : quintetRefRight bv index = quintet bv index := by
  rw [quintet_eq]
  simp only [quintetRefRight]
  have small : (bv.getD (index * 5 / 8) 0).toNat < 256 := UInt8.toNat_lt _
  have position : index % 8 = 0 ∨ index % 8 = 1 ∨ index % 8 = 2 ∨ index % 8 = 3 ∨ index % 8 = 4 ∨
      index % 8 = 5 ∨ index % 8 = 6 ∨ index % 8 = 7 := by omega
  have bit : index * 5 % 8 = index % 8 * 5 % 8 := by omega
  rcases position with r | r | r | r | r | r | r | r <;> simp only [bit, r, bitField_eq, Nat.reduceMul, Nat.reduceMod]
  · omega
  · rw [or_shiftLeft _ (by omega)]
    omega
  · omega
  · rw [or_shiftLeft _ (by omega)]
    omega
  · rw [or_shiftLeft _ (by omega)]
    omega
  · omega
  · rw [or_shiftLeft _ (by omega)]
    omega
  · omega

theorem foldQuintets_eq (bv : Bytes) (n : Nat) (r : List Char) :
    foldQuintets bv n r =
      (range n).map (fun j => nixBase32Chars.getD (quintet bv j) '0') ++ r := by
  induction n generalizing r with
  | zero => rfl
  | succ n ih => rw [foldQuintets, ih, quintetRefRight_eq, range_succ, map_append,
      append_assoc, map_singleton, singleton_append]

theorem encode_nixBase32String (bv : Bytes) (nonempty : 0 < bv.length) :
    encode (nixBase32String bv) = printHash32 bv := by
  have digits : ∀ n : Fin 32, String.utf8EncodeChar (nixBase32Chars.getD n '0') =
      [base32Chars.getD n 0] := by decide
  have length : quintetLength bv = hashLength32 bv.length := by
    simp only [quintetLength, hashLength32]
    omega
  rw [nixBase32String, foldQuintets_eq, append_nil, ← map_reverse, printHash32, length]
  generalize (range (hashLength32 bv.length)).reverse = positions
  induction positions with
  | nil => rfl
  | cons n positions ih =>
    have small : quintet bv n < 32 := by
      rw [quintet_eq]
      exact Nat.mod_lt _ (by decide)
    have digit := digits ⟨quintet bv n, small⟩
    simp only [encode] at ih digit ⊢
    rw [map_cons, encode_cons, ih, digit]
    rfl

/-! ### Paths -/

section Paths

variable (sha256 : Sha256) (storePrefix : Str)

theorem makeStorePath_eq (type name : Str) (hash : Hash)
    (accepted : checkStoreName (encode name) = .ok ⟨⟩)
    (short : (fingerprint (encode storePrefix) (encode type) hash (encode name)).length < 2 ^ 32) :
    makeStorePath sha256 (encode storePrefix) (encode type) hash (encode name) =
      .ok (encode (storePath sha256 storePrefix type hash.hash name)) := by
  have colon : encode (str ":") = ascii ":" := encode_str ":" (by decide)
  have dash : encode (str "-") = ascii "-" := encode_str "-" (by decide)
  have algo : encode (str ":sha256:") = ascii ":sha256:" := encode_str ":sha256:" (by decide)
  have text : encode (type ++ str ":sha256:" ++ base16String hash.hash ++ str ":" ++ storePrefix
        ++ str ":" ++ name) =
      fingerprint (encode storePrefix) (encode type) hash (encode name) := by
    simp only [encode_append, colon, algo, encode_base16String, fingerprint, printHash]
  rw [makeStorePath_fingerprint, accepted]
  simp only [storePath, encode_append, dash, compressedHash_eq, sha256Bytes, text]
  rw [hashString_of_lt sha256 short,
    encode_nixBase32String _ (by rw [length_compressHash]; decide)]
  rfl

/-- The name of the store item of an output. -/
def outputItem (name output : Str) : Str :=
  if output = str "out" then name else name ++ str "-" ++ output

theorem makeOutputPath_eq (output name : Str) (hash : Hash)
    (accepted : checkStoreName (encode (outputItem name output)) = .ok ⟨⟩)
    (short : (fingerprint (encode storePrefix) (ascii "output:" ++ encode output) hash
      (encode (outputItem name output))).length < 2 ^ 32) :
    makeOutputPath sha256 (encode storePrefix) (encode output) hash (encode name) =
      .ok (encode (outputPath sha256 storePrefix output hash.hash name)) := by
  have tag : encode (str "output:" ++ output) = ascii "output:" ++ encode output := by
    rw [encode_append, encode_str "output:" (by decide)]
  have item : encode name ++ (if encode output = ascii "out" then [] else ascii "-" ++ encode output) =
      encode (outputItem name output) := by
    have out : encode output = ascii "out" ↔ output = str "out" := by
      rw [← encode_str "out" (by decide)]
      exact ⟨encode_injective, fun same => by rw [same]⟩
    simp only [out, outputItem]
    split
    · rw [append_nil]
    · rw [encode_append, encode_append, encode_str "-" (by decide), append_assoc]
  rw [← tag] at short
  rw [makeOutputPath, item, ← tag, makeStorePath_eq sha256 storePrefix _ _ _ accepted short]
  rfl

theorem printHashType_injective : Function.Injective printHashType := by
  intro type type' same
  cases type <;> cases type' <;> first | rfl | exact absurd same (by decide)

theorem makeFixedOutputPath_eq (name algo : Str) (recursive : Bool) (hashAlgo : HashType) (h : Hash)
    (algorithm : encode algo = printHashType hashAlgo)
    (accepted : checkStoreName (encode name) = .ok ⟨⟩)
    (short : ((StoreItem.fixedOutput recursive hashAlgo h (encode name)).fingerprint sha256
      (encode storePrefix)).length < 2 ^ 32) :
    makeFixedOutputPath sha256 (encode storePrefix) recursive hashAlgo h (encode name) =
      .ok (encode (fixedOutputPath sha256 storePrefix name h.hash (str "out") algo recursive)) := by
  have isSha256 : algo = str "sha256" ↔ hashAlgo = .sha256 := by
    have name : encode (str "sha256") = printHashType .sha256 := encode_str "sha256" (by decide)
    constructor
    · intro same
      apply printHashType_injective
      rw [← algorithm, same, name]
    · intro same
      apply encode_injective
      exact algorithm.trans (same ▸ name.symm)
  have made := (StoreItem.fixedOutput recursive hashAlgo h (encode name)).path_eq sha256
    (encode storePrefix)
  rw [StoreItem.path] at made
  rw [made, fixedOutputPath]
  rw [StoreItem.fingerprint] at short
  by_cases source : recursive = true ∧ algo = str "sha256"
  · -- a source is addressed by its hash
    have source' : hashAlgo = .sha256 ∧ recursive = true := ⟨isSha256.mp source.2, source.1⟩
    have type : (StoreItem.fixedOutput recursive hashAlgo h (encode name)).type =
        encode (str "source") := by
      rw [StoreItem.type, StoreItem.kind, if_pos source', encode_str "source" (by decide)]
      rfl
    have inner : (StoreItem.fixedOutput recursive hashAlgo h (encode name)).innerHash sha256 = h :=
      if_pos source'
    rw [type, inner] at short ⊢
    rw [if_pos source]
    exact makeStorePath_eq sha256 storePrefix _ _ _ accepted short
  · -- any other output by the hash of a text
    have notSource' : ¬ (hashAlgo = .sha256 ∧ recursive = true) :=
      fun both => source ⟨both.2, isSha256.mpr both.1⟩
    have type : (StoreItem.fixedOutput recursive hashAlgo h (encode name)).type =
        encode (str "output:" ++ str "out") := by
      rw [StoreItem.type, StoreItem.kind, if_neg notSource', encode_append,
        encode_str "output:" (by decide), encode_str "out" (by decide)]
      rfl
    have inner : (StoreItem.fixedOutput recursive hashAlgo h (encode name)).innerHash sha256 = _ :=
      if_neg notSource'
    have start : ascii "fixed:out:" = ascii "fixed:" ++ (ascii "out" ++ ascii ":") := by decide
    have mode : encode (if recursive then str "r:" else []) = if recursive then ascii "r:" else [] := by
      cases recursive
      · rfl
      · exact encode_str "r:" (by decide)
    have tag : encode (str "fixed:" ++ str "out" ++ str ":" ++ (if recursive then str "r:" else [])
          ++ algo ++ str ":" ++ base16String h.hash ++ str ":") =
        ascii "fixed:out:" ++ (if recursive then ascii "r:" else []) ++ printHashType hashAlgo
          ++ ascii ":" ++ printHash h ++ ascii ":" := by
      simp only [encode_append, encode_str "fixed:" (by decide), encode_str "out" (by decide),
        encode_str ":" (by decide), mode, algorithm, encode_base16String, printHash, start,
        append_assoc]
    have fits : (ascii "fixed:out:" ++ (if recursive then ascii "r:" else []) ++ printHashType hashAlgo
          ++ ascii ":" ++ printHash h ++ ascii ":").length < 2 ^ 32 := by
      have modeLength : (if recursive then ascii "r:" else []).length ≤ 2 := by
        cases recursive <;> decide
      have typeLength : (printHashType hashAlgo).length ≤ 11 := by
        cases hashAlgo <;> decide
      have one : (ascii ":").length = 1 := by decide
      have ten : (ascii "fixed:out:").length = 10 := by decide
      have := h.type.size_le
      simp only [length_append, length_printHash, one, ten]
      omega
    rw [type, inner] at short ⊢
    rw [if_neg source]
    simp only [tag, sha256Bytes, hashString_of_lt sha256 fits] at short ⊢
    exact makeStorePath_eq sha256 storePrefix _ _ _ accepted short

/-- The client and the daemon compute the same paths, whenever the daemon accepts the name
of the item and can hash the fingerprint. -/
theorem storePath_eq_makeStorePath :
    (∀ (type name : Str) (hash : Hash), checkStoreName (encode name) = .ok ⟨⟩ →
      (fingerprint (encode storePrefix) (encode type) hash (encode name)).length < 2 ^ 32 →
      makeStorePath sha256 (encode storePrefix) (encode type) hash (encode name) =
        .ok (encode (storePath sha256 storePrefix type hash.hash name))) ∧
    (∀ (output name : Str) (hash : Hash), checkStoreName (encode (outputItem name output)) = .ok ⟨⟩ →
      (fingerprint (encode storePrefix) (ascii "output:" ++ encode output) hash
        (encode (outputItem name output))).length < 2 ^ 32 →
      makeOutputPath sha256 (encode storePrefix) (encode output) hash (encode name) =
        .ok (encode (outputPath sha256 storePrefix output hash.hash name))) ∧
    (∀ (name algo : Str) (recursive : Bool) (hashAlgo : HashType) (hash : Hash),
      encode algo = printHashType hashAlgo → checkStoreName (encode name) = .ok ⟨⟩ →
      ((StoreItem.fixedOutput recursive hashAlgo hash (encode name)).fingerprint sha256
        (encode storePrefix)).length < 2 ^ 32 →
      makeFixedOutputPath sha256 (encode storePrefix) recursive hashAlgo hash (encode name) =
        .ok (encode (fixedOutputPath sha256 storePrefix name hash.hash (str "out") algo recursive))) ∧
    ∀ hash : Hash, encode (base16String hash.hash) = printHash hash ∧
      compressedHash hash.hash 20 = compressHash hash.hash 20 ∧
      encode (nixBase32String (compressedHash hash.hash 20)) =
        printHash32 (compressHash hash.hash 20) := by
  refine ⟨makeStorePath_eq sha256 storePrefix, makeOutputPath_eq sha256 storePrefix,
    makeFixedOutputPath_eq sha256 storePrefix, ?_⟩
  intro hash
  refine ⟨encode_base16String hash.hash, compressedHash_eq hash.hash 20, ?_⟩
  rw [compressedHash_eq]
  exact encode_nixBase32String _ (by rw [length_compressHash]; decide)

end Paths

/-- A source, the output `lib` of a derivation and a flat file, all called `a`. -/
theorem storePath_eq_makeStorePath_small : ∃ (sha256 : Sha256) (hash : Hash),
    makeStorePath sha256 (encode (str "/s")) (encode (str "source")) hash (encode (str "a")) =
      .ok (encode (storePath sha256 (str "/s") (str "source") hash.hash (str "a"))) ∧
    makeOutputPath sha256 (encode (str "/s")) (encode (str "lib")) hash (encode (str "a")) =
      .ok (encode (outputPath sha256 (str "/s") (str "lib") hash.hash (str "a"))) ∧
    makeFixedOutputPath sha256 (encode (str "/s")) false .sha256 hash (encode (str "a")) =
      .ok (encode (fixedOutputPath sha256 (str "/s") (str "a") hash.hash (str "out") (str "sha256")
        false)) := by
  let zero : Sha256 := fun _ => ⟨ofType .sha256, rfl⟩
  obtain ⟨store, output, fixed, _⟩ := storePath_eq_makeStorePath zero (str "/s")
  refine ⟨zero, ofType .sha256, ?_, ?_, ?_⟩
  · exact store (str "source") (str "a") _ (by decide) (by decide)
  · exact output (str "lib") (str "a") _ (by decide) (by decide)
  · exact fixed (str "a") (str "sha256") false .sha256 _ (by decide) (by decide) (by decide)

/-- The daemon computes no path for a name that begins with a dot; the client does. -/
theorem makeStorePath_refuses_dot : ∃ (sha256 : Sha256) (hash : Hash),
    makeStorePath sha256 (encode (str "/s")) (encode (str "source")) hash (encode (str ".a")) =
        .error (.dot (ascii ".a")) ∧
      makeStorePath sha256 (encode (str "/s")) (encode (str "source")) hash (encode (str ".a")) ≠
        .ok (encode (storePath sha256 (str "/s") (str "source") hash.hash (str ".a"))) := by
  have refused : checkStoreName (encode (str ".a")) = .error (.dot (ascii ".a")) := by decide
  refine ⟨fun _ => ⟨ofType .sha256, rfl⟩, ofType .sha256, ?_, ?_⟩
  · rw [makeStorePath_fingerprint, refused]
    rfl
  · rw [makeStorePath_fingerprint, refused]
    exact fun same => by cases same

/-! ### The characters of a path -/

/-- The characters that are escaped, and NUL. -/
def specialChars : List Char := '\x00' :: escapeCharSet

def Plain (s : Str) : Prop := ∀ c ∈ s, c ∉ specialChars

theorem Plain.noNul {s : Str} (plain : Plain s) : '\x00' ∉ s :=
  fun isNul => plain _ isNul mem_cons_self

theorem Plain.noEscape {s : Str} (plain : Plain s) : ∀ c ∈ s, c ∉ escapeCharSet :=
  fun c inString isSpecial => plain c inString (mem_cons_of_mem _ isSpecial)

def specialBytes : Bytes := specialChars.map fun c => UInt8.ofNat c.toNat

theorem plain_iff (s : Str) : Plain s ↔ ∀ b ∈ encode s, b ∉ specialBytes := by
  have small : ∀ c ∈ specialChars, c.toNat < 128 := by decide
  constructor
  · intro plain b isByte isSpecial
    obtain ⟨c, special, rfl⟩ := mem_map.mp isSpecial
    exact plain c ((byte_mem_encode_iff s (small c special)).mp isByte) special
  · intro noSpecial c inString special
    exact noSpecial _ ((byte_mem_encode_iff s (small c special)).mpr inString)
      (mem_map.mpr ⟨c, special, rfl⟩)

theorem plain_of_checkStoreName (name : Str) (accepted : checkStoreName (encode name) = .ok ⟨⟩) :
    Plain name := by
  have invalid : ∀ b ∈ specialBytes, validNameChar b = false := by decide
  rw [plain_iff]
  intro b isByte isSpecial
  have valid := checkStoreName_ok _ accepted b isByte
  rw [invalid b isSpecial] at valid
  cases valid

/-- What the name of the store directory is like. -/
structure StoreDirectory (storePrefix : Str) : Prop where
  absolute : (encode storePrefix).head? = some slash
  plain : Plain storePrefix

section Made

variable {sha256 : Sha256} {storePrefix : Str} (directory : StoreDirectory storePrefix) {type : Bytes}
  {hash : Hash} {name : Bytes} {path : Str}
  (made : makeStorePath sha256 (encode storePrefix) type hash name = .ok (encode path))

include directory made

theorem plain_of_makeStorePath : Plain path := by
  obtain ⟨accepted, digits, shape, _, isDigits⟩ := makeStorePath_ok made
  have invalid : ∀ b ∈ specialBytes, validNameChar b = false ∧ b ∉ base32Chars ∧ b ∉ ascii "/" ∧
      b ∉ ascii "-" := by decide
  rw [plain_iff, shape]
  intro b isByte isSpecial
  obtain ⟨notValid, notDigit, notSlash, notDash⟩ := invalid b isSpecial
  simp only [mem_append] at isByte
  rcases isByte with (((inPrefix | isSlash) | isDigit) | isDash) | inName
  · exact (plain_iff storePrefix).mp directory.plain b inPrefix isSpecial
  · exact notSlash isSlash
  · exact notDigit (isDigits b isDigit)
  · exact notDash isDash
  · have valid := checkStoreName_ok _ accepted b inName
    rw [notValid] at valid
    cases valid

theorem absolute_of_makeStorePath : (encode path).head? = some slash := by
  obtain ⟨_, digits, shape, _⟩ := makeStorePath_ok made
  rw [shape, append_assoc, append_assoc, append_assoc, head?_append, directory.absolute]
  rfl

theorem storePathToName_of_makeStorePath : storePathToName (encode storePrefix) (encode path) = .ok name := by
  obtain ⟨accepted, digits, shape, length, isDigits⟩ := makeStorePath_ok made
  have noSlash : slash ∉ digits ++ ascii "-" ++ name := by
    have notDigit : slash ∉ base32Chars ∧ slash ∉ ascii "-" ∧ validNameChar slash = false := by decide
    simp only [mem_append]
    rintro ((isDigit | isDash) | inName)
    · exact notDigit.1 (isDigits _ isDigit)
    · exact notDigit.2.1 isDash
    · have valid := checkStoreName_ok _ accepted _ inName
      cases valid
  have split : encode path = encode storePrefix ++ (ascii "/" ++ (digits ++ ascii "-" ++ name)) := by
    rw [shape]
    simp only [append_assoc]
  have absolute : (encode path)[0]? = some slash := by
    rw [← head?_eq_getElem?]
    exact absolute_of_makeStorePath directory made
  have rest : (encode path).drop ((encode storePrefix).length + 1) = digits ++ ascii "-" ++ name := by
    rw [split, ← append_assoc]
    exact drop_left' (by rw [length_append]; rfl)
  have nameRest : (encode path).drop ((encode storePrefix).length + 34) = name := by
    have front : (encode storePrefix ++ ascii "/" ++ digits ++ ascii "-").length =
        (encode storePrefix).length + 34 := by
      have one : (ascii "/").length = 1 ∧ (ascii "-").length = 1 := by decide
      simp only [length_append, length, one.1, one.2]
    rw [shape, drop_left' front]
  have long : (encode storePrefix).length + 34 ≤ (encode path).length := by
    have one : (ascii "/").length = 1 ∧ (ascii "-").length = 1 := by decide
    simp only [shape, length_append, length, one.1, one.2]
    omega
  have inStore : isStorePath (encode storePrefix) (encode path) = true := by
    have front : (encode path).take (encode storePrefix).length = encode storePrefix := by
      rw [split, take_left']
      rfl
    have next : (encode path)[(encode storePrefix).length]? = some slash := by
      rw [split, getElem?_append_right (Nat.le_refl _), Nat.sub_self]
      rfl
    simp only [isStorePath, isInStore, isInDir, absolute, front, next, rest, beq_self_eq_true,
      Bool.and_true, Bool.true_and, Bool.and_eq_true, decide_eq_true_eq, Bool.not_eq_true',
      contains_eq_mem, decide_eq_false_iff_not]
    exact ⟨by omega, noSlash⟩
  rw [storePathToName, if_pos inStore, if_pos long, nameRest]

end Made

end Guix.Client
