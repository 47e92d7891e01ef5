import Guix.Client.Records

/-!
# Narinfos

The reader of `(guix narinfo)` and the check of the signature of a narinfo. URIs, numbers
and canonical s-expressions are what the libraries make of a string.
-/

namespace Guix.Client

inductive NarinfoError
  | record (e : RecordError)
  /-- `string-tokenize` of the missing field `References`. -/
  | noReferences
  /-- `string-suffix?` of the missing base URL. -/
  | noBaseUrl
  /-- `first` of the empty list of URIs, or `uri->string` of a URL that is not a URI. -/
  | noUri
  deriving DecidableEq

/-- What the libraries do. -/
structure NarinfoLibrary (υ ν σ : Type) where
  sets : CharSets
  stringToUri : Str → Option υ
  stringToNumber : Str → Option ν
  isOne : ν → Bool
  /-- `base64-decode` and `string->canonical-sexp`, `none` where one of them raises. -/
  canonicalSexp : Str → Option σ

structure Narinfo (υ ν σ : Type) where
  path : Option Str
  uriBase : Option Str
  uris : List (Option υ)
  compressions : List Str
  fileSizes : List (Option ν)
  fileHashes : List (Option ν)
  narHash : Option Str
  narSize : Option ν
  references : List Str
  deriver : Option Str
  system : Option Str
  signature : Option σ
  contents : Str
  deriving DecidableEq

inductive SignatureStatus
  | validSignature
  | invalidSignature
  | hashMismatch
  | unauthorizedKey
  | corruptSignature
  deriving DecidableEq

/-- `(string-tokenize s)`: the longest runs of graphic characters. -/
def stringTokenize (graphic : Char → Bool) (token : Str) : Str → List Str
  | [] => if token = [] then [] else [token]
  | c :: s =>
    if graphic c then stringTokenize graphic (token ++ [c]) s
    else if token = [] then stringTokenize graphic [] s
    else token :: stringTokenize graphic [] s

theorem stringTokenize_token {graphic : Char → Bool} (token : Str) {name : Str} (rest : Str) (isGraphic : ∀ c ∈ name, graphic c) :
    stringTokenize graphic token (name ++ rest) = stringTokenize graphic (token ++ name) rest := by
  induction name generalizing token with
  | nil => simp
  | cons c name ih =>
    rw [List.cons_append, stringTokenize, if_pos (isGraphic c List.mem_cons_self),
      ih _ (List.forall_mem_cons.mp isGraphic).2]
    simp

/-- `(string-split s c)`. -/
def stringSplit (separator : Char) (field : Str) : Str → List Str
  | [] => [field]
  | c :: s =>
    if c = separator then field :: stringSplit separator [] s
    else stringSplit separator (field ++ [c]) s

/-- `(string-contains s pattern)`. -/
def stringContains (pattern : Str) : Str → Option Nat
  | [] => if pattern = [] then some 0 else none
  | c :: s =>
    if pattern.isPrefixOf (c :: s) then some 0 else (stringContains pattern s).map (· + 1)

section Narinfo

variable {υ ν σ : Type} (lib : NarinfoLibrary υ ν σ)

/-- `narinfo-signature->canonical-sexp` inside `false-if-exception`. -/
def narinfoSignatureSexp (s : Str) : Option σ :=
  match stringSplit ';' [] s with
  | [version, _, sig] =>
    if (lib.stringToNumber version).any lib.isOne then lib.canonicalSexp sig else none
  | _ => none

/-- A URL may be relative to the URL of the cache. -/
def narinfoUri (cacheUrl : Option Str) (url : Str) : Except NarinfoError (Option υ) :=
  match lib.stringToUri url with
  | some uri => .ok (some uri)
  | none =>
    match cacheUrl with
    | none => .error .noBaseUrl
    | some base =>
      .ok (lib.stringToUri (if (str "/").isSuffixOf base then base ++ url else base ++ str "/" ++ url))

/-- The sizes or hashes of the files; without any, `#f` for each URL. -/
def fileNumbers (urls : List Str) (numbers : List Str) : List (Option ν) :=
  match numbers with
  | [] => List.replicate urls.length none
  | lst => lst.map lib.stringToNumber

/-- `narinfo-maker`, applied to the values of the fields. -/
def narinfoMaker (contents : Str) (cacheUrl : Option Str) (path : Option Str)
    (urls compressions fileHashes fileSizes : List Str) (narHash narSize references deriver system
    signature : Option Str) : Except NarinfoError (Narinfo υ ν σ) := do
  let uris ← urls.mapM (narinfoUri lib cacheUrl)
  let references ←
    match references with
    | none => .error .noReferences
    | some references => .ok (stringTokenize lib.sets.graphic [] references)
  return {
    path
    uriBase := cacheUrl
    uris
    compressions
    fileSizes := fileNumbers lib urls fileSizes
    fileHashes := fileNumbers lib urls fileHashes
    narHash
    narSize := narSize.bind lib.stringToNumber
    references
    deriver := if deriver = some [] then none else deriver
    system
    signature := signature.bind (narinfoSignatureSexp lib)
    contents
  }

/-- `alist->record` with the keys of a narinfo, of which four may occur several times. -/
def alistToNarinfo (contents : Str) (url : Option Str) (alist : Alist) :
    Except NarinfoError (Narinfo υ ν σ) :=
  narinfoMaker lib contents url (assocRef alist (str "StorePath")) (multipleValues alist (str "URL"))
    (multipleValues alist (str "Compression")) (multipleValues alist (str "FileHash"))
    (multipleValues alist (str "FileSize")) (assocRef alist (str "NarHash"))
    (assocRef alist (str "NarSize")) (assocRef alist (str "References"))
    (assocRef alist (str "Deriver")) (assocRef alist (str "System")) (assocRef alist (str "Signature"))

def fieldsToAlist (text : Str) : Except NarinfoError Alist :=
  (recutilsToAlist lib.sets text).mapError .record

def readNarinfo (contents : Str) (url : Option Str) : Except NarinfoError (Narinfo υ ν σ) := do
  let alist ← fieldsToAlist lib contents
  alistToNarinfo lib contents url alist

/-- The text that is signed, if there is a signature. -/
def aboveSignature (contents : Str) : Option Str :=
  (stringContains (str "Signature:") contents).map contents.take

/-- The fields that must be signed. -/
def mandatoryFields : List Str := [str "StorePath", str "NarHash", str "References"]

def narinfoSha256 (sha256 : Sha256) (narinfo : Narinfo υ ν σ) : Except NarinfoError (Option Sha256Hash) :=
  match aboveSignature narinfo.contents with
  | none => .ok none
  | some above => do
    let signedFields ← fieldsToAlist lib above
    return if ∀ field ∈ mandatoryFields, field ∈ signedFields.map (·.1) then some (sha256 (encode above))
      else none

/-- `status` is what `signature-case` finds out about a signature of a hash. -/
def validNarinfo (sha256 : Sha256) (status : σ → Sha256Hash → SignatureStatus)
    (narinfo : Narinfo υ ν σ) : Except NarinfoError Bool := do
  let hash ← narinfoSha256 lib sha256 narinfo
  match narinfo.uris with
  | some _ :: _ =>
    match hash, narinfo.signature with
    | some hash, some signature => return status signature hash = .validSignature
    | _, _ => return false
  | _ => .error .noUri

/-! ### Preferred URIs -/

/-- `supported-compression?`: `zstd` says whether the module for it is there. -/
def supportedCompression (zstd : Bool) (compression : Str) : Bool :=
  compression ∈ [str "gzip", str "lzip", str "xz", str "bzip2", str "none"] ||
    (compression = str "zstd" && zstd)

/-- `compresses-better?`. -/
def compressesBetter (compression1 compression2 : Str) : Bool :=
  if compression1 = str "none" then false
  else if compression1 = str "gzip" then compression2 = str "none"
  else if compression1 = str "lzip" then true
  else compression2 = str "none" || compression2 = str "gzip"

/-- `decompresses-faster?`. -/
def decompressesFaster (compression1 compression2 : Str) : Bool :=
  if compression1 = str "none" then true
  else if compression1 = str "zstd" then true
  else if compression1 = str "gzip" then compression2 = str "lzip"
  else false

/-- A URI with its compression and the size of the file. -/
abbrev Choice (υ ν : Type) := Option υ × Str × Option ν

/-- `file-size<?`, where `integer` gives the value of a number that is an integer. -/
def fileSizeLess (integer : ν → Option Int) (c1 c2 : Choice υ ν) : Bool :=
  match c1.2.2 with
  | some size1 =>
    match integer size1 with
    | some size1 =>
      match c2.2.2.bind integer with
      | some size2 => size1 < size2
      | none => true
    | none => false
  | none => compressesBetter c1.2.1 c2.2.1

/-- `speed<?`. -/
def speedLess (c1 c2 : Choice υ ν) : Bool := decompressesFaster c2.2.1 c1.2.1

/-- The `zip` of the three lists, which is as long as the shortest of them. -/
def Narinfo.choices (narinfo : Narinfo υ ν σ) : List (Choice υ ν) :=
  narinfo.uris.zip (narinfo.compressions.zip narinfo.fileSizes)

def narinfoPreferredUris (zstd : Bool) (integer : ν → Option Int) (fastDecompression : Bool)
    (narinfo : Narinfo υ ν σ) : List (Choice υ ν) :=
  let less := if fastDecompression then fun c1 c2 => !speedLess c1 c2 else fileSizeLess integer
  (narinfo.choices.filter fun choice => supportedCompression zstd choice.2.1).mergeSort
    fun c1 c2 => !less c2 c1

end Narinfo

end Guix.Client
