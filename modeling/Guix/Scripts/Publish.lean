import Guix.Client.Base64
import Guix.Client.Narinfo

/-!
# Narinfos of `guix publish`

`narinfo-string` of `(guix scripts publish)`: the text that describes a store item, its signature,
and the fields for the nars after the signature.
-/

namespace Guix.Scripts.Publish

open Guix.Client

inductive CompressionType
  | none
  | gzip
  | lzip
  | zstd
  deriving DecidableEq

/-- `symbol->string`. -/
def CompressionType.text : CompressionType → Str
  | .none => str "none"
  | .gzip => str "gzip"
  | .lzip => str "lzip"
  | .zstd => str "zstd"

/-- `<compression>`. -/
structure Compression where
  type : CompressionType
  level : Nat
  deriving DecidableEq

/-- `%no-compression`. -/
def noCompression : Compression := ⟨.none, 0⟩

/-- `file-extension`. -/
def fileExtension (file : Str) : Option Str :=
  if '.' ∈ file then some (file.reverse.takeWhile (· ≠ '.')).reverse else none

/-- `compressed-file?`. -/
def isCompressedFile (file : Str) : Bool :=
  match fileExtension file with
  | some extension =>
    extension ∈ [str "gz", str "bz2", str "xz", str "lz", str "lzma", str "tgz", str "tbz2", str "tzst",
      str "zip", str "zst"]
  | none => false

/-- An item that is compressed already is not compressed again. -/
def actualCompressions (item : Str) (requested : List Compression) : List Compression :=
  if isCompressedFile item then [noCompression] else requested

/-- `basename`. -/
def basename (file : Str) : Str :=
  ((file.reverse.dropWhile (· = '/')).takeWhile (· ≠ '/')).reverse

def decimal (n : Nat) : Str := Nat.toDigits 10 n

/-- What `query-path-info` returns. -/
structure PathInfo where
  deriver : Option Str
  hash : Bytes
  references : List Str
  narSize : Nat

/-- The host, its key pair and the procedures for URIs. -/
structure Server (σ : Type) where
  hostName : Str
  sha256 : Sha256
  /-- `signature-sexp` of the hash as data, with the key pair. -/
  signatureSexp : Sha256Hash → σ
  /-- `canonical-sexp->string`. -/
  sexpToString : σ → Str
  splitAndDecodeUriPath : Str → List Str
  encodeAndJoinUriPath : List Str → Str

section Server

variable {σ : Type} (server : Server σ)

def signedString (s : Str) : σ := server.signatureSexp (server.sha256 (encode s))

def base64EncodeString (s : Str) : Str := base64Encode (encode s)

/-- The URL of the nar of a store item. -/
def narUrl (narPath storeItem : Str) (compression : Compression) : Str :=
  server.encodeAndJoinUriPath (server.splitAndDecodeUriPath narPath ++
    (match compression.type with
      | .none => []
      | type => [type.text]) ++
    [basename storeItem])

/-- `store-item->recutils`. -/
def storeItemToRecutils (narPath storeItem : Str) (compression : Compression) (fileSize : Option Nat) : Str :=
  str "URL: " ++ narUrl server narPath storeItem compression ++ str "\nCompression: " ++
    compression.type.text ++ str "\n" ++
    (match fileSize with
      | some size => str "FileSize: " ++ decimal size ++ str "\n"
      | none => [])

/-- `assoc-ref`. -/
def sizeRef (fileSizes : List (Compression × Nat)) (compression : Compression) : Option Nat :=
  (fileSizes.find? fun entry => entry.1 = compression).map (·.2)

/-- The part of the narinfo that is signed. -/
def signedPart (storePath : Str) (pathInfo : PathInfo) : Str :=
  let baseInfo := str "StorePath: " ++ storePath ++ str "\nNarHash: sha256:" ++
    nixBase32String pathInfo.hash ++ str "\nNarSize: " ++ decimal pathInfo.narSize ++
    str "\nReferences: " ++ (str " ").intercalate (pathInfo.references.map basename) ++ str "\n"
  match pathInfo.deriver with
  | none => baseInfo
  | some deriver => baseInfo ++ str "Deriver: " ++ basename deriver ++ str "\n"

/-- The sizes of the files; that of the nar itself is known. -/
def allFileSizes (pathInfo : PathInfo) (fileSizes : List (Compression × Nat)) : List (Compression × Nat) :=
  (noCompression, pathInfo.narSize) :: fileSizes

def narinfoString (storePath : Str) (pathInfo : PathInfo) (compressions : List Compression) (narPath : Str)
    (fileSizes : List (Compression × Nat)) : Str :=
  let compressions := actualCompressions storePath compressions
  let info := signedPart storePath pathInfo
  let signature := base64EncodeString (server.sexpToString (signedString server info))
  info ++ str "Signature: 1;" ++ server.hostName ++ str ";" ++ signature ++ str "\n" ++
    compressions.flatMap fun compression =>
      storeItemToRecutils server narPath storePath compression
        (sizeRef (allFileSizes pathInfo fileSizes) compression)

end Server

end Guix.Scripts.Publish
