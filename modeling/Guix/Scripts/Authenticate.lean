import Guix.Client.Derivations

/-!
# The authentication agent

`guix authenticate`, which signs hashes and verifies signatures for the daemon. It reads
commands from its standard input and writes a reply for each one. The functions of libgcrypt,
the files, the ACL and the message catalogue are parameters.
-/

namespace Guix.Scripts.Authenticate

open Guix.Client (Str str base16String)

inductive AuthError
  /-- `&formatted-message`, with its format string and arguments. -/
  | formatted (template : Str) (arguments : List Str)
  /-- `gcry-error` of libgcrypt. -/
  | gcryError
  /-- A character that the encoding of the port does not have. -/
  | encodingError
  | outOfRange
  | wrongType
  | invalidHexadecimal (chr : Char)
  | invalidAcl
  | outOfFuel
  deriving DecidableEq

/-- A number as `format` writes it. -/
def decimal (n : Nat) : Str := Nat.toDigits 10 n

/-- What the agent uses and is not part of it. `none` stands for `gcry-error` where a canonical
s-expression is parsed or signed, and for `#f` otherwise. Files are read with the number of
commands read so far: they may change in between. -/
structure AuthLibrary (Sexp Native : Type) where
  stringToCanonicalSexp : Str → Option Sexp
  canonicalSexpToString : Sexp → Str
  canonicalSexpToSexp : Sexp → Native
  findSexpToken : Sexp → Str → Option Sexp
  /-- `bytevector->hash-data` for the `key-type` of a public key. -/
  bytevectorToHashData : Bytes → Sexp → Option Sexp
  sign : Sexp → Sexp → Option Sexp
  verify : Sexp → Sexp → Sexp → Bool
  hashDataToBytevector : Sexp → Option Bytes
  stringToNumber : Str → Option Nat
  stringToNumber_decimal : ∀ n, stringToNumber (decimal n) = some n
  /-- The contents of a file, or the `errno` of the `system-error`. -/
  readFile : Nat → Str → Except Nat Str
  strerror : Nat → Str
  gettext : Str → Str

/-- The keys of the entries of an ACL; `none` when it is not an ACL. -/
abbrev Acl (Native : Type) := Option (List Native)

/-- `ISO-8859-1`. -/
def decodeLatin1 (bv : Bytes) : Str := bv.map fun b => Char.ofNat b.toNat

def encodeLatin1 : Str → Except AuthError Bytes
  | [] => .ok []
  | c :: rest => do
    if c.toNat < 256 then return UInt8.ofNat c.toNat :: (← encodeLatin1 rest)
    else throw .encodingError

/-- `format` with the escapes `~a` and `~%`. -/
def format : Str → List Str → Str
  | '~' :: 'a' :: template, argument :: arguments => argument ++ format template arguments
  | '~' :: '%' :: template, arguments => '\n' :: format template arguments
  | c :: template, arguments => c :: format template arguments
  | [], _ => []

/-- The digits of `base16-string->bytevector`. -/
def hexadecimalValue (chr : Char) : Except AuthError UInt8 :=
  match (str "0123456789abcdef").idxOf? chr with
  | some value => .ok (UInt8.ofNat value)
  | none => .error (.invalidHexadecimal chr)

def base16StringToBytevector : Str → Except AuthError Bytes
  | [] => .ok []
  | [chr] => do
    let _ ← hexadecimalValue chr
    -- one digit more than the bytevector has room for
    throw .outOfRange
  | high :: low :: rest => do
    let v ← hexadecimalValue high
    let w ← hexadecimalValue low
    return (v <<< 4 ||| w) :: (← base16StringToBytevector rest)

section Agent

variable {Sexp Native : Type} (lib : AuthLibrary Sexp Native)

def parseSexp (text : Str) : Except AuthError Sexp :=
  match lib.stringToCanonicalSexp text with
  | some sexp => .ok sexp
  | none => .error .gcryError

/-! ### Keys and signatures -/

/-- `read-canonical-sexp` on a key file; errors are reported for the file of the secret key. -/
def readKey (time : Nat) (keyFile file : Str) : Except AuthError Sexp :=
  match lib.readFile time file with
  | .ok text => parseSexp lib text
  | .error errno =>
    .error (.formatted (str "failed to load key pair at '~a': ~a~%\n") [keyFile, lib.strerror errno])

/-- `string-drop-right`. -/
def stringDropRight (s : Str) (n : Nat) : Except AuthError Str :=
  if s.length < n then .error .outOfRange else .ok (s.take (s.length - n))

/-- The public and the secret key. -/
def loadKeyPair (time : Nat) (keyFile : Str) : Except AuthError (Sexp × Sexp) := do
  let secretKey ← readKey lib time keyFile keyFile
  let base ← stringDropRight keyFile 4
  let publicKey ← readKey lib time keyFile (base ++ str ".pub")
  return (publicKey, secretKey)

def orGcryError {α : Type} : Option α → Except AuthError α
  | some result => .ok result
  | none => .error .gcryError

/-- The text that `signature-sexp` of `(guix pki)` parses. -/
def signatureText (data signature publicKey : Sexp) : Str :=
  str "(signature " ++ lib.canonicalSexpToString data ++ str " " ++
    lib.canonicalSexpToString signature ++ str " " ++ lib.canonicalSexpToString publicKey ++ str ")"

def signWithKey (publicKey secretKey : Sexp) (sha256 : Bytes) : Except AuthError Sexp := do
  let data ← orGcryError (lib.bytevectorToHashData sha256 publicKey)
  let signature ← orGcryError (lib.sign data secretKey)
  parseSexp lib (signatureText lib data signature publicKey)

def signatureSubject (sig : Sexp) : Option Sexp := lib.findSexpToken sig (str "public-key")

def signatureSignedData (sig : Sexp) : Option Sexp := lib.findSexpToken sig (str "data")

/-- `valid-signature?`. -/
def isValidSignature (sig : Sexp) : Bool :=
  match signatureSignedData lib sig, lib.findSexpToken sig (str "sig-val"), signatureSubject lib sig with
  | some data, some signature, some publicKey => lib.verify signature data publicKey
  | _, _, _ => false

variable [DecidableEq Native]

/-- `authorized-key?`. -/
def isAuthorizedKey (key : Sexp) (acl : Acl Native) : Except AuthError Bool :=
  match acl with
  | some subjectKeys => .ok (lib.canonicalSexpToSexp key ∈ subjectKeys)
  | none => .error .invalidAcl

/-- The hash that is signed, if the signed data have one. -/
def validateSignature (signature : Sexp) (acl : Acl Native) : Except AuthError (Option Bytes) :=
  match signatureSignedData lib signature, signatureSubject lib signature with
  | some data, some subject => do
    if ← isAuthorizedKey lib subject acl then
      if isValidSignature lib signature then
        return lib.hashDataToBytevector data
      else
        throw (.formatted (str "invalid signature: ~a\n") [lib.canonicalSexpToString signature])
    else
      throw (.formatted (str "unauthorized public key: ~a\n") [lib.canonicalSexpToString subject])
  | _, _ =>
    throw (.formatted (str "corrupt signature data: ~a\n") [lib.canonicalSexpToString signature])

/-! ### Commands -/

/-- `read-delimited`: the delimiter is consumed; `none` at the end of the input. -/
def readDelimited (delimiters : List Char) (port : Bytes) : Option (Str × Bytes) :=
  if port = [] then none
  else
    let isDelimiter (b : UInt8) : Bool := Char.ofNat b.toNat ∈ delimiters
    some (decodeLatin1 (port.takeWhile fun b => !isDelimiter b),
      (port.dropWhile fun b => !isDelimiter b).drop 1)

def consumeWhitespace (port : Bytes) : Bytes := port.dropWhile (· = 32)

/-- `get-bytevector-n` as a string; the length may be `#f`, and at the end of the input there
is no bytevector. -/
def readArgument (len : Option Nat) (port : Bytes) : Except AuthError (Str × Bytes) :=
  match len with
  | none => .error .wrongType
  | some len =>
    if 0 < len ∧ port = [] then .error .wrongType
    else .ok (decodeLatin1 (port.take len), port.drop len)

def readArguments : Nat → List Str → Bytes → Except AuthError (List Str × Bytes)
  | 0, _, _ => .error .outOfFuel
  | fuel + 1, result, port =>
    match consumeWhitespace port with
    | [] => .ok (result.reverse, [])
    | next :: rest =>
      if next = 10 then .ok (result.reverse, rest)
      else do
        let size := (readDelimited [':'] (next :: rest)).getD ([], [])
        let argument ← readArgument (lib.stringToNumber size.1) size.2
        readArguments fuel (argument.1 :: result) argument.2

/-- The words of the next command, none at the end of the input. -/
def readCommand (port : Bytes) : Except AuthError (List Str × Bytes) :=
  match readDelimited [' ', '\t', '\n', '\r'] port with
  | none => .ok ([], [])
  | some (command, rest) => readArguments lib (rest.length + 1) [command] rest

/-! ### Replies -/

def sendReply (code : Nat) (text : Str) : Except AuthError Bytes := do
  let bv ← encodeLatin1 text
  let header ← encodeLatin1 (decimal code ++ str " " ++ decimal bv.length ++ str ":")
  return header ++ bv

def replyCodeSuccess : Nat := 0
def replyCodeCommandNotFound : Nat := 404
def replyCodeCommandFailed : Nat := 500

/-- The handler is for formatted messages only. -/
def callWithReply (thunk : Except AuthError Str) : Except AuthError Bytes :=
  match thunk >>= sendReply replyCodeSuccess with
  | .error (.formatted template arguments) =>
    sendReply replyCodeCommandFailed (format (lib.gettext template) arguments)
  | reply => reply

abbrev KeyPairs (Sexp : Type) := List (Str × (Sexp × Sexp))

/-- The keys of a file and the table with them. -/
def keysOf (time : Nat) (keyPairs : KeyPairs Sexp) (signingKey : Str) :
    Except AuthError (KeyPairs Sexp × (Sexp × Sexp)) :=
  match keyPairs.lookup signingKey with
  | some keys => .ok (keyPairs, keys)
  | none => do
    let keys ← loadKeyPair lib time signingKey
    return ((signingKey, keys) :: keyPairs, keys)

/-- The keys are loaded before the reply is prepared. -/
def serveSign (time : Nat) (keyPairs : KeyPairs Sexp) (signingKey hash : Str) :
    Except AuthError (Bytes × KeyPairs Sexp) := do
  let hash ← base16StringToBytevector hash
  let loaded ← keysOf lib time keyPairs signingKey
  let reply ← callWithReply lib do
    let signature ← signWithKey lib loaded.2.1 loaded.2.2 hash
    return lib.canonicalSexpToString signature
  return (reply, loaded.1)

/-- `bytevector->base16-string` of the hash, which is not a bytevector if there is none. -/
def hashText : Option Bytes → Except AuthError Str
  | some hash => .ok (base16String hash)
  | none => .error .wrongType

def serveVerify (acl : Acl Native) (signature : Str) : Except AuthError Bytes :=
  callWithReply lib do
    let sexp ← parseSexp lib signature
    let hash ← validateSignature lib sexp acl
    hashText hash

/-- The reply to a command and the keys that have been loaded. -/
def serve (acl : Acl Native) (time : Nat) (keyPairs : KeyPairs Sexp) (command : List Str) :
    Except AuthError (Bytes × KeyPairs Sexp) :=
  match command with
  | [name, signingKey, hash] =>
    if name = str "sign" then serveSign lib time keyPairs signingKey hash
    else do return (← sendReply replyCodeCommandNotFound (str "invalid command"), keyPairs)
  | [name, signature] =>
    if name = str "verify" then do return (← serveVerify lib acl signature, keyPairs)
    else do return (← sendReply replyCodeCommandNotFound (str "invalid command"), keyPairs)
  | _ => do return (← sendReply replyCodeCommandNotFound (str "invalid command"), keyPairs)

inductive AgentExit
  | exited (status : Nat)
  /-- An exception that nothing handles. -/
  | died (error : AuthError)
  deriving DecidableEq

/-- What the agent writes, and how it ends. -/
def agentLoop (acl : Acl Native) : Nat → Nat → KeyPairs Sexp → Bytes → Bytes × AgentExit
  | 0, _, _, _ => ([], .died .outOfFuel)
  | fuel + 1, time, keyPairs, input =>
    match readCommand lib input with
    | .error e => ([], .died e)
    | .ok ([], _) => ([], .exited 0)
    | .ok (command, rest) =>
      match serve lib acl time keyPairs command with
      | .error e => ([], .died e)
      | .ok (reply, keyPairs) =>
        let later := agentLoop acl fuel (time + 1) keyPairs rest
        (reply ++ later.1, later.2)

def guixAuthenticate (acl : Acl Native) (input : Bytes) : Bytes × AgentExit :=
  agentLoop lib acl (input.length + 1) 0 [] input

end Agent

/-! ### The side of the daemon -/

/-- What `signHash` and `verifySignature` ask. -/
inductive Request
  | sign (secretKey hexHash : Bytes)
  | verify (signature : Bytes)

/-- Text in the daemon's messages. -/
def ascii (text : Str) : Bytes := text.map fun c => UInt8.ofNat c.toNat

/-- An argument with its size. -/
def sized (argument : Bytes) : Bytes := ascii (decimal argument.length) ++ ascii (str ":") ++ argument

/-- The line that is written to the agent. -/
def Request.line : Request → Bytes
  | .sign secretKey hexHash =>
    ascii (str "sign ") ++ sized secretKey ++ ascii (str " ") ++ sized hexHash ++ ascii (str "\n")
  | .verify signature => ascii (str "verify ") ++ sized signature ++ ascii (str "\n")

end Guix.Scripts.Authenticate
