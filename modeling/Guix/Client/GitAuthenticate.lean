import Guix.Client.Derivations
import Guix.Lib.Worklist

/-!
# Authentication of Git commits

The traversals of the commit graph of `(guix git)` and the authentication of
`(guix git-authenticate)`. What libgit2 and the OpenPGP implementation answer is given.
-/

namespace Guix.Client

open Worklist

abbrev Oid := Bytes

/-- `GIT_ENOTFOUND`, or another code. -/
inductive GitErrorCode
  | notFound
  | other (code : Int)
  deriving DecidableEq

inductive PgpHashAlgorithm
  | md5
  | sha1
  | ripemd160
  | sha256
  | sha384
  | sha512
  | sha224
  deriving DecidableEq

inductive SignatureCheck (δ : Type)
  | goodSignature (key : δ)
  | badSignature
  | missingKey (fingerprint : Bytes)

/-- What the Scheme reader returns. -/
inductive Datum
  | symbol (name : Str)
  | string (s : Str)
  | number (n : Int)
  | list (items : List Datum)
  | other

/-- The commits of a repository. A commit names its parents by their hashes, so that there
is no cycle. -/
structure Repository (κ : Type) where
  commits : List κ
  complete : ∀ c, c ∈ commits
  commitParents : κ → List κ
  acyclic : ∀ c, ¬ Relation.TransGen (fun a b => b ∈ commitParents a) c c
  commitId : κ → Oid
  commitLookup : Oid → Except GitErrorCode κ
  /-- `commit-lookup` of `string->oid`. -/
  commitLookupString : Str → Except GitErrorCode κ
  /-- The entry of `.guix-authorizations` in the tree of a commit. -/
  treeEntryByPath : κ → Except GitErrorCode Oid
  blobLookup : Oid → Except GitErrorCode Bytes
  /-- `commit-extract-signature`, `none` when it fails. -/
  commitExtractSignature : Oid → Option (Str × Str)

/-- OpenPGP packets `π`, keys `δ` and keyrings `ρ`. -/
structure OpenPgp (π δ ρ : Type) where
  packet : Str → Option π
  hashAlgorithm : π → PgpHashAlgorithm
  verify : π → ρ → Str → SignatureCheck δ
  fingerprint : δ → Bytes
  /-- `load-keyring-from-reference`. -/
  keyring : Except GitErrorCode ρ
  /-- `read` and the Unicode properties of Guile. -/
  read : Bytes → Option Datum
  graphic : Char → Bool
  downcase : Char → Char

inductive AuthenticationError
  | git (code : GitErrorCode)
  | unsigned (commit : Oid)
  | malformedSignature (commit : Oid)
  | hashNotPermitted (commit : Oid) (algorithm : PgpHashAlgorithm)
  | verificationFailed (commit : Oid)
  | missingKey (commit : Oid) (fingerprint : Bytes)
  | malformedAuthorizations
  | removesAuthorizations (commit : Oid)
  | unauthorized (commit : Oid) (fingerprint : Bytes)
  | wrongSigner (commit : Oid) (actual expected : Bytes)
  | notDescendant (commit introductory : Oid)
  deriving DecidableEq

abbrev Authentication := Except AuthenticationError

/-! ### The commit graph -/

section Graph

variable {κ : Type} [DecidableEq κ] (repository : Repository κ)

/-- As many steps as a depth-first traversal from one commit can take. -/
def Repository.fuel : Nat := edges repository.commitParents repository.commits + 2

theorem walk_of_fuel (commit : κ) (visited : List κ) :
    (walk repository.commitParents repository.fuel [commit] [] visited).isSome := by
  apply walk_returns repository.complete
  have := edgesLeft_le_edges repository.commitParents repository.commits visited
  rw [Repository.fuel, List.length_singleton]
  omega

theorem search_of_fuel (goal : κ → Bool) (commit : κ) :
    (search repository.commitParents goal (repository.commits.length + 2) [commit] []).isSome := by
  apply search_returns _ repository.complete
  have := List.length_filter_le (· ∉ ([] : List κ)) repository.commits
  rw [nodesLeft]
  omega

/-- The commits found from a commit, latest first, and the visited ones. -/
def walkFrom (commit : κ) (visited : List κ) : List κ × List κ :=
  (walk repository.commitParents repository.fuel [commit] [] visited).get
    (walk_of_fuel repository commit visited)

/-- `commit-closure`: the visited commits. -/
def commitClosure (commit : κ) (visited : List κ) : List κ := (walkFrom repository commit visited).2

def commitDifference (new old : κ) (excluded : List κ) : List κ :=
  let visited := (old :: excluded).foldl (fun visited commit => commitClosure repository commit visited) []
  (walkFrom repository new visited).1.reverse

inductive CommitRelation
  | self
  | ancestor
  | descendant
  | unrelated
  deriving DecidableEq

/-- What the old commit is to the new one. -/
def commitRelation (old new : κ) : CommitRelation :=
  if old = new then .self
  else if old ∈ commitClosure repository new [] then .ancestor
  else if new ∈ commitClosure repository old (repository.commitParents new) then .descendant
  else .unrelated

/-- `commit-descendant?`. -/
def commitDescendant (new : κ) (old : List κ) : Bool :=
  (search repository.commitParents (· ∈ old) (repository.commits.length + 2) [new] []).get
    (search_of_fuel repository _ new)

end Graph

/-! ### Authentication of a commit -/

def falseIfGitNotFound {α : Type} : Except GitErrorCode α → Authentication (Option α)
  | .ok a => .ok (some a)
  | .error .notFound => .ok none
  | .error code => .error (.git code)

/-- `base16-string->bytevector`, `none` where it raises. -/
def base16Digits : Str → Option Bytes
  | [] => some []
  | [_] => none
  | c :: d :: s => do
    let high ← (str "0123456789abcdef").idxOf? c
    let low ← (str "0123456789abcdef").idxOf? d
    let rest ← base16Digits s
    return UInt8.ofNat (16 * high + low) :: rest

section Commit

variable {κ π δ ρ : Type} (repository : Repository κ) (pgp : OpenPgp π δ ρ)

def commitSigningKey (commit : Oid) (keyring : ρ) (disallowed : List PgpHashAlgorithm) :
    Authentication δ :=
  match repository.commitExtractSignature commit with
  | none => .error (.unsigned commit)
  | some (signature, signedData) =>
    match pgp.packet signature with
    | none => .error (.malformedSignature commit)
    | some packet =>
      if pgp.hashAlgorithm packet ∈ disallowed ++ [.md5] then
        .error (.hashNotPermitted commit (pgp.hashAlgorithm packet))
      else
        match pgp.verify packet keyring signedData with
        | .goodSignature key => .ok key
        | .badSignature => .error (.verificationFailed commit)
        | .missingKey fingerprint => .error (.missingKey commit fingerprint)

/-- The fingerprint at the head of an entry of the list of authorizations. -/
def authorizedFingerprint : Datum → Option Bytes
  | .list (.string fingerprint :: _) =>
    base16Digits ((fingerprint.filter pgp.graphic).map pgp.downcase)
  | _ => none

def readAuthorizations (content : Bytes) : Option (List Bytes) :=
  match pgp.read content with
  | some (.list (.symbol tag :: .list [.symbol version, .number 0] :: .list entries :: _)) =>
    if tag = str "authorizations" ∧ version = str "version" then entries.mapM (authorizedFingerprint pgp)
    else none
  | _ => none

/-- `parents-have-authorizations-file?`. -/
def anyHasAuthorizationsFile : List κ → Authentication Bool
  | [] => .ok false
  | commit :: commits =>
    match falseIfGitNotFound (repository.treeEntryByPath commit) with
    | .error e => .error e
    | .ok (some _) => .ok true
    | .ok none => anyHasAuthorizationsFile commits

def assertParentsLackAuthorizations (commit : κ) : Authentication Unit := do
  if ← anyHasAuthorizationsFile repository (repository.commitParents commit) then
    throw (.removesAuthorizations (repository.commitId commit))

def commitAuthorizations (defaultAuthorizations : List Bytes) (commit : κ) :
    Authentication (List Bytes) :=
  match repository.treeEntryByPath commit >>= repository.blobLookup with
  | .ok content =>
    match readAuthorizations pgp content with
    | some fingerprints => .ok fingerprints
    | none => .error .malformedAuthorizations
  | .error .notFound => do
    assertParentsLackAuthorizations repository commit
    return defaultAuthorizations
  | .error code => .error (.git code)

/-- `(apply lset-intersection bytevector=? lists)`. -/
def lsetIntersection : List (List Bytes) → List Bytes
  | [] => []
  | first :: others => first.filter fun key => ∀ other ∈ others, key ∈ other

def commitAuthorizedKeys (commit : κ) (defaultAuthorizations : List Bytes) :
    Authentication (List Bytes) :=
  match repository.commitParents commit with
  | [] => .ok defaultAuthorizations
  | parents => do
    let authorizations ← parents.mapM (commitAuthorizations repository pgp defaultAuthorizations)
    return lsetIntersection authorizations

def authenticateCommit (commit : κ) (keyring : ρ) (defaultAuthorizations : List Bytes) :
    Authentication δ := do
  let id := repository.commitId commit
  let recent ← falseIfGitNotFound (repository.treeEntryByPath commit)
  let signingKey ← commitSigningKey repository pgp id keyring (if recent.isSome then [.sha1] else [])
  let authorized ← commitAuthorizedKeys repository pgp commit defaultAuthorizations
  if pgp.fingerprint signingKey ∈ authorized then return signingKey
  else throw (.unauthorized id (pgp.fingerprint signingKey))

end Commit

/-! ### Authentication of a repository -/

section Repository

variable {κ π δ ρ : Type} [DecidableEq κ] [DecidableEq δ] (repository : Repository κ)
  (pgp : OpenPgp π δ ρ)

/-- The number of commits signed by each key. -/
abbrev Stats (δ : Type) := List (δ × Nat)

def countSigner (signer : δ) (stats : Stats δ) : Stats δ :=
  match stats.find? fun entry => entry.1 = signer with
  | none => (signer, 1) :: stats
  | some (_, count) => (signer, count + 1) :: stats.filter fun entry => entry.1 ≠ signer

/-- The counts, and the commits that were authenticated, in this order. -/
def authenticateCommits (commits : List κ) (keyring : ρ) (defaultAuthorizations : List Bytes) :
    Authentication (Stats δ × List κ) :=
  commits.foldlM (fun (stats, checked) commit => do
    let signer ← authenticateCommit repository pgp commit keyring defaultAuthorizations
    return (countSigner signer stats, checked ++ [commit])) ([], [])

def verifyIntroductoryCommit (keyring : ρ) (commit : κ) (expectedSigner : Bytes) :
    Authentication Unit := do
  let key ← commitSigningKey repository pgp (repository.commitId commit) keyring [.sha1]
  if expectedSigner ≠ pgp.fingerprint key then
    throw (.wrongSigner (repository.commitId commit) (pgp.fingerprint key) expectedSigner)

structure Authenticated (κ δ : Type) where
  stats : Stats δ
  checked : List κ
  /-- The commits in the cache afterwards. -/
  cache : List Str
  deriving DecidableEq

/-- The commits among the identifiers that are in the repository. -/
def lookupAuthenticated (ids : List Str) : Authentication (List κ) := do
  let found ← ids.mapM fun id => falseIfGitNotFound (repository.commitLookupString id)
  return found.filterMap id

def liftGit {α : Type} (x : Except GitErrorCode α) : Authentication α := x.mapError .git

/-- `cache-authenticated-commit`. -/
def cacheAuthenticatedCommit (id : Str) (cache : List Str) : List Str :=
  (id :: cache).eraseDups.take 200

/-- The first time, the signature of the introductory commit is verified. -/
def checkIntroduction (startCommit : κ) (signer : Bytes) (keyring : ρ) (authenticated : List κ) :
    Authentication Unit :=
  if authenticated = [] then verifyIntroductoryCommit repository pgp keyring startCommit signer
  else return ()

def checkDescendant (startCommit endCommit : κ) (authenticated : List κ) : Authentication Unit :=
  if commitDescendant repository endCommit (startCommit :: authenticated) then return ()
  else throw (.notDescendant (repository.commitId endCommit) (repository.commitId startCommit))

/-- `cache` is what `previously-authenticated-commits` returns. -/
def authenticateRepository (oidString : Oid → Str) (start : Oid) (signer : Bytes) (endId : Oid)
    (cache authenticCommits : List Str) (historicalAuthorizations : List Bytes) :
    Authentication (Authenticated κ δ) := do
  let startCommit ← liftGit (repository.commitLookup start)
  let endCommit ← liftGit (repository.commitLookup endId)
  let keyring ← liftGit pgp.keyring
  let authenticated ← lookupAuthenticated repository (cache ++ authenticCommits)
  let commits := commitDifference repository endCommit startCommit authenticated
  if commits = [] then return ⟨[], [], cache⟩
  else
    checkIntroduction repository pgp startCommit signer keyring authenticated
    checkDescendant repository startCommit endCommit authenticated
    let (stats, checked) ← authenticateCommits repository pgp commits keyring historicalAuthorizations
    return ⟨stats, checked, cacheAuthenticatedCommit (oidString (repository.commitId endCommit)) cache⟩

end Repository

end Guix.Client
