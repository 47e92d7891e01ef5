import Guix.Client.GitAuthenticate
import Guix.Lib.Fallible

/-!
# What a successful authentication means

The commits that `authenticate-repository` checks are those of the closure of the end commit
outside the closures of the introductory commit and of the commits authenticated before. Each
is signed with a key that all its parents authorize.
-/

namespace Guix.Client

open Fallible List Worklist Option Relation Repository

/-! ### Closures and differences -/

section Graph

variable {κ : Type} (repository : Repository κ)

/-- `d` is `c` or one of its ancestors. -/
abbrev Repository.Closure (c d : κ) : Prop := Reach repository.commitParents c d

variable [DecidableEq κ]

/-- What is found from a commit, outside a closed set. -/
theorem walkFrom_spec (commit : κ) {visited : List κ}
    (closed : Closed repository.commitParents visited []) :
    ∃ new, walkFrom repository commit visited = (new, new ++ visited) ∧ new.Nodup ∧
      Closed repository.commitParents (new ++ visited) [] ∧
      ∀ c, c ∈ new ↔ c ∉ visited ∧ repository.Closure commit c := by
  obtain ⟨⟨found, visited'⟩, walked⟩ :=
    isSome_iff_exists.mp (walk_of_fuel repository commit visited)
  have closed' : Closed repository.commitParents visited [commit] := fun c isVisited parent edge =>
    .inl ((closed c isVisited parent edge).resolve_right not_mem_nil)
  obtain ⟨new, isFound, rfl, explored⟩ := walk_spec _ _ _ _ _ _ closed' walked
  rw [append_nil] at isFound
  subst isFound
  refine ⟨found, get_of_eq_some _ walked, explored.distinct, explored.closed, fun c => ?_⟩
  simp only [explored.mem_iff, mem_singleton, exists_eq_left]

theorem commitClosures_spec (commits visited : List κ)
    (closed : Closed repository.commitParents visited []) :
    let all := commits.foldl (fun visited commit => commitClosure repository commit visited) visited
    Closed repository.commitParents all [] ∧
      ∀ c, c ∈ all ↔ c ∈ visited ∨ ∃ commit ∈ commits, repository.Closure commit c := by
  induction commits generalizing visited with
  | nil => exact ⟨closed, by simp⟩
  | cons commit commits ih =>
    obtain ⟨new, walked, _, closed', reached⟩ := walkFrom_spec repository commit closed
    have next : commitClosure repository commit visited = new ++ visited := by
      rw [commitClosure, walked]
    obtain ⟨closed'', members⟩ := ih (new ++ visited) closed'
    rw [foldl_cons, next]
    refine ⟨closed'', fun c => ?_⟩
    simp only [members, mem_append, reached, mem_cons, exists_eq_or_imp]
    by_cases seen : c ∈ visited
    · simp [seen]
    · simp [seen]

theorem commitDifference_spec (new old : κ) (excluded : List κ) :
    (commitDifference repository new old excluded).Nodup ∧
      ∀ c, c ∈ commitDifference repository new old excluded ↔
        repository.Closure new c ∧ ∀ o ∈ old :: excluded, ¬ repository.Closure o c := by
  obtain ⟨closed, members⟩ :=
    commitClosures_spec repository (old :: excluded) [] (closed_nil _ _)
  obtain ⟨found, walked, distinct, _, reached⟩ := walkFrom_spec repository new closed
  simp only [commitDifference, walked]
  refine ⟨by simpa using distinct, fun c => ?_⟩
  simp only [mem_reverse, reached, members, not_mem_nil, false_or, not_exists, not_and]
  exact and_comm

theorem commitDescendant_iff (new : κ) (old : List κ) :
    commitDescendant repository new old = true ↔ ∃ o ∈ old, repository.Closure new o := by
  obtain ⟨answer, searched⟩ := isSome_iff_exists.mp (search_of_fuel repository (· ∈ old) new)
  have isAnswer : commitDescendant repository new old = answer := get_of_eq_some _ searched
  have spec := search_spec _ _ _ _ (closed_nil _ _) (by simp) searched
  rw [isAnswer, spec]
  simp

/-- What the old commit is to the new one. -/
def Repository.Related (old new : κ) : CommitRelation → Prop
  | .self => old = new
  | .ancestor => old ≠ new ∧ repository.Closure new old
  | .descendant => old ≠ new ∧ repository.Closure old new
  | .unrelated => ¬ repository.Closure new old ∧ ¬ repository.Closure old new

/-- A path to a commit does not go through its parents. -/
theorem mem_commitClosure_parents (old new : κ) :
    new ∈ commitClosure repository old (repository.commitParents new) ↔ repository.Closure old new := by
  obtain ⟨⟨found, visited⟩, walked⟩ :=
    isSome_iff_exists.mp (walk_of_fuel repository old (repository.commitParents new))
  have isClosure : commitClosure repository old (repository.commitParents new) = visited :=
    congrArg Prod.snd (get_of_eq_some _ walked)
  obtain ⟨-, covered, each⟩ := walk_expands _ _ _ _ walked
  rw [isClosure]
  constructor
  · intro member
    rcases each new member with isParent | ⟨-, start, isStart, path⟩
    · exact absurd (.single isParent) (repository.acyclic new)
    · exact mem_singleton.mp isStart ▸ path
  · intro path
    by_contra outside
    obtain ⟨c, d, isIn, edge, isOut, rest⟩ := path.leaves (covered mem_cons_self) outside
    rcases each c isIn with isParent | ⟨expanded, -⟩
    · exact repository.acyclic new (.head' isParent (.head edge rest))
    · exact isOut (expanded edge)

theorem commitRelation_eq_iff (old new : κ) (relation : CommitRelation) :
    commitRelation repository old new = relation ↔ repository.Related old new relation := by
  obtain ⟨found, walked, -, -, reached⟩ := walkFrom_spec repository new (closed_nil _ _)
  have isAncestor : old ∈ commitClosure repository new [] ↔ repository.Closure new old := by
    simp [commitClosure, walked, reached]
  have isDescendant := mem_commitClosure_parents repository old new
  by_cases same : old = new
  · subst same
    cases relation <;> simp [commitRelation, Related, Relation.ReflTransGen.refl]
  by_cases up : repository.Closure new old
  · have notDown : ¬ repository.Closure old new := fun down =>
      repository.acyclic old (((reflTransGen_iff_eq_or_transGen.mp down).resolve_left
        (Ne.symm same)).trans_left up)
    cases relation <;> simp [commitRelation, Related, same, isAncestor, up, notDown]
  by_cases down : repository.Closure old new <;> cases relation <;>
    simp [commitRelation, Related, same, isAncestor, up, isDescendant, down]

/-- What the three procedures compute of a commit graph. -/
theorem commits_compared (new old : κ) (excluded olds : List κ) :
    (commitDifference repository new old excluded).Nodup ∧
      (∀ c, c ∈ commitDifference repository new old excluded ↔
        repository.Closure new c ∧ ∀ o ∈ old :: excluded, ¬ repository.Closure o c) ∧
      (∀ relation, commitRelation repository old new = relation ↔ repository.Related old new relation) ∧
      (commitDescendant repository new olds = true ↔ ∃ o ∈ olds, repository.Closure new o) :=
  ⟨(commitDifference_spec repository new old excluded).1,
    (commitDifference_spec repository new old excluded).2, commitRelation_eq_iff repository old new,
    commitDescendant_iff repository new olds⟩

end Graph

/-! ### An authentic commit -/

section Commit

variable {κ π δ ρ : Type} (repository : Repository κ) (pgp : OpenPgp π δ ρ) (keyring : ρ)

/-- The commit carries a good signature by the key, made with a permitted hash algorithm. -/
def SignedWith (commit : Oid) (disallowed : List PgpHashAlgorithm) (key : δ) : Prop :=
  ∃ signature signedData packet,
    repository.commitExtractSignature commit = some (signature, signedData) ∧
    pgp.packet signature = some packet ∧
    pgp.hashAlgorithm packet ∉ disallowed ++ [.md5] ∧
    pgp.verify packet keyring signedData = .goodSignature key

theorem commitSigningKey_ok (commit : Oid) (disallowed : List PgpHashAlgorithm) (key : δ) :
    commitSigningKey repository pgp commit keyring disallowed = .ok key ↔
      SignedWith repository pgp keyring commit disallowed key := by
  constructor
  · intro returned
    rw [commitSigningKey] at returned
    split at returned
    next => cases returned
    next signature signedData extracted =>
      split at returned
      next => cases returned
      next packet isPacket =>
        split at returned
        next => cases returned
        next permitted =>
          split at returned
          next key' good =>
            cases returned
            exact ⟨signature, signedData, packet, extracted, isPacket, permitted, good⟩
          next => cases returned
          next => cases returned
  · rintro ⟨signature, signedData, packet, extracted, isPacket, permitted, good⟩
    rw [commitSigningKey, extracted]
    simp only [isPacket, if_neg permitted, good]

/-- The tree of the commit has an entry `.guix-authorizations`. -/
def HasEntry (c : κ) : Prop := ∃ entry, repository.treeEntryByPath c = .ok entry

/-- There is no such file in the tree. -/
def LacksFile (c : κ) : Prop := (repository.treeEntryByPath c >>= repository.blobLookup) = .error .notFound

/-- The fingerprint is listed in the file of the commit; a commit that lacks the file, and
whose parents do, stands for the historical authorizations. -/
def AuthorizedBy (historical : List Bytes) (fingerprint : Bytes) (c : κ) : Prop :=
  (∃ content fingerprints, (repository.treeEntryByPath c >>= repository.blobLookup) = .ok content ∧
    readAuthorizations pgp content = some fingerprints ∧ fingerprint ∈ fingerprints) ∨
  (LacksFile repository c ∧ (∀ p ∈ repository.commitParents c, ¬ HasEntry repository p) ∧
    fingerprint ∈ historical)

structure Authentic (historical : List Bytes) (c : κ) (key : δ) : Prop where
  signed : ∃ disallowed, SignedWith repository pgp keyring (repository.commitId c) disallowed key ∧
    (HasEntry repository c → .sha1 ∈ disallowed)
  authorized : ∀ p ∈ repository.commitParents c,
    AuthorizedBy repository pgp historical (pgp.fingerprint key) p
  root : repository.commitParents c = [] → pgp.fingerprint key ∈ historical

theorem falseIfGitNotFound_none {α : Type} (x : Except GitErrorCode α) :
    falseIfGitNotFound x = .ok none ↔ x = .error .notFound := by
  cases x with
  | ok a => simp [falseIfGitNotFound]
  | error code => cases code <;> simp [falseIfGitNotFound]

theorem falseIfGitNotFound_some {α : Type} (x : Except GitErrorCode α) (a : α) :
    falseIfGitNotFound x = .ok (some a) ↔ x = .ok a := by
  cases x with
  | ok a => simp [falseIfGitNotFound]
  | error code => cases code <;> simp [falseIfGitNotFound]

theorem anyHasAuthorizationsFile_false {commits : List κ}
    (none_ : anyHasAuthorizationsFile repository commits = .ok false) :
    ∀ c ∈ commits, ¬ HasEntry repository c := by
  induction commits with
  | nil => simp
  | cons commit commits ih =>
    rw [anyHasAuthorizationsFile] at none_
    split at none_
    next => cases none_
    next => cases none_
    next absent =>
      have notFound := (falseIfGitNotFound_none _).mp absent
      intro c member
      rcases mem_cons.mp member with rfl | later
      · rintro ⟨entry, isEntry⟩
        rw [notFound] at isEntry
        cases isEntry
      · exact ih none_ c later

theorem assertParentsLackAuthorizations_ok {commit : κ}
    (passed : assertParentsLackAuthorizations repository commit = .ok ()) :
    ∀ p ∈ repository.commitParents commit, ¬ HasEntry repository p := by
  obtain ⟨any, isAny, passed⟩ := bind_ok.mp passed
  cases any with
  | true => cases passed
  | false => exact anyHasAuthorizationsFile_false _ isAny

theorem commitAuthorizations_ok {historical fingerprints : List Bytes} {c : κ}
    (read : commitAuthorizations repository pgp historical c = .ok fingerprints)
    {fingerprint : Bytes} (isListed : fingerprint ∈ fingerprints) :
    AuthorizedBy repository pgp historical fingerprint c := by
  rw [commitAuthorizations] at read
  split at read
  next content found =>
    split at read
    next listed isRead =>
      cases read
      exact .inl ⟨content, fingerprints, found, isRead, isListed⟩
    next => cases read
  next absent =>
    obtain ⟨_, passed, isDefault⟩ := bind_ok.mp read
    cases isDefault
    exact .inr ⟨absent, assertParentsLackAuthorizations_ok repository passed, isListed⟩
  next => cases read

theorem mem_lsetIntersection {lists : List (List Bytes)} {key : Bytes}
    (member : key ∈ lsetIntersection lists) : ∀ list ∈ lists, key ∈ list := by
  cases lists with
  | nil => simp
  | cons first others =>
    obtain ⟨inFirst, inOthers⟩ := mem_filter.mp member
    exact forall_mem_cons.mpr ⟨inFirst, of_decide_eq_true inOthers⟩

theorem commitAuthorizedKeys_ok {historical fingerprints : List Bytes} {c : κ}
    (read : commitAuthorizedKeys repository pgp c historical = .ok fingerprints)
    {fingerprint : Bytes} (isListed : fingerprint ∈ fingerprints) :
    (∀ p ∈ repository.commitParents c, AuthorizedBy repository pgp historical fingerprint p) ∧
      (repository.commitParents c = [] → fingerprint ∈ historical) := by
  rw [commitAuthorizedKeys] at read
  split at read
  next noParents =>
    cases read
    exact ⟨by simp [noParents], fun _ => isListed⟩
  next someParents =>
    refine ⟨?_, fun noParents => absurd noParents someParents⟩
    obtain ⟨authorizations, isMap, isKeys⟩ := bind_ok.mp read
    cases isKeys
    intro p isParent
    obtain ⟨listed, isListed', readParent⟩ := mapM_ok_of_mem isMap p isParent
    exact commitAuthorizations_ok repository pgp readParent
      (mem_lsetIntersection isListed listed isListed')

theorem authenticateCommit_ok {historical : List Bytes} {c : κ} {key : δ}
    (passed : authenticateCommit repository pgp c keyring historical = .ok key) :
    Authentic repository pgp keyring historical c key := by
  obtain ⟨recent, isRecent, passed⟩ := bind_ok.mp passed
  obtain ⟨signingKey, isKey, passed⟩ := bind_ok.mp passed
  obtain ⟨authorized, isAuthorized, passed⟩ := bind_ok.mp passed
  split at passed
  next isMember =>
    cases passed
    obtain ⟨byParents, atRoot⟩ := commitAuthorizedKeys_ok repository pgp
      isAuthorized isMember
    refine ⟨⟨_, (commitSigningKey_ok repository pgp keyring _ _ key).mp isKey, ?_⟩, byParents, atRoot⟩
    rintro ⟨entry, isEntry⟩
    rw [(falseIfGitNotFound_some _ entry).mpr isEntry] at isRecent
    cases isRecent
    simp
  next => cases passed

end Commit

/-! ### An authentic repository -/

section Repository

variable {κ π δ ρ : Type} (repository : Repository κ) (pgp : OpenPgp π δ ρ)

theorem verifyIntroductoryCommit_ok {keyring : ρ} {commit : κ} {signer : Bytes}
    (passed : verifyIntroductoryCommit repository pgp keyring commit signer = .ok ()) :
    ∃ key, SignedWith repository pgp keyring (repository.commitId commit) [.sha1] key ∧
      pgp.fingerprint key = signer := by
  obtain ⟨key, isKey, passed⟩ := bind_ok.mp passed
  split at passed
  next => cases passed
  next same =>
    exact ⟨key, (commitSigningKey_ok repository pgp keyring _ _ key).mp isKey,
      (not_not.mp same).symm⟩

theorem authenticateCommits_ok [DecidableEq δ] {commits : List κ} {keyring : ρ}
    {historical : List Bytes} {stats : Stats δ} {checked : List κ}
    (passed : authenticateCommits repository pgp commits keyring historical = .ok (stats, checked)) :
    checked = commits ∧ ∀ c ∈ commits, ∃ key, Authentic repository pgp keyring historical c key := by
  -- the loop has checked the commits it has done, in their order
  apply foldlM_ok (fun done acc => acc.2 = done ∧
    ∀ c ∈ done, ∃ key, Authentic repository pgp keyring historical c key) _ _ passed
  · exact ⟨rfl, by simp⟩
  · rintro done commit ⟨_, _⟩ acc' ⟨rfl, authentic⟩ stepped
    obtain ⟨signer, passed, isNext⟩ := bind_ok.mp stepped
    cases isNext
    refine ⟨rfl, fun c member => ?_⟩
    rcases mem_append.mp member with earlier | isCommit
    · exact authentic c earlier
    · obtain rfl := mem_singleton.mp isCommit
      exact ⟨signer, authenticateCommit_ok repository pgp keyring passed⟩

theorem liftGit_ok {α : Type} (x : Except GitErrorCode α) (a : α) : liftGit x = .ok a ↔ x = .ok a := by
  cases x <;> simp [liftGit, Except.mapError]

/-- The commits still to be authenticated. -/
structure Unchecked (startCommit endCommit : κ) (authenticated : List κ) (c : κ) : Prop where
  inside : repository.Closure endCommit c
  notStart : ¬ repository.Closure startCommit c
  notAuthenticated : ∀ a ∈ authenticated, ¬ repository.Closure a c

variable [DecidableEq κ]

theorem commitDifference_unchecked (startCommit endCommit : κ) (authenticated : List κ) (c : κ) :
    c ∈ commitDifference repository endCommit startCommit authenticated ↔
      Unchecked repository startCommit endCommit authenticated c := by
  rw [(commitDifference_spec repository endCommit startCommit authenticated).2, forall_mem_cons]
  exact ⟨fun ⟨inside, notStart, others⟩ => ⟨inside, notStart, others⟩,
    fun ⟨inside, notStart, others⟩ => ⟨inside, notStart, others⟩⟩

theorem checkDescendant_ok {startCommit endCommit : κ} {authenticated : List κ}
    (passed : checkDescendant repository startCommit endCommit authenticated = .ok ()) :
    ∃ o ∈ startCommit :: authenticated, repository.Closure endCommit o := by
  rw [checkDescendant] at passed
  split at passed
  next descends => exact (commitDescendant_iff _ _ _).mp descends
  next => cases passed

variable [DecidableEq δ]

theorem authenticateRepository_ok {oidString : Oid → Str} {start : Oid} {signer : Bytes} {endId : Oid}
    {cache authenticCommits : List Str} {historical : List Bytes} {result : Authenticated κ δ}
    (returned : authenticateRepository repository pgp oidString start signer endId cache
      authenticCommits historical = .ok result) :
    ∃ startCommit endCommit keyring authenticated,
      repository.commitLookup start = .ok startCommit ∧ repository.commitLookup endId = .ok endCommit ∧
      pgp.keyring = .ok keyring ∧
      lookupAuthenticated repository (cache ++ authenticCommits) = .ok authenticated ∧
      let commits := commitDifference repository endCommit startCommit authenticated
      ((commits = [] ∧ result.checked = []) ∨
        (checkIntroduction repository pgp startCommit signer keyring authenticated = .ok () ∧
          checkDescendant repository startCommit endCommit authenticated = .ok () ∧
          authenticateCommits repository pgp commits keyring historical =
            .ok (result.stats, result.checked))) := by
  obtain ⟨startCommit, isStart, returned⟩ := bind_ok.mp returned
  obtain ⟨endCommit, isEnd, returned⟩ := bind_ok.mp returned
  obtain ⟨keyring, isKeyring, returned⟩ := bind_ok.mp returned
  obtain ⟨authenticated, isAuthenticated, returned⟩ := bind_ok.mp returned
  refine ⟨startCommit, endCommit, keyring, authenticated, (liftGit_ok _ _).mp isStart,
    (liftGit_ok _ _).mp isEnd, (liftGit_ok _ _).mp isKeyring, isAuthenticated, ?_⟩
  simp only at returned
  split at returned
  next nothing =>
    cases returned
    exact .inl ⟨nothing, rfl⟩
  next =>
    obtain ⟨_, introduced, returned⟩ := bind_ok.mp returned
    obtain ⟨_, descends, returned⟩ := bind_ok.mp returned
    obtain ⟨⟨stats, checked⟩, passed, isResult⟩ := bind_ok.mp returned
    cases isResult
    exact .inr ⟨introduced, descends, passed⟩

/-- An authentication that returns has checked every commit of the difference once, and all
of them are authentic. -/
theorem authenticateRepository_sound (oidString : Oid → Str) (start : Oid) (signer : Bytes)
    (endId : Oid) (cache authenticCommits : List Str) (historical : List Bytes)
    (result : Authenticated κ δ)
    (returned : authenticateRepository repository pgp oidString start signer endId cache
      authenticCommits historical = .ok result) :
    ∃ startCommit endCommit keyring authenticated,
      repository.commitLookup start = .ok startCommit ∧ repository.commitLookup endId = .ok endCommit ∧
      pgp.keyring = .ok keyring ∧
      lookupAuthenticated repository (cache ++ authenticCommits) = .ok authenticated ∧
      (∀ c, Unchecked repository startCommit endCommit authenticated c →
        ∃ key, Authentic repository pgp keyring historical c key) ∧
      result.checked.Nodup ∧
      (∀ c, c ∈ result.checked ↔ Unchecked repository startCommit endCommit authenticated c) ∧
      ((∃ c, Unchecked repository startCommit endCommit authenticated c) →
        ∃ o ∈ startCommit :: authenticated, repository.Closure endCommit o) := by
  obtain ⟨startCommit, endCommit, keyring, authenticated, isStart, isEnd, isKeyring, isAuthenticated,
    outcome⟩ := authenticateRepository_ok repository pgp returned
  have members := commitDifference_unchecked repository startCommit endCommit authenticated
  refine ⟨startCommit, endCommit, keyring, authenticated, isStart, isEnd, isKeyring, isAuthenticated,
    ?_⟩
  rcases outcome with ⟨empty, nothing⟩ | ⟨_, descends, passed⟩
  · -- the end commit is in the closure of a commit that is trusted
    rw [empty] at members
    rw [nothing]
    have noCommit : ∀ c, ¬ Unchecked repository startCommit endCommit authenticated c :=
      fun c unchecked => absurd ((members c).mpr unchecked) not_mem_nil
    exact ⟨fun c unchecked => absurd unchecked (noCommit c), nodup_nil, members,
      fun ⟨c, unchecked⟩ => absurd unchecked (noCommit c)⟩
  · obtain ⟨isChecked, authentic⟩ :=
      authenticateCommits_ok repository pgp passed
    rw [isChecked]
    exact ⟨fun c unchecked => authentic c ((members c).mpr unchecked),
      (commitDifference_spec repository endCommit startCommit authenticated).1, members,
      fun _ => checkDescendant_ok repository descends⟩

/-! ### The introductory commit -/

/-- The commit carries a good signature, not a SHA-1 one, by the key with this fingerprint. -/
def SignedBy (keyring : ρ) (c : κ) (signer : Bytes) : Prop :=
  ∃ key, SignedWith repository pgp keyring (repository.commitId c) [.sha1] key ∧
    pgp.fingerprint key = signer

/-- The first authentication establishes that the introductory commit is signed by the
expected key and that the end commit descends from it, unless the end commit is in the closure
of the introductory one. -/
theorem authenticateRepository_introduces (oidString : Oid → Str) (start : Oid) (signer : Bytes) (endId : Oid)
    (historical : List Bytes) (result : Authenticated κ δ)
    (returned : authenticateRepository repository pgp oidString start signer endId [] [] historical = .ok result) :
    ∃ startCommit endCommit keyring, repository.commitLookup start = .ok startCommit ∧
      repository.commitLookup endId = .ok endCommit ∧ pgp.keyring = .ok keyring ∧
      (repository.Closure startCommit endCommit ∨
        SignedBy repository pgp keyring startCommit signer ∧ repository.Closure endCommit startCommit) := by
  obtain ⟨startCommit, endCommit, keyring, authenticated, isStart, isEnd, isKeyring, isAuthenticated, outcome⟩ :=
    authenticateRepository_ok repository pgp returned
  obtain rfl : [] = authenticated := Except.ok.inj isAuthenticated
  refine ⟨startCommit, endCommit, keyring, isStart, isEnd, isKeyring, ?_⟩
  rcases outcome with ⟨empty, _⟩ | ⟨introduced, descends, _⟩
  · -- otherwise the end commit itself is in the difference
    refine .inl (by_contra fun outside => ?_)
    have members := commitDifference_unchecked repository startCommit endCommit []
    have member := (members endCommit).mpr ⟨.refl, outside, by simp⟩
    rw [empty] at member
    exact absurd member not_mem_nil
  · obtain ⟨o, isOld, path⟩ := checkDescendant_ok repository descends
    obtain rfl := mem_singleton.mp isOld
    exact .inr ⟨verifyIntroductoryCommit_ok repository pgp introduced, path⟩

end Repository

/-! ### Two commits -/

section TwoCommits

theorem transGen_lt {parents : Fin 2 → List (Fin 2)} (older : ∀ a, ∀ b ∈ parents a, b < a) {a b : Fin 2}
    (path : TransGen (fun x y => y ∈ parents x) a b) : b < a := by
  induction path with
  | single edge => exact older _ _ edge
  | tail _ edge ih => exact Nat.lt_trans (older _ _ edge) ih

/-- Commit 0 and its child, commit 1, both with a file of authorizations. -/
def twoCommits : Repository (Fin 2) where
  commits := [0, 1]
  complete := by decide
  commitParents c := if c = 1 then [0] else []
  acyclic c path := by
    have older : ∀ a : Fin 2, ∀ b ∈ (if a = 1 then [0] else [] : List (Fin 2)), b < a := by decide
    exact Nat.lt_irrefl c (transGen_lt older path)
  commitId c := if c = 1 then [1] else [0]
  commitLookup id := if id = [0] then .ok 0 else if id = [1] then .ok 1 else .error .notFound
  commitLookupString _ := .error .notFound
  treeEntryByPath _ := .ok []
  blobLookup id := .ok id
  commitExtractSignature _ := some ([], [])

/-- A keyring with one key, which is the one authorized. -/
def oneKey : OpenPgp Unit Unit Unit where
  packet _ := some ()
  hashAlgorithm _ := .sha256
  verify _ _ _ := .goodSignature ()
  fingerprint _ := [171]
  keyring := .ok ()
  read _ := some (.list [.symbol (str "authorizations"), .list [.symbol (str "version"), .number 0],
    .list [.list [.string (str "AB")]]])
  graphic c := !c.isWhitespace
  downcase c := c.toLower

theorem authenticateRepository_twoCommits :
    authenticateRepository twoCommits oneKey (fun _ => []) [0] [171] [1] [] [] [] =
      .ok ⟨[((), 1)], [1], [[]]⟩ := by decide +kernel

theorem authenticateRepository_sound_twoCommits : ∃ result,
    authenticateRepository twoCommits oneKey (fun _ => []) [0] [171] [1] [] [] [] =
        .ok result ∧
      result.checked = [1] ∧ ∃ keyring key, Authentic twoCommits oneKey keyring [] 1 key := by
  have returned := authenticateRepository_twoCommits
  obtain ⟨_, _, keyring, _, _, _, _, _, authentic, _, members, _⟩ :=
    authenticateRepository_sound twoCommits oneKey (fun _ => []) [0] [171] [1] [] []
      [] _ returned
  obtain ⟨key, isAuthentic⟩ := authentic 1 ((members 1).mp mem_cons_self)
  exact ⟨_, returned, rfl, keyring, key, isAuthentic⟩

theorem not_closure_twoCommits : ¬ twoCommits.Closure 0 1 := by
  intro path
  rcases reflTransGen_iff_eq_or_transGen.mp path with same | path
  · exact absurd same (by decide)
  · have older : ∀ a : Fin 2, ∀ b ∈ twoCommits.commitParents a, b < a := by decide
    exact absurd (transGen_lt older path) (by decide)

theorem authenticateRepository_introduces_twoCommits :
    SignedBy twoCommits oneKey () 0 [171] ∧ twoCommits.Closure 1 0 := by
  obtain ⟨_, _, _, isStart, isEnd, _, outcome⟩ := authenticateRepository_introduces twoCommits oneKey
    (fun _ => []) [0] [171] [1] [] _ authenticateRepository_twoCommits
  cases isStart
  cases isEnd
  exact outcome.resolve_left not_closure_twoCommits

/-- From commit 1 to its parent there is nothing to authenticate. -/
theorem authenticateRepository_accepts_ancestor :
    ∃ result, authenticateRepository twoCommits oneKey (fun _ => []) [1] [171] [0] [] [] [] = .ok result ∧
      SignedBy twoCommits oneKey () 1 [171] ∧ ¬ twoCommits.Closure 0 1 :=
  ⟨⟨[], [], []⟩, by decide +kernel, ⟨(), ⟨[], [], (), rfl, rfl, by decide, rfl⟩, rfl⟩, not_closure_twoCommits⟩

end TwoCommits

end Guix.Client
