import Guix.Client.Narinfo
import Guix.Lib.Assoc
import Mathlib.Data.List.Infix

/-!
# Trees from file mappings

`file-mapping->tree` of `(guix store)`, which inserts one destination after the other into
nested association lists. `stat` gives the mode of a source, if it exists.
-/

namespace Guix.Client

open List

inductive TreeContent
  | file (name : Str)
  | data (string : Str)
  | bytes (bv : Bytes)
  deriving DecidableEq

/-- What `add-file-tree-to-store` has under a name. -/
inductive TreeEntry
  | regular (content : TreeContent)
  | executable (content : TreeContent)
  | symlink (target : Str)
  | directory (entries : List (Str × TreeEntry))

inductive MappingError
  | noMatch
  | noSuchFile (source : Str)
  deriving DecidableEq

/-- `(string-tokenize file %not-slash)`. -/
def components (file : Str) : List Str := stringTokenize (· != '/') [] file

section Model

variable (stat : Str → Option Nat)

def fileEntry (source : Str) (mode : Nat) : TreeEntry :=
  if mode &&& 0o100 = 0 then .regular (.file source) else .executable (.file source)

/-- The `loop` for one destination. -/
def insertDestination (source : Str) :
    List Str → List (Str × TreeEntry) → Except MappingError (List (Str × TreeEntry))
  | [], _ => .error .noMatch
  | [file], result =>
    match stat source with
    | some mode => .ok ((file, fileEntry source mode) :: result)
    | none => .error (.noSuchFile source)
  | file :: rest, result =>
    match result.lookup file with
    | none => do return (file, .directory (← insertDestination source rest [])) :: result
    | some (.directory entries) => do
      return (file, .directory (← insertDestination source rest entries)) :: result.filter (·.1 != file)
    | some _ => .error .noMatch

def fileMappingToTree (mapping : List (Str × Str)) : Except MappingError (List (Str × TreeEntry)) :=
  mapping.foldlM (fun result pair => insertDestination stat pair.2 (components pair.1) result) []

end Model

/-! ### Insertion -/

def TreeEntry.follow : TreeEntry → List Str → Option TreeEntry
  | node, [] => some node
  | .directory entries, file :: rest => (entries.lookup file).bind (·.follow rest)
  | _, _ :: _ => none

/-- A directory without two entries of one name. -/
def TreeEntry.Directory (node : TreeEntry) : Prop :=
  ∃ entries, node = .directory entries ∧ (entries.map Prod.fst).Nodup

theorem follow_fileEntry (source : Str) (mode : Nat) (file : Str) (rest : List Str) :
    (fileEntry source mode).follow (file :: rest) = none := by
  unfold fileEntry
  split <;> rfl

section Insert

variable {file : Str} {path : List Str} {leaf child : TreeEntry} {old : Option TreeEntry}
  {tree others : List (Str × TreeEntry)}

/-- The node has one more leaf than before, at `path`; nodes that are not above it are as before. -/
structure Inserted (path : List Str) (leaf : TreeEntry) (old : Option TreeEntry) (new : TreeEntry) : Prop where
  here : new.follow path = some leaf
  above : ∀ other, other <+: path → other ≠ path → ∃ node, new.follow other = some node ∧ node.Directory
  elsewhere : ∀ other, ¬ other <+: path → new.follow other = old.bind (·.follow other)

theorem Inserted.put (inserted : Inserted path leaf (tree.lookup file) child)
    (same : ∀ name ≠ file, others.lookup name = tree.lookup name)
    (distinct : (file :: others.map Prod.fst).Nodup) :
    Inserted (file :: path) leaf (some (.directory tree)) (.directory ((file, child) :: others)) where
  here := by simpa [TreeEntry.follow] using inserted.here
  above other isAbove different := by
    cases other with
    | nil => exact ⟨_, rfl, _, rfl, distinct⟩
    | cons name rest =>
      obtain ⟨same, isAbove⟩ := cons_prefix_cons.mp isAbove
      rw [same] at different ⊢
      simpa [TreeEntry.follow] using inserted.above rest isAbove fun same => different (same ▸ rfl)
  elsewhere other notAbove := by
    cases other with
    | nil => exact absurd nil_prefix notAbove
    | cons name rest =>
      by_cases here : name = file
      · rw [here, cons_prefix_cons] at notAbove
        simpa [TreeEntry.follow, here] using inserted.elsewhere rest fun isAbove => notAbove ⟨rfl, isAbove⟩
      · simp [TreeEntry.follow, lookup_cons, beq_false_of_ne here, same name here]

/-- A destination can be inserted when there are only directories above it. -/
theorem insertDestination_inserted {stat : Str → Option Nat} {source : Str} {mode : Nat}
    (exists_ : stat source = some mode) (named : path ≠ [])
    (free : ∀ other node, other <+: path → (TreeEntry.directory tree).follow other = some node →
      node.Directory ∧ other ≠ path) :
    ∃ tree', insertDestination stat source path tree = .ok tree' ∧
      Inserted path (fileEntry source mode) (some (.directory tree)) (.directory tree') := by
  induction path generalizing tree with
  | nil => exact absurd rfl named
  | cons file rest ih =>
    obtain ⟨⟨_, ⟨⟩, distinct⟩, _⟩ := free [] _ nil_prefix rfl
    cases found : tree.lookup file with
    | none =>
      have fresh := nodup_cons.mpr ⟨Assoc.lookup_eq_none_iff.mp found, distinct⟩
      cases rest with
      | nil =>
        have leaf : Inserted [] (fileEntry source mode) none (fileEntry source mode) := by
          refine ⟨rfl, fun other above different => absurd (prefix_nil.mp above) different, ?_⟩
          rintro (_ | ⟨file, rest⟩) notAbove
          · exact absurd nil_prefix notAbove
          · exact follow_fileEntry source mode file rest
        exact ⟨_, by rw [insertDestination, exists_], .put (found ▸ leaf) (fun _ _ => rfl) fresh⟩
      | cons next rest =>
        obtain ⟨inner, ran, inserted⟩ := @ih [] (cons_ne_nil _ _) (by
          rintro (_ | _) node _ ⟨⟩
          exact ⟨⟨_, rfl, nodup_nil⟩, nofun⟩)
        -- an empty directory has no more nodes than no directory
        have new : Inserted (next :: rest) (fileEntry source mode) none (.directory inner) := by
          refine ⟨inserted.here, inserted.above, ?_⟩
          rintro (_ | _) notAbove
          · exact absurd nil_prefix notAbove
          · exact inserted.elsewhere _ notAbove
        exact ⟨_, by simp only [insertDestination, found, ran]; rfl, .put (found ▸ new) (fun _ _ => rfl) fresh⟩
    | some child =>
      obtain ⟨⟨inner, rfl, _⟩, different⟩ := free [file] child (by simp) (by simp [TreeEntry.follow, found])
      cases rest with
      | nil => exact absurd rfl different
      | cons next rest =>
        obtain ⟨inner', ran, inserted⟩ := @ih inner (cons_ne_nil _ _) (by
          intro other node isAbove reached
          obtain ⟨isDirectory, different⟩ := free (file :: other) node
            (cons_prefix_cons.mpr ⟨rfl, isAbove⟩) (by simpa [TreeEntry.follow, found] using reached)
          exact ⟨isDirectory, fun same => different (same ▸ rfl)⟩)
        refine ⟨_, by simp only [insertDestination, found, ran]; rfl, .put (found ▸ inserted) ?_ ?_⟩
        · intro name other
          exact Assoc.lookup_filter_of_ne other tree
        · exact nodup_cons.mpr ⟨by simp, distinct.sublist (filter_sublist.map _)⟩

end Insert

/-! ### Main result -/

variable (stat : Str → Option Nat)

/-- The node is what `file-mapping->tree` makes of the source of the pair. -/
def LeafOf (pair : Str × Str) (node : TreeEntry) : Prop :=
  ∃ mode, stat pair.2 = some mode ∧ node = fileEntry pair.2 mode

/-- The tree has the sources of the mapping at their destinations. Every other node is a
directory above a destination, without two entries of one name. -/
structure Maps (mapping : List (Str × Str)) (tree : List (Str × TreeEntry)) : Prop where
  leads : ∀ pair ∈ mapping,
    ∃ node, (TreeEntry.directory tree).follow (components pair.1) = some node ∧ LeafOf stat pair node
  nodes : ∀ path node, (TreeEntry.directory tree).follow path = some node →
    (∃ pair ∈ mapping, components pair.1 = path ∧ LeafOf stat pair node) ∨
      (node.Directory ∧ (path = [] ∨ ∃ pair ∈ mapping, path <+: components pair.1 ∧ path ≠ components pair.1))

variable {stat}

theorem Maps.insert {done : List (Str × Str)} {tree : List (Str × TreeEntry)} (maps : Maps stat done tree)
    {pair : Str × Str} {mode : Nat} (exists_ : stat pair.2 = some mode) (named : components pair.1 ≠ [])
    (apart : ∀ other ∈ done, ¬ components other.1 <+: components pair.1 ∧ ¬ components pair.1 <+: components other.1) :
    ∃ tree', insertDestination stat pair.2 (components pair.1) tree = .ok tree' ∧
      Maps stat (done ++ [pair]) tree' := by
  obtain ⟨tree', ran, inserted⟩ := insertDestination_inserted exists_ named (by
    intro path node isAbove reached
    rcases maps.nodes path node reached with ⟨other, isDone, rfl, _⟩ | ⟨isDirectory, rfl | ⟨other, isDone, above, _⟩⟩
    · exact absurd isAbove (apart other isDone).1
    · exact ⟨isDirectory, named.symm⟩
    · exact ⟨isDirectory, fun same => (apart other isDone).2 (same ▸ above)⟩)
  refine ⟨tree', ran, ?_, ?_⟩
  · intro other member
    rcases mem_append.mp member with isDone | isNew
    · rw [inserted.elsewhere _ (apart other isDone).1]
      exact maps.leads other isDone
    · cases mem_singleton.mp isNew
      exact ⟨_, inserted.here, mode, exists_, rfl⟩
  · intro path node reached
    by_cases here : path = components pair.1
    · subst here
      cases inserted.here.symm.trans reached
      exact .inl ⟨pair, by simp, rfl, mode, exists_, rfl⟩
    · by_cases isAbove : path <+: components pair.1
      · obtain ⟨_, found, isDirectory⟩ := inserted.above path isAbove here
        cases found.symm.trans reached
        exact .inr ⟨isDirectory, .inr ⟨pair, by simp, isAbove, here⟩⟩
      · rw [inserted.elsewhere path isAbove] at reached
        have more : ∀ other ∈ done, other ∈ done ++ [pair] := fun other => mem_append_left _
        rcases maps.nodes path node reached with ⟨other, isDone, leaf⟩ | ⟨isDirectory, root | ⟨other, isDone, above⟩⟩
        · exact .inl ⟨other, more other isDone, leaf⟩
        · exact .inr ⟨isDirectory, .inl root⟩
        · exact .inr ⟨isDirectory, .inr ⟨other, more other isDone, above⟩⟩

/-- Destinations are apart when neither is the other or above it. -/
theorem fileMappingToTree_maps (stat : Str → Option Nat) (mapping : List (Str × Str))
    (exist : ∀ pair ∈ mapping, ∃ mode, stat pair.2 = some mode)
    (named : ∀ pair ∈ mapping, components pair.1 ≠ [])
    (distinct : (mapping.map fun pair => components pair.1).Nodup)
    (apart : ∀ pair ∈ mapping, ∀ other ∈ mapping, components pair.1 <+: components other.1 →
      components pair.1 = components other.1) :
    ∃ tree, fileMappingToTree stat mapping = .ok tree ∧ Maps stat mapping tree := by
  -- the destinations that are left can be inserted into what the fold has so far
  suffices general : ∀ todo done tree, done ++ todo = mapping → Maps stat done tree →
      ∃ tree', todo.foldlM (fun result pair => insertDestination stat pair.2 (components pair.1) result) tree =
        .ok tree' ∧ Maps stat mapping tree' from
    general mapping [] [] rfl ⟨nofun, by
      rintro (_ | _) node ⟨⟩
      exact .inr ⟨⟨_, rfl, nodup_nil⟩, .inl rfl⟩⟩
  intro todo
  induction todo with
  | nil =>
    rintro done tree all maps
    rw [append_nil] at all
    exact ⟨tree, rfl, all ▸ maps⟩
  | cons pair todo ih =>
    intro done tree all maps
    subst all
    obtain ⟨mode, exists_⟩ := exist pair (by simp)
    have different : ∀ other ∈ done, components other.1 ≠ components pair.1 := by
      rw [map_append, nodup_append] at distinct
      exact fun other isDone => distinct.2.2 _ (mem_map_of_mem isDone) _ (by simp)
    obtain ⟨tree', ran, maps'⟩ := maps.insert exists_ (named pair (by simp)) fun other isDone =>
      ⟨fun above => different other isDone (apart other (by simp [isDone]) pair (by simp) above),
        fun above => different other isDone (apart pair (by simp) other (by simp [isDone]) above).symm⟩
    obtain ⟨last, rest, complete⟩ := ih (done ++ [pair]) tree' (by simp) maps'
    exact ⟨last, by rw [foldlM_cons, ran]; exact rest, complete⟩

theorem fileMappingToTree_maps_siblings : ∃ tree,
    fileMappingToTree (fun _ => some 0o644) [(str "a/b", str "x"), (str "a/c", str "y")] = .ok tree ∧
      Maps (fun _ => some 0o644) [(str "a/b", str "x"), (str "a/c", str "y")] tree :=
  fileMappingToTree_maps _ _ (fun _ _ => ⟨_, rfl⟩) (by decide) (by decide) (by decide)

/-- Two names of one file give two entries of one name. -/
theorem fileMappingToTree_doubled :
    let mapping := [(str "a/b", str "x"), (str "a//b", str "y")]
    (mapping.map Prod.fst).Nodup ∧
      (∀ pair ∈ mapping, ∀ other ∈ mapping, components pair.1 <+: components other.1 →
        components pair.1 = components other.1) ∧
      fileMappingToTree (fun _ => some 0o644) mapping = .ok [(str "a", .directory
        [(str "b", .regular (.file (str "y"))), (str "b", .regular (.file (str "x")))])] :=
  ⟨by decide, by decide, rfl⟩

end Guix.Client
