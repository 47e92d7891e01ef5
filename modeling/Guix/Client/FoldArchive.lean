import Guix.Client.WriteFileCorrectness

/-!
# Reading archives in the client

`fold-archive` on the archive of a tree calls its procedure for the files and directories of
the tree in depth-first order. The procedure has to read the contents of regular files itself.
-/

namespace Guix.Client.Serialization

open FileSystem Hoare List LittleEndian

-- a program on a port with known bytes is not to be run by unification
attribute [local irreducible] wp

section Read

variable {ω : Type} {world : ω} {current : Option Str} {fails : NarError → NarPort ω → Prop} {more : Bytes}

/-! ### Strings and integers -/

theorem wp_getBytevectorN_of_eq {count : Nat} {data : Bytes} {post : Bytes → NarPort ω → Prop}
    (length : data.length = count) (next : post data ⟨more, current, world⟩) :
    wp (getBytevectorN count) post fails ⟨data ++ more, current, world⟩ := by
  subst length
  rw [wp, getBytevectorN, if_neg (by simp)]
  simpa using next

variable {post : Nat → NarPort ω → Prop}

theorem wp_readInt_of_eq {n : Nat} (small : n < 2 ^ 32)
    (next : post n ⟨more, current, world⟩) : wp readInt post fails ⟨writeInt n ++ more, current, world⟩ := by
  rw [readInt, wp_bind]
  apply wp_getBytevectorN_of_eq (length_writeInt n)
  rw [wp_pure, writeInt, u32_of_lt n small, take_left' (length_encode 4 n),
    decode_encode 4 n small]
  exact next

theorem wp_readLongLong_of_eq {n : Nat} (small : n < 2 ^ 64) (next : post n ⟨more, current, world⟩) :
    wp readLongLong post fails ⟨Guix.writeLongLong n ++ more, current, world⟩ := by
  rw [readLongLong, wp_bind]
  apply wp_getBytevectorN_of_eq (length_writeLongLong n)
  rw [wp_pure, Guix.writeLongLong, u64, Nat.mod_eq_of_lt small, decode_encode 8 n small]
  exact next

theorem length_padding (n : Nat) : (Guix.writePadding n).length = padding n := by
  rw [← replicate_padding, length_replicate]

theorem wp_readByteString_of_eq {s : Bytes} {post : Bytes → NarPort ω → Prop} (small : s.length < 2 ^ 32)
    (next : post s ⟨more, current, world⟩) :
    wp readByteString post fails ⟨Guix.writeString s ++ more, current, world⟩ := by
  rw [Guix.writeString, append_assoc, append_assoc, ← append_assoc s, readByteString, wp_bind]
  apply wp_readInt_of_eq small
  rw [wp_bind]
  apply wp_getBytevectorN_of_eq (by rw [length_append, length_padding])
  rw [wp_pure, take_left]
  exact next

theorem wp_readString_of_eq {s : Str} {post : Str → NarPort ω → Prop} (small : (encode s).length < 2 ^ 32)
    (next : post s ⟨more, current, world⟩) :
    wp readString post fails ⟨Guix.writeString (encode s) ++ more, current, world⟩ := by
  rw [readString, wp_bind]
  apply wp_readByteString_of_eq small
  rw [encode, Utf8.decode_encode]
  exact (wp_pure post fails _ s).mpr next

theorem wp_readToken (word : String) {post : Str → NarPort ω → Prop}
    (isAscii : ∀ c ∈ word.toList, c.toNat < 128) (small : (ascii word).length < 2 ^ 32)
    (next : post (str word) ⟨more, current, world⟩) :
    wp readString post fails ⟨Guix.writeString (ascii word) ++ more, current, world⟩ := by
  rw [← encode_str word isAscii] at small ⊢
  exact wp_readString_of_eq small next

end Read

/-! ### Calls -/

/-- A call of the procedure; for a regular file with the bytes that are on the port. -/
structure Call where
  file : Str
  content : Content
  contents : Bytes

def decoded (s : Bytes) : Str := (Utf8.decode s).getD []

@[simp] theorem decoded_encode (s : Str) : decoded (encode s) = s := by
  rw [decoded, encode, Utf8.decode_encode, Option.getD_some]

mutual

/-- The calls for a tree. -/
def calls (file : Str) : FileTree → List Call
  | .regular executable contents => [⟨file, .regular executable contents.length, contents⟩]
  | .symlink target => [⟨file, .symlink (decoded target), []⟩]
  | .directory entries => ⟨file, .directory, []⟩ :: entryCalls file entries ++ [⟨file, .directoryComplete, []⟩]

def entryCalls (dir : Str) : List (Name × FileTree) → List Call
  | [] => []
  | (name, tree) :: rest => calls (dir ++ str "/" ++ decoded name) tree ++ entryCalls dir rest

end

/-- The contents a call is about are those of a regular file. -/
def Content.HasContents : Content → Bytes → Prop
  | .regular _ size, contents => contents.length = size
  | .symlink _, contents => contents = []
  | .directory, contents => contents = []
  | .directoryComplete, contents => contents = []

variable {executable : Bool} {fuel : Nat} {tree : FileTree} {file : Str}

section Fold

variable {ω α : Type}

/-- The procedure reads exactly the contents of regular files, and does what `act` does. -/
def Implements (proc : Str → Content → α → NarM ω α)
    (act : Str → Content → Bytes → α → EStateM NarError ω α) : Prop :=
  ∀ file content contents result port more, content.HasContents contents → port.rest = contents ++ more →
    ∀ (post : α → NarPort ω → Prop) (fails : NarError → NarPort ω → Prop),
      wp (act file content contents result) (fun a w => post a { port with rest := more, world := w })
        (fun e w => ∀ port', port'.world = w → fails e port') port.world →
      wp (proc file content result) post fails port

/-- The calls one after another. -/
def runCalls (act : Str → Content → Bytes → α → EStateM NarError ω α) (lst : List Call) (result : α) :
    EStateM NarError ω α :=
  lst.foldlM (fun result call => act call.file call.content call.contents result) result

variable {proc : Str → Content → α → NarM ω α} {act : Str → Content → Bytes → α → EStateM NarError ω α}
  {post : α → NarPort ω → Prop} {fails : NarError → NarPort ω → Prop} {world : ω} {current : Option Str}
  {more : Bytes}

theorem wp_readEofMarker {post : Unit → NarPort ω → Prop} (file : Str) (next : post ⟨⟩ ⟨more, current, world⟩) :
    wp (readEofMarker file) post fails ⟨Guix.writeString (ascii ")") ++ more, current, world⟩ := by
  rw [readEofMarker, wp_bind]
  apply wp_readToken ")" (by decide) (by decide)
  rw [if_pos rfl, wp_pure]
  exact next

theorem wp_readFileType {post : Bool → NarPort ω → Prop} (next : post executable ⟨more, current, world⟩) :
    wp readFileType post fails
      ⟨(if executable then Guix.writeString (ascii "executable") ++ Guix.writeString [] else []) ++
        (Guix.writeString (ascii "contents") ++ more), current, world⟩ := by
  rw [readFileType, wp_bind]
  cases executable with
  | false =>
    apply wp_readToken "contents" (by decide) (by decide)
    rw [if_pos rfl, wp_pure]
    exact next
  | true =>
    apply wp_readToken "executable" (by decide) (by decide)
    rw [if_neg (by decide), if_pos rfl, wp_bind]
    apply wp_readToken "" (by decide) (by decide)
    rw [wp_bind]
    apply wp_readToken "contents" (by decide) (by decide)
    rw [if_pos ⟨rfl, rfl⟩, wp_pure]
    exact next

theorem wp_readRegular (implements : Implements proc act) {contents : Bytes}
    (small : contents.length < 2 ^ 64) {file : Str} {result : α}
    (runs : wp (act file (.regular executable contents.length) contents result)
      (fun a w => post a ⟨more, current, w⟩) (fun e w => ∀ port', port'.world = w → fails e port') world) :
    wp (readRegular proc file result) post fails
      ⟨(if executable then Guix.writeString (ascii "executable") ++ Guix.writeString [] else []) ++
        (Guix.writeString (ascii "contents") ++ (Guix.writeLongLong contents.length ++
          (contents ++ (Guix.writePadding contents.length ++ (Guix.writeString (ascii ")") ++ more))))),
        current, world⟩ := by
  rw [readRegular, wp_bind]
  apply wp_readFileType
  rw [wp_bind]
  apply wp_readLongLong_of_eq small
  rw [wp_bind]
  apply implements file (.regular executable contents.length) contents result _ _ rfl rfl
  apply wp_imp runs
  intro a w done
  rw [wp_bind]
  apply wp_getBytevectorN_of_eq (length_padding _)
  rw [wp_bind]
  exact wp_readEofMarker file ((wp_pure post fails _ a).mpr done)

theorem wp_readSymlink (implements : Implements proc act) {target : Str} (small : (encode target).length < 2 ^ 32)
    {file : Str} {result : α}
    (runs : wp (act file (.symlink target) [] result) (fun a w => post a ⟨more, current, w⟩)
      (fun e w => ∀ port', port'.world = w → fails e port') world) :
    wp (readSymlink proc file result) post fails
      ⟨Guix.writeString (ascii "target") ++ (Guix.writeString (encode target) ++
        (Guix.writeString (ascii ")") ++ more)), current, world⟩ := by
  rw [readSymlink, wp_bind]
  apply wp_readToken "target" (by decide) (by decide)
  rw [wp_bind]
  apply wp_readString_of_eq small
  rw [if_pos rfl, wp_bind]
  apply implements file (.symlink target) [] result _ _ rfl rfl
  apply wp_imp runs
  intro a w done
  rw [wp_bind]
  exact wp_readEofMarker file ((wp_pure post fails _ a).mpr done)

theorem wp_readEntryName {name : Str} (small : (encode name).length < 2 ^ 32) {post : Str → NarPort ω → Prop}
    (next : post name ⟨more, current, world⟩) :
    wp readEntryName post fails
      ⟨Guix.writeString (ascii "(") ++ (Guix.writeString (ascii "name") ++ (Guix.writeString (encode name) ++
        (Guix.writeString (ascii "node") ++ more))), current, world⟩ := by
  rw [readEntryName, wp_bind]
  apply wp_readToken "(" (by decide) (by decide)
  rw [wp_bind]
  apply wp_readToken "name" (by decide) (by decide)
  rw [wp_bind]
  apply wp_readString_of_eq small
  rw [wp_bind]
  apply wp_readToken "node" (by decide) (by decide)
  rw [if_pos ⟨rfl, rfl, rfl⟩, wp_pure]
  exact next

theorem wp_readEntryEnd {post : Unit → NarPort ω → Prop} (file : Str) (next : post ⟨⟩ ⟨more, current, world⟩) :
    wp (readEntryEnd file) post fails ⟨Guix.writeString (ascii ")") ++ more, current, world⟩ := by
  rw [readEntryEnd, wp_bind]
  apply wp_readToken ")" (by decide) (by decide)
  rw [if_pos rfl, wp_pure]
  exact next

/-! ### Trees -/

/-- What the bytes of entries and the end of their directory start with. -/
def marker : List (Name × FileTree) → String
  | [] => ")"
  | _ :: _ => "entry"

def afterMarker : List (Name × FileTree) → Bytes → Bytes
  | [], more => more
  | (name, tree) :: rest, more =>
    Guix.writeString (ascii "(") ++ (Guix.writeString (ascii "name") ++ (Guix.writeString name ++
      (Guix.writeString (ascii "node") ++ (nodeBytes tree ++ (Guix.writeString (ascii ")") ++
        (entriesBytes rest ++ (Guix.writeString (ascii ")") ++ more)))))))

theorem entriesBytes_eq_marker (entries : List (Name × FileTree)) (more : Bytes) :
    entriesBytes entries ++ (Guix.writeString (ascii ")") ++ more) =
      Guix.writeString (ascii (marker entries)) ++ afterMarker entries more := by
  cases entries with
  | nil => rfl
  | cons entry rest => simp [entriesBytes, marker, afterMarker]

theorem wp_readMarker (entries : List (Name × FileTree)) {post : Str → NarPort ω → Prop}
    (next : post (str (marker entries)) ⟨afterMarker entries more, current, world⟩) :
    wp readString post fails
      ⟨entriesBytes entries ++ (Guix.writeString (ascii ")") ++ more), current, world⟩ := by
  rw [entriesBytes_eq_marker]
  cases entries with
  | nil => exact wp_readToken ")" (by decide) (by decide) next
  | cons entry rest => exact wp_readToken "entry" (by decide) (by decide) next

variable (proc act) in
/-- `read` on the bytes of the tree makes the calls for it. -/
def Reads (tree : FileTree) : Prop :=
  ∀ (file : Str) (fuel : Nat) (result : α) (more : Bytes) (current : Option Str) (world : ω),
    (nodeBytes tree).length ≤ fuel →
    ∀ (post : α → NarPort ω → Prop) (fails : NarError → NarPort ω → Prop),
      wp (runCalls act (calls file tree) result) (fun a w => ∀ current, post a ⟨more, current, w⟩)
        (fun e w => ∀ port', port'.world = w → fails e port') world →
      wp (readNode proc fuel file result) post fails ⟨nodeBytes tree ++ more, current, world⟩

theorem wp_runCalls_append (lst lst' : List Call) (result : α) (post : α → ω → Prop)
    (fails : NarError → ω → Prop) (w : ω) :
    wp (runCalls act (lst ++ lst') result) post fails w ↔
      wp (runCalls act lst result) (fun a w' => wp (runCalls act lst' a) post fails w') fails w := by
  rw [runCalls, foldlM_append, wp_bind]
  rfl

theorem wp_runCalls_cons (call : Call) (lst : List Call) (result : α) (post : α → ω → Prop)
    (fails : NarError → ω → Prop) (w : ω) :
    wp (runCalls act (call :: lst) result) post fails w ↔
      wp (act call.file call.content call.contents result) (fun a w' => wp (runCalls act lst a) post fails w') fails w := by
  rw [runCalls, foldlM_cons, wp_bind]
  rfl

theorem wp_runCalls_singleton (call : Call) (result : α) (post : α → ω → Prop) (fails : NarError → ω → Prop) (w : ω) :
    wp (runCalls act [call] result) post fails w ↔
      wp (act call.file call.content call.contents result) post fails w := by
  simp [runCalls]

theorem reads_entries (implements : Implements proc act) (entries : List (Str × FileTree))
    (small : ∀ entry ∈ entries, (encode entry.1).length < 2 ^ 32)
    (reads : ∀ entry ∈ entries, Reads proc act entry.2) (dir : Str)
    (enough : (entriesBytes (entries.map encodeEntry)).length < fuel)
    (result : α)
    (runs : wp (runCalls act (entryCalls dir (entries.map encodeEntry) ++
        [⟨dir, .directoryComplete, []⟩]) result) (fun a w => ∀ current, post a ⟨more, current, w⟩)
      (fun e w => ∀ port', port'.world = w → fails e port') world) :
    wp (readEntries proc fuel dir (str (marker (entries.map encodeEntry))) result)
      post fails ⟨afterMarker (entries.map encodeEntry) more, current, world⟩ := by
  induction entries generalizing fuel result current world with
  | nil =>
    obtain ⟨rounds, rfl⟩ : ∃ rounds, fuel = rounds + 1 := ⟨fuel - 1, by omega⟩
    rw [readEntries, map_nil, marker, if_neg (by decide), if_pos rfl]
    apply implements dir .directoryComplete [] result _ more rfl rfl
    rw [map_nil, entryCalls, nil_append, wp_runCalls_singleton] at runs
    apply wp_imp runs
    exact fun a w done => done _
  | cons entry rest ih =>
    obtain ⟨rounds, rfl⟩ : ∃ rounds, fuel = rounds + 1 := ⟨fuel - 1, by omega⟩
    have lengths : (nodeBytes entry.2).length +
        (entriesBytes (rest.map encodeEntry)).length + 8 ≤
        (entriesBytes ((entry :: rest).map encodeEntry)).length := by
      simp only [map_cons, entriesBytes, length_append, length_writeString]
      omega
    rw [map_cons, entryCalls, decoded_encode, append_assoc, wp_runCalls_append] at runs
    rw [readEntries, map_cons, marker, if_pos rfl, wp_bind, afterMarker]
    apply wp_readEntryName (small entry mem_cons_self)
    rw [wp_bind]
    apply reads entry mem_cons_self _ rounds result _ _ _ (by omega)
    apply wp_imp runs
    intro a w runs' current
    rw [wp_bind]
    apply wp_readEntryEnd
    rw [wp_bind]
    -- the marker of the next round is read before it starts
    apply wp_readMarker
    exact ih (forall_mem_cons.mp small).2 (forall_mem_cons.mp reads).2 (by omega) a runs'

theorem wp_readStart (kind : String) {program : Str → Str → Str → NarM ω α}
    (isAscii : ∀ c ∈ kind.toList, c.toNat < 128) (small : (ascii kind).length < 2 ^ 32)
    (next : wp (program (str "(") (str "type") (str kind)) post fails ⟨more, current, world⟩) :
    wp (do
      let a ← readString
      let b ← readString
      let c ← readString
      program a b c) post fails
      ⟨Guix.writeString (ascii "(") ++ (Guix.writeString (ascii "type") ++
        (Guix.writeString (ascii kind) ++ more)), current, world⟩ := by
  rw [wp_bind]
  apply wp_readToken "(" (by decide) (by decide)
  rw [wp_bind]
  apply wp_readToken "type" (by decide) (by decide)
  rw [wp_bind]
  exact wp_readToken kind isAscii small next

theorem reads_nodeBytes (implements : Implements proc act) (isUtf8 : IsUtf8 tree)
    (valid : ValidTree tree) : Reads proc act tree := by
  induction isUtf8 with
  | @regular executable contents =>
    intro file fuel result more current world enough post fails runs
    cases valid with
    | regular small =>
      simp only [nodeBytes, length_append, length_writeString] at enough
      obtain ⟨rounds, rfl⟩ : ∃ rounds, fuel = rounds + 1 := ⟨fuel - 1, by omega⟩
      simp only [nodeBytes, append_assoc]
      rw [readNode, wp_bind, wp_modify]
      apply wp_readStart "regular" (by decide) (by decide)
      apply wp_readRegular implements small
      rw [calls, wp_runCalls_singleton] at runs
      apply wp_imp runs
      exact fun a w done => done _
  | @symlink target =>
    intro file fuel result more current world enough post fails runs
    cases valid with
    | symlink isTarget small =>
      simp only [nodeBytes, length_append, length_writeString] at enough
      obtain ⟨rounds, rfl⟩ : ∃ rounds, fuel = rounds + 1 := ⟨fuel - 1, by omega⟩
      simp only [nodeBytes, append_assoc]
      rw [readNode, wp_bind, wp_modify]
      apply wp_readStart "symlink" (by decide) (by decide)
      apply wp_readSymlink implements small
      rw [calls, wp_runCalls_singleton, decoded_encode] at runs
      apply wp_imp runs
      exact fun a w done => done _
  | @directory entries below ih =>
    intro file fuel result more current world enough post fails runs
    cases valid with
    | directory sorted isNames small valid =>
      simp only [nodeBytes, length_append, length_writeString] at enough
      obtain ⟨rounds, rfl⟩ : ∃ rounds, fuel = rounds + 1 := ⟨fuel - 1, by omega⟩
      simp only [nodeBytes, append_assoc]
      rw [readNode, wp_bind, wp_modify]
      apply wp_readStart "directory" (by decide) (by decide)
      rw [if_neg (by decide), if_neg (by decide), if_pos ⟨rfl, rfl, rfl⟩, wp_bind]
      apply wp_readMarker
      rw [wp_bind]
      apply implements file .directory [] result _ _ rfl rfl
      rw [calls, cons_append, wp_runCalls_cons] at runs
      apply wp_imp runs
      intro a w runs'
      exact reads_entries implements entries (fun entry isEntry => small _ (mem_encoded isEntry))
        (fun entry isEntry => ih entry isEntry (valid _ (mem_encoded isEntry))) file (by omega) a runs'

theorem archiveVersion1_eq :
    Guix.archiveVersion1 = encode archiveVersion1 ∧ (encode archiveVersion1).length < 2 ^ 32 := by
  have isVersion : encode archiveVersion1 = Guix.archiveVersion1 := encode_str "nix-archive-1" (by decide)
  rw [isVersion]
  decide

theorem wp_foldArchive (implements : Implements proc act) (isUtf8 : IsUtf8 tree) (valid : ValidTree tree)
    (file : Str) (seed : α) (enough : (archive tree).length ≤ fuel)
    (runs : wp (runCalls act (calls file tree) seed) (fun a w => post a ⟨more, current, w⟩)
      (fun e w => ∀ port', port'.world = w → fails e port') world) :
    wp (foldArchive proc fuel seed file) post fails ⟨archive tree ++ more, current, world⟩ := by
  rw [archive, length_append] at enough
  rw [foldArchive, wp_focus, readArchive, wp_bind, archive, append_assoc, archiveVersion1_eq.1]
  apply wp_readString_of_eq archiveVersion1_eq.2
  apply reads_nodeBytes implements isUtf8 valid file fuel seed more _ _ (by omega)
  apply wp_mono runs
  · exact fun a w done _ => done
  · exact fun e w failed port' same => failed _ same

variable {seed : α} {w : ω}

theorem foldArchive_ok (implements : Implements proc act) (isUtf8 : IsUtf8 tree) (valid : ValidTree tree)
    (enough : (archive tree).length ≤ fuel) {a : α}
    (ran : runCalls act (calls file tree) seed world = .ok a w) :
    foldArchive proc fuel seed file ⟨archive tree ++ more, current, world⟩ = .ok a ⟨more, current, w⟩ := by
  have holds : wp (foldArchive proc fuel seed file) (fun a' port => a' = a ∧ port = ⟨more, current, w⟩)
      (fun _ _ => False) ⟨archive tree ++ more, current, world⟩ :=
    wp_foldArchive implements isUtf8 valid file seed enough (wp_of_ok ran ⟨rfl, rfl⟩)
  obtain ⟨_, _, isRun, rfl, rfl⟩ := wp_returns holds
  exact isRun

theorem foldArchive_error (implements : Implements proc act) (isUtf8 : IsUtf8 tree) (valid : ValidTree tree)
    (enough : (archive tree).length ≤ fuel) {e : NarError}
    (ran : runCalls act (calls file tree) seed world = .error e w) :
    ∃ port, foldArchive proc fuel seed file ⟨archive tree ++ more, current, world⟩ = .error e port ∧
      port.world = w := by
  have holds : wp (foldArchive proc fuel seed file) (fun _ _ => False) (fun e' port => e' = e ∧ port.world = w)
      ⟨archive tree ++ more, current, world⟩ :=
    wp_foldArchive implements isUtf8 valid file seed enough (wp_of_error ran fun port' same => ⟨rfl, same⟩)
  obtain ⟨_, port, isRun, rfl, same⟩ := wp_throws holds
  exact ⟨port, isRun, same⟩

end Fold

end Guix.Client.Serialization
