import Guix.LibUtil.ArchiveFormat

/-!
# Parsing what is there

Rules for `parse` on a stream whose next strings are known, for any sink: each says what is
left of the stream and which call the sink gets.
-/

namespace Guix

open FileSystem Hoare List LittleEndian

variable {data : Bytes}

section Reading

variable {σ ω ε : Type} {source : Source σ} {s : σ} {w : ω} {fails : SerialiseError ε → σ × ω → Prop}
  {more : Bytes}

/-! ### Strings and integers -/

variable {post : Bytes → σ × ω → Prop}

theorem wp_readBytes_of_eq (stream : source.rest s = data ++ more)
    (next : ∀ s', source.rest s' = more → post data (s', w)) :
    wp (readBytes source data.length) post fails (s, w) := by
  apply wp_readBytes
  · intro read s' split length
    rw [stream] at split
    obtain ⟨rfl, rest⟩ := append_inj split length.symm
    exact next s' rest.symm
  · intro short
    rw [stream, length_append] at short
    omega

theorem wp_readPadding_of_eq {len : Nat} {post : Unit → σ × ω → Prop}
    (stream : source.rest s = writePadding len ++ more) (next : ∀ s', source.rest s' = more → post ⟨⟩ (s', w)) :
    wp (readPadding source len) post fails (s, w) := by
  apply wp_readPadding
  · intro s' split
    rw [stream] at split
    exact next s' (append_cancel_left split).symm
  · intro other
    exact absurd stream (other more)

theorem wp_readLongLong_of_eq {n : Nat} {post : Nat → σ × ω → Prop} (small : n < 2 ^ 64)
    (stream : source.rest s = writeLongLong n ++ more) (next : ∀ s', source.rest s' = more → post n (s', w)) :
    wp (readLongLong source) post fails (s, w) := by
  apply wp_readLongLong
  · intro read s' split small'
    rw [stream] at split
    obtain ⟨digits, rest⟩ := append_inj split (by simp)
    have same := congrArg decode digits
    rw [writeLongLong, writeLongLong, u64, u64, Nat.mod_eq_of_lt small, Nat.mod_eq_of_lt small',
      decode_encode 8 n small, decode_encode 8 read small'] at same
    rw [← same]
    exact next s' rest.symm
  · intro short
    rw [stream, length_append, length_writeLongLong] at short
    omega

theorem wp_readString_of_eq {str : Bytes} (stream : source.rest s = writeString str ++ more)
    (small : str.length < 2 ^ 32) (next : ∀ s', source.rest s' = more → post str (s', w)) :
    wp (readString source) post fails (s, w) := by
  apply wp_readString
  · intro read s' split small'
    rw [stream] at split
    obtain ⟨rfl, rest⟩ := writeString_append_inj small small' split
    exact next s' rest.symm
  · intro other
    exact absurd stream (other str more small)

end Reading

/-! ### Fields -/

variable {name prevName : Bytes}

section Parse

variable {σ ω : Type} {source : Source σ} {sink : ParseSink ω} {s : σ} {w : ω}
  {post : Unit → σ × ω → Prop} {fails : ArchiveError → σ × ω → Prop} {more : Bytes} {fuel : Nat} {path : Path}

theorem wp_onSink {α : Type} (x : EStateM ArchiveError ω α) (post : α → σ × ω → Prop) :
    wp (onSink x) post fails (s, w) ↔
      wp x (fun a w' => post a (s, w')) (fun e w' => fails e (s, w')) w := by
  rw [onSink, wp_focus]
  rfl

theorem wp_parse_open (stream : source.rest s = writeString (ascii "(") ++ more)
    (next : ∀ s', source.rest s' = more →
      wp (parseFields source sink fuel path .tpUnknown) post fails (s', w)) :
    wp (parse source sink (fuel + 1) path) post fails (s, w) := by
  rw [parse, wp_bind]
  apply wp_readString_of_eq stream (by decide)
  intro s' rest
  exact next s' rest

theorem wp_parseFields_close {type : FileType} (stream : source.rest s = writeString (ascii ")") ++ more)
    (next : ∀ s', source.rest s' = more → post ⟨⟩ (s', w)) :
    wp (parseFields source sink (fuel + 1) path type) post fails (s, w) := by
  rw [parseFields, wp_bind]
  apply wp_readString_of_eq stream (by decide)
  intro s' rest
  exact next s' rest

/-- What a `type` field does. -/
def createType (sink : ParseSink ω) (path : Path) : FileType → EStateM ArchiveError ω Unit
  | .tpRegular => sink.createRegularFile path
  | .tpDirectory => sink.createDirectory path
  | .tpSymlink => pure ⟨⟩
  | .tpUnknown => pure ⟨⟩

def typeName : FileType → Bytes
  | .tpRegular => ascii "regular"
  | .tpDirectory => ascii "directory"
  | .tpSymlink => ascii "symlink"
  | .tpUnknown => []

theorem wp_parseFields_type (type : FileType) (known : type ≠ .tpUnknown)
    (stream : source.rest s = writeString (ascii "type") ++ (writeString (typeName type) ++ more))
    (next : ∀ s', source.rest s' = more → wp (createType sink path type)
      (fun _ w' => wp (parseFields source sink fuel path type) post fails (s', w')) (fun e w' => fails e (s', w')) w) :
    wp (parseFields source sink (fuel + 1) path .tpUnknown) post fails (s, w) := by
  rw [parseFields, wp_bind]
  apply wp_readString_of_eq stream (by decide)
  intro s₁ rest₁
  rw [if_neg (by decide), if_pos rfl, if_pos rfl, wp_bind]
  apply wp_readString_of_eq rest₁ (by cases type <;> decide)
  intro s₂ rest₂
  cases type with
  | tpUnknown => exact absurd rfl known
  | tpRegular =>
    rw [typeName, if_pos rfl, wp_bind, wp_onSink]
    exact next s₂ rest₂
  | tpDirectory =>
    rw [typeName, if_neg (by decide), if_pos rfl, wp_bind, wp_onSink]
    exact next s₂ rest₂
  | tpSymlink =>
    rw [typeName, if_neg (by decide), if_neg (by decide), if_pos rfl]
    exact next s₂ rest₂

theorem wp_parseFields_executable
    (stream : source.rest s = writeString (ascii "executable") ++ (writeString [] ++ more))
    (next : ∀ s', source.rest s' = more → wp sink.isExecutable
      (fun _ w' => wp (parseFields source sink fuel path .tpRegular) post fails (s', w'))
      (fun e w' => fails e (s', w')) w) :
    wp (parseFields source sink (fuel + 1) path .tpRegular) post fails (s, w) := by
  rw [parseFields, wp_bind]
  apply wp_readString_of_eq stream (by decide)
  intro s₁ rest₁
  rw [if_neg (by decide), if_neg (by decide), if_neg (by decide), if_pos (by decide), wp_bind]
  apply wp_readString_of_eq rest₁ (by decide)
  intro s₂ rest₂
  rw [wp_bind, wp_onSink]
  exact next s₂ rest₂

theorem wp_parseFields_target {target : Bytes} (small : target.length < 2 ^ 32)
    (stream : source.rest s = writeString (ascii "target") ++ (writeString target ++ more))
    (next : ∀ s', source.rest s' = more → wp (sink.createSymlink path target)
      (fun _ w' => wp (parseFields source sink fuel path .tpSymlink) post fails (s', w'))
      (fun e w' => fails e (s', w')) w) :
    wp (parseFields source sink (fuel + 1) path .tpSymlink) post fails (s, w) := by
  rw [parseFields, wp_bind]
  apply wp_readString_of_eq stream (by decide)
  intro s₁ rest₁
  rw [if_neg (by decide), if_neg (by decide), if_neg (by decide), if_neg (by decide), if_neg (by decide),
    if_pos (by decide), wp_bind]
  apply wp_readString_of_eq rest₁ small
  intro s₂ rest₂
  rw [wp_bind, wp_onSink]
  exact next s₂ rest₂

/-- The rule for the copying loop: what is said of the part that was received and the part left. -/
theorem wp_contentsLoop (inv : Bytes → Bytes → ω → Prop)
    (receives : ∀ done chunk left w, inv done (chunk ++ left) w →
      wp (sink.receiveContents chunk) (fun _ w' => inv (done ++ chunk) left w') (fun e w' => ∀ s, fails e (s, w')) w)
    (data done : Bytes) (stream : source.rest s = data ++ more) (start : inv done data w)
    (next : ∀ s' w', source.rest s' = more → inv (done ++ data) [] w' → post ⟨⟩ (s', w')) :
    wp (contentsLoop source sink data.length) post fails (s, w) := by
  induction length : data.length using Nat.strongRecOn generalizing data done s w with
  | _ left ih =>
    subst length
    rw [contentsLoop]
    split
    next none =>
      obtain rfl := eq_nil_of_length_eq_zero none
      exact next s w stream (by rwa [append_nil])
    next some =>
      -- one round takes the first chunk off
      have positive : 0 < min bufferSize data.length := by
        simp only [bufferSize]
        omega
      have chunk : (data.take (min bufferSize data.length)).length = min bufferSize data.length :=
        length_take_of_le (Nat.min_le_right _ _)
      rw [← take_append_drop (min bufferSize data.length) data, append_assoc] at stream
      rw [← take_append_drop (min bufferSize data.length) data] at start
      rw [wp_bind]
      nth_rewrite 1 [← chunk]
      apply wp_readBytes_of_eq stream
      intro s' rest
      rw [wp_bind, wp_onSink]
      apply wp_mono (receives done _ _ w start)
      · intro _ w' received
        apply ih _ _ (data.drop (min bufferSize data.length)) _ rest received
        · intro s'' w'' rest' holds
          apply next s'' w'' rest'
          rwa [append_assoc, take_append_drop] at holds
        · exact length_drop
        · omega
      · exact fun e w' failed => failed s'

theorem wp_parseFields_contents (small : data.length < 2 ^ 64)
    (stream : source.rest s = writeString (ascii "contents") ++ (writeLongLong data.length ++
      (data ++ (writePadding data.length ++ more)))) (inv : Bytes → Bytes → ω → Prop)
    (preallocates : wp (sink.preallocateContents data.length) (fun _ w' => inv [] data w')
      (fun e w' => ∀ s, fails e (s, w')) w) (receives : ∀ done chunk left w, inv done (chunk ++ left) w →
      wp (sink.receiveContents chunk) (fun _ w' => inv (done ++ chunk) left w') (fun e w' => ∀ s, fails e (s, w')) w)
    (next : ∀ s' w', source.rest s' = more → inv data [] w' →
      wp (parseFields source sink fuel path .tpRegular) post fails (s', w')) :
    wp (parseFields source sink (fuel + 1) path .tpRegular) post fails (s, w) := by
  rw [parseFields, wp_bind]
  apply wp_readString_of_eq stream (by decide)
  intro s₁ rest₁
  rw [if_neg (by decide), if_neg (by decide), if_pos (by decide), wp_bind, parseContents, wp_bind]
  apply wp_readLongLong_of_eq small rest₁
  intro s₂ rest₂
  rw [wp_bind, wp_onSink]
  apply wp_mono preallocates
  · intro _ w' start
    rw [wp_bind]
    apply wp_contentsLoop inv receives data [] rest₂ start
    intro s₃ w₃ rest₃ received
    apply wp_readPadding_of_eq rest₃
    exact fun s₄ rest₄ => next s₄ w₃ rest₄ received
  · exact fun e w' failed => failed s₂

theorem wp_parseFields_entry
    (stream : source.rest s = writeString (ascii "entry") ++ (writeString (ascii "(") ++ more))
    (next : ∀ s', source.rest s' = more → wp (parseEntry source sink fuel path [] [])
      (fun _ st => wp (parseFields source sink fuel path .tpDirectory) post fails st) fails (s', w)) :
    wp (parseFields source sink (fuel + 1) path .tpDirectory) post fails (s, w) := by
  rw [parseFields, wp_bind]
  apply wp_readString_of_eq stream (by decide)
  intro s₁ rest₁
  rw [if_neg (by decide), if_neg (by decide), if_neg (by decide), if_neg (by decide), if_pos (by decide), wp_bind]
  apply wp_readString_of_eq rest₁ (by decide)
  intro s₂ rest₂
  rw [if_pos rfl, wp_bind]
  exact next s₂ rest₂

theorem invalidFileName_eq_false : invalidFileName name = false ↔ IsName name := by
  have isDot : ascii "." = dot := by decide
  have isDotDot : ascii ".." = dotDot := by decide
  simp [invalidFileName, IsName, isDot, isDotDot, slash, and_assoc]

theorem wp_parseEntry_name (isName : IsName name) (small : name.length < 2 ^ 32)
    (stream : source.rest s = writeString (ascii "name") ++ (writeString name ++ more))
    (next : ∀ s', source.rest s' = more → wp (parseEntry source sink fuel path name name) post fails (s', w)) :
    wp (parseEntry source sink (fuel + 1) path [] []) post fails (s, w) := by
  have above : [] < name := by
    cases name with
    | nil => exact absurd rfl isName.1
    | cons b bs => exact nil_lt_cons b bs
  rw [parseEntry, wp_bind]
  apply wp_readString_of_eq stream (by decide)
  intro s₁ rest₁
  rw [if_neg (by decide), if_pos rfl, wp_bind]
  apply wp_readString_of_eq rest₁ small
  intro s₂ rest₂
  rw [invalidFileName_eq_false.mpr isName, if_neg Bool.false_ne_true, if_pos above]
  exact next s₂ rest₂

theorem wp_parseEntry_node (stream : source.rest s = writeString (ascii "node") ++ more)
    (next : ∀ s', source.rest s' = more → wp (parse source sink fuel (path ++ ascii "/" ++ name))
      (fun _ st => wp (parseEntry source sink fuel path name prevName) post fails st) fails (s', w)) :
    wp (parseEntry source sink (fuel + 1) path name prevName) post fails (s, w) := by
  rw [parseEntry, wp_bind]
  apply wp_readString_of_eq stream (by decide)
  intro s₁ rest₁
  rw [if_neg (by decide), if_neg (by decide), if_pos rfl, if_neg (by decide), wp_bind]
  exact next s₁ rest₁

theorem wp_parseEntry_close (stream : source.rest s = writeString (ascii ")") ++ more)
    (next : ∀ s', source.rest s' = more → post ⟨⟩ (s', w)) :
    wp (parseEntry source sink (fuel + 1) path name prevName) post fails (s, w) := by
  rw [parseEntry, wp_bind]
  apply wp_readString_of_eq stream (by decide)
  intro s₁ rest₁
  exact next s₁ rest₁

end Parse

end Guix
