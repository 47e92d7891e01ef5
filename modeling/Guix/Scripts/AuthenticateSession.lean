import Guix.Scripts.AuthenticateCorrectness

/-!
# The daemon and the agent stay in step

The daemon's reader of replies, and whole sessions: successive reads give back what was written,
and each one stops where its message ends.
-/

namespace Guix.Scripts.Authenticate

open List

open Guix.Client (Str str)

/-! ### Replies as the daemon reads them -/

inductive ReplyError
  | endOfFile
  /-- Of `stoi`: no digits. -/
  | invalidArgument
  /-- Of `stoi`: not an `int`. -/
  | outOfRange
  deriving DecidableEq

def isDigitByte (ch : UInt8) : Bool := (Char.ofNat ch.toNat).isDigit

def stoi (digits : Str) : Except ReplyError Nat :=
  if digits = [] then .error .invalidArgument
  else if Nat.ofDigitChars 10 digits 0 < 2 ^ 31 then .ok (Nat.ofDigitChars 10 digits 0)
  else .error .outOfRange

/-- The integer; the byte that follows it is consumed too. -/
def readInteger (fd : Bytes) : Except ReplyError (Nat × Bytes) :=
  match fd.dropWhile isDigitByte with
  | [] => .error .endOfFile
  | _ :: rest => do return (← stoi (decodeLatin1 (fd.takeWhile isDigitByte)), rest)

def readFull (fd : Bytes) (len : Nat) : Except ReplyError (Bytes × Bytes) :=
  if fd.length < len then .error .endOfFile else .ok (fd.take len, fd.drop len)

/-- The code and the string of a reply. -/
def readReply (fd : Bytes) : Except ReplyError ((Nat × Bytes) × Bytes) := do
  let code ← readInteger fd
  let len ← readInteger code.2
  let string ← readFull len.2 len.1
  return ((code.1, string.1), string.2)

inductive Answer
  | returned (string : Bytes)
  /-- `Error`. -/
  | thrown (string : Bytes)

def answer (reply : Nat × Bytes) : Answer :=
  if reply.1 = 0 then .returned reply.2 else .thrown reply.2

def readAuthenticateReply (fd : Bytes) : Except ReplyError (Answer × Bytes) := do
  let reply ← readReply fd
  return (answer reply.1, reply.2)

/-! ### Sessions -/

section Sessions

variable {ε α β : Type}

/-- The results of successive calls. -/
def successive (read : Bytes → Except ε (α × Bytes)) : Nat → Bytes → Except ε (List α × Bytes)
  | 0, port => .ok ([], port)
  | calls + 1, port => do
    let first ← read port
    let later ← successive read calls first.2
    return (first.1 :: later.1, later.2)

theorem successive_flatMap {read : Bytes → Except ε (α × Bytes)} {write : β → Bytes} {value : β → α}
    (rest : Bytes) {messages : List β}
    (reads : ∀ message ∈ messages, ∀ rest, read (write message ++ rest) = .ok (value message, rest)) :
    successive read messages.length (messages.flatMap write ++ rest) = .ok (messages.map value, rest) := by
  induction messages with
  | nil => rfl
  | cons message messages ih =>
    obtain ⟨first, later⟩ := forall_mem_cons.mp reads
    rw [flatMap_cons, append_assoc, length_cons, successive, first]
    simp only [bind, Except.bind, ih later]
    rfl

end Sessions

/-! ### Round trips -/

theorem decodeLatin1_injective : Function.Injective decodeLatin1 := by
  refine map_injective_iff.mpr ?_
  intro b b' same
  have valid : ∀ b : UInt8, (Char.ofNat b.toNat).toNat = b.toNat := by
    intro b
    have := b.toNat_lt
    have isChar : b.toNat.isValidChar := .inl (by omega)
    rw [Char.ofNat, dif_pos isChar]
    exact UInt32.toNat_ofNatLT
  have codes := congrArg Char.toNat same
  rwa [valid, valid, UInt8.toNat_inj] at codes

/-- Reading stops after the first byte that is no digit. -/
theorem readInteger_decimal (n : Nat) (b : UInt8) (rest : Bytes) (stops : isDigitByte b = false) :
    readInteger (ascii (decimal n) ++ b :: rest) =
      if n < 2 ^ 31 then .ok (n, rest) else .error .outOfRange := by
  have digits : ∀ ch ∈ ascii (decimal n), isDigitByte ch = true := by
    intro ch member
    obtain ⟨c, isChar, rfl⟩ := mem_map.mp member
    rw [isDigitByte, char_of_byte (encodable_decimal n c isChar)]
    exact isDigit_decimal isChar
  rw [readInteger, dropWhile_append_of_pos digits, dropWhile_cons_of_neg (by simp [stops]),
    takeWhile_append_of_pos digits, takeWhile_cons_of_neg (by simp [stops]), append_nil,
    decodeLatin1_ascii _ (encodable_decimal n)]
  have nonempty : decimal n ≠ [] := Nat.toDigits_ne_nil
  simp only [stoi, if_neg nonempty, show Nat.ofDigitChars 10 (decimal n) 0 = n from
    Nat.ofDigitChars_ten_toDigits]
  split
  next => rfl
  next => rfl

theorem readReply_frame (code : Nat) (bv rest : Bytes) (isInt : code < 2 ^ 31) :
    readReply (frame code bv ++ rest) =
      if bv.length < 2 ^ 31 then .ok ((code, bv), rest) else .error .outOfRange := by
  have parts : frame code bv ++ rest =
      ascii (decimal code) ++ 32 :: (ascii (decimal bv.length) ++ 58 :: (bv ++ rest)) := by
    simp [frame, ascii, str]
  rw [readReply, parts, readInteger_decimal code 32 _ (by decide), if_pos isInt]
  simp only [bind, Except.bind, readInteger_decimal bv.length 58 _ (by decide)]
  by_cases short : bv.length < 2 ^ 31
  · have complete : readFull (bv ++ rest) bv.length = .ok (bv, rest) := by simp [readFull]
    simp only [if_pos short, complete]
    rfl
  · simp only [if_neg short]

/-- A reply that the agent has sent. -/
structure SentReply where
  code : Nat
  text : Str
  wire : Bytes
  isCode : code ∈ [replyCodeSuccess, replyCodeCommandNotFound, replyCodeCommandFailed]
  sent : sendReply code text = .ok wire

namespace SentReply

theorem wire_eq (reply : SentReply) : reply.wire = frame reply.code (ascii reply.text) :=
  (sendReply_ok_iff.mp reply.sent).2

theorem isInt (reply : SentReply) : reply.code < 2 ^ 31 := by
  have codes : ∀ code ∈ [replyCodeSuccess, replyCodeCommandNotFound, replyCodeCommandFailed], code < 2 ^ 31 := by
    decide
  exact codes _ reply.isCode

theorem readReply_wire (reply : SentReply) (rest : Bytes) (short : reply.text.length < 2 ^ 31) :
    readReply (reply.wire ++ rest) = .ok ((reply.code, ascii reply.text), rest) := by
  rw [reply.wire_eq, readReply_frame _ _ _ reply.isInt, if_pos (by simpa [ascii] using short)]

end SentReply

/-- The agent reads the daemon's requests one by one, each with the bytes it was written with, and
the daemon reads one by one the replies that are shorter than `2 ^ 31` bytes. -/
theorem session_in_step {Sexp Native : Type} (lib : AuthLibrary Sexp Native) (requests : List Request)
    (replies : List SentReply) (short : ∀ reply ∈ replies, reply.text.length < 2 ^ 31) (rest : Bytes) :
    successive (readCommand lib) requests.length (requests.flatMap Request.line ++ rest) =
      .ok (requests.map Request.words, rest) ∧
    Function.Injective decodeLatin1 ∧
    successive readReply replies.length (replies.flatMap SentReply.wire ++ rest) =
      .ok (replies.map fun reply => (reply.code, ascii reply.text), rest) ∧
    successive readAuthenticateReply replies.length (replies.flatMap SentReply.wire ++ rest) =
      .ok (replies.map fun reply => answer (reply.code, ascii reply.text), rest) := by
  refine ⟨?_, decodeLatin1_injective, ?_, ?_⟩
  · exact successive_flatMap rest fun request _ => readCommand_line lib request
  · refine successive_flatMap rest ?_
    intro reply member rest
    exact reply.readReply_wire rest (short reply member)
  · refine successive_flatMap rest ?_
    intro reply member rest
    rw [readAuthenticateReply, reply.readReply_wire rest (short reply member)]
    rfl

/-- The reply to a token in the place of a signature. -/
def corruptReply : SentReply where
  code := replyCodeCommandFailed
  text := str "corrupt signature data: x\n"
  wire := frame replyCodeCommandFailed (ascii (str "corrupt signature data: x\n"))
  isCode := by decide
  sent := by decide +kernel

/-- The reply with the hash that is signed. -/
def hashReply : SentReply where
  code := replyCodeSuccess
  text := str "00ff"
  wire := frame replyCodeSuccess (ascii (str "00ff"))
  isCode := by decide
  sent := by decide +kernel

theorem session_in_step_two :
    let requests : List Request := [.verify (ascii ['x']), .sign (ascii (str "k.sec")) (ascii (str "00ff"))]
    successive (readCommand tokenLibrary) 2 (requests.flatMap Request.line ++ [10]) =
      .ok ([[str "verify", ['x']], [str "sign", str "k.sec", str "00ff"]], [10]) ∧
    successive readReply 2 ([corruptReply, hashReply].flatMap SentReply.wire ++ [10]) =
      .ok ([(500, ascii corruptReply.text), (0, ascii hashReply.text)], [10]) := by
  intro requests
  obtain ⟨commands, _, replies, _⟩ := session_in_step tokenLibrary requests [corruptReply, hashReply]
    (by decide) [10]
  exact ⟨commands, replies⟩

/-- A reply of more than `2 ^ 31` bytes is refused: its length is not an `int`. -/
theorem readAuthenticateReply_long :
    ∃ reply : SentReply, reply.code = replyCodeCommandFailed ∧
      readAuthenticateReply reply.wire = .error .outOfRange := by
  let text : Str := str "corrupt signature data: " ++ (replicate (2 ^ 31) 'x' ++ ['\n'])
  have encodable : Encodable text := by
    have inTemplate : ∀ c ∈ str "corrupt signature data: " ++ ['x', '\n'], c.toNat < 256 := by decide
    intro c member
    refine inTemplate c ?_
    simp only [text, mem_append, mem_replicate, mem_cons] at member ⊢
    tauto
  refine ⟨⟨replyCodeCommandFailed, text, _, by decide, sendReply_ok_iff.mpr ⟨encodable, rfl⟩⟩, rfl, ?_⟩
  have long : 2 ^ 31 ≤ (ascii text).length := by
    rw [ascii, length_map, length_append, length_append, length_replicate]
    omega
  have refused := readReply_frame replyCodeCommandFailed (ascii text) [] (by decide)
  rw [append_nil, if_neg (Nat.not_lt.mpr long)] at refused
  rw [readAuthenticateReply, refused]
  rfl

end Guix.Scripts.Authenticate
