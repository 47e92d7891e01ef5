import Guix.Scripts.Authenticate
import Guix.Lib.Fallible

/-!
# The agent answers every request

A request that meets a condition on the keys and the signature gets one reply, after which the
agent serves the next one; any other request ends the agent. The condition is needed because only
formatted messages that are raised while the reply is prepared become replies.
-/

namespace Guix.Scripts.Authenticate

open List Request Fallible

open Guix.Client (Str str base16String)

/-! ### Text and bytes -/

/-- The text has a representation in ISO-8859-1. -/
def Encodable (text : Str) : Prop := ∀ c ∈ text, c.toNat < 256
  deriving Decidable

theorem encodable_append (front back : Str) :
    Encodable (front ++ back) ↔ Encodable front ∧ Encodable back :=
  forall_mem_append

theorem encodeLatin1_eq (text : Str) :
    encodeLatin1 text = if Encodable text then .ok (ascii text) else .error .encodingError := by
  induction text with
  | nil => rfl
  | cons c text ih =>
    have first : Encodable (c :: text) ↔ c.toNat < 256 ∧ Encodable text := forall_mem_cons
    rw [encodeLatin1, ih]
    by_cases small : c.toNat < 256
    · by_cases rest : Encodable text <;>
        simp [first, small, rest, ascii, bind, Except.bind, pure, Except.pure]
    · simp [first, small, throw, throwThe, MonadExceptOf.throw]

theorem char_of_byte {c : Char} (small : c.toNat < 256) :
    Char.ofNat (UInt8.ofNat c.toNat).toNat = c := by
  rw [UInt8.toNat_ofNat', Nat.mod_eq_of_lt (by omega), Char.ofNat_toNat]

theorem decodeLatin1_ascii (text : Str) (encodable : Encodable text) : decodeLatin1 (ascii text) = text := by
  rw [decodeLatin1, ascii, map_map]
  refine (map_congr_left ?_).trans (map_id text)
  intro c member
  exact char_of_byte (encodable c member)

theorem isDigit_decimal {n : Nat} {c : Char} (member : c ∈ decimal n) : c.isDigit :=
  Nat.isDigit_of_mem_toDigits (by decide) (by decide) member

theorem toNat_of_isDigit {c : Char} (isDigit : c.isDigit) : 48 ≤ c.toNat ∧ c.toNat ≤ 57 := by
  simpa [Char.isDigit, UInt32.le_iff_toNat_le] using isDigit

theorem encodable_decimal (n : Nat) : Encodable (decimal n) := by
  intro c member
  have := toNat_of_isDigit (isDigit_decimal member)
  omega

theorem encodable_base16String (bv : Bytes) : Encodable (base16String bv) := by
  have digits (i : Nat) : ((str "0123456789abcdef").getD i '0').toNat < 256 := by
    rcases Nat.lt_or_ge i 16 with inside | outside
    · revert i
      decide
    · rw [getD_eq_getElem?_getD, List.getElem?_eq_none outside]
      decide
  intro c member
  obtain ⟨b, _, isDigit⟩ := mem_flatMap.mp member
  rcases mem_cons.mp isDigit with rfl | isDigit
  · exact digits _
  · rw [mem_singleton.mp isDigit]
    exact digits _

/-! ### Replies -/

/-- A reply on the wire: its code, its length and that many bytes. -/
def frame (code : Nat) (bv : Bytes) : Bytes :=
  ascii (decimal code ++ str " " ++ decimal bv.length ++ str ":") ++ bv

theorem sendReply_eq (code : Nat) (text : Str) : sendReply code text =
    if Encodable text then .ok (frame code (ascii text)) else .error .encodingError := by
  have header : Encodable (decimal code ++ str " " ++ decimal (ascii text).length ++ str ":") := by
    simp only [encodable_append]
    exact ⟨⟨⟨encodable_decimal code, by simp [Encodable, str]⟩, encodable_decimal _⟩,
      by simp [Encodable, str]⟩
  rw [sendReply, encodeLatin1_eq]
  split
  · simp only [bind, Except.bind]
    rw [encodeLatin1_eq, if_pos header]
    rfl
  · rfl

variable {code : Nat} {text : Str} {reply : Bytes}

theorem sendReply_ok_iff :
    sendReply code text = .ok reply ↔ Encodable text ∧ reply = frame code (ascii text) := by
  rw [sendReply_eq]
  split
  next encodable => simp [encodable, eq_comm]
  next notEncodable => simp [notEncodable]

variable {thunk : Except AuthError Str} {request : Request} {requests : List Request}
variable {hash : Bytes} {e : AuthError} {time : Nat} {keyFile hexHash : Str} {fuel : Nat}

section Agent

variable {Sexp Native : Type} (lib : AuthLibrary Sexp Native)

/-- The reply to what the preparation of a reply gives, if there is one. -/
def ReplyOf : Except AuthError Str → Nat × Str → Prop
  | .ok text, reply => reply = (replyCodeSuccess, text)
  | .error (.formatted template arguments), reply =>
    reply = (replyCodeCommandFailed, format (lib.gettext template) arguments)
  | .error _, _ => False

theorem callWithReply_ok_iff : callWithReply lib thunk = .ok reply ↔
    ∃ code text, ReplyOf lib thunk (code, text) ∧ Encodable text ∧ reply = frame code (ascii text) := by
  unfold callWithReply
  cases thunk with
  | ok result =>
    simp only [bind, Except.bind, sendReply_eq, ReplyOf, Prod.mk.injEq]
    by_cases encodable : Encodable result
    · simp [encodable, eq_comm]
    · -- an encoding error is not a formatted message
      simp [encodable]
  | error e =>
    cases e with
    | formatted template arguments => simp [bind, Except.bind, sendReply_ok_iff, ReplyOf]
    | _ => simp [bind, Except.bind, ReplyOf]

/-! ### Reading commands -/

theorem readDelimited_eq (delimiters : List Char) (word : Str) (delimiter : Char) (rest : Bytes)
    (encodable : Encodable word) (clean : ∀ c ∈ word, c ∉ delimiters) (isDelimiter : delimiter ∈ delimiters)
    (small : delimiter.toNat < 256) :
    readDelimited delimiters (ascii word ++ UInt8.ofNat delimiter.toNat :: rest) = some (word, rest) := by
  let goesOn (b : UInt8) : Bool := !decide (Char.ofNat b.toNat ∈ delimiters)
  have wordGoesOn : ∀ b ∈ ascii word, goesOn b = true := by
    intro b member
    obtain ⟨c, isChar, rfl⟩ := mem_map.mp member
    simp only [goesOn, char_of_byte (encodable c isChar)]
    simp [clean c isChar]
  have stops : goesOn (UInt8.ofNat delimiter.toNat) = false := by
    simp only [goesOn, char_of_byte small]
    simp [isDelimiter]
  have taken : (ascii word ++ UInt8.ofNat delimiter.toNat :: rest).takeWhile goesOn = ascii word := by
    rw [takeWhile_append_of_pos wordGoesOn, takeWhile_cons_of_neg (by simp [stops]), append_nil]
  have dropped : (ascii word ++ UInt8.ofNat delimiter.toNat :: rest).dropWhile goesOn =
      UInt8.ofNat delimiter.toNat :: rest := by
    rw [dropWhile_append_of_pos wordGoesOn, dropWhile_cons_of_neg (by simp [stops])]
  rw [readDelimited, if_neg (by simp)]
  simp only [Option.some.injEq, Prod.mk.injEq]
  refine ⟨?_, ?_⟩
  · exact (congrArg decodeLatin1 taken).trans (decodeLatin1_ascii word encodable)
  · exact congrArg (List.drop 1) dropped

theorem sized_eq_cons (argument rest : Bytes) :
    ∃ b more, sized argument ++ rest = b :: more ∧ b ≠ 32 ∧ b ≠ 10 := by
  cases isDecimal : decimal argument.length with
  | nil => exact absurd isDecimal Nat.toDigits_ne_nil
  | cons d ds =>
    have first : d ∈ decimal argument.length := by rw [isDecimal]; simp
    have isDigit := toNat_of_isDigit (isDigit_decimal first)
    have notByte : ∀ n < 48, UInt8.ofNat d.toNat ≠ UInt8.ofNat n := by
      intro n below same
      have := congrArg UInt8.toNat same
      rw [UInt8.toNat_ofNat', UInt8.toNat_ofNat', Nat.mod_eq_of_lt (by omega), Nat.mod_eq_of_lt (by omega)] at this
      omega
    refine ⟨UInt8.ofNat d.toNat, ascii ds ++ ascii (str ":") ++ argument ++ rest, ?_,
      notByte 32 (by omega), notByte 10 (by omega)⟩
    rw [sized, isDecimal]
    simp [ascii]

theorem readArguments_sized (fuel : Nat) (result : List Str) (argument rest : Bytes) :
    readArguments lib (fuel + 1) result (sized argument ++ rest) =
      readArguments lib fuel (decodeLatin1 argument :: result) rest := by
  obtain ⟨b, more, isCons, notSpace, notNewline⟩ := sized_eq_cons argument rest
  have consumed : consumeWhitespace (sized argument ++ rest) = b :: more := by
    rw [isCons, consumeWhitespace, dropWhile_cons_of_neg (by simpa using notSpace)]
  have size : readDelimited [':'] (b :: more) = some (decimal argument.length, argument ++ rest) := by
    rw [← isCons]
    have read := readDelimited_eq [':'] (decimal argument.length) ':' (argument ++ rest)
      (encodable_decimal _) (by
        intro c member isColon
        have := toNat_of_isDigit (isDigit_decimal member)
        rw [mem_singleton.mp isColon] at this
        exact absurd this.2 (by decide)) (by simp) (by decide)
    rw [← read, sized]
    simp [ascii, str]
  rw [readArguments, consumed]
  simp only [if_neg notNewline, size, Option.getD_some, lib.stringToNumber_decimal]
  have argumentRead : readArgument (some argument.length) (argument ++ rest) =
      .ok (decodeLatin1 argument, rest) := by
    rw [readArgument, if_neg, take_left, drop_left]
    rintro ⟨positive, empty⟩
    rw [append_eq_nil_iff] at empty
    rw [empty.1] at positive
    exact absurd positive (by decide)
  rw [argumentRead]
  rfl

theorem readArguments_space (fuel : Nat) (result : List Str) (rest : Bytes) :
    readArguments lib (fuel + 1) result (ascii (str " ") ++ rest) =
      readArguments lib (fuel + 1) result rest := by
  have consumed : consumeWhitespace (ascii (str " ") ++ rest) = consumeWhitespace rest := by
    exact dropWhile_cons_of_pos (by decide)
  rw [readArguments, readArguments, consumed]

theorem readArguments_newline (fuel : Nat) (result : List Str) (rest : Bytes) :
    readArguments lib (fuel + 1) result (ascii (str "\n") ++ rest) = .ok (result.reverse, rest) := by
  have consumed : consumeWhitespace (ascii (str "\n") ++ rest) = 10 :: rest := by
    rw [consumeWhitespace]
    exact dropWhile_cons_of_neg (by decide)
  rw [readArguments, consumed]
  rfl

/-- The words of a request as the agent reads them. -/
def Request.words : Request → List Str
  | .sign secretKey hexHash => [str "sign", decodeLatin1 secretKey, decodeLatin1 hexHash]
  | .verify signature => [str "verify", decodeLatin1 signature]

/-- The word of the command is read up to the space after it. -/
theorem readCommand_word (word : Str) (arguments : Bytes) (encodable : Encodable word)
    (clean : ∀ c ∈ word, c ∉ [' ', '\t', '\n', '\r']) :
    readCommand lib (ascii word ++ 32 :: arguments) =
      readArguments lib (arguments.length + 1) [word] arguments := by
  unfold readCommand
  rw [show (32 : UInt8) = UInt8.ofNat ' '.toNat from rfl,
    readDelimited_eq _ word ' ' arguments encodable clean (by decide) (by decide)]

theorem readCommand_line (request : Request) (rest : Bytes) :
    readCommand lib (request.line ++ rest) = .ok (request.words, rest) := by
  cases request with
  | sign secretKey hexHash =>
    let arguments := sized secretKey ++ (ascii (str " ") ++ (sized hexHash ++ (ascii (str "\n") ++ rest)))
    have line : (sign secretKey hexHash).line ++ rest = ascii (str "sign") ++ 32 :: arguments := by
      simp [line, arguments, ascii, str]
    have separators : (ascii (str " ")).length = 1 ∧ (ascii (str "\n")).length = 1 := by decide
    obtain ⟨fuel, enough⟩ : ∃ fuel, arguments.length = fuel + 2 := by
      refine Nat.exists_eq_add_of_le' ?_
      simp only [arguments, length_append]
      omega
    rw [line, readCommand_word lib _ _ (by decide) (by decide), enough, readArguments_sized,
      readArguments_space, readArguments_sized, readArguments_newline]
    rfl
  | verify signature =>
    let arguments := sized signature ++ (ascii (str "\n") ++ rest)
    have line : (verify signature).line ++ rest = ascii (str "verify") ++ 32 :: arguments := by
      simp [line, arguments, ascii, str]
    have newline : (ascii (str "\n")).length = 1 := by decide
    obtain ⟨fuel, enough⟩ : ∃ fuel, arguments.length = fuel + 1 := by
      refine Nat.exists_eq_add_of_le' ?_
      simp only [arguments, length_append]
      omega
    rw [line, readCommand_word lib _ _ (by decide) (by decide), enough, readArguments_sized,
      readArguments_newline]
    rfl

/-! ### Requests that can be answered -/

/-- The key file and the file of the public key beside it hold s-expressions. -/
def Loads (time : Nat) (keyFile : Str) (keys : Sexp × Sexp) : Prop :=
  ∃ secretText publicText, lib.readFile time keyFile = .ok secretText ∧
    lib.stringToCanonicalSexp secretText = some keys.2 ∧ 4 ≤ keyFile.length ∧
    lib.readFile time (keyFile.take (keyFile.length - 4) ++ str ".pub") = .ok publicText ∧
    lib.stringToCanonicalSexp publicText = some keys.1

/-- The keys have been loaded earlier or can be loaded now. -/
def HasKeys (time : Nat) (keyPairs : KeyPairs Sexp) (keyFile : Str) (keys : Sexp × Sexp) : Prop :=
  keyPairs.lookup keyFile = some keys ∨ keyPairs.lookup keyFile = none ∧ Loads lib time keyFile keys

/-- libgcrypt makes a signature of the hash. -/
def Signs (keys : Sexp × Sexp) (hash : Bytes) (signature : Sexp) : Prop :=
  ∃ data value, lib.bytevectorToHashData hash keys.1 = some data ∧ lib.sign data keys.2 = some value ∧
    lib.stringToCanonicalSexp (signatureText lib data value keys.1) = some signature

/-- A message of the catalogue that can be sent. -/
def Sendable (template : String) (sexp : Sexp) : Prop :=
  Encodable (format (lib.gettext (str template)) [lib.canonicalSexpToString sexp])

/-! ### One request -/

theorem parseSexp_ok_iff (text : Str) (sexp : Sexp) :
    parseSexp lib text = .ok sexp ↔ lib.stringToCanonicalSexp text = some sexp := by
  unfold parseSexp
  cases lib.stringToCanonicalSexp text with
  | none => simp
  | some sexp' => simp

theorem readKey_ok_iff (time : Nat) (keyFile file : Str) (sexp : Sexp) :
    readKey lib time keyFile file = .ok sexp ↔
      ∃ text, lib.readFile time file = .ok text ∧ lib.stringToCanonicalSexp text = some sexp := by
  unfold readKey
  cases lib.readFile time file with
  | error errno => simp
  | ok text => simp [parseSexp_ok_iff]

theorem stringDropRight_ok_iff (s : Str) (n : Nat) (result : Str) :
    stringDropRight s n = .ok result ↔ n ≤ s.length ∧ result = s.take (s.length - n) := by
  unfold stringDropRight
  split
  next short => simp; omega
  next enough => simp [Nat.le_of_not_lt enough, eq_comm]

theorem loadKeyPair_ok_iff (time : Nat) (keyFile : Str) (keys : Sexp × Sexp) :
    loadKeyPair lib time keyFile = .ok keys ↔ Loads lib time keyFile keys := by
  simp only [loadKeyPair, bind_ok, readKey_ok_iff, stringDropRight_ok_iff, pure, Except.pure,
    Except.ok.injEq, Loads]
  constructor
  · rintro ⟨secret, ⟨secretText, secretRead, secretParsed⟩, base, ⟨long, rfl⟩, publicKey,
      ⟨publicText, publicRead, publicParsed⟩, rfl⟩
    exact ⟨secretText, publicText, secretRead, secretParsed, long, publicRead, publicParsed⟩
  · rintro ⟨secretText, publicText, secretRead, secretParsed, long, publicRead, publicParsed⟩
    exact ⟨keys.2, ⟨secretText, secretRead, secretParsed⟩, _, ⟨long, rfl⟩, keys.1,
      ⟨publicText, publicRead, publicParsed⟩, rfl⟩

theorem keysOf_ok_iff (time : Nat) (keyPairs : KeyPairs Sexp) (keyFile : Str) (keys : Sexp × Sexp) :
    (∃ keyPairs', keysOf lib time keyPairs keyFile = .ok (keyPairs', keys)) ↔
      HasKeys lib time keyPairs keyFile keys := by
  unfold keysOf HasKeys
  cases keyPairs.lookup keyFile with
  | some cached => simp
  | none => simp [bind_ok, loadKeyPair_ok_iff, pure, Except.pure]

theorem orGcryError_ok_iff {α : Type} (result : Option α) (a : α) :
    orGcryError result = .ok a ↔ result = some a := by
  cases result with
  | none => simp [orGcryError]
  | some a' => simp [orGcryError]

theorem signWithKey_ok_iff (keys : Sexp × Sexp) (hash : Bytes) (signature : Sexp) :
    signWithKey lib keys.1 keys.2 hash = .ok signature ↔ Signs lib keys hash signature := by
  simp only [signWithKey, bind_ok, orGcryError_ok_iff, parseSexp_ok_iff, Signs, exists_and_left]

/-- Errors of libgcrypt while signing are not formatted messages. -/
theorem signWithKey_error {publicKey secretKey : Sexp}
    (failed : signWithKey lib publicKey secretKey hash = .error e) : e = .gcryError := by
  unfold signWithKey parseSexp at failed
  cases isData : lib.bytevectorToHashData hash publicKey with
  | none =>
    rw [isData] at failed
    cases failed
    rfl
  | some data =>
    rw [isData] at failed
    cases isValue : lib.sign data secretKey with
    | none =>
      simp only [orGcryError, bind, Except.bind, isValue] at failed
      cases failed
      rfl
    | some value =>
      simp only [orGcryError, bind, Except.bind, isValue] at failed
      split at failed
      next => cases failed
      next =>
        cases failed
        rfl

variable {keyPairs keyPairs' : KeyPairs Sexp}

theorem serveSign_ok_iff : serveSign lib time keyPairs keyFile hexHash = .ok (reply, keyPairs') ↔
    ∃ hash keys signature, base16StringToBytevector hexHash = .ok hash ∧
      keysOf lib time keyPairs keyFile = .ok (keyPairs', keys) ∧ Signs lib keys hash signature ∧
      Encodable (lib.canonicalSexpToString signature) ∧
      reply = frame replyCodeSuccess (ascii (lib.canonicalSexpToString signature)) := by
  simp only [serveSign, bind_ok, callWithReply_ok_iff, pure, Except.pure, Except.ok.injEq,
    Prod.mk.injEq]
  constructor
  · rintro ⟨hash, isHash, ⟨_, keys⟩, loaded, _, ⟨code, text, isReply, encodable, rfl⟩, rfl, rfl⟩
    cases signed : signWithKey lib keys.1 keys.2 hash with
    | error e =>
      simp only [signed, signWithKey_error lib signed] at isReply
      cases isReply
    | ok signature =>
      simp only [signed] at isReply
      cases isReply
      exact ⟨hash, keys, signature, isHash, loaded, (signWithKey_ok_iff lib keys hash signature).mp signed,
        encodable, rfl⟩
  · rintro ⟨hash, keys, signature, isHash, loaded, signs, encodable, rfl⟩
    refine ⟨hash, isHash, _, loaded, _, ⟨_, _, ?_, encodable, rfl⟩, rfl, rfl⟩
    rw [(signWithKey_ok_iff lib keys hash signature).mpr signs]
    rfl

theorem replyOf_formatted_iff (template : String) (sexp : Sexp) :
    (∃ code text, ReplyOf lib (.error (.formatted (str template) [lib.canonicalSexpToString sexp])) (code, text) ∧
      Encodable text) ↔ Sendable lib template sexp := by
  constructor
  · rintro ⟨_, _, ⟨⟩, encodable⟩
    exact encodable
  · intro sendable
    exact ⟨_, _, rfl, sendable⟩

/-- The keys that are loaded after a request. -/
def keysAfter (time : Nat) (keyPairs : KeyPairs Sexp) : Request → KeyPairs Sexp
  | .sign secretKey _ =>
    match keysOf lib time keyPairs (decodeLatin1 secretKey) with
    | .ok loaded => loaded.1
    | .error _ => keyPairs
  | .verify _ => keyPairs

variable [DecidableEq Native] (acl : Acl Native)

/-- What is asked of a signature that is an s-expression. -/
def Judged (sexp : Sexp) : Prop :=
  match signatureSignedData lib sexp, signatureSubject lib sexp with
  | some data, some subject => ∃ subjectKeys, acl = some subjectKeys ∧
    if lib.canonicalSexpToSexp subject ∈ subjectKeys then
      if isValidSignature lib sexp then (lib.hashDataToBytevector data).isSome = true
      else Sendable lib "invalid signature: ~a\n" sexp
    else Sendable lib "unauthorized public key: ~a\n" subject
  | _, _ => Sendable lib "corrupt signature data: ~a\n" sexp

/-- The condition on a request and the keys loaded before it. -/
def Answerable (time : Nat) (keyPairs : KeyPairs Sexp) : Request → Prop
  | .sign secretKey hexHash => ∃ hash keys signature,
    base16StringToBytevector (decodeLatin1 hexHash) = .ok hash ∧
    HasKeys lib time keyPairs (decodeLatin1 secretKey) keys ∧ Signs lib keys hash signature ∧
    Encodable (lib.canonicalSexpToString signature)
  | .verify signature => ∃ sexp, lib.stringToCanonicalSexp (decodeLatin1 signature) = some sexp ∧
    Judged lib acl sexp

/-- A good signature by an authorised key. -/
def Accepted (sexp : Sexp) : Prop :=
  ∃ data subject subjectKeys, signatureSignedData lib sexp = some data ∧
    signatureSubject lib sexp = some subject ∧ acl = some subjectKeys ∧
    lib.canonicalSexpToSexp subject ∈ subjectKeys ∧ isValidSignature lib sexp = true

/-- The request deserves an error: the key file cannot be loaded; the signature is not an
s-expression, is bad or by a key that is not authorised. -/
def Refused (time : Nat) (keyPairs : KeyPairs Sexp) : Request → Prop
  | .sign secretKey _ => ∀ keys, ¬ HasKeys lib time keyPairs (decodeLatin1 secretKey) keys
  | .verify signature => ∀ sexp, lib.stringToCanonicalSexp (decodeLatin1 signature) = some sexp →
    ¬ Accepted lib acl sexp

/-- The judgement on a signature, as the text of a reply. -/
def judgement (sexp : Sexp) : Except AuthError Str := do
  let hash ← validateSignature lib sexp acl
  hashText hash

theorem replyOf_judgement_iff (sexp : Sexp) :
    (∃ code text, ReplyOf lib (judgement lib acl sexp) (code, text) ∧ Encodable text) ↔
      Judged lib acl sexp := by
  unfold judgement validateSignature Judged
  cases signatureSignedData lib sexp with
  | none => exact replyOf_formatted_iff lib _ sexp
  | some data =>
    cases signatureSubject lib sexp with
    | none => exact replyOf_formatted_iff lib _ sexp
    | some subject =>
      cases acl with
      | none => simp [isAuthorizedKey, bind, Except.bind, ReplyOf]
      | some subjectKeys =>
        simp only [isAuthorizedKey, bind, Except.bind, decide_eq_true_eq, Option.some.injEq, exists_eq_left']
        by_cases authorized : lib.canonicalSexpToSexp subject ∈ subjectKeys
        · by_cases valid : isValidSignature lib sexp
          · simp only [if_pos authorized, if_pos valid]
            cases isHash : lib.hashDataToBytevector data with
            | none => simp [hashText, pure, Except.pure, ReplyOf]
            | some hash => simp [hashText, pure, Except.pure, ReplyOf, encodable_base16String]
          · simp only [if_pos authorized, if_neg valid]
            exact replyOf_formatted_iff lib _ sexp
        · simp only [if_neg authorized]
          exact replyOf_formatted_iff lib _ subject

theorem accepted_of_judgement {sexp : Sexp} (judged : judgement lib acl sexp = .ok text) :
    Accepted lib acl sexp := by
  obtain ⟨hash, validated, _⟩ := bind_ok.mp judged
  unfold validateSignature at validated
  split at validated
  next data subject isData isSubject =>
    cases isAcl : acl with
    | none =>
      rw [isAcl] at validated
      cases validated
    | some subjectKeys =>
      rw [isAcl] at validated
      simp only [isAuthorizedKey, bind, Except.bind, decide_eq_true_eq] at validated
      split at validated
      next authorized =>
        split at validated
        next valid => exact ⟨data, subject, subjectKeys, isData, isSubject, rfl, authorized, valid⟩
        next => cases validated
      next => cases validated
  next => cases validated

theorem refused_code (sexp : Sexp) (isReply : ReplyOf lib (judgement lib acl sexp) (code, text))
    (notAccepted : ¬ Accepted lib acl sexp) : code = replyCodeCommandFailed := by
  cases judged : judgement lib acl sexp with
  | ok text => exact absurd (accepted_of_judgement lib acl judged) notAccepted
  | error e =>
    rw [judged] at isReply
    cases e with
    | formatted template arguments =>
      cases isReply
      rfl
    | _ => cases isReply

/-- A request that can be answered gets one reply, and the agent goes on; any other request
ends the agent. -/
theorem serve_spec (time : Nat) (keyPairs : KeyPairs Sexp) (request : Request) :
    (Answerable lib acl time keyPairs request ∧
      ∃ code bv, serve lib acl time keyPairs request.words =
          .ok (frame code bv, keysAfter lib time keyPairs request) ∧
        (Refused lib acl time keyPairs request → code = replyCodeCommandFailed)) ∨
    (¬ Answerable lib acl time keyPairs request ∧
      ∃ e, serve lib acl time keyPairs request.words = .error e) := by
  cases request with
  | sign secretKey hexHash =>
    change (_ ∧ ∃ code bv, serveSign lib time keyPairs (decodeLatin1 secretKey) (decodeLatin1 hexHash) = _ ∧ _) ∨
      (_ ∧ ∃ e, serveSign lib time keyPairs (decodeLatin1 secretKey) (decodeLatin1 hexHash) = _)
    cases served : serveSign lib time keyPairs (decodeLatin1 secretKey) (decodeLatin1 hexHash) with
    | ok result =>
      obtain ⟨hash, keys, signature, isHash, loaded, signs, encodable, isReply⟩ :=
        (serveSign_ok_iff lib).mp served
      have hasKeys := (keysOf_ok_iff lib time keyPairs (decodeLatin1 secretKey) keys).mp ⟨_, loaded⟩
      refine .inl ⟨⟨hash, keys, signature, isHash, hasKeys, signs, encodable⟩, replyCodeSuccess,
        ascii (lib.canonicalSexpToString signature), ?_, fun refused => absurd hasKeys (refused keys)⟩
      rw [keysAfter, loaded, ← isReply]
    | error e =>
      refine .inr ⟨?_, e, rfl⟩
      rintro ⟨hash, keys, signature, isHash, hasKeys, signs, encodable⟩
      obtain ⟨keyPairs', loaded⟩ := (keysOf_ok_iff lib time keyPairs (decodeLatin1 secretKey) keys).mpr hasKeys
      have := (serveSign_ok_iff lib).mpr ⟨hash, keys, signature, isHash, loaded, signs, encodable, rfl⟩
      rw [served] at this
      cases this
  | verify signature =>
    change (_ ∧ ∃ code bv, (serveVerify lib acl (decodeLatin1 signature) >>= fun reply => _) = _ ∧ _) ∨
      (_ ∧ ∃ e, (serveVerify lib acl (decodeLatin1 signature) >>= fun reply => _) = _)
    cases parsed : lib.stringToCanonicalSexp (decodeLatin1 signature) with
    | none =>
      refine .inr ⟨?_, .gcryError, ?_⟩
      · rintro ⟨sexp, isSexp, _⟩
        rw [parsed] at isSexp
        cases isSexp
      · rw [serveVerify, parseSexp, parsed]
        rfl
    | some sexp =>
      have same : serveVerify lib acl (decodeLatin1 signature) = callWithReply lib (judgement lib acl sexp) := by
        rw [serveVerify, parseSexp, parsed]
        rfl
      rw [same]
      cases replied : callWithReply lib (judgement lib acl sexp) with
      | ok reply =>
        obtain ⟨code, text, isReply, encodable, rfl⟩ := (callWithReply_ok_iff lib).mp replied
        have judged := (replyOf_judgement_iff lib acl sexp).mp ⟨code, text, isReply, encodable⟩
        exact .inl ⟨⟨sexp, parsed, judged⟩, code, ascii text, rfl,
          fun refused => refused_code lib acl sexp isReply (refused sexp parsed)⟩
      | error e =>
        refine .inr ⟨?_, e, rfl⟩
        rintro ⟨sexp', isSexp, judged⟩
        cases parsed.symm.trans isSexp
        obtain ⟨code, text, isReply, encodable⟩ := (replyOf_judgement_iff lib acl sexp).mpr judged
        have := (callWithReply_ok_iff lib).mpr ⟨code, text, isReply, encodable, rfl⟩
        rw [replied] at this
        cases this

/-! ### Sequences of requests -/

/-- Every request of a sequence can be answered when its turn comes. -/
def AllAnswerable : Nat → KeyPairs Sexp → List Request → Prop
  | _, _, [] => True
  | time, keyPairs, request :: requests => Answerable lib acl time keyPairs request ∧
    AllAnswerable (time + 1) (keysAfter lib time keyPairs request) requests

/-- One reply for each request, an error where the request deserves one. -/
inductive Answers : Nat → KeyPairs Sexp → List Request → List (Nat × Bytes) → Prop
  | done (time : Nat) (keyPairs : KeyPairs Sexp) : Answers time keyPairs [] []
  | next {time : Nat} {keyPairs : KeyPairs Sexp} {request : Request} {requests : List Request}
    {reply : Nat × Bytes} {replies : List (Nat × Bytes)}
    (refused : Refused lib acl time keyPairs request → reply.1 = replyCodeCommandFailed)
    (rest : Answers (time + 1) (keysAfter lib time keyPairs request) requests replies) :
    Answers time keyPairs (request :: requests) (reply :: replies)

/-- What the agent is for: it reads all requests, answers each one and exits at the end of input. -/
def ServesAll (requests : List Request) : Prop :=
  ∃ replies, guixAuthenticate lib acl (requests.flatMap line) =
      (replies.flatMap fun reply => frame reply.1 reply.2, .exited 0) ∧
    Answers lib acl 0 [] requests replies

theorem agentLoop_line (fuel : Nat) (rest : Bytes) :
    agentLoop lib acl (fuel + 1) time keyPairs (request.line ++ rest) =
      match serve lib acl time keyPairs request.words with
      | .error e => ([], .died e)
      | .ok (reply, keyPairs) =>
        (reply ++ (agentLoop lib acl fuel (time + 1) keyPairs rest).1,
          (agentLoop lib acl fuel (time + 1) keyPairs rest).2) := by
  rw [agentLoop, readCommand_line]
  cases request with
  | sign secretKey hexHash => rfl
  | verify signature => rfl

theorem agentLoop_spec (enough : requests.length < fuel) :
    (AllAnswerable lib acl time keyPairs requests ∧
      ∃ replies, agentLoop lib acl fuel time keyPairs (requests.flatMap line) =
          (replies.flatMap fun reply => frame reply.1 reply.2, .exited 0) ∧
        Answers lib acl time keyPairs requests replies) ∨
    (¬ AllAnswerable lib acl time keyPairs requests ∧
      (agentLoop lib acl fuel time keyPairs (requests.flatMap line)).2 ≠ .exited 0) := by
  induction requests generalizing fuel time keyPairs with
  | nil =>
    obtain ⟨fuel, rfl⟩ := Nat.exists_eq_add_of_lt enough
    exact .inl ⟨trivial, [], rfl, .done time keyPairs⟩
  | cons request requests ih =>
    obtain ⟨fuel, rfl⟩ : ∃ more, fuel = more + 1 := ⟨fuel - 1, by omega⟩
    rw [flatMap_cons, agentLoop_line]
    rcases serve_spec lib acl time keyPairs request with
      ⟨answerable, code, bv, served, refused⟩ | ⟨unanswerable, e, failed⟩
    · rw [served]
      rcases @ih (time + 1) fuel (keysAfter lib time keyPairs request) (Nat.lt_of_succ_lt_succ enough) with
        ⟨rest, replies, ran, answers⟩ | ⟨unanswerable, died⟩
      · refine .inl ⟨⟨answerable, rest⟩, (code, bv) :: replies, ?_, .next refused answers⟩
        simp only [ran, flatMap_cons]
      · exact .inr ⟨fun all => unanswerable all.2, died⟩
    · rw [failed]
      exact .inr ⟨fun all => unanswerable all.1, by simp⟩

end Agent

theorem length_le_lines (requests : List Request) :
    requests.length ≤ (requests.flatMap line).length := by
  induction requests with
  | nil => exact Nat.le_refl _
  | cons request requests ih =>
    have newline : 1 ≤ request.line.length := by
      cases request with
      | sign _ _ => simp [line, ascii, str]
      | verify _ => simp [line, ascii, str]
    rw [flatMap_cons, length_append, length_cons]
    omega

/-- A token is an s-expression, as for libgcrypt, and has no parts. No file exists. -/
def tokenLibrary : AuthLibrary Str Str where
  stringToCanonicalSexp text := if text ≠ [] ∧ text.all Char.isAlphanum then some text else none
  canonicalSexpToString sexp := sexp
  canonicalSexpToSexp sexp := sexp
  findSexpToken _ _ := none
  bytevectorToHashData _ _ := none
  sign _ _ := none
  verify _ _ _ := false
  hashDataToBytevector _ := none
  stringToNumber text := some (Nat.ofDigitChars 10 text 0)
  stringToNumber_decimal n := by rw [decimal, Nat.ofDigitChars_ten_toDigits]
  readFile _ _ := .error 2
  strerror _ := str "No such file or directory"
  gettext text := text

end Guix.Scripts.Authenticate
