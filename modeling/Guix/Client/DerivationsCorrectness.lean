import Guix.Client.Derivations
import Guix.LibStore.DerivationHashCorrectness

/-!
# The client and the daemon write derivations alike

For the same derivation `write-derivation` writes what `unparseDerivation` prints, if and
only if no character of the system, of the builder and of the names of the inputs needs an
escape: these strings are written as they are.
-/

namespace Guix.Client

open List Utf8 OrdMap LibStore.Derivations

/-! ### Strings -/

/-- A character inside a string. -/
def escapeChar (c : Char) : Str := if c ∈ escapeCharSet then escape c else [c]

variable (s : Str)

theorem flatMap_escapeChar_plain (plain : ∀ c ∈ s, c ∉ escapeCharSet) :
    s.flatMap escapeChar = s := by
  have same : ∀ c ∈ s, escapeChar c = [c] := fun c inString => if_neg (plain c inString)
  rw [flatMap_congr same, flatMap_singleton']

theorem escapedLoop_eq (result : List Str) :
    escapedLoop s result = result.reverse.flatten ++ s.flatMap escapeChar := by
  fun_induction escapedLoop s result with
  | case1 s result i index inside ih =>
    obtain ⟨_, special, before⟩ := List.findIdx?_eq_some_iff_getElem.mp index
    have split : s = s.take i ++ s.get ⟨i, inside⟩ :: s.drop (1 + i) := by
      rw [get_eq_getElem, Nat.add_comm 1 i, ← drop_eq_getElem_cons inside, take_append_drop]
    have plain : ∀ c ∈ s.take i, c ∉ escapeCharSet := by
      intro c inFront
      obtain ⟨j, short, rfl⟩ := getElem_of_mem inFront
      simpa using before j (by simp only [length_take] at short; omega)
    have isSpecial : escapeChar (s.get ⟨i, inside⟩) = escape (s.get ⟨i, inside⟩) :=
      if_pos (by simpa using special)
    rw [ih]
    conv_rhs => rw [split]
    simp only [reverse_cons, flatten_append, append_assoc, flatMap_append,
      flatMap_cons, flatMap_escapeChar_plain _ plain, isSpecial, flatten_cons,
      flatten_nil, append_nil]
  | case2 s result index empty =>
    rw [isEmpty_iff.mp empty, flatMap_escapeChar_plain s (by simpa using index)]
    rfl
  | case3 s result index =>
    rw [flatMap_escapeChar_plain s (by simpa using index)]
    simp

theorem escapedString_eq : escapedString s = s.flatMap escapeChar := escapedLoop_eq s []

@[simp] theorem encode_append (s t : Str) : encode (s ++ t) = encode s ++ encode t :=
  Utf8.encode_append s t

theorem encode_str (s : String) (isAscii : ∀ c ∈ s.toList, c.toNat < 128) :
    encode (str s) = ascii s := by
  simp only [encode, str, ascii]
  generalize s.toList = chars at isAscii
  induction chars with
  | nil => rfl
  | cons c chars ih =>
    rw [encode_cons, encodeChar_ascii (isAscii c mem_cons_self),
      ih (forall_mem_cons.mp isAscii).2]
    rfl

/-- Escaping characters and escaping their bytes is the same. -/
theorem encode_escapeChar (c : Char) :
    encode (escapeChar c) = (String.utf8EncodeChar c).flatMap LibStore.Derivations.escape := by
  by_cases isAscii : c.toNat < 128
  · have all : ∀ n : Fin 128, encode (escapeChar (Char.ofNat n)) =
        (String.utf8EncodeChar (Char.ofNat n)).flatMap LibStore.Derivations.escape := by decide
    have same := all ⟨c.toNat, isAscii⟩
    rwa [Char.ofNat_toNat] at same
  · have notSpecial : c ∉ escapeCharSet := by
      intro special
      have small : ∀ d ∈ escapeCharSet, d.toNat < 128 := by decide
      exact isAscii (small c special)
    have plain : ∀ b ∈ String.utf8EncodeChar c, LibStore.Derivations.escape b = [b] := by
      intro b isByte
      have large := le_of_mem_encodeChar (Nat.le_of_not_lt isAscii) isByte
      have other : ∀ d : UInt8, d.toNat < 128 → b ≠ d := by
        rintro d small rfl
        omega
      simp [LibStore.Derivations.escape, other LibStore.Derivations.quote (by decide),
        other LibStore.Derivations.backslash (by decide), other LibStore.Derivations.newline (by decide),
        other LibStore.Derivations.carriageReturn (by decide),
        other LibStore.Derivations.tab (by decide)]
    rw [escapeChar, if_neg notSpecial, flatMap_congr plain, flatMap_singleton']
    simp [encode]

theorem encode_escapedString :
    encode (escapedString s) = (encode s).flatMap LibStore.Derivations.escape := by
  rw [escapedString_eq]
  induction s with
  | nil => rfl
  | cons c s ih =>
    rw [flatMap_cons, encode_append, ih, encode_escapeChar, encode, encode, encode_cons,
      flatMap_append]

/-- An ASCII character is in a string if and only if its byte is in the encoded string. -/
theorem byte_mem_encode_iff {c : Char} (isAscii : c.toNat < 128) :
    UInt8.ofNat c.toNat ∈ encode s ↔ c ∈ s := by
  constructor
  · intro isByte
    obtain ⟨d, inString, isByte⟩ := mem_flatMap.mp isByte
    by_cases other : d.toNat < 128
    · rw [encodeChar_ascii other, mem_singleton] at isByte
      have same : c.toNat = d.toNat := by
        have value := congrArg UInt8.toNat isByte
        rw [UInt8.toNat_ofNat', UInt8.toNat_ofNat'] at value
        omega
      rwa [← Char.ofNat_toNat c, same, Char.ofNat_toNat]
    · have large := le_of_mem_encodeChar (Nat.le_of_not_lt other) isByte
      rw [UInt8.toNat_ofNat'] at large
      omega
  · intro inString
    refine mem_flatMap.mpr ⟨c, inString, ?_⟩
    rw [encodeChar_ascii isAscii]
    exact mem_singleton_self _

theorem zero_mem_encode_iff : 0 ∈ encode s ↔ '\x00' ∈ s :=
  byte_mem_encode_iff s (c := '\x00') (by decide)

theorem zero_notMem_encode (noNul : '\x00' ∉ s) : 0 ∉ encode s := mt (zero_mem_encode_iff s).mp noNul

theorem printString_encode (noNul : '\x00' ∉ s) :
    printString (encode s) = encode (writeEscapedString s) := by
  rw [printString, cstr_eq_self (zero_notMem_encode s noNul), writeEscapedString, encode_append,
    encode_append, encode_escapedString]
  rfl

/-! ### Lists -/

theorem commas_false (items : List Bytes) (nonempty : items ≠ []) :
    commas false items = ascii "," ++ commas true items := by
  cases items with
  | nil => exact absurd rfl nonempty
  | cons item rest => simp [commas]

theorem encode_writeSequence {α : Type} (writeItem : α → Str) (lst : List α) :
    encode (writeSequence writeItem lst) = commas true (lst.map fun item => encode (writeItem item)) := by
  induction lst using writeSequence.induct with
  | case1 => rfl
  | case2 last => simp [writeSequence, commas]
  | case3 item rest nonempty ih =>
    have comma : encode (str ",") = ascii "," := encode_str "," (by decide)
    rw [writeSequence, encode_append, encode_append, ih, comma, map_cons, commas,
      commas_false _ (by simpa using nonempty)]
    · simp
    · exact nonempty

theorem encode_writeStringList {lst : List Str} (noNul : ∀ s ∈ lst, '\x00' ∉ s) :
    encode (writeStringList lst) = printStrings (lst.map encode) := by
  have items : lst.map (fun s => encode (writeEscapedString s)) = (lst.map encode).map printString := by
    rw [map_map]
    apply map_congr_left
    exact fun s inList => (printString_encode s (noNul s inList)).symm
  rw [writeStringList, writeList, encode_append, encode_append, encode_writeSequence, items,
    encode_str "[" (by decide), encode_str "]" (by decide), printStrings]

/-! ### The same derivation for the daemon -/

def stringSet (lst : List Str) : StringSet := .ofList (lst.map fun s => (encode s, ⟨⟩))

def toDaemonOutput (output : DerivationOutput) : LibStore.Derivations.DerivationOutput :=
  ⟨encode output.path, encode (hashAlgoString output), encode (outputHash output)⟩

section

variable {ι : Type} (fileName : ι → Str)

def toDaemon (drv : Fields ι) : LibStore.Derivations.Derivation where
  outputs := .ofList (drv.outputs.map fun output => (encode output.1, toDaemonOutput output.2))
  inputDrvs := .ofList (drv.inputs.map fun input =>
    (encode (fileName input.drv), stringSet input.subDerivations))
  inputSrcs := stringSet drv.sources
  platform := encode drv.system
  builder := encode drv.builder
  args := drv.args.map encode
  env := .ofList (drv.envVars.map fun var => (encode var.1, encode var.2))

/-- The lists are sorted by `string<?`, without duplicates. -/
structure Sorted (drv : Fields ι) : Prop where
  outputs : drv.outputs.Pairwise fun a b => a.1 < b.1
  inputs : drv.inputs.Pairwise fun a b => fileName a.drv < fileName b.drv
  subDerivations : ∀ input ∈ drv.inputs, input.subDerivations.Pairwise (· < ·)
  sources : drv.sources.Pairwise (· < ·)
  envVars : drv.envVars.Pairwise fun a b => a.1 < b.1

/-- The strings that are written with escapes. -/
def escapedStrings (drv : Fields ι) : List Str :=
  drv.outputs.flatMap (fun output =>
      [output.1, output.2.path, hashAlgoString output.2, outputHash output.2])
    ++ drv.inputs.flatMap (·.subDerivations) ++ drv.sources ++ drv.args
    ++ drv.envVars.flatMap (fun var => [var.1, var.2])

/-- The strings that are written as they are. -/
def plainStrings (drv : Fields ι) : List Str :=
  drv.inputs.map (fun input => fileName input.drv) ++ [drv.system, drv.builder]

variable {fileName} {drv : Fields ι}

theorem stringSet_keys {lst : List Str} (sorted : lst.Pairwise (· < ·)) :
    (stringSet lst).keys = lst.map encode := by
  rw [stringSet, ofList_sorted _ (pairwise_map.mpr (sorted.imp encode_lt)),
    OrdMap.keys, map_map]
  rfl

theorem encode_writeOutput (output : Str × DerivationOutput)
    (noNul : ∀ s ∈ [output.1, output.2.path, hashAlgoString output.2, outputHash output.2], '\x00' ∉ s) :
    encode (writeOutput output) = printOutput (encode output.1, toDaemonOutput output.2) := by
  have text : ∀ s ∈ [output.1, output.2.path, hashAlgoString output.2, outputHash output.2],
      encode (writeEscapedString s) = printString (encode s) :=
    fun s inOutput => (printString_encode s (noNul s inOutput)).symm
  simp only [mem_cons, not_mem_nil, or_false, forall_eq_or_imp, forall_eq] at text
  obtain ⟨name, path, algo, hash⟩ := text
  simp only [writeOutput, writeTuple, encode_append, encode_writeSequence, map_cons, map_nil,
    commas, name, path, algo, hash, encode_str "(" (by decide), encode_str ")" (by decide), printOutput,
    toDaemonOutput, append_assoc, nil_append, if_true, if_false, Bool.false_eq_true,
    append_nil]

theorem encode_writeEnvVar (var : Str × Str) (noNul : ∀ s ∈ [var.1, var.2], '\x00' ∉ s) :
    encode (writeEnvVar var) = printEnvVar (encode var.1, encode var.2) := by
  simp only [mem_cons, not_mem_nil, or_false, forall_eq_or_imp, forall_eq] at noNul
  simp only [writeEnvVar, encode_append, printEnvVar, ← printString_encode _ noNul.1,
    ← printString_encode _ noNul.2, encode_str "(" (by decide), encode_str "," (by decide),
    encode_str ")" (by decide)]

/-- Both texts, with `raw` for the bytes of the strings that the client writes as they are. -/
def textWith (raw : Str → Bytes) (fileName : ι → Str) (drv : Fields ι) : Bytes :=
  ascii "Derive([" ++ commas true (drv.outputs.map fun output =>
      printOutput (encode output.1, toDaemonOutput output.2))
    ++ ascii "],[" ++ commas true (drv.inputs.map fun input =>
      ascii "(\"" ++ raw (fileName input.drv) ++ ascii "\","
        ++ printStrings (input.subDerivations.map encode) ++ ascii ")")
    ++ ascii "]," ++ printStrings (drv.sources.map encode)
    ++ ascii ",\"" ++ raw drv.system ++ ascii "\",\"" ++ raw drv.builder ++ ascii "\","
    ++ printStrings (drv.args.map encode)
    ++ ascii ",[" ++ commas true (drv.envVars.map fun var => printEnvVar (encode var.1, encode var.2))
    ++ ascii "])"

theorem encode_writeDerivation (noNul : ∀ s ∈ escapedStrings drv, '\x00' ∉ s) :
    encode (writeDerivation fileName drv) = textWith encode fileName drv := by
  simp only [escapedStrings, mem_append, mem_flatMap] at noNul
  have outputs : drv.outputs.map (fun output => encode (writeOutput output)) =
      drv.outputs.map fun output => printOutput (encode output.1, toDaemonOutput output.2) := by
    apply map_congr_left
    intro output isOutput
    apply encode_writeOutput
    exact fun s inOutput => noNul s (.inl (.inl (.inl (.inl ⟨output, isOutput, inOutput⟩))))
  have inputs : drv.inputs.map (fun input => encode (writeInput fileName input)) =
      drv.inputs.map fun input => ascii "(\"" ++ encode (fileName input.drv) ++ ascii "\","
        ++ printStrings (input.subDerivations.map encode) ++ ascii ")" := by
    apply map_congr_left
    intro input isInput
    have names : ∀ s ∈ input.subDerivations, '\x00' ∉ s :=
      fun s inInput => noNul s (.inl (.inl (.inl (.inr ⟨input, isInput, inInput⟩))))
    rw [writeInput, encode_append, encode_append, encode_append, encode_append,
      encode_writeStringList names, encode_str "(\"" (by decide), encode_str "\"," (by decide),
      encode_str ")" (by decide)]
  have vars : drv.envVars.map (fun var => encode (writeEnvVar var)) =
      drv.envVars.map fun var => printEnvVar (encode var.1, encode var.2) := by
    apply map_congr_left
    intro var isVar
    apply encode_writeEnvVar
    exact fun s inVar => noNul s (.inr ⟨var, isVar, inVar⟩)
  have sources := encode_writeStringList fun s isSource => noNul s (.inl (.inl (.inr isSource)))
  have args := encode_writeStringList fun s isArg => noNul s (.inl (.inr isArg))
  have start : ascii "Derive([" = ascii "Derive(" ++ ascii "[" := by decide
  have middle : ascii "],[" = ascii "]" ++ (ascii "," ++ ascii "[") := by decide
  have comma : ascii "]," = ascii "]" ++ ascii "," := by decide
  have open_ : ascii ",[" = ascii "," ++ ascii "[" := by decide
  have last : ascii "])" = ascii "]" ++ ascii ")" := by decide
  simp only [writeDerivation, writeList, encode_append, encode_writeSequence, outputs, inputs, vars,
    sources, args, encode_str "Derive(" (by decide), encode_str "[" (by decide),
    encode_str "]" (by decide), encode_str "," (by decide), encode_str ",\"" (by decide),
    encode_str "\",\"" (by decide), encode_str "\"," (by decide), encode_str ")" (by decide),
    textWith, start, middle, comma, open_, last, append_assoc]

/-- The bytes of a string with the daemon's escapes. -/
def escapedBytes (s : Str) : Bytes := (encode s).flatMap LibStore.Derivations.escape

theorem printString_escapedBytes (noNul : '\x00' ∉ s) :
    printString (encode s) = ascii "\"" ++ escapedBytes s ++ ascii "\"" := by
  rw [printString, cstr_eq_self (zero_notMem_encode s noNul)]
  rfl

section

variable (sorted : Sorted fileName drv)
include sorted

theorem toDaemon_outputs : (toDaemon fileName drv).outputs.entries =
    drv.outputs.map fun output => (encode output.1, toDaemonOutput output.2) :=
  congrArg entries
    (ofList_sorted _ (pairwise_map.mpr (sorted.outputs.imp encode_lt)))

theorem toDaemon_inputDrvs :
    (toDaemon fileName drv).inputDrvs.entries =
      drv.inputs.map fun input => (encode (fileName input.drv), stringSet input.subDerivations) :=
  congrArg entries
    (ofList_sorted _ (pairwise_map.mpr (sorted.inputs.imp encode_lt)))

theorem toDaemon_env : (toDaemon fileName drv).env.entries =
    drv.envVars.map fun var => (encode var.1, encode var.2) :=
  congrArg entries
    (ofList_sorted _ (pairwise_map.mpr (sorted.envVars.imp encode_lt)))

theorem unparseDerivation_toDaemon (noNul : ∀ s ∈ plainStrings fileName drv, '\x00' ∉ s) :
    unparseDerivation (toDaemon fileName drv) = textWith escapedBytes fileName drv := by
  have quoted : ∀ s ∈ plainStrings fileName drv,
      printString (encode s) = ascii "\"" ++ escapedBytes s ++ ascii "\"" :=
    fun s isPlain => printString_escapedBytes s (noNul s isPlain)
  have inputs : drv.inputs.map (fun input =>
        printInputDrv (encode (fileName input.drv), stringSet input.subDerivations)) =
      drv.inputs.map fun input => ascii "(\"" ++ escapedBytes (fileName input.drv) ++ ascii "\","
        ++ printStrings (input.subDerivations.map encode) ++ ascii ")" := by
    apply map_congr_left
    intro input isInput
    have name := quoted (fileName input.drv) (mem_append_left _ (mem_map.mpr ⟨input, isInput, rfl⟩))
    have open_ : ascii "(\"" = ascii "(" ++ ascii "\"" := by decide
    have close : ascii "\"," = ascii "\"" ++ ascii "," := by decide
    simp only [printInputDrv, name, stringSet_keys (sorted.subDerivations input isInput), open_, close,
      append_assoc]
  have system := quoted drv.system (by simp [plainStrings])
  have builder := quoted drv.builder (by simp [plainStrings])
  have sources : (toDaemon fileName drv).inputSrcs.keys = drv.sources.map encode :=
    stringSet_keys sorted.sources
  have platform : (toDaemon fileName drv).platform = encode drv.system := rfl
  have program : (toDaemon fileName drv).builder = encode drv.builder := rfl
  have args : (toDaemon fileName drv).args = drv.args.map encode := rfl
  have first : ascii ",\"" = ascii "," ++ ascii "\"" := by decide
  have between : ascii "\",\"" = ascii "\"" ++ (ascii "," ++ ascii "\"") := by decide
  have last : ascii "\"," = ascii "\"" ++ ascii "," := by decide
  simp only [unparseDerivation, toDaemon_outputs sorted, toDaemon_inputDrvs sorted, toDaemon_env sorted,
    map_map, Function.comp_def, inputs, sources, platform, program, args, system, builder, textWith,
    first, between, last, append_assoc]

end

/-! ### Where they differ -/

/-- The number of characters that need an escape. -/
def escapes (s : Str) : Nat := s.countP (· ∈ escapeCharSet)

theorem length_escapedBytes : (escapedBytes s).length = (encode s).length + escapes s := by
  have special : ∀ c ∈ escapeCharSet, (encode (escapeChar c)).length = 2 ∧
      (String.utf8EncodeChar c).length = 1 := by decide
  have plain : ∀ c ∉ escapeCharSet, encode (escapeChar c) = String.utf8EncodeChar c := by
    intro c notSpecial
    rw [escapeChar, if_neg notSpecial]
    simp [encode]
  rw [escapedBytes, ← encode_escapedString, escapedString_eq, escapes]
  induction s with
  | nil => rfl
  | cons c s ih =>
    rw [flatMap_cons, encode_append, length_append, ih, countP_cons]
    simp only [encode, encode_cons, length_append]
    by_cases isSpecial : c ∈ escapeCharSet
    · have lengths := special c isSpecial
      simp only [encode] at lengths
      simp only [isSpecial, decide_true, if_true, lengths.1, lengths.2]
      omega
    · have same := plain c isSpecial
      simp only [encode] at same
      simp only [isSpecial, decide_false, Bool.false_eq_true, if_false, same]
      omega

theorem escapes_eq_zero_iff : escapes s = 0 ↔ ∀ c ∈ s, c ∉ escapeCharSet := by
  simp [escapes, countP_eq_zero]

theorem length_commas_add {α : Type} (short long : α → Bytes) (extra : α → Nat)
    (longer : ∀ a, (long a).length = (short a).length + extra a) (items : List α) (first : Bool) :
    (commas first (items.map long)).length =
      (commas first (items.map short)).length + (items.map extra).sum := by
  induction items generalizing first with
  | nil => rfl
  | cons item items ih =>
    simp only [map_cons, commas, length_append, ih, longer, sum_cons]
    omega

/-- The daemon's text is longer by the escapes that the client does not write. -/
theorem length_textWith : (textWith escapedBytes fileName drv).length =
    (textWith encode fileName drv).length + ((plainStrings fileName drv).map escapes).sum := by
  have inputs := length_commas_add
    (fun input : DerivationInput ι => ascii "(\"" ++ encode (fileName input.drv) ++ ascii "\","
      ++ printStrings (input.subDerivations.map encode) ++ ascii ")")
    (fun input => ascii "(\"" ++ escapedBytes (fileName input.drv) ++ ascii "\","
      ++ printStrings (input.subDerivations.map encode) ++ ascii ")")
    (fun input => escapes (fileName input.drv))
    (fun input => by
      simp only [length_append, length_escapedBytes]
      ac_rfl) drv.inputs true
  simp only [textWith, length_append, inputs, length_escapedBytes, plainStrings, map_append,
    map_map, sum_append, map_cons, map_nil, sum_cons, sum_nil,
    Function.comp_def, Nat.add_zero]
  ac_rfl

/-- When nothing that the client writes as it is needs an escape, both texts are the same. -/
theorem derivationBytevector_eq (sorted : Sorted fileName drv)
    (noNul : ∀ s ∈ escapedStrings drv ++ plainStrings fileName drv, '\x00' ∉ s)
    (plain : ∀ s ∈ plainStrings fileName drv, ∀ c ∈ s, c ∉ escapeCharSet) :
    derivationBytevector fileName drv = unparseDerivation (toDaemon fileName drv) := by
  have raw : ∀ s ∈ plainStrings fileName drv, encode s = escapedBytes s := by
    intro s isPlain
    rw [escapedBytes, ← encode_escapedString, escapedString_eq,
      flatMap_escapeChar_plain s (plain s isPlain)]
  have inputs : drv.inputs.map (fun input => ascii "(\"" ++ encode (fileName input.drv) ++ ascii "\","
        ++ printStrings (input.subDerivations.map encode) ++ ascii ")") =
      drv.inputs.map fun input => ascii "(\"" ++ escapedBytes (fileName input.drv) ++ ascii "\","
        ++ printStrings (input.subDerivations.map encode) ++ ascii ")" := by
    apply map_congr_left
    intro input isInput
    rw [raw _ (mem_append_left _ (mem_map.mpr ⟨input, isInput, rfl⟩))]
  rw [derivationBytevector,
    encode_writeDerivation fun s isEscaped => noNul s (mem_append_left _ isEscaped),
    unparseDerivation_toDaemon sorted fun s isPlain => noNul s (mem_append_right _ isPlain),
    textWith, textWith, inputs, raw drv.system (by simp [plainStrings]),
    raw drv.builder (by simp [plainStrings])]

/-- For the same derivation, with sorted lists and without NUL characters, the client writes
what the daemon prints if and only if nothing that it writes as it is needs an escape. -/
theorem writeDerivation_eq_iff (sorted : Sorted fileName drv)
    (noNul : ∀ s ∈ escapedStrings drv ++ plainStrings fileName drv, '\x00' ∉ s) :
    derivationBytevector fileName drv = unparseDerivation (toDaemon fileName drv) ↔
      ∀ s ∈ plainStrings fileName drv, ∀ c ∈ s, c ∉ escapeCharSet := by
  constructor
  · intro same s isPlain
    have noEscapes : ((plainStrings fileName drv).map escapes).sum = 0 := by
      have lengths : (textWith escapedBytes fileName drv).length = _ := length_textWith
      rw [← unparseDerivation_toDaemon sorted fun s isPlain =>
          noNul s (mem_append_right _ isPlain), ← same, derivationBytevector,
        encode_writeDerivation fun s isEscaped => noNul s (mem_append_left _ isEscaped)] at lengths
      omega
    rw [← escapes_eq_zero_iff]
    exact List.sum_eq_zero_iff_forall_eq_nat.mp noEscapes _ (List.mem_map_of_mem isPlain)
  · exact derivationBytevector_eq sorted noNul

end

/-- A derivation with an input, a fixed output and strings that need escapes. -/
def download : Fields Str where
  outputs := [(str "out", ⟨str "/gnu/out", some (str "sha256"), some [0, 255], true⟩)]
  inputs := [⟨str "/gnu/curl.drv", [str "lib", str "out"]⟩]
  sources := [str "/gnu/é"]
  system := str "x86_64-linux"
  builder := str "/bin/sh"
  args := [str "\"\n\""]
  envVars := [(str "out", str "/gnu/out"), (str "url", str "a\tb")]

theorem writeDerivation_download :
    derivationBytevector id download = unparseDerivation (toDaemon id download) := by
  have sorted : Sorted id download :=
    ⟨by decide, by decide, by decide, by decide, by decide⟩
  exact (writeDerivation_eq_iff sorted (by decide)).mpr (by decide)

/-- A builder with a quote in its name. -/
def quotedBuilder : Fields Str :=
  ⟨[], [], [], str "x86_64-linux", str "/bin/\"sh", [], []⟩

theorem writeDerivation_quotedBuilder :
    Sorted id quotedBuilder ∧
      (∀ s ∈ escapedStrings quotedBuilder ++ plainStrings id quotedBuilder, '\x00' ∉ s) ∧
      derivationBytevector id quotedBuilder ≠ unparseDerivation (toDaemon id quotedBuilder) :=
  ⟨⟨by decide, by decide, by decide, by decide, by decide⟩, by decide, by decide⟩

end Guix.Client
