import Guix.LibStore.Derivations

/-!
# The grammar of derivations

The texts that the parser of derivations reads, the texts that end too early, and that the
parser follows this grammar. A printed derivation is a text of the grammar. The grammar,
like the parser, is parametrised by how a path is read.
-/

namespace Guix.LibStore.Derivations

open Grammar List Derivations OrdMap

/-! ### Strings -/

/-- The text after the opening quote, and the string it stands for. -/
inductive Body : Bytes → Bytes → Prop
  | close : Body [quote] []
  | escaped (c : UInt8) (x s : Bytes) (rest : Body x s) :
      Body (backslash :: c :: x) (unescape (some c) :: s)
  | plain (c : UInt8) (x s : Bytes) (notQuote : c ≠ quote) (notBackslash : c ≠ backslash)
      (rest : Body x s) : Body (c :: x) (c :: s)

/-- A text without the closing quote. -/
inductive Unclosed : Bytes → Prop
  | nil : Unclosed []
  | backslash : Unclosed [backslash]
  | escaped (c : UInt8) (x : Bytes) (rest : Unclosed x) : Unclosed (backslash :: c :: x)
  | plain (c : UInt8) (x : Bytes) (notQuote : c ≠ quote) (notBackslash : c ≠ backslash)
      (rest : Unclosed x) : Unclosed (c :: x)

def stringBody (res : Bytes) : Lang UInt8 Bytes where
  full x a := ∃ s, Body x s ∧ a = res ++ s
  cut := Unclosed

def quoted : Lang UInt8 Bytes := do
  Lang.lit (ascii "\"")
  stringBody []

theorem body_or_unclosed (z : Bytes) : (∃ x y s, z = x ++ y ∧ Body x s) ∨ Unclosed z := by
  match z with
  | [] => exact .inr .nil
  | c :: z =>
    by_cases isQuote : c = quote
    · exact .inl ⟨[quote], z, [], by rw [isQuote]; rfl, .close⟩
    · by_cases isBackslash : c = backslash
      · subst isBackslash
        match z with
        | [] => exact .inr .backslash
        | d :: z =>
          rcases body_or_unclosed z with ⟨x, y, s, rfl, body⟩ | unclosed
          · exact .inl ⟨backslash :: d :: x, y, _, rfl, .escaped d x s body⟩
          · exact .inr (.escaped d z unclosed)
      · rcases body_or_unclosed z with ⟨x, y, s, rfl, body⟩ | unclosed
        · exact .inl ⟨c :: x, y, _, rfl, .plain c x s isQuote isBackslash body⟩
        · exact .inr (.plain c z isQuote isBackslash unclosed)

theorem parseStringLoop_quote (fuel : Nat) (res y : Bytes) (stale : Stream' UInt8) :
    parseStringLoop (fuel + 1) res ⟨quote :: y, stale⟩ = .ok res ⟨y, stale⟩ := by
  simp [parseStringLoop, Grammar.get, bind, EStateM.bind, pure, EStateM.pure]

theorem parseStringLoop_escaped (fuel : Nat) (res : Bytes) (c : UInt8) (y : Bytes)
    (stale : Stream' UInt8) :
    parseStringLoop (fuel + 1) res ⟨backslash :: c :: y, stale⟩ =
      parseStringLoop fuel (res ++ [unescape (some c)]) ⟨y, stale⟩ := by
  simp [parseStringLoop, Grammar.get, bind, EStateM.bind, backslash, quote]

theorem parseStringLoop_plain (fuel : Nat) (res : Bytes) (c : UInt8) (y : Bytes)
    (stale : Stream' UInt8) (notQuote : c ≠ quote) (notBackslash : c ≠ backslash) :
    parseStringLoop (fuel + 1) res ⟨c :: y, stale⟩ =
      parseStringLoop fuel (res ++ [c]) ⟨y, stale⟩ := by
  simp [parseStringLoop, Grammar.get, bind, EStateM.bind, toChar, notQuote, notBackslash]

/-- At the end of the input, with or without a backslash before it, the loop goes on. -/
theorem parseStringLoop_eof (fuel : Nat) (res : Bytes) (stale : Stream' UInt8) :
    Loops (parseStringLoop fuel res ⟨[], stale⟩) := by
  induction fuel generalizing res with
  | zero => exact ⟨_, rfl⟩
  | succ fuel ih =>
    have again : parseStringLoop (fuel + 1) res ⟨[], stale⟩ =
        parseStringLoop fuel (res ++ [toChar none]) ⟨[], stale⟩ := by
      simp [parseStringLoop, Grammar.get, bind, EStateM.bind]
    rw [again]
    exact ih _

theorem parseStringLoop_reads (x s : Bytes) (body : Body x s) (res y : Bytes)
    (stale : Stream' UInt8) (fuel : Nat) (enough : (x ++ y).length < fuel) :
    parseStringLoop fuel res ⟨x ++ y, stale⟩ = .ok (res ++ s) ⟨y, stale⟩ := by
  induction body generalizing res fuel with
  | close =>
    obtain ⟨fuel, rfl⟩ := Nat.exists_eq_succ_of_ne_zero (Nat.ne_zero_of_lt enough)
    rw [append_nil]
    exact parseStringLoop_quote fuel res y stale
  | escaped c x s _ ih =>
    obtain ⟨fuel, rfl⟩ := Nat.exists_eq_succ_of_ne_zero (Nat.ne_zero_of_lt enough)
    simp only [cons_append, length_cons] at enough ⊢
    rw [parseStringLoop_escaped, ih _ fuel (by omega), append_assoc, singleton_append]
  | plain c x s notQuote notBackslash _ ih =>
    obtain ⟨fuel, rfl⟩ := Nat.exists_eq_succ_of_ne_zero (Nat.ne_zero_of_lt enough)
    simp only [cons_append, length_cons] at enough ⊢
    rw [parseStringLoop_plain fuel res c _ stale notQuote notBackslash, ih _ fuel (by omega),
      append_assoc, singleton_append]

/-- A string that is not closed is read on past the end of the input, whatever the fuel. -/
theorem parseStringLoop_loops {z : Bytes} (unclosed : Unclosed z) (res : Bytes)
    (stale : Stream' UInt8) (fuel : Nat) : Loops (parseStringLoop fuel res ⟨z, stale⟩) := by
  induction unclosed generalizing res fuel with
  | nil => exact parseStringLoop_eof fuel res stale
  | backslash =>
    cases fuel with
    | zero => exact ⟨_, rfl⟩
    | succ fuel =>
      have again : parseStringLoop (fuel + 1) res ⟨[backslash], stale⟩ =
          parseStringLoop fuel (res ++ [unescape none]) ⟨[], stale⟩ := by
        simp [parseStringLoop, Grammar.get, bind, EStateM.bind, backslash, quote]
      rw [again]
      exact parseStringLoop_eof fuel _ stale
  | escaped c x _ ih =>
    cases fuel with
    | zero => exact ⟨_, rfl⟩
    | succ fuel =>
      rw [parseStringLoop_escaped]
      exact ih _ fuel
  | plain c x notQuote notBackslash _ ih =>
    cases fuel with
    | zero => exact ⟨_, rfl⟩
    | succ fuel =>
      rw [parseStringLoop_plain fuel res c x stale notQuote notBackslash]
      exact ih _ fuel

theorem sinks_stringBody (res : Bytes) :
    Sinks (fun fuel => parseStringLoop fuel res) (stringBody res) where
  reads := by
    intro x a full y stale fuel enough
    obtain ⟨s, body, rfl⟩ := full
    exact parseStringLoop_reads x s body res y stale fuel enough
  fails := by
    intro z noText notCut
    rcases body_or_unclosed z with ⟨x, y, s, split, body⟩ | unclosed
    · exact absurd ⟨s, body, rfl⟩ (noText x y (res ++ s) split)
    · exact absurd unclosed notCut
  slips z cut after := ⟨after, fun fuel _ => .inl (parseStringLoop_loops cut res after fuel)⟩
  empty := .nil
  traps z cut := ⟨.const 0, fun fuel _ => parseStringLoop_loops cut res _ fuel⟩

theorem consumes_expect (s : Bytes) (nonempty : s ≠ []) :
    Consumes (fun _ => expect s) (Lang.lit s) where
  toFollows := follows_expect (FormatError.expected s) s
  empty := ⟨ nil_prefix, nonempty.symm⟩

theorem opens_quoted : Opens quoted quote := opens_lit (ascii "\"") (by decide) _

theorem sinks_string : Sinks parseString quoted := by
  have parts : SinksAll (fun _ : Unit => parseString) (fun _ => quoted) := by
    apply SinksAll.bind (consumes_expect (ascii "\"") (by decide))
    exact (sinks_stringBody []).all
  exact ⟨⟨parts.follows (), opens_quoted.empty⟩, parts.traps ()⟩

/-- The paths that `parsePath` accepts. -/
def absolute : Lang UInt8 Path := quoted.check isAbsolute

theorem sinks_path : Sinks parsePath absolute := sinks_string.check isAbsolute .badPath

theorem opens_absolute : Opens absolute quote := opens_quoted.check isAbsolute

/-! ### Items -/

def commaList {α β : Type} (item : Lang UInt8 β) (step : α → β → α) (start : α) : Lang UInt8 α :=
  Lang.list 44 93 item step start

def strings (item : Lang UInt8 Bytes) : Lang UInt8 StringSet := commaList item addString .empty

section Languages

variable (path : Lang UInt8 Path)

def output : Lang UInt8 (Bytes × DerivationOutput) := do
  Lang.lit (ascii "(")
  let id ← quoted
  Lang.lit (ascii ",")
  let outPath ← path
  Lang.lit (ascii ",")
  let hashAlgo ← quoted
  Lang.lit (ascii ",")
  let hash ← quoted
  Lang.lit (ascii ")")
  return (id, ⟨outPath, hashAlgo, hash⟩)

def inputDrv : Lang UInt8 (Path × StringSet) := do
  Lang.lit (ascii "(")
  let drvPath ← path
  Lang.lit (ascii ",[")
  let names ← strings quoted
  Lang.lit (ascii ")")
  return (drvPath, names)

def envVar : Lang UInt8 (Bytes × Bytes) := do
  Lang.lit (ascii "(")
  let name ← quoted
  Lang.lit (ascii ",")
  let value ← quoted
  Lang.lit (ascii ")")
  return (name, value)

/-- A derivation up to the bracket that ends the environment variables. -/
def fields : Lang UInt8 Derivation := do
  Lang.lit (ascii "Derive([")
  let outputs ← commaList (output path) assign .empty
  Lang.lit (ascii ",[")
  let inputDrvs ← commaList (inputDrv path) assign .empty
  Lang.lit (ascii ",[")
  let inputSrcs ← strings path
  Lang.lit (ascii ",")
  let platform ← quoted
  Lang.lit (ascii ",")
  let builder ← quoted
  Lang.lit (ascii ",[")
  let args ← commaList quoted (fun args s => args ++ [s]) []
  Lang.lit (ascii ",[")
  let env ← commaList envVar assign .empty
  return ⟨outputs, inputDrvs, inputSrcs, platform, builder, args, env⟩

end Languages

variable {α β : Type} {item : Lang UInt8 β}

section Follow

theorem sinks_commaList {p : Nat → IStream β} {opening : UInt8} (step : α → β → α) (start : α)
    (follows : Follows p item) (opens : Opens item opening) (hangs : Hangs fun _ : Unit => p)
    (notSeparator : opening ≠ 44) (notClose : opening ≠ 93) :
    Sinks (fun fuel => parseList p step fuel start) (commaList item step start) :=
  sinks_list follows opens (by decide) notSeparator notClose hangs start

theorem sinks_strings {item : Lang UInt8 Bytes} {p : Nat → IStream Bytes} (sinks : Sinks p item)
    (opens : Opens item quote) : Sinks (parseStrings p) (strings item) :=
  sinks_commaList addString .empty sinks.toFollows opens (sinks.traps.hangs sinks.empty)
    (by decide) (by decide)

theorem sinks_items {p : Nat → IStream β} (step : α → β → α) (start : α) (follows : Follows p item)
    (opens : Opens item 40) (hangs : Hangs fun _ : Unit => p) :
    Sinks (fun fuel => parseList p step fuel start) (commaList item step start) :=
  sinks_commaList step start follows opens hangs (by decide) (by decide)

/-- At the end of the input an item that starts with a string or a path may run forever. -/
theorem hangs_item {lang : Lang UInt8 α} {first : Nat → IStream α} (rest : Nat → α → IStream β)
    (sinks : Sinks first lang) :
    Hangs fun (_ : Unit) fuel => expect (ascii "(") >>= fun _ => first fuel >>= rest fuel := by
  have head := consumes_expect (ascii "(") (by decide)
  apply (head.drains head.empty).bind_hangs
  exact (sinks.traps.hangs sinks.empty).bind

variable {path : Lang UInt8 Path} {p : Nat → IStream Path} (sinksPath : Sinks p path)
  (opensPath : Opens path quote)

include sinksPath

theorem follows_output : FollowsAll (fun _ : Unit => parseOutput p) (fun _ => output path) := by
  apply FollowsAll.bind (consumes_expect _ (by decide))
  apply FollowsAll.bind sinks_string.toConsumes
  apply FollowsAll.bind (consumes_expect _ (by decide))
  apply FollowsAll.bind sinksPath.toConsumes
  apply FollowsAll.bind (consumes_expect _ (by decide))
  apply FollowsAll.bind sinks_string.toConsumes
  apply FollowsAll.bind (consumes_expect _ (by decide))
  apply FollowsAll.bind sinks_string.toConsumes
  apply FollowsAll.bind (consumes_expect _ (by decide))
  apply FollowsAll.pure

theorem follows_inputDrv :
    FollowsAll (fun _ : Unit => parseInputDrv p) (fun _ => inputDrv path) := by
  apply FollowsAll.bind (consumes_expect _ (by decide))
  apply FollowsAll.bind sinksPath.toConsumes
  apply FollowsAll.bind (consumes_expect _ (by decide))
  apply FollowsAll.bind (sinks_strings sinks_string opens_quoted).toConsumes
  apply FollowsAll.bind (consumes_expect _ (by decide))
  apply FollowsAll.pure

omit sinksPath in
theorem follows_envVar : FollowsAll (fun _ : Unit => parseEnvVar) (fun _ => envVar) := by
  apply FollowsAll.bind (consumes_expect _ (by decide))
  apply FollowsAll.bind sinks_string.toConsumes
  apply FollowsAll.bind (consumes_expect _ (by decide))
  apply FollowsAll.bind sinks_string.toConsumes
  apply FollowsAll.bind (consumes_expect _ (by decide))
  apply FollowsAll.pure

theorem sinks_outputs :
    Sinks (fun fuel => parseList (parseOutput p) assign fuel .empty)
      (commaList (output path) assign .empty) :=
  sinks_items assign .empty ((follows_output sinksPath).follows ()) (opens_lit (ascii "(") (by decide) _)
    (hangs_item _ sinks_string)

theorem sinks_inputDrvs :
    Sinks (fun fuel => parseList (parseInputDrv p) assign fuel .empty)
      (commaList (inputDrv path) assign .empty) :=
  sinks_items assign .empty ((follows_inputDrv sinksPath).follows ()) (opens_lit (ascii "(") (by decide) _)
    (hangs_item _ sinksPath)

omit sinksPath in
theorem sinks_env :
    Sinks (fun fuel => parseList parseEnvVar assign fuel .empty)
      (commaList envVar assign .empty) :=
  sinks_items assign .empty (follows_envVar.follows ()) (opens_lit (ascii "(") (by decide) _)
    (hangs_item _ sinks_string)

omit sinksPath in
theorem sinks_args :
    Sinks (fun fuel => parseList parseString (fun args s => args ++ [s]) fuel [])
      (commaList quoted (fun args s => args ++ [s]) []) :=
  sinks_commaList _ [] sinks_string.toFollows opens_quoted
    (sinks_string.traps.hangs sinks_string.empty) (by decide) (by decide)

include opensPath in
/-- The parser follows the grammar, and in every text that is cut it may run forever. -/
theorem sinks_fields : SinksAll (fun _ : Unit => parseFields p) (fun _ => fields path) := by
  apply SinksAll.bind (consumes_expect _ (by decide))
  apply SinksAll.bind (sinks_outputs sinksPath).toConsumes
  apply SinksAll.bind (consumes_expect _ (by decide))
  apply SinksAll.bind (sinks_inputDrvs sinksPath).toConsumes
  apply SinksAll.bind (consumes_expect _ (by decide))
  apply SinksAll.bind (sinks_strings sinksPath opensPath).toConsumes
  apply SinksAll.bind (consumes_expect _ (by decide))
  apply SinksAll.bind sinks_string.toConsumes
  apply SinksAll.bind (consumes_expect _ (by decide))
  apply SinksAll.bind sinks_string.toConsumes
  apply SinksAll.bind (consumes_expect _ (by decide))
  apply SinksAll.bind sinks_args.toConsumes
  apply SinksAll.bind (consumes_expect _ (by decide))
  apply SinksAll.last sinks_env

end Follow

/-! ### Printed texts -/

theorem body_escape (c : UInt8) {x s : Bytes} (rest : Body x s) : Body (escape c ++ x) (c :: s) := by
  unfold escape
  split
  · next special =>
    -- the unescaped characters n, r and t are not among these two
    have same : unescape (some c) = c := by rcases special with rfl | rfl <;> decide
    have escaped := Body.escaped c x s rest
    rwa [same] at escaped
  · next notSpecial =>
    obtain ⟨notQuote, notBackslash⟩ := not_or.mp notSpecial
    split
    · next isNewline => exact isNewline ▸ Body.escaped 110 x s rest
    · split
      · next isReturn => exact isReturn ▸ Body.escaped 114 x s rest
      · split
        · next isTab => exact isTab ▸ Body.escaped 116 x s rest
        · exact Body.plain c x s notQuote notBackslash rest

theorem body_flatMap_escape (s : Bytes) : Body (s.flatMap escape ++ [quote]) s := by
  induction s with
  | nil => exact .close
  | cons c s ih =>
    rw [flatMap_cons, append_assoc]
    exact body_escape c ih

theorem quoted_printString {s : Bytes} (noNul : 0 ∉ s) : quoted.full (printString s) s := by
  refine ⟨ascii "\"", s.flatMap escape ++ [quote], ⟨⟩, ?_, rfl, s, body_flatMap_escape s, rfl⟩
  rw [printString, cstr_eq_self noNul, append_assoc]
  rfl

theorem commaList_commas (step : α → β → α) (acc : α) {print : β → Bytes} {items : List β}
    (printed : ∀ b ∈ items, item.full (print b) b) (first : Bool) :
    (commaList item step acc).full (commas first (items.map print) ++ ascii "]")
      (items.foldl step acc) := by
  induction items generalizing acc first with
  | nil => exact .close acc
  | cons b items ih =>
    have rest := ih (step acc b) (forall_mem_cons.mp printed).2 false
    have separated : (if first then [] else ascii ",") = [] ∨
        (if first then [] else ascii ",") = [44] := by
      cases first
      · exact .inr rfl
      · exact .inl rfl
    rw [map_cons, commas, append_assoc, append_assoc]
    exact .item acc b _ (print b) _ _ separated (printed b mem_cons_self) rest

theorem foldl_addString (set : StringSet) : set.keys.foldl addString .empty = set := by
  have entries := ofList_entries set
  rw [OrdMap.keys, foldl_map]
  exact entries

theorem strings_printStrings {item : Lang UInt8 Bytes} {set : StringSet}
    (printed : ∀ s ∈ set.keys, item.full (printString s) s) :
    (strings item).full (commas true (set.keys.map printString) ++ ascii "]") set := by
  have full := commaList_commas addString .empty printed true
  rwa [foldl_addString] at full

theorem commaList_entries {item : Lang UInt8 (Bytes × α)} {map : OrdMap Bytes α} {print : Bytes × α → Bytes}
    (printed : ∀ entry ∈ map.entries, item.full (print entry) entry) :
    (commaList item assign .empty).full (commas true (map.entries.map print) ++ ascii "]") map := by
  have full := commaList_commas assign .empty printed true
  have entries : map.entries.foldl assign .empty = map := ofList_entries map
  rwa [entries] at full

theorem args_printStrings {args : List Bytes} (noNul : ∀ s ∈ args, 0 ∉ s) :
    (commaList quoted (fun args s => args ++ [s]) []).full
      (commas true (args.map printString) ++ ascii "]") args := by
  have full := commaList_commas (fun (args : List Bytes) s => args ++ [s]) []
    (fun s inArgs => quoted_printString (noNul s inArgs)) true
  rw [foldl_append_eq_append, ← flatMap_def, flatMap_singleton'] at full
  exact full

/-- Every string of a derivation but the paths that `parsePath` reads. -/
def Derivation.strings (drv : Derivation) : List Bytes :=
  drv.outputs.entries.flatMap (fun entry => [entry.1, entry.2.hashAlgo, entry.2.hash])
    ++ drv.inputDrvs.entries.flatMap (fun entry => entry.2.keys)
    ++ [drv.platform, drv.builder] ++ drv.args
    ++ drv.env.entries.flatMap (fun entry => [entry.1, entry.2])

def Derivation.paths (drv : Derivation) : List Path :=
  drv.outputs.entries.map (fun entry => entry.2.path) ++ drv.inputDrvs.keys ++ drv.inputSrcs.keys

section Printed

variable {path : Lang UInt8 Path} (drv : Derivation) (noNul : ∀ s ∈ drv.strings, 0 ∉ s)
  (paths : ∀ p ∈ drv.paths, path.full (printString p) p)

include noNul

include paths in
theorem output_printOutput (entry : Bytes × DerivationOutput) (isOutput : entry ∈ drv.outputs.entries) :
    (output path).full (printOutput entry) entry := by
  have text : ∀ s ∈ [entry.1, entry.2.hashAlgo, entry.2.hash], quoted.full (printString s) s := by
    intro s inEntry
    apply quoted_printString
    apply noNul
    simp only [Derivation.strings, mem_append, mem_flatMap]
    exact .inl (.inl (.inl (.inl ⟨entry, isOutput, inEntry⟩)))
  have outPath : path.full (printString entry.2.path) entry.2.path := by
    apply paths
    simp only [Derivation.paths, mem_append, mem_map]
    exact .inl (.inl ⟨entry, isOutput, rfl⟩)
  simp only [printOutput, append_assoc]
  rw [← append_nil (ascii ")")]
  apply Lang.full_lit
  apply Lang.full_bind (text entry.1 (by simp))
  apply Lang.full_lit
  apply Lang.full_bind outPath
  apply Lang.full_lit
  apply Lang.full_bind (text entry.2.hashAlgo (by simp))
  apply Lang.full_lit
  apply Lang.full_bind (text entry.2.hash (by simp))
  apply Lang.full_lit
  apply Lang.full_pure

include paths in
theorem inputDrv_printInputDrv (entry : Path × StringSet) (isInput : entry ∈ drv.inputDrvs.entries) :
    (inputDrv path).full (printInputDrv entry) entry := by
  have names : (strings quoted).full
      (commas true (entry.2.keys.map printString) ++ ascii "]") entry.2 := by
    apply strings_printStrings
    intro s inEntry
    apply quoted_printString
    apply noNul
    simp only [Derivation.strings, mem_append, mem_flatMap]
    exact .inl (.inl (.inl (.inr ⟨entry, isInput, inEntry⟩)))
  have drvPath : path.full (printString entry.1) entry.1 := by
    apply paths
    simp only [Derivation.paths, OrdMap.keys, mem_append, mem_map]
    exact .inl (.inr ⟨entry, isInput, rfl⟩)
  have split : printInputDrv entry = ascii "(" ++ (printString entry.1 ++ (ascii ",[" ++
      ((commas true (entry.2.keys.map printString) ++ ascii "]") ++ (ascii ")" ++ [])))) := by
    have open_ : ascii ",[" = ascii "," ++ ascii "[" := by decide
    simp only [printInputDrv, printStrings, open_, append_assoc, append_nil]
  rw [split]
  apply Lang.full_lit
  apply Lang.full_bind drvPath
  apply Lang.full_lit
  apply Lang.full_bind names
  apply Lang.full_lit
  apply Lang.full_pure

theorem envVar_printEnvVar (entry : Bytes × Bytes) (isVar : entry ∈ drv.env.entries) :
    envVar.full (printEnvVar entry) entry := by
  have text : ∀ s ∈ [entry.1, entry.2], quoted.full (printString s) s := by
    intro s inEntry
    apply quoted_printString
    apply noNul
    simp only [Derivation.strings, mem_append, mem_flatMap]
    exact .inr ⟨entry, isVar, inEntry⟩
  simp only [printEnvVar, append_assoc]
  apply Lang.full_lit
  apply Lang.full_bind (text entry.1 (by simp))
  apply Lang.full_lit
  apply Lang.full_bind (text entry.2 (by simp))
  apply Lang.full_lit
  apply Lang.full_pure

omit noNul in
/-- The printed text cut where the grammar cuts it. -/
theorem unparseDerivation_split : unparseDerivation drv =
    (ascii "Derive([" ++ ((commas true (drv.outputs.entries.map printOutput) ++ ascii "]")
      ++ (ascii ",[" ++ ((commas true (drv.inputDrvs.entries.map printInputDrv) ++ ascii "]")
      ++ (ascii ",[" ++ ((commas true (drv.inputSrcs.keys.map printString) ++ ascii "]")
      ++ (ascii "," ++ (printString drv.platform ++ (ascii "," ++ (printString drv.builder
      ++ (ascii ",[" ++ ((commas true (drv.args.map printString) ++ ascii "]")
      ++ (ascii ",[" ++ ((commas true (drv.env.entries.map printEnvVar) ++ ascii "]")
      ++ [])))))))))))))) ++ ascii ")" := by
  have middle : ascii "],[" = ascii "]" ++ ascii ",[" := by decide
  have comma : ascii "]," = ascii "]" ++ ascii "," := by decide
  have open_ : ascii ",[" = ascii "," ++ ascii "[" := by decide
  have last : ascii "])" = ascii "]" ++ ascii ")" := by decide
  simp only [unparseDerivation, printStrings, middle, comma, open_, last, append_assoc, append_nil]

include paths in
theorem fields_unparseDerivation :
    ∃ text, unparseDerivation drv = text ++ ascii ")" ∧ (fields path).full text drv := by
  have sources : ∀ p ∈ drv.inputSrcs.keys, path.full (printString p) p := by
    intro p isSource
    apply paths
    exact mem_append_right _ isSource
  have text : ∀ s ∈ drv.platform :: drv.builder :: drv.args, 0 ∉ s := by
    intro s inRest
    apply noNul
    simp only [Derivation.strings, mem_append, mem_cons] at inRest ⊢
    tauto
  refine ⟨_, unparseDerivation_split drv, ?_⟩
  apply Lang.full_lit
  apply Lang.full_bind (commaList_entries (output_printOutput drv noNul paths))
  apply Lang.full_lit
  apply Lang.full_bind (commaList_entries (inputDrv_printInputDrv drv noNul paths))
  apply Lang.full_lit
  apply Lang.full_bind (strings_printStrings sources)
  apply Lang.full_lit
  apply Lang.full_bind (quoted_printString (text _ (by simp)))
  apply Lang.full_lit
  apply Lang.full_bind (quoted_printString (text _ (by simp)))
  apply Lang.full_lit
  apply Lang.full_bind (args_printStrings fun s inArgs => text s (by simp [inArgs]))
  apply Lang.full_lit
  apply Lang.full_bind (commaList_entries (envVar_printEnvVar drv noNul))
  apply Lang.full_pure

end Printed

end Guix.LibStore.Derivations
