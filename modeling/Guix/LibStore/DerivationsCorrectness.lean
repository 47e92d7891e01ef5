import Guix.LibStore.DerivationsGrammar

/-!
# Reading derivations

The parser gives back a printed derivation, and it ends on exactly the texts that are not
cut before the bracket that ends the environment variables.
-/

namespace Guix.LibStore.Derivations

open Grammar Keeps

theorem absolute_printString {p : Path} (noNul : 0 ∉ p) (isPath : isAbsolute p) :
    absolute.full (printString p) p :=
  ⟨quoted_printString noNul, isPath⟩

theorem parseFields_unparseDerivation {path : Lang UInt8 Path} {p : Nat → IStream Path}
    (sinks : Sinks p path) (opens : Opens path quote) (drv : Derivation)
    (noNul : ∀ s ∈ drv.strings, 0 ∉ s) (paths : ∀ p ∈ drv.paths, path.full (printString p) p)
    (stale : Stream' UInt8) (fuel : Nat) (enough : (unparseDerivation drv).length < fuel) :
    parseFields p fuel ⟨unparseDerivation drv, stale⟩ = .ok drv ⟨ascii ")", stale⟩ := by
  obtain ⟨text, split, full⟩ := fields_unparseDerivation drv noNul paths
  rw [split] at enough ⊢
  exact ((sinks_fields sinks opens).follows ()).reads text drv full (ascii ")") stale fuel enough

/-- No string of the derivation has a NUL byte. -/
def Derivation.Text (drv : Derivation) : Prop := ∀ s ∈ drv.strings ++ drv.paths, 0 ∉ s

theorem parseDerivation_printed (drv : Derivation) (text : drv.Text)
    (absolutePaths : ∀ p ∈ drv.paths, isAbsolute p) (stale : Stream' UInt8) (fuel : Nat)
    (enough : (unparseDerivation drv).length < fuel) :
    parseDerivation fuel ⟨unparseDerivation drv, stale⟩ = .ok drv ⟨[], stale⟩ := by
  have ran := parseFields_unparseDerivation sinks_path opens_absolute drv
    (fun s inStrings => text s (List.mem_append_left _ inStrings))
    (fun p inPaths => absolute_printString (text p (List.mem_append_right _ inPaths))
      (absolutePaths p inPaths)) stale fuel enough
  have close : expect (ascii ")") ⟨ascii ")", stale⟩ = .ok ⟨⟩ ⟨[], stale⟩ :=
    (consumes_expect (ascii ")") (by decide)).reads (ascii ")") ⟨⟩ rfl [] stale 2 (by decide)
  rw [parseDerivation, bind_ok ran, bind_ok close]
  rfl

theorem steady_parseStringLoop (res : Bytes) : Steady fun fuel => parseStringLoop fuel res := by
  intro fuel
  induction fuel generalizing res with
  | zero => exact keeps_throw _ _
  | succ fuel ih =>
    apply bind (refl _)
    intro c
    apply Keeps.ite
    · exact refl _
    · apply Keeps.ite
      · exact (refl _).bind fun escaped => ih _
      · exact ih _

theorem steady_parseString : Steady parseString :=
  (steady_const _).bind fun _ => steady_parseStringLoop []

theorem steady_parsePath : Steady parsePath :=
  steady_parseString.bind fun _ => steady_const _

theorem steady_parseOutput : Steady (parseOutput parsePath) := by
  apply (steady_const _).bind fun _ => ?_
  apply steady_parseString.bind fun _ => ?_
  apply (steady_const _).bind fun _ => ?_
  apply steady_parsePath.bind fun _ => ?_
  apply (steady_const _).bind fun _ => ?_
  apply steady_parseString.bind fun _ => ?_
  apply (steady_const _).bind fun _ => ?_
  exact steady_parseString.bind fun _ => steady_const _

theorem steady_parseInputDrv : Steady (parseInputDrv parsePath) := by
  apply (steady_const _).bind fun _ => ?_
  apply steady_parsePath.bind fun _ => ?_
  apply (steady_const _).bind fun _ => ?_
  exact (steady_parseList steady_parseString _).bind fun _ => steady_const _

theorem steady_parseEnvVar : Steady parseEnvVar := by
  apply (steady_const _).bind fun _ => ?_
  apply steady_parseString.bind fun _ => ?_
  apply (steady_const _).bind fun _ => ?_
  exact steady_parseString.bind fun _ => steady_const _

theorem steady_parseDerivation : Steady parseDerivation := by
  apply Steady.bind
  · apply (steady_const _).bind fun _ => ?_
    apply (steady_parseList steady_parseOutput _).bind fun _ => ?_
    apply (steady_const _).bind fun _ => ?_
    apply (steady_parseList steady_parseInputDrv _).bind fun _ => ?_
    apply (steady_const _).bind fun _ => ?_
    apply (steady_parseList steady_parsePath _).bind fun _ => ?_
    apply (steady_const _).bind fun _ => ?_
    apply steady_parseString.bind fun _ => ?_
    apply (steady_const _).bind fun _ => ?_
    apply steady_parseString.bind fun _ => ?_
    apply (steady_const _).bind fun _ => ?_
    apply (steady_parseList steady_parseString _).bind fun _ => ?_
    apply (steady_const _).bind fun _ => ?_
    exact (steady_parseList steady_parseEnvVar _).bind fun _ => steady_const _
  · exact fun _ => steady_const _

/-- Whatever the fuel, nothing else is read from a printed derivation. -/
theorem parseDerivation_printed_unique (drv drv' : Derivation) (text : drv.Text)
    (absolutePaths : ∀ p ∈ drv.paths, isAbsolute p) (stale : Stream' UInt8) (fuel : Nat)
    (next : Grammar.Input UInt8)
    (ran : parseDerivation fuel ⟨unparseDerivation drv, stale⟩ = .ok drv' next) : drv' = drv := by
  have long := steady_parseDerivation.le (Nat.le_max_left fuel ((unparseDerivation drv).length + 1))
    _ _ _ ran
  rw [parseDerivation_printed drv text absolutePaths stale _
    (Nat.lt_of_lt_of_le (Nat.lt_succ_self _) (Nat.le_max_right _ _))] at long
  cases long
  rfl

/-- The daemon's parser gives back what its printer printed. -/
theorem parseDerivation_unparseDerivation (drv : Derivation) (text : drv.Text)
    (absolutePaths : ∀ p ∈ drv.paths, isAbsolute p) (stale : Stream' UInt8) (fuel : Nat)
    (enough : (unparseDerivation drv).length < fuel) :
    parseDerivation fuel ⟨unparseDerivation drv, stale⟩ = .ok drv ⟨[], stale⟩ :=
  parseDerivation_printed drv text absolutePaths stale fuel enough

/-- A derivation with every kind of entry and with every delimiter in a string. -/
def delimiters : Derivation where
  outputs := .ofList [(ascii "out", ⟨ascii "/gnu/store/out", [], []⟩)]
  inputDrvs := .ofList [(ascii "/gnu/store/a.drv", .ofList [(ascii "lib", ⟨⟩), (ascii "out", ⟨⟩)])]
  inputSrcs := .ofList [(ascii "/gnu/store/src", ⟨⟩)]
  platform := ascii "x86_64-linux"
  builder := ascii "/bin/\"sh\""
  args := [ascii "-c", ascii "],\\n\n\t\r"]
  env := .ofList [(ascii "out", ascii "/gnu/store/out"), (ascii "x,", ascii "[(\")]")]

theorem parseDerivation_unparseDerivation_delimiters :
    parseDerivation 200 ⟨unparseDerivation delimiters, .const 0⟩ =
      .ok delimiters ⟨[], .const 0⟩ :=
  parseDerivation_unparseDerivation delimiters (by unfold Derivation.Text; decide +kernel)
    (by decide +kernel) (.const 0) 200 (by decide +kernel)

/-! ### Termination -/

/-- However much fuel there is beyond some amount, the parser does not run out of it. -/
def Terminates (s : Bytes) (stale : Stream' UInt8) : Prop :=
  ∃ enough, ∀ fuel, enough ≤ fuel → ¬ Loops (parseDerivation fuel ⟨s, stale⟩)

theorem parseDerivation_halts_of_full {s rest : Bytes} {drv : Derivation}
    (full : (fields absolute).full s drv) (stale : Stream' UInt8) {fuel : Nat}
    (enough : (s ++ rest).length < fuel) : ¬ Loops (parseDerivation fuel ⟨s ++ rest, stale⟩) := by
  have ran := ((sinks_fields sinks_path opens_absolute).follows ()).reads s drv full rest stale fuel
    enough
  rw [parseDerivation, bind_ok ran]
  exact expect_halts (FormatError.expected (ascii ")")) (ascii ")") drv _

/-- `parseDerivation` ends whatever is in its buffers if and only if the text is not cut
before the bracket that ends the environment variables. -/
theorem parseDerivation_terminates_iff (s : Bytes) :
    (∀ stale, Terminates s stale) ↔ ¬ (fields absolute).cut s := by
  have parser := sinks_fields sinks_path opens_absolute
  constructor
  · intro terminates cut
    obtain ⟨stale, loops⟩ := parser.traps () s cut
    obtain ⟨enough, ends⟩ := terminates stale
    -- the fuel that is enough to end and more than the text is long
    have looping := loops (enough + s.length + 1) (by omega)
    exact ends (enough + s.length + 1) (by omega) looping.bind
  · intro notCut stale
    refine ⟨s.length + 1, fun fuel enough => ?_⟩
    by_cases text : ∃ x y drv, s = x ++ y ∧ (fields absolute).full x drv
    · obtain ⟨x, y, drv, rfl, full⟩ := text
      exact parseDerivation_halts_of_full full stale enough
    · have noText : ∀ x y drv, s = x ++ y → ¬ (fields absolute).full x drv :=
        fun x y drv split full => text ⟨x, y, drv, split, full⟩
      obtain ⟨e, str, ran⟩ := (parser.follows ()).fails s noText notCut stale fuel enough
      rintro ⟨str', looping⟩
      rw [parseDerivation, bind_error ran] at looping
      cases looping

/-- A derivation that is cut inside its first string. -/
def cutInString : Bytes := ascii "Derive([(\""

/-- The loop of `parseString` goes on at the end of the file, whatever is in the buffers. -/
theorem parseDerivation_runs_on :
    cutInString <+: unparseDerivation delimiters ∧ ∀ stale, ¬ Terminates cutInString stale := by
  refine ⟨by decide +kernel, fun stale terminates => ?_⟩
  obtain ⟨enough, ends⟩ := terminates
  apply ends (enough + 1) (Nat.le_succ enough)
  apply Loops.bind
  have derive : expect (ascii "Derive([") ⟨cutInString, stale⟩ = .ok ⟨⟩ ⟨ascii "(\"", stale⟩ :=
    (consumes_expect (ascii "Derive([") (by decide)).reads _ ⟨⟩ rfl _ stale 20 (by decide)
  have open_ : expect (ascii "(") ⟨ascii "(\"", stale⟩ = .ok ⟨⟩ ⟨ascii "\"", stale⟩ :=
    (consumes_expect (ascii "(") (by decide)).reads _ ⟨⟩ rfl _ stale 20 (by decide)
  have name : expect (ascii "\"") ⟨ascii "\"", stale⟩ = .ok ⟨⟩ ⟨[], stale⟩ :=
    (consumes_expect (ascii "\"") (by decide)).reads _ ⟨⟩ rfl [] stale 20 (by decide)
  rw [parseFields, bind_ok derive]
  apply Loops.bind
  have more : (endOfList 44 93 : IStream Bool) ⟨ascii "(\"", stale⟩ =
      .ok false ⟨ascii "(\"", stale⟩ := endOfList_other _ stale (by decide) (by decide)
  rw [parseList, parseList_more enough _ more]
  apply Loops.bind
  rw [parseOutput, bind_ok open_]
  apply Loops.bind
  rw [parseString, bind_ok name]
  exact parseStringLoop_eof _ _ stale

end Guix.LibStore.Derivations
