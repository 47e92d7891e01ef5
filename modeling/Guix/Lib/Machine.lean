import Mathlib.Tactic.Common

/-!
# Runs of a machine

A machine is an executable step function. A move that is not enabled gives
`none`; an enabled one gives the next state and the event an observer sees.
-/

namespace Machine

open List

variable {σ μ ε : Type}

def run (step : σ → μ → Option (σ × ε)) (s : σ) : List μ → Option (σ × List ε)
  | [] => some (s, [])
  | m :: ms =>
    match step s m with
    | none => none
    | some (next, e) =>
      match run step next ms with
      | none => none
      | some (last, es) => some (last, e :: es)

theorem run_cons {step : σ → μ → Option (σ × ε)} {s last : σ} {m : μ} {ms : List μ}
    {events : List ε} (ran : run step s (m :: ms) = some (last, events)) :
    ∃ next e es, step s m = some (next, e) ∧ run step next ms = some (last, es) ∧
      events = e :: es := by
  simp only [run] at ran
  split at ran
  next => cases ran
  next next e stepped =>
    split at ran
    next => cases ran
    next last' es rest =>
      cases ran
      exact ⟨next, e, es, stepped, rest, rfl⟩

variable (step : σ → μ → Option (σ × ε)) (inv : σ → Prop) (admitted : ε → Prop) {s last : σ} {ms : List μ}
  {events : List ε}

/-- What every step with an admitted event preserves, a run with admitted events preserves. -/
theorem run_preserves
    (preserved : ∀ s m next e, inv s → step s m = some (next, e) → admitted e → inv next) (start : inv s)
    (ran : run step s ms = some (last, events)) (all : ∀ e ∈ events, admitted e) : inv last := by
  induction ms generalizing s events with
  | nil =>
    cases ran
    exact start
  | cons m ms ih =>
    obtain ⟨next, e, es, stepped, rest, rfl⟩ := run_cons ran
    have first := preserved s m next e start stepped (all e mem_cons_self)
    exact ih first rest (forall_mem_cons.mp all).2

/-- If every step with an admitted event does to what a state stands for what the event
says, so does a run; and what is shown of every such event holds of all events of the run. -/
theorem run_refines {α : Type}
    (abstraction : σ → α) (act : α → ε → α) (good : ε → Prop)
    (each : ∀ s m next e, inv s → step s m = some (next, e) → admitted e →
      inv next ∧ abstraction next = act (abstraction s) e ∧ good e) (start : inv s)
    (ran : run step s ms = some (last, events)) (all : ∀ e ∈ events, admitted e) :
    inv last ∧ abstraction last = events.foldl act (abstraction s) ∧ ∀ e ∈ events, good e := by
  induction ms generalizing s events with
  | nil =>
    cases ran
    exact ⟨start, rfl, fun e member => absurd member not_mem_nil⟩
  | cons m ms ih =>
    obtain ⟨next, e, es, stepped, rest, rfl⟩ := run_cons ran
    obtain ⟨first, acted, goodFirst⟩ := each s m next e start stepped (all e mem_cons_self)
    obtain ⟨holds, refined, goodRest⟩ := ih first rest (forall_mem_cons.mp all).2
    refine ⟨holds, ?_, ?_⟩
    · rw [refined, acted, foldl_cons]
    · exact forall_mem_cons.mpr ⟨goodFirst, goodRest⟩

/-- Each costly step is paid for by the potential of the state, which only some steps raise. -/
theorem run_potential
    (potential : σ → Nat) (cost income : ε → Bool)
    (each : ∀ s m next e, inv s → step s m = some (next, e) → admitted e →
      inv next ∧ potential next + (if cost e then 1 else 0) ≤ potential s + if income e then 1 else 0)
    (start : inv s) (ran : run step s ms = some (last, events)) (all : ∀ e ∈ events, admitted e) :
    potential last + events.countP cost ≤ potential s + events.countP income := by
  induction ms generalizing s events with
  | nil =>
    cases ran
    exact Nat.le_refl _
  | cons m ms ih =>
    obtain ⟨next, e, es, stepped, rest, rfl⟩ := run_cons ran
    obtain ⟨first, paid⟩ := each s m next e start stepped (all e mem_cons_self)
    have later := ih first rest (forall_mem_cons.mp all).2
    rw [countP_cons, countP_cons]
    omega

theorem run_append {middle : σ} {ms' : List μ} {es es' : List ε}
    (first : run step s ms = some (middle, es)) (second : run step middle ms' = some (last, es')) :
    run step s (ms ++ ms') = some (last, es ++ es') := by
  induction ms generalizing s es with
  | nil =>
    cases first
    exact second
  | cons m ms ih =>
    obtain ⟨next, e, es, stepped, rest, rfl⟩ := run_cons first
    simp only [cons_append, run, stepped, ih rest]

/-- The step that an observer has seen after others and before others. -/
theorem run_split {before after : List ε} {e : ε} (ran : run step s ms = some (last, before ++ e :: after)) :
    ∃ ms₁ m ms₂ middle next, run step s ms₁ = some (middle, before) ∧
      step middle m = some (next, e) ∧ run step next ms₂ = some (last, after) := by
  induction before generalizing s ms with
  | nil =>
    cases ms with
    | nil => cases ran
    | cons m ms =>
      obtain ⟨next, e', es, stepped, rest, same⟩ := run_cons ran
      cases same
      exact ⟨[], m, ms, s, next, rfl, stepped, rest⟩
  | cons first before ih =>
    cases ms with
    | nil => cases ran
    | cons m ms =>
      obtain ⟨next, e', es, stepped, rest, same⟩ := run_cons ran
      cases same
      obtain ⟨ms₁, m', ms₂, middle, next', front, isStep, back⟩ := ih rest
      refine ⟨m :: ms₁, m', ms₂, middle, next', ?_, isStep, back⟩
      simp only [run, stepped, front]

theorem run_invariant (preserved : ∀ s m next e, inv s → step s m = some (next, e) → inv next)
    (start : inv s) (ran : run step s ms = some (last, events)) : inv last :=
  run_preserves step inv (fun _ => True)
    (fun s m next e holds stepped _ => preserved s m next e holds stepped) start ran (fun _ _ => trivial)

end Machine
