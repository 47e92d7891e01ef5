import Guix.Lib.Fallible

/-!
# Postconditions of programs with state and exceptions

`wp x post fails s` says what holds after running `x` from `s`: `post` of the result
and the state if `x` returns, `fails` of the exception and the state if it throws.
The state is kept when an exception is thrown.
-/

namespace Hoare

open List MonadExcept

variable {ε σ α β : Type}

def wp (x : EStateM ε σ α) (post : α → σ → Prop) (fails : ε → σ → Prop) (s : σ) : Prop :=
  match x s with
  | .ok a s' => post a s'
  | .error e s' => fails e s'

variable {x : EStateM ε σ α} {a : α}
variable {post : α → σ → Prop} {fails : ε → σ → Prop} {s s' : σ}

theorem wp_ok (holds : wp x post fails s) (ran : x s = .ok a s') : post a s' := by
  simpa only [wp, ran] using holds

theorem wp_error {e : ε} (holds : wp x post fails s) (ran : x s = .error e s') : fails e s' := by
  simpa only [wp, ran] using holds

theorem wp_returns (holds : wp x post (fun _ _ => False) s) : ∃ a s', x s = .ok a s' ∧ post a s' := by
  simp only [wp] at holds
  cases ran : x s with
  | ok a s' => exact ⟨a, s', rfl, by simpa only [ran] using holds⟩
  | error e s' => simp only [ran] at holds

theorem wp_throws (holds : wp x (fun _ _ => False) fails s) : ∃ e s', x s = .error e s' ∧ fails e s' := by
  simp only [wp] at holds
  cases ran : x s with
  | ok a s' => simp only [ran] at holds
  | error e s' => exact ⟨e, s', rfl, by simpa only [ran] using holds⟩

theorem wp_of_ok (ran : x s = .ok a s') (holds : post a s') : wp x post fails s := by
  simpa only [wp, ran] using holds

theorem wp_of_error {e : ε} (ran : x s = .error e s') (holds : fails e s') : wp x post fails s := by
  simpa only [wp, ran] using holds

section Rules

variable (post : α → σ → Prop) (fails : ε → σ → Prop) (s : σ)

@[simp] theorem wp_pure (a : α) : wp (pure a : EStateM ε σ α) post fails s ↔ post a s := Iff.rfl

@[simp] theorem wp_throw (e : ε) : wp (throw e : EStateM ε σ α) post fails s ↔ fails e s := Iff.rfl

@[simp] theorem wp_bind (x : EStateM ε σ β) (f : β → EStateM ε σ α) :
    wp (x >>= f) post fails s ↔ wp x (fun b s' => wp (f b) post fails s') fails s := by
  simp only [wp, bind, EStateM.bind]
  cases x s <;> rfl

@[simp] theorem wp_map (f : β → α) (x : EStateM ε σ β) :
    wp (f <$> x) post fails s ↔ wp x (fun b => post (f b)) fails s := by
  simp only [wp, Functor.map, EStateM.map]
  cases x s <;> rfl

@[simp] theorem wp_get (post : σ → σ → Prop) : wp (get : EStateM ε σ σ) post fails s ↔ post s s := Iff.rfl

@[simp] theorem wp_set (post : PUnit → σ → Prop) (s' : σ) :
    wp (set s' : EStateM ε σ PUnit) post fails s ↔ post ⟨⟩ s' := Iff.rfl

@[simp] theorem wp_modify (post : PUnit → σ → Prop) (f : σ → σ) :
    wp (modify f : EStateM ε σ PUnit) post fails s ↔ post ⟨⟩ (f s) := Iff.rfl

@[simp] theorem wp_ite (c : Prop) [Decidable c] (x y : EStateM ε σ α) :
    wp (if c then x else y) post fails s ↔
      (c → wp x post fails s) ∧ (¬c → wp y post fails s) := by
  split <;> simp_all

@[simp] theorem wp_ofExcept (x : Except ε α) :
    wp (ofExcept x) post fails s ↔
      (∀ a, x = .ok a → post a s) ∧ (∀ e, x = .error e → fails e s) := by
  cases x <;> simp [ofExcept]

theorem wp_ofExcept_ok (a : α) :
    wp (ofExcept (.ok a : Except ε α)) post fails s ↔ post a s := Iff.rfl

@[simp] theorem wp_tryCatch (x : EStateM ε σ α) (handle : ε → EStateM ε σ α) :
    wp (tryCatch x handle) post fails s ↔
      wp x post (fun e s' => wp (handle e) post fails s') s := by
  simp only [wp, tryCatch, tryCatchThe, MonadExceptOf.tryCatch, EStateM.tryCatch]
  cases x s <;> rfl

end Rules

/-! ### Consequence and loops -/

variable {post' : α → σ → Prop} {fails' : ε → σ → Prop}

theorem wp_mono (runs : wp x post fails s) (returns : ∀ a s', post a s' → post' a s')
    (throws : ∀ e s', fails e s' → fails' e s') : wp x post' fails' s := by
  simp only [wp] at runs ⊢
  cases outcome : x s with
  | ok a s' =>
    rw [outcome] at runs
    exact returns a s' runs
  | error e s' =>
    rw [outcome] at runs
    exact throws e s' runs

theorem wp_imp (runs : wp x post fails s) (returns : ∀ a s', post a s' → post' a s') : wp x post' fails s :=
  wp_mono runs returns fun _ _ failed => failed

theorem wp_and (runs : wp x post fails s) (runs' : wp x post' fails' s) :
    wp x (fun a s' => post a s' ∧ post' a s') (fun e s' => fails e s' ∧ fails' e s') s := by
  simp only [wp] at runs runs' ⊢
  cases outcome : x s <;> rw [outcome] at runs runs' <;> exact ⟨runs, runs'⟩

/-- What two rules say of a program, of which one knows how it throws. -/
theorem wp_both {goal : α → σ → Prop} (runs : wp x post fails s) (runs' : wp x post' fails' s)
    (returns : ∀ a s', post a s' → post' a s' → goal a s') : wp x goal fails s :=
  wp_mono (wp_and runs runs') (fun a s' both => returns a s' both.1 both.2) fun _ _ both => both.1

variable {ι : Type}

variable (items : List ι)

variable (body : ι → EStateM ε σ PUnit)

/-- The rule for loops: the invariant is about the items done and those left. -/
theorem wp_forM (inv : List ι → List ι → σ → Prop)
    (fails : ε → σ → Prop) (s : σ) (start : inv [] items s)
    (iteration : ∀ done item todo s, items = done ++ item :: todo → inv done (item :: todo) s →
      wp (body item) (fun _ s' => inv (done ++ [item]) todo s') fails s) :
    wp (forM items body) (fun _ s' => inv items [] s') fails s := by
  suffices general : ∀ done todo s, items = done ++ todo → inv done todo s →
      wp (forM todo body) (fun _ s' => inv items [] s') fails s by
    exact general [] items s rfl start
  intro done todo
  induction todo generalizing done with
  | nil =>
    intro s split holds
    rw [split]
    simpa using holds
  | cons item todo ih =>
    intro s split holds
    rw [forM_cons, wp_bind]
    apply wp_imp (iteration done item todo s split holds)
    intro _ s' after
    exact ih (done ++ [item]) s' (by simp [split]) after

/-- The rule for a loop whose invariant does not mention the items. -/
theorem wp_forM_const (inv : σ → Prop) (fails : ε → σ → Prop) (s : σ) (start : inv s)
    (iteration : ∀ item ∈ items, ∀ s, inv s → wp (body item) (fun _ => inv) fails s) :
    wp (forM items body) (fun _ => inv) fails s := by
  apply wp_forM items body (fun _ _ => inv) fails s start
  intro done item todo s split holds
  exact iteration item (by simp [split]) s holds

/-- What holds before the program holds after it, also when it throws. -/
abbrev Preserves (x : EStateM ε σ α) (inv : σ → Prop) (s : σ) : Prop := wp x (fun _ => inv) (fun _ => inv) s

theorem Preserves.forM {inv : σ → Prop} (start : inv s)
    (iteration : ∀ item ∈ items, ∀ s, inv s → Preserves (body item) inv s) : Preserves (forM items body) inv s :=
  wp_forM_const items body inv (fun _ => inv) s start iteration

/-- The rule for loops that accumulate a value. -/
theorem wp_foldlM (body : α → ι → EStateM ε σ α) (start : α) (inv : List ι → α → σ → Prop)
    (fails : ε → σ → Prop) (s : σ) (before : inv [] start s)
    (iteration : ∀ done item todo acc s, items = done ++ item :: todo → inv done acc s →
      wp (body acc item) (fun acc' s' => inv (done ++ [item]) acc' s') fails s) :
    wp (items.foldlM body start) (fun acc s' => inv items acc s') fails s := by
  suffices general : ∀ done todo acc s, items = done ++ todo → inv done acc s →
      wp (todo.foldlM body acc) (fun acc s' => inv items acc s') fails s by
    exact general [] items start s rfl before
  intro done todo
  induction todo generalizing done with
  | nil =>
    intro acc s split holds
    rw [append_nil] at split
    rw [split]
    exact holds
  | cons item todo ih =>
    intro acc s split holds
    rw [foldlM_cons, wp_bind]
    apply wp_imp (iteration done item todo acc s split holds)
    intro acc' s' after
    exact ih (done ++ [item]) acc' s' (by simp [split]) after

/-- The rule for a loop that collects the results of its steps. What is good about a result
stays so in the states that come later. -/
theorem wp_mapM_forall₂ (body : ι → EStateM ε σ α) (inv : σ → Prop) (later : σ → σ → Prop)
    (good : ι → α → σ → Prop) (fails : ε → σ → Prop) (s : σ) (before : inv s) (refl : ∀ s, later s s)
    (trans : ∀ s s' s'', later s s' → later s' s'' → later s s'')
    (stays : ∀ item a s s', later s s' → good item a s → good item a s')
    (iteration : ∀ item ∈ items, ∀ s, inv s →
      wp (body item) (fun a s' => inv s' ∧ later s s' ∧ good item a s') fails s) :
    wp (items.mapM body) (fun results s' => inv s' ∧ later s s' ∧
      List.Forall₂ (fun item a => good item a s') items results) fails s := by
  induction items generalizing s with
  | nil =>
    exact ⟨before, refl s, .nil⟩
  | cons item items ih =>
    rw [mapM_cons, wp_bind]
    apply wp_imp (iteration item mem_cons_self s before)
    rintro a s' ⟨holds, isLater, isGood⟩
    rw [wp_bind]
    apply wp_imp (ih s' holds (forall_mem_cons.mp iteration).2)
    rintro results s'' ⟨holds', isLater', made⟩
    exact ⟨holds', trans s s' s'' isLater isLater', .cons (stays item a s' s'' isLater' isGood) made⟩

/-- The same rule when the state does not matter for the results. -/
theorem wp_mapM (body : ι → EStateM ε σ α) (inv : σ → Prop) (good : ι → α → Prop)
    (fails : ε → σ → Prop) (s : σ) (before : inv s) (iteration : ∀ item ∈ items, ∀ s, inv s →
      wp (body item) (fun a s' => inv s' ∧ good item a) fails s) :
    wp (items.mapM body) (fun results s' => inv s' ∧ (∀ item ∈ items, ∃ a ∈ results, good item a) ∧
      ∀ a ∈ results, ∃ item ∈ items, good item a) fails s := by
  have collects := wp_mapM_forall₂ items body inv (fun _ _ => True) (fun item a _ => good item a) fails s before
    (fun _ => trivial) (fun _ _ _ _ _ => trivial) (fun _ _ _ _ _ isGood => isGood) fun item member s holds =>
      wp_imp (iteration item member s holds) fun _ _ after => ⟨after.1, trivial, after.2⟩
  apply wp_imp collects
  rintro results s' ⟨holds, _, made⟩
  refine ⟨holds, fun _ => made.exists_of_mem, fun _ => ?_⟩
  exact List.Forall₂.exists_of_mem (R := fun a item => good item a) made.flip

/-! ### A program on a part of the state -/

section Focus

variable {τ ε' : Type}

/-- Run a program of the part `part s` of a larger state. -/
def focus (part : τ → σ) (update : τ → σ → τ) (wrap : ε → ε') (x : EStateM ε σ α) :
    EStateM ε' τ α := fun t =>
  match x (part t) with
  | .ok a s => .ok a (update t s)
  | .error e s => .error (wrap e) (update t s)

@[simp] theorem wp_focus (part : τ → σ) (update : τ → σ → τ) (wrap : ε → ε') (x : EStateM ε σ α)
    (post : α → τ → Prop) (fails : ε' → τ → Prop) (t : τ) :
    wp (focus part update wrap x) post fails t ↔
      wp x (fun a s => post a (update t s)) (fun e s => fails (wrap e) (update t s)) (part t) := by
  simp only [wp, focus]
  cases x (part t) <;> rfl

end Focus

end Hoare
