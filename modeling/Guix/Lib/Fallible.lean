import Mathlib.Data.List.Forall2

/-!
# Programs that return or fail

What the steps of a program in `Except` have done when it returns.
-/

theorem List.Forall₂.exists_of_mem {α β : Type} {R : α → β → Prop} {xs : List α} {ys : List β}
    (made : Forall₂ R xs ys) {x : α} (member : x ∈ xs) : ∃ y ∈ ys, R x y := by
  induction made with
  | nil => cases member
  | cons first _ ih =>
    rcases mem_cons.mp member with rfl | inRest
    · exact ⟨_, mem_cons_self, first⟩
    · obtain ⟨y, inResults, related⟩ := ih inRest
      exact ⟨y, mem_cons_of_mem _ inResults, related⟩

namespace Fallible

open List

variable {ε α β : Type}
variable {f : α → Except ε β}

theorem bind_ok {x : Except ε α} {b : β} : (x >>= f) = .ok b ↔ ∃ a, x = .ok a ∧ f a = .ok b := by
  cases x with
  | error e => simp [bind, Except.bind]
  | ok a => simp [bind, Except.bind]

theorem map_ok {x : Except ε α} {f : α → β} {b : β} : x.map f = .ok b ↔ ∃ a, x = .ok a ∧ f a = b := by
  cases x <;> simp [Except.map]

theorem mapError_ok {ε' : Type} {x : Except ε α} {f : ε → ε'} {a : α} : x.mapError f = .ok a ↔ x = .ok a := by
  cases x <;> simp [Except.mapError]

variable {items : List α} {results : List β}

theorem forall₂_of_mapM_ok (ran : items.mapM f = .ok results) :
    Forall₂ (fun item result => f item = .ok result) items results := by
  induction items generalizing results with
  | nil =>
    cases ran
    exact .nil
  | cons item items ih =>
    rw [mapM_cons] at ran
    obtain ⟨first, isFirst, ran⟩ := bind_ok.mp ran
    obtain ⟨rest, isRest, ran⟩ := bind_ok.mp ran
    cases ran
    exact .cons isFirst (ih isRest)

theorem mem_of_mapM_ok (ran : items.mapM f = .ok results) :
    ∀ result ∈ results, ∃ item ∈ items, f item = .ok result :=
  fun _ => List.Forall₂.exists_of_mem (R := fun result item => f item = .ok result) (forall₂_of_mapM_ok ran).flip

theorem mapM_ok_of_mem (ran : items.mapM f = .ok results) :
    ∀ item ∈ items, ∃ result ∈ results, f item = .ok result :=
  fun _ => (forall₂_of_mapM_ok ran).exists_of_mem

theorem mapM_returns (returns : ∀ item ∈ items, ∃ result, f item = .ok result) :
    ∃ results, items.mapM f = .ok results := by
  induction items with
  | nil => exact ⟨[], rfl⟩
  | cons item items ih =>
    obtain ⟨first, isFirst⟩ := returns item mem_cons_self
    obtain ⟨rest, isRest⟩ := ih (forall_mem_cons.mp returns).2
    rw [mapM_cons, isFirst]
    simp [bind, Except.bind, pure, Except.pure, isRest]

theorem mapM_eq_map {g : α → β}
    (each : ∀ item ∈ items, f item = .ok (g item)) : items.mapM f = .ok (items.map g) := by
  induction items with
  | nil => rfl
  | cons item items ih =>
    rw [mapM_cons, each item mem_cons_self, ih (forall_mem_cons.mp each).2]
    rfl

theorem mapM_append_ok {front back : List α} (ran : (front ++ back).mapM f = .ok results) :
    ∃ first, front.mapM f = .ok first ∧ first <+: results := by
  rw [mapM_append] at ran
  obtain ⟨first, isFirst, ran⟩ := bind_ok.mp ran
  obtain ⟨second, isSecond, ran⟩ := bind_ok.mp ran
  cases ran
  exact ⟨first, isFirst, prefix_append first second⟩

/-- The rule for loops: what every step keeps holds of the result. -/
theorem foldlM_ok {f : β → α → Except ε β} {start result : β} (inv : List α → β → Prop)
    (before : inv [] start)
    (step : ∀ done item acc acc', inv done acc → f acc item = .ok acc' → inv (done ++ [item]) acc')
    (ran : items.foldlM f start = .ok result) : inv items result := by
  suffices general : ∀ todo done acc, inv done acc → todo.foldlM f acc = .ok result →
      inv (done ++ todo) result by
    exact general items [] start before ran
  intro todo
  induction todo with
  | nil =>
    intro done acc holds ran
    cases ran
    simpa using holds
  | cons item todo ih =>
    intro done acc holds ran
    obtain ⟨acc', isNext, ran⟩ := bind_ok.mp ran
    have rest := ih (done ++ [item]) acc' (step done item acc acc' holds isNext) ran
    simpa using rest

end Fallible
