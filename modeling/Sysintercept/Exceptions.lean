/-!
# Computations that throw

Rules of pre- and postconditions for computations over a state that keep the
state when they throw, with one postcondition for a normal return and one for an
exception.
-/
namespace Sysintercept.Exceptions
universe u

variable {ε σ α β : Type u}

/-- From every state with `P`, a return value comes with `Q` and an exception with `E`. -/
def Triple (P : σ → Prop) (m : EStateM ε σ α) (Q : α → σ → Prop) (E : ε → σ → Prop) : Prop :=
  ∀ s, P s → match m s with
    | .ok a t => Q a t
    | .error e t => E e t

/-- The result of a computation without state. -/
def fromExcept (r : Except ε α) : EStateM ε σ α := fun s =>
  match r with
  | .ok a => .ok a s
  | .error e => .error e s

/-- The state after a computation, however it ends. -/
def final (m : EStateM ε σ α) (s : σ) : σ :=
  match m s with
  | .ok _ t => t
  | .error _ t => t

/-- How a computation ends, without its state. -/
def outcome (m : EStateM ε σ α) (s : σ) : Except ε α :=
  match m s with
  | .ok a _ => .ok a
  | .error e _ => .error e

/-- Runs a computation for its effect on the state and drops how it ends. -/
def attempt (m : EStateM ε σ α) : EStateM ε σ PUnit := fun s => .ok ⟨⟩ (final m s)

variable {P P' : σ → Prop} {Q Q' : α → σ → Prop} {R : β → σ → Prop} {E E' : ε → σ → Prop}

theorem bind_apply (m : EStateM ε σ α) (f : α → EStateM ε σ β) (s : σ) :
    (m >>= f) s = match m s with
      | .ok a t => f a t
      | .error e t => .error e t := by
  show EStateM.bind m f s = _
  unfold EStateM.bind
  cases m s <;> rfl

theorem fromExcept_ok (a : α) : (fromExcept (.ok a) : EStateM ε σ α) = pure a := rfl

theorem outcome_bind (m : EStateM ε σ α) (f : α → EStateM ε σ β) (s : σ) :
    outcome (m >>= f) s = match m s with
      | .ok a t => outcome (f a) t
      | .error e _ => .error e := by
  unfold outcome
  rw [bind_apply]
  cases m s <;> rfl

theorem final_bind (m : EStateM ε σ α) (f : α → EStateM ε σ β) (s : σ) :
    final (m >>= f) s = match m s with
      | .ok a t => final (f a) t
      | .error _ t => t := by
  unfold final
  rw [bind_apply]
  cases m s <;> rfl

theorem final_fromExcept (r : Except ε α) (s : σ) : final (fromExcept r) s = s := by
  cases r <;> rfl

theorem outcome_bind_error {m : EStateM ε σ α} {f : α → EStateM ε σ β} {s : σ} {e : ε}
    (thrown : outcome m s = .error e) : outcome (m >>= f) s = .error e := by
  rw [outcome_bind]
  unfold outcome at thrown
  cases ended : m s with
  | ok a t => simp [ended] at thrown
  | error e' t => simpa [ended] using thrown

theorem outcome_fromExcept (r : Except ε α) (s : σ) : outcome (fromExcept r) s = r := by
  cases r <;> rfl

/-- A value computed without state can be changed before or after it is returned. -/
theorem fromExcept_map (r : Except ε α) (f : α → β) {γ : Type u} (g : β → EStateM ε σ γ) :
    fromExcept (r.map f) >>= g = (fromExcept r >>= fun a => g (f a)) := by
  funext s
  simp only [bind_apply]
  cases r <;> rfl

theorem triple_pure {a : α} (holds : ∀ s, P s → Q a s) : Triple P (pure a : EStateM ε σ α) Q E :=
  fun s pre => holds s pre

theorem triple_throw {e : ε} (holds : ∀ s, P s → E e s) : Triple P (throw e : EStateM ε σ α) Q E :=
  fun s pre => holds s pre

theorem triple_fromExcept {r : Except ε α} (returns : ∀ a, r = .ok a → ∀ s, P s → Q a s)
    (throws : ∀ e, r = .error e → ∀ s, P s → E e s) : Triple P (fromExcept r : EStateM ε σ α) Q E := by
  intro s pre
  cases r with
  | ok a => exact returns a rfl s pre
  | error e => exact throws e rfl s pre

theorem triple_bind {m : EStateM ε σ α} {f : α → EStateM ε σ β} (first : Triple P m Q E)
    (rest : ∀ a, Triple (Q a) (f a) R E) : Triple P (m >>= f) R E := by
  intro s pre
  have middle := first s pre
  rw [bind_apply]
  cases ended : m s with
  | ok a t =>
    rw [ended] at middle
    exact rest a t middle
  | error e t =>
    rw [ended] at middle
    exact middle

theorem triple_weaken {m : EStateM ε σ α} (triple : Triple P m Q E) (pre : ∀ s, P' s → P s)
    (post : ∀ a s, Q a s → Q' a s) (thrown : ∀ e s, E e s → E' e s) : Triple P' m Q' E' := by
  intro s holds
  have outcome := triple s (pre s holds)
  cases ended : m s with
  | ok a t =>
    rw [ended] at outcome
    exact post a t outcome
  | error e t =>
    rw [ended] at outcome
    exact thrown e t outcome

/-- A fact beside the precondition that does not speak of the state. -/
theorem triple_given {fact : Prop} {m : EStateM ε σ α} (given : fact → Triple P m Q E) :
    Triple (fun s => P s ∧ fact) m Q E := by
  rintro s ⟨pre, holds⟩
  exact given holds s pre

/-- Whatever holds of the state after both endings holds after an attempt. -/
theorem triple_attempt {m : EStateM ε σ α} {after : σ → Prop}
    (triple : Triple P m (fun _ s => after s) (fun _ s => after s)) :
    Triple P (attempt m) (fun _ s => after s) E := by
  intro s pre
  have outcome := triple s pre
  show after (final m s)
  unfold final
  cases ended : m s with
  | ok a t => simpa only [ended] using outcome
  | error e t => simpa only [ended] using outcome

/-- A handler that throws again keeps the exception and may touch the state. -/
theorem triple_rethrow {m : EStateM ε σ α} {h : ε → EStateM ε σ α} {M : ε → σ → Prop} (body : Triple P m Q M)
    (handler : ∀ e, Triple (M e) (h e) Q E) : Triple P (tryCatch m h) Q E := by
  intro s pre
  have outcome := body s pre
  show match EStateM.tryCatch m h s with
    | .ok a t => Q a t
    | .error e t => E e t
  unfold EStateM.tryCatch
  cases ended : m s with
  | ok a t => simpa only [ended] using outcome
  | error e t =>
    rw [ended] at outcome
    exact handler e t outcome

/-- What a triple says of the state a computation leaves behind. -/
theorem final_of_triple {m : EStateM ε σ α} {after : σ → Prop}
    (triple : Triple P m (fun _ s => after s) (fun _ s => after s)) {s : σ} (pre : P s) : after (final m s) := by
  have outcome := triple s pre
  unfold final
  cases ended : m s with
  | ok a t => simpa only [ended] using outcome
  | error e t => simpa only [ended] using outcome

end Sysintercept.Exceptions
