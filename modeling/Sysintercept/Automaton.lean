/-!
# Labelled transition systems

Runs of a step relation with the labels they pass, invariants of everything that
a run reaches, and runs whose steps are restricted by a condition on the state
before the step and its label.
-/
namespace Sysintercept.Automaton
universe u v

variable {State : Type u} {Label : Type v}

/-- A run between two states, with the labels of its steps in order. -/
inductive Run (step : State → Label → State → Prop) : State → List Label → State → Prop
  | refl (s : State) : Run step s [] s
  | tail {s m t : State} {ls : List Label} {l : Label} (before : Run step s ls m) (last : step m l t) :
      Run step s (ls ++ [l]) t

/-- A state that some run from a start state ends in. -/
def Reachable (step : State → Label → State → Prop) (start : State → Prop) (t : State) : Prop :=
  ∃ s ls, start s ∧ Run step s ls t

/-- The steps that meet a condition on the state before the step and its label. -/
def Restrict (step : State → Label → State → Prop) (meets : State → Label → Prop) (s : State) (l : Label)
    (t : State) : Prop :=
  step s l t ∧ meets s l

variable {step : State → Label → State → Prop}

theorem run_single {s t : State} {l : Label} (moved : step s l t) : Run step s [l] t :=
  .tail (.refl s) moved

theorem run_trans {s m t : State} {before after : List Label} (first : Run step s before m)
    (second : Run step m after t) : Run step s (before ++ after) t := by
  induction second with
  | refl => simpa using first
  | tail _ last ih =>
    rw [← List.append_assoc]
    exact .tail ih last

theorem run_cons {s m t : State} {l : Label} {ls : List Label} (first : step s l m) (rest : Run step m ls t) :
    Run step s (l :: ls) t :=
  run_trans (run_single first) rest

/-- A run exists if its first step does, and a run of the rest from there. -/
theorem run_starts {s m : State} {l : Label} {ls : List Label} (first : step s l m) (rest : ∃ t, Run step m ls t) :
    ∃ t, Run step s (l :: ls) t := by
  obtain ⟨t, later⟩ := rest
  exact ⟨t, run_cons first later⟩

theorem run_ends {P : State → Prop} {s m : State} {l : Label} {ls : List Label} (first : step s l m)
    (rest : ∃ t, Run step m ls t ∧ P t) : ∃ t, Run step s (l :: ls) t ∧ P t := by
  obtain ⟨t, later, ends⟩ := rest
  exact ⟨t, run_cons first later, ends⟩

/-- A run can be cut wherever its labels can. -/
theorem run_split {s t : State} {before after : List Label} (run : Run step s (before ++ after) t) :
    ∃ m, Run step s before m ∧ Run step m after t := by
  generalize whole : before ++ after = ls at run
  induction run generalizing after with
  | refl =>
    obtain ⟨rfl, rfl⟩ := List.append_eq_nil_iff.mp whole
    exact ⟨_, .refl _, .refl _⟩
  | @tail m' t' ls' l' earlier last ih =>
    rcases List.eq_nil_or_concat after with rfl | ⟨after', l, rfl⟩
    · rw [List.append_nil] at whole
      subst whole
      exact ⟨_, .tail earlier last, .refl _⟩
    · rw [List.concat_eq_append, ← List.append_assoc] at whole
      obtain ⟨front, same⟩ := List.append_inj' whole rfl
      obtain ⟨m, left, right⟩ := ih front
      cases same
      exact ⟨m, left, by rw [List.concat_eq_append]; exact .tail right last⟩

/-- The step that a label of a run stands for. -/
theorem run_at {s t : State} {before after : List Label} {l : Label} (run : Run step s (before ++ l :: after) t) :
    ∃ m n, Run step s before m ∧ step m l n ∧ Run step n after t := by
  have regrouped : before ++ l :: after = (before ++ [l]) ++ after := by simp
  rw [regrouped] at run
  obtain ⟨n, left, right⟩ := run_split run
  generalize whole : before ++ [l] = ls at left
  cases left with
  | refl => exact absurd whole (by simp)
  | tail earlier last =>
    obtain ⟨rfl, same⟩ := List.append_inj' whole rfl
    cases same
    exact ⟨_, n, earlier, last, right⟩

/-- What holds before a run and survives every step holds after it. -/
theorem run_invariant {I : State → Prop} (keeps : ∀ s l t, I s → step s l t → I t) {s t : State} {ls : List Label}
    (run : Run step s ls t) (initial : I s) : I t := by
  induction run with
  | refl => exact initial
  | tail _ last ih => exact keeps _ _ _ ih last

/-- An invariant that also speaks of the labels passed so far. -/
theorem run_history {I : List Label → State → Prop} {s : State} (initial : I [] s)
    (keeps : ∀ ls m l t, I ls m → step m l t → I (ls ++ [l]) t) {t : State} {ls : List Label}
    (run : Run step s ls t) : I ls t := by
  induction run with
  | refl => exact initial
  | tail _ last ih => exact keeps _ _ _ _ ih last

theorem reachable_invariant {start I : State → Prop} (initial : ∀ s, start s → I s)
    (keeps : ∀ s l t, I s → step s l t → I t) {t : State} (reached : Reachable step start t) : I t := by
  obtain ⟨s, ls, begun, run⟩ := reached
  exact run_invariant keeps run (initial s begun)

theorem reachable_step {start : State → Prop} {s t : State} {l : Label} (reached : Reachable step start s)
    (moved : step s l t) : Reachable step start t := by
  obtain ⟨first, ls, begun, run⟩ := reached
  exact ⟨first, ls ++ [l], begun, .tail run moved⟩

/-- A run of steps of one kind is a run of steps of a wider kind. -/
theorem run_mono {step' : State → Label → State → Prop} (wider : ∀ s l t, step s l t → step' s l t) {s t : State}
    {ls : List Label} (run : Run step s ls t) : Run step' s ls t := by
  induction run with
  | refl => exact .refl _
  | tail _ last ih => exact .tail ih (wider _ _ _ last)

/-- A run of restricted steps is a run. -/
theorem run_restrict {meets : State → Label → Prop} {s t : State} {ls : List Label}
    (run : Run (Restrict step meets) s ls t) : Run step s ls t := by
  induction run with
  | refl => exact .refl _
  | tail _ last ih => exact .tail ih last.1

end Sysintercept.Automaton
