import Sysintercept.Effects

/-!
# Environments with a state

What the calls of a program do to the environment that answers them: the answers
that an environment may give in a state and the state that it is in then, and
what a program leads to from a state whatever it is answered, with one condition
for a return, one for an exception and one for a program that does not come to an
end.
-/
namespace Sysintercept.Environments
open Sysintercept.Effects
universe u

/-- Which answer a call may get in a state, and the state after it. -/
abbrev Environment (Op : Type) (Resp : Op → Type) (σ : Type u) := (op : Op) → σ → Resp op → σ → Prop

variable {Op : Type} {Resp : Op → Type} {ε α β : Type} {σ : Type u}

/-- Whatever the environment answers from the state on, a return is with `Q`, an
    exception with `E`, and the program comes to an end unless `S`. -/
def Leads (env : Environment Op Resp σ) (Q : α → σ → Prop) (E : ε → σ → Prop) (S : Prop) : Prog Op Resp ε α → σ → Prop
  | .ret a, s => Q a s
  | .raise e, s => E e s
  | .spin, _ => S
  | .call op k, s => ∀ r s', env op s r s' → Leads env Q E S (k r) s'

section
variable {env : Environment Op Resp σ} {Q Q' : α → σ → Prop} {R : β → σ → Prop} {E E' : ε → σ → Prop} {S S' : Prop}

theorem leads_mono {p : Prog Op Resp ε α} {s : σ} (leads : Leads env Q E S p s) (returns : ∀ a t, Q a t → Q' a t)
    (throws : ∀ e t, E e t → E' e t) (spins : S → S') : Leads env Q' E' S' p s := by
  induction p generalizing s with
  | ret a => exact returns a s leads
  | raise e => exact throws e s leads
  | spin => exact spins leads
  | call op k ih =>
    intro r s' answered
    exact ih r (leads r s' answered)

theorem leads_return {a : α} {s : σ} (holds : Q a s) : Leads env Q E S (pure a : Prog Op Resp ε α) s := holds

theorem leads_bind {p : Prog Op Resp ε α} {f : α → Prog Op Resp ε β} {s : σ}
    (leads : Leads env (fun a t => Leads env R E S (f a) t) E S p s) : Leads env R E S (p >>= f) s := by
  induction p generalizing s with
  | ret | raise | spin => exact leads
  | call op k ih =>
    intro r s' answered
    exact ih r (leads r s' answered)

/-- A handler goes on from where the exception was thrown. -/
theorem leads_catch {p : Prog Op Resp ε α} {h : ε → Prog Op Resp ε α} {s : σ}
    (leads : Leads env Q (fun e t => Leads env Q E S (h e) t) S p s) : Leads env Q E S (p.catch_ h) s := by
  induction p generalizing s with
  | ret | raise | spin => exact leads
  | call op k ih =>
    intro r s' answered
    exact ih r (leads r s' answered)

theorem leads_lift {v : Except ε α} {s : σ} (returns : ∀ a, v = .ok a → Q a s) (throws : ∀ e, v = .error e → E e s) :
    Leads env Q E S (Prog.lift v) s := by
  cases v with
  | ok a => exact returns a rfl
  | error e => exact throws e rfl

end

/-- Where every call may have an answer that changes nothing, a program can be cut off
    anywhere: one of its conditions holds there. -/
theorem leads_cut {env : Environment Op Resp σ} {Q : α → σ → Prop} {E : ε → σ → Prop} {p : Prog Op Resp ε α} {s : σ}
    (idle : ∀ op t, ∃ r, env op t r t) (leads : Leads env Q E False p s) : (∃ a, Q a s) ∨ ∃ e, E e s := by
  induction p with
  | ret a => exact .inl ⟨a, leads⟩
  | raise e => exact .inr ⟨e, leads⟩
  | spin => exact leads.elim
  | call op k ih =>
    obtain ⟨r, answered⟩ := idle op s
    exact ih r (leads r s answered)

/-- How a program can end from a state. -/
inductive Ends (env : Environment Op Resp σ) : Prog Op Resp ε α → σ → Except ε α → σ → Prop
  | ret (a : α) (s : σ) : Ends env (.ret a) s (.ok a) s
  | raise (e : ε) (s : σ) : Ends env (.raise e) s (.error e) s
  | call {op : Op} {k : Resp op → Prog Op Resp ε α} {r : Resp op} {s m t : σ} {x : Except ε α} (answered : env op s r m)
      (rest : Ends env (k r) m x t) : Ends env (.call op k) s x t

theorem leads_returns {env : Environment Op Resp σ} {Q : α → σ → Prop} {E : ε → σ → Prop} {S : Prop}
    {p : Prog Op Resp ε α} {s t : σ} {a : α} (leads : Leads env Q E S p s) (ends : Ends env p s (.ok a) t) : Q a t := by
  generalize returned : Except.ok a = x at ends
  induction ends with
  | ret =>
    cases returned
    exact leads
  | raise => cases returned
  | call answered _ ih => exact ih (leads _ _ answered) returned

theorem leads_throws {env : Environment Op Resp σ} {Q : α → σ → Prop} {E : ε → σ → Prop} {S : Prop}
    {p : Prog Op Resp ε α} {s t : σ} {e : ε} (leads : Leads env Q E S p s) (ends : Ends env p s (.error e) t) : E e t := by
  generalize thrown : Except.error e = x at ends
  induction ends with
  | ret => cases thrown
  | raise =>
    cases thrown
    exact leads
  | call answered _ ih => exact ih (leads _ _ answered) thrown

/-! ## Histories -/

/-- The environment gives the answers of a history one after the other. -/
inductive Replays (env : Environment Op Resp σ) : σ → List (Event Op Resp) → σ → Prop
  | refl (s : σ) : Replays env s [] s
  | tail {s m t : σ} {h : List (Event Op Resp)} {op : Op} {r : Resp op} (before : Replays env s h m)
      (answered : env op m r t) : Replays env s (h ++ [⟨op, r⟩]) t

/-- What is left of a program after a history of its calls. -/
inductive After (p : Prog Op Resp ε α) : List (Event Op Resp) → Prog Op Resp ε α → Prop
  | refl : After p [] p
  | tail {h : List (Event Op Resp)} {op : Op} {k : Resp op → Prog Op Resp ε α} (before : After p h (.call op k))
      (r : Resp op) : After p (h ++ [⟨op, r⟩]) (k r)

/-- A history can be replayed if its first answer can, and the rest from there. -/
theorem replays_starts {env : Environment Op Resp σ} {s m : σ} {h : List (Event Op Resp)} {op : Op} {r : Resp op}
    (answered : env op s r m) (rest : ∃ t, Replays env m h t) : ∃ t, Replays env s (⟨op, r⟩ :: h) t := by
  obtain ⟨t, later⟩ := rest
  refine ⟨t, ?_⟩
  induction later with
  | refl => exact .tail (.refl s) answered
  | tail _ last ih => exact .tail ih last

theorem replays_nil {env : Environment Op Resp σ} {s t : σ} (replays : Replays env s [] t) : t = s := by
  generalize none : ([] : List (Event Op Resp)) = events at replays
  cases replays with
  | refl => rfl
  | tail => exact absurd none (by simp)

/-- A history is that of its calls and their answers, so it can be replayed step by step. -/
theorem replays_append {env : Environment Op Resp σ} {s t : σ} {h : List (Event Op Resp)} {op : Op} {r : Resp op}
    (replays : Replays env s (h ++ [⟨op, r⟩]) t) : ∃ m, Replays env s h m ∧ env op m r t := by
  generalize whole : h ++ [⟨op, r⟩] = events at replays
  cases replays with
  | refl => exact absurd whole (by simp)
  | tail before answered =>
    obtain ⟨rfl, same⟩ := List.append_inj' whole rfl
    obtain ⟨rfl, same⟩ := Event.mk.inj (List.cons.inj same).1
    cases eq_of_heq same
    exact ⟨_, before, answered⟩

/-- What a program leads to holds for what is left of it in the state that its
    calls have led to. -/
theorem leads_after {env : Environment Op Resp σ} {Q : α → σ → Prop} {E : ε → σ → Prop} {S : Prop}
    {p q : Prog Op Resp ε α} {s t : σ} {h : List (Event Op Resp)} (leads : Leads env Q E S p s) (after : After p h q)
    (replays : Replays env s h t) : Leads env Q E S q t := by
  induction after generalizing t with
  | refl =>
    rw [replays_nil replays]
    exact leads
  | tail before r ih =>
    obtain ⟨m, earlier, answered⟩ := replays_append replays
    exact ih earlier r t answered

end Sysintercept.Environments
