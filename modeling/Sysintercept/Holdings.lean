import Mathlib.Logic.Function.Basic
import Sysintercept.Automaton

/-!
# Handles and the slots that hold them

A table of open handles, shared with other code, and slots that hold some of
them: a slot acquires a fresh handle, releases the one it holds, or forgets it.
A handle that no slot holds any more is lost, and stays open for good.
-/
namespace Sysintercept.Holdings
open Sysintercept.Automaton Function
universe u v w

/-- What an open handle refers to, and whether a slot acquired it or other code has it. -/
structure Entry (Content : Type w) where
  content : Content
  acquired : Bool
  deriving DecidableEq

structure State (Slot : Type u) (Handle : Type v) (Content : Type w) where
  table : Handle → Option (Entry Content)
  slot : Slot → Option Handle

/-- `appear` and `vanish` are what other code does with its own handles. -/
inductive Action (Slot : Type u) (Handle : Type v) (Content : Type w)
  | acquire (x : Slot) (h : Handle) (c : Content)
  | release (x : Slot)
  | forget (x : Slot)
  | appear (h : Handle) (c : Content)
  | vanish (h : Handle)

variable {Slot : Type u} {Handle : Type v} {Content : Type w}

/-- The slot that an action changes. -/
def Action.changes : Action Slot Handle Content → Option Slot
  | .acquire x _ _ => some x
  | .release x => some x
  | .forget x => some x
  | .appear _ _ => none
  | .vanish _ => none

/-- No handle is held twice, and none after it was closed. -/
structure Sound (s : State Slot Handle Content) : Prop where
  held : ∀ x h, s.slot x = some h → ∃ c, s.table h = some ⟨c, true⟩
  apart : ∀ x y h, s.slot x = some h → s.slot y = some h → x = y

/-- The handle was acquired, is open, and no slot holds it. -/
def Lost (s : State Slot Handle Content) (h : Handle) : Prop :=
  (∃ c, s.table h = some ⟨c, true⟩) ∧ ∀ x, s.slot x ≠ some h

/-- The handle that an action takes out of its slot without closing it. -/
inductive Drops (s : State Slot Handle Content) : Action Slot Handle Content → Handle → Prop
  | acquire {x h c k} (held : s.slot x = some k) : Drops s (.acquire x h c) k
  | forget {x k} (held : s.slot x = some k) : Drops s (.forget x) k

theorem drops_changes {s : State Slot Handle Content} {a : Action Slot Handle Content} {k : Handle} (drops : Drops s a k) :
    ∃ x, a.changes = some x := by
  cases drops with
  | acquire => exact ⟨_, rfl⟩
  | forget => exact ⟨_, rfl⟩

theorem held_open {s : State Slot Handle Content} (sound : Sound s) {x : Slot} {k : Handle}
    (holds : s.slot x = some k) : s.table k ≠ none := by
  obtain ⟨c, there⟩ := sound.held x k holds
  simp [there]

variable [DecidableEq Slot] [DecidableEq Handle]

inductive Step : State Slot Handle Content → Action Slot Handle Content → State Slot Handle Content → Prop
  | acquire {s} (x : Slot) {h : Handle} (c : Content) (fresh : s.table h = none) :
      Step s (.acquire x h c) ⟨update s.table h (some ⟨c, true⟩), update s.slot x (some h)⟩
  | release {s x h} (holds : s.slot x = some h) : Step s (.release x) ⟨update s.table h none, update s.slot x none⟩
  | forget {s} (x : Slot) : Step s (.forget x) { s with slot := update s.slot x none }
  | appear {s h} (c : Content) (fresh : s.table h = none) :
      Step s (.appear h c) { s with table := update s.table h (some ⟨c, false⟩) }
  | vanish {s h c} (foreign : s.table h = some ⟨c, false⟩) : Step s (.vanish h) { s with table := update s.table h none }

variable {s t : State Slot Handle Content} {a : Action Slot Handle Content}

/-! ## What a step does to one slot and to one handle -/

theorem slot_step (step : Step s a t) {y : Slot} {k : Handle} (holds : t.slot y = some k) :
    (s.slot y = some k ∧ a.changes ≠ some y) ∨ ∃ c, a = .acquire y k c ∧ s.table k = none ∧ t.table k = some ⟨c, true⟩ := by
  cases step with
  | acquire x c fresh =>
    by_cases same : y = x
    · subst same
      simp only [update_self, Option.some.injEq] at holds
      subst holds
      exact .inr ⟨c, rfl, fresh, update_self _ _ _⟩
    · exact .inl ⟨(update_of_ne same _ _).symm.trans holds, by simpa [Action.changes] using Ne.symm same⟩
  | @release x _ _ | forget x =>
    by_cases same : y = x
    · subst same
      simp at holds
    · exact .inl ⟨(update_of_ne same _ _).symm.trans holds, by simpa [Action.changes] using Ne.symm same⟩
  | appear | vanish => exact .inl ⟨holds, by simp [Action.changes]⟩

/-- A slot that an action does not change holds what it held. -/
theorem slot_kept (step : Step s a t) {y : Slot} (other : a.changes ≠ some y) : t.slot y = s.slot y := by
  cases step with
  | acquire x | @release x _ _ | forget x =>
    have apart : y ≠ x := by
      rintro rfl
      exact other rfl
    exact update_of_ne apart _ _
  | appear | vanish => rfl

/-- An open handle is closed by the slot that holds it, or by other code that has it. -/
theorem closed_step (step : Step s a t) {k : Handle} {e : Entry Content} (there : s.table k = some e) :
    t.table k = some e ∨ (∃ x, a = .release x ∧ s.slot x = some k ∧ t.table k = none) ∨
      (a = .vanish k ∧ e.acquired = false) := by
  cases step with
  | @acquire _ h _ fresh | @appear h _ fresh =>
    have other : k ≠ h := by
      rintro rfl
      simp [fresh] at there
    exact .inl ((update_of_ne other _ _).trans there)
  | @release x h holds =>
    by_cases same : k = h
    · subst same
      exact .inr (.inl ⟨x, rfl, holds, update_self _ _ _⟩)
    · exact .inl ((update_of_ne same _ _).trans there)
  | forget => exact .inl there
  | @vanish h c foreign =>
    by_cases same : k = h
    · subst same
      obtain rfl := Option.some.inj (foreign.symm.trans there)
      exact .inr (.inr ⟨rfl, rfl⟩)
    · exact .inl ((update_of_ne same _ _).trans there)

/-- An acquired handle was open before, or a slot has just acquired it. -/
theorem opened_step (step : Step s a t) {k : Handle} {c : Content} (there : t.table k = some ⟨c, true⟩) :
    s.table k = some ⟨c, true⟩ ∨ ∃ x, t.slot x = some k := by
  cases step with
  | @acquire x h c' fresh =>
    by_cases same : k = h
    · subst same
      exact .inr ⟨x, update_self _ _ _⟩
    · exact .inl ((update_of_ne same _ _).symm.trans there)
  | @release _ h _ | @vanish h _ _ | @appear h _ _ =>
    by_cases same : k = h
    · subst same
      simp at there
    · exact .inl ((update_of_ne same _ _).symm.trans there)
  | forget => exact .inl there

/-! ## Soundness -/

theorem sound_step (sound : Sound s) (step : Step s a t) : Sound t where
  held y k holds := by
    rcases slot_step step holds with ⟨old, other⟩ | ⟨c, _, _, new⟩
    · obtain ⟨c, there⟩ := sound.held y k old
      rcases closed_step step there with kept | ⟨x, rfl, holder, _⟩ | ⟨_, foreign⟩
      · exact ⟨c, kept⟩
      · exact absurd (congrArg some (sound.apart x y k holder old)) other
      · cases foreign
    · exact ⟨c, new⟩
  apart y z k first second := by
    rcases slot_step step first with ⟨old, _⟩ | ⟨c, acquires, fresh, _⟩
    · rcases slot_step step second with ⟨old', _⟩ | ⟨c, _, fresh, _⟩
      · exact sound.apart y z k old old'
      · exact absurd fresh (held_open sound old)
    · rcases slot_step step second with ⟨old', _⟩ | ⟨c', acquires', _, _⟩
      · exact absurd fresh (held_open sound old')
      · exact (Action.acquire.inj (acquires.symm.trans acquires')).1

/-! ## Lost handles -/

theorem lost_kept (step : Step s a t) {k : Handle} (lost : Lost s k) : Lost t k := by
  obtain ⟨⟨c, there⟩, unheld⟩ := lost
  constructor
  · rcases closed_step step there with kept | ⟨x, _, holds, _⟩ | ⟨_, foreign⟩
    · exact ⟨c, kept⟩
    · exact absurd holds (unheld x)
    · cases foreign
  · intro y holds
    rcases slot_step step holds with ⟨old, _⟩ | ⟨_, _, fresh, _⟩
    · exact unheld y old
    · simp [fresh] at there

theorem lost_dropped (sound : Sound s) (step : Step s a t) {k : Handle} (drops : Drops s a k) : Lost t k := by
  obtain ⟨x, changes, held, stays⟩ : ∃ x, a.changes = some x ∧ s.slot x = some k ∧ a ≠ .release x := by
    cases drops with
    | acquire held => exact ⟨_, rfl, held, by simp⟩
    | forget held => exact ⟨_, rfl, held, by simp⟩
  obtain ⟨c, there⟩ := sound.held x k held
  constructor
  · rcases closed_step step there with kept | ⟨y, releases, holder, _⟩ | ⟨_, foreign⟩
    · exact ⟨c, kept⟩
    · rw [sound.apart y x k holder held] at releases
      exact absurd releases stays
    · cases foreign
  · intro y holds
    rcases slot_step step holds with ⟨old, other⟩ | ⟨_, _, fresh, _⟩
    · exact other (by rw [changes, sound.apart y x k old held])
    · simp [fresh] at there

/-- Lost are the handles that were lost before, and the one that the action drops. -/
theorem lost_step (sound : Sound s) (step : Step s a t) (k : Handle) : Lost t k ↔ Lost s k ∨ Drops s a k := by
  constructor
  · rintro ⟨⟨c, there⟩, unheld⟩
    rcases opened_step step there with before | ⟨x, holds⟩
    · by_cases held : ∃ y, s.slot y = some k
      · obtain ⟨y, holds⟩ := held
        by_cases other : a.changes = some y
        · cases step with
          | acquire => cases other; exact .inr (.acquire holds)
          | forget => cases other; exact .inr (.forget holds)
          | release here =>
            cases other
            obtain rfl := Option.some.inj (here.symm.trans holds)
            simp at there
          | appear | vanish => cases other
        · exact absurd ((slot_kept step other).trans holds) (unheld y)
      · exact .inl ⟨⟨c, before⟩, fun y holds => held ⟨y, holds⟩⟩
    · exact absurd holds (unheld x)
  · rintro (lost | drops)
    · exact lost_kept step lost
    · exact lost_dropped sound step drops

/-! ## What some slots do -/

/-- Actions on slots of one kind lead from one state to the other, and take a handle
    out of its slot without closing it only under a condition. -/
def Carries (own : Slot → Prop) (drops : Prop) (s t : State Slot Handle Content) : Prop :=
  ∃ actions, Run (Restrict Step fun m a => (∃ x, own x ∧ a.changes = some x) ∧ ∀ k, Drops m a k → drops) s actions t

variable {own : Slot → Prop} {drops drops' : Prop} {m : State Slot Handle Content}

theorem carries_refl (s : State Slot Handle Content) : Carries own drops s s := ⟨[], .refl s⟩

theorem carries_trans (first : Carries own drops s m) (second : Carries own drops m t) : Carries own drops s t := by
  obtain ⟨before, left⟩ := first
  obtain ⟨after, right⟩ := second
  exact ⟨before ++ after, run_trans left right⟩

theorem carries_mono (carries : Carries own drops s t) (weaker : drops → drops') : Carries own drops' s t := by
  obtain ⟨actions, run⟩ := carries
  refine ⟨actions, ?_⟩
  induction run with
  | refl => exact .refl _
  | tail _ last ih => exact .tail ih ⟨last.1, last.2.1, fun k dropped => weaker (last.2.2 k dropped)⟩

theorem carries_acquire {x : Slot} (mine : own x) {h : Handle} (c : Content) (fresh : s.table h = none)
    (full : s.slot x ≠ none → drops) :
    Carries own drops s ⟨update s.table h (some ⟨c, true⟩), update s.slot x (some h)⟩ := by
  refine ⟨_, run_single ⟨.acquire x c fresh, ⟨x, mine, rfl⟩, fun k dropped => full ?_⟩⟩
  cases dropped with
  | acquire held => simp [held]

theorem carries_release {x : Slot} (mine : own x) {h : Handle} (holds : s.slot x = some h) :
    Carries own drops s ⟨update s.table h none, update s.slot x none⟩ := by
  refine ⟨_, run_single ⟨.release holds, ⟨x, mine, rfl⟩, fun k dropped => ?_⟩⟩
  cases dropped

theorem carries_forget {x : Slot} (mine : own x) (full : s.slot x ≠ none → drops) :
    Carries own drops s { s with slot := update s.slot x none } := by
  refine ⟨_, run_single ⟨.forget x, ⟨x, mine, rfl⟩, fun k dropped => full ?_⟩⟩
  cases dropped with
  | forget held => simp [held]

theorem carries_sound (sound : Sound s) (carries : Carries own drops s t) : Sound t := by
  obtain ⟨actions, run⟩ := carries
  exact run_invariant (I := Sound) (fun _ _ _ sound step => sound_step sound step) (run_restrict run) sound

/-- Lost handles stay lost. -/
theorem carries_lost (carries : Carries own drops s t) {k : Handle} (lost : Lost s k) : Lost t k := by
  obtain ⟨actions, run⟩ := carries
  exact run_invariant (I := fun s => Lost s k) (fun _ _ _ lost step => lost_kept step lost) (run_restrict run) lost

/-- Where nothing is dropped, only handles that were lost before are lost. -/
theorem lost_of_carries (sound : Sound s) (carries : Carries own drops s t) (none : ¬ drops) {k : Handle} (lost : Lost t k) :
    Lost s k := by
  obtain ⟨actions, run⟩ := carries
  induction run with
  | refl => exact lost
  | tail before last ih =>
    refine ih ?_
    have sound' := carries_sound sound ⟨_, before⟩
    rcases (lost_step sound' last.1 k).mp lost with earlier | dropped
    · exact earlier
    · exact absurd (last.2.2 k dropped) none

/-- An open handle that these slots close, or that is not open as it was, was in one of them. -/
theorem carries_closed (carries : Carries own drops s t) {k : Handle} {e : Entry Content} (there : s.table k = some e) :
    t.table k = some e ∨ ∃ x, own x ∧ s.slot x = some k := by
  obtain ⟨actions, run⟩ := carries
  suffices (t.table k = some e ∧ ∀ x, t.slot x = some k → s.slot x = some k) ∨ ∃ x, own x ∧ s.slot x = some k from
    this.imp_left And.left
  refine run_invariant (I := fun t => (t.table k = some e ∧ ∀ x, t.slot x = some k → s.slot x = some k) ∨
    ∃ x, own x ∧ s.slot x = some k) ?_ run (.inl ⟨there, fun _ => id⟩)
  rintro m a n (⟨still, from_⟩ | closed) ⟨step, ⟨x, mine, changes⟩, _⟩
  · rcases closed_step step still with kept | ⟨y, rfl, holds, _⟩ | ⟨rfl, _⟩
    · refine .inl ⟨kept, fun y holds => ?_⟩
      rcases slot_step step holds with ⟨old, _⟩ | ⟨_, _, fresh, _⟩
      · exact from_ y old
      · simp [fresh] at still
    · obtain rfl := Option.some.inj changes
      exact .inr ⟨y, mine, from_ y holds⟩
    · cases changes
  · exact .inr closed

end Sysintercept.Holdings
