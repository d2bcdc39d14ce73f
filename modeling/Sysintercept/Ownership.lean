import Sysintercept.Handles

/-!
# Runs of `Process` objects

Any number of `Process` objects in one process, made, copied, assigned, used and
destroyed in any order, among other code that opens and closes its own handles.
-/
namespace Sysintercept.Ownership
open Sysintercept.Environments Sysintercept.Automaton Sysintercept.Holdings Sysintercept.Handles Function

section
variable {Name : Type}

/-- A member called, or a handle of other code opened or closed. -/
inductive Label (Name : Type)
  | construct (n : Name) (processID : UInt32)
  | copy (n m : Name)
  | assign (n m : Name)
  | destroy (n : Name)
  | startThread (n : Name) (address param : UInt32)
  | waitForThread (n : Name)
  | appear (h : UInt32)
  | vanish (h : UInt32)

/-- The object whose member is called. -/
def Label.object : Label Name → Option Name
  | .construct n _ => some n
  | .copy n _ => some n
  | .assign n _ => some n
  | .destroy n => some n
  | .startThread n _ _ => some n
  | .waitForThread n => some n
  | .appear _ => none
  | .vanish _ => none

/-- Before there are objects, all open handles are other code's. -/
def Starts (s : System Name) : Prop :=
  (∀ n, s.objects n = none) ∧ ∀ h e, s.table h = some e → Proper h ∧ e.acquired = false

theorem good_starts {s : System Name} (starts : Starts s) : Good s where
  clean h there := by
    obtain ⟨e, is⟩ := Option.ne_none_iff_exists'.mp there
    exact (starts.2 h e is).1
  sound := by
    refine ⟨fun x h holds => ?_, fun x y h holds => ?_⟩
    · simp [System.view, starts.1] at holds
    · simp [System.view, starts.1] at holds

/-- The two members of an object do not hold one handle. -/
theorem apart_members {s : System Name} {n : Name} {p : Process} (good : Good s) (is : s.objects n = some p) {f g : Field}
    (proper : Proper (p.handle f)) (same : p.handle g = p.handle f) : g = f := by
  have first : s.view.slot (n, f) = some (p.handle f) := (view_slot is f).trans (held_eq.mpr ⟨rfl, proper⟩)
  have second : s.view.slot (n, g) = some (p.handle f) := (view_slot is g).trans (held_eq.mpr ⟨same, proper⟩)
  exact congrArg Prod.snd (good.sound.apart _ _ _ second first)

theorem lost_view {t : System Name} (good : Good t) (k : UInt32) :
    Lost t.view k ↔ (∃ c, t.table k = some ⟨c, true⟩) ∧ ∀ n p f, t.objects n = some p → p.handle f ≠ k := by
  constructor
  · rintro ⟨⟨c, there⟩, unheld⟩
    refine ⟨⟨c, there⟩, fun n p f is same => unheld (n, f) ?_⟩
    exact (view_slot is f).trans (held_eq.mpr ⟨same, proper_of_open good.clean there⟩)
  · rintro ⟨⟨c, there⟩, unheld⟩
    refine ⟨⟨c, there⟩, fun x holds => ?_⟩
    obtain ⟨p, is, same⟩ := Option.bind_eq_some_iff.mp holds
    exact unheld x.1 p x.2 is (held_eq.mp same).1

/-- What the handle of a member has to refer to. -/
def referent (processID : UInt32) : Field → Referent
  | .hProcess_ => .process processID
  | .hThread_ => .thread processID

/-- The members of an object refer to the process that it names, and to a thread of it. -/
def Whole (table : Table) (p : Process) : Prop :=
  ∀ f, Proper (p.handle f) → table (p.handle f) = some ⟨referent p.processID_ f, true⟩

/-- A duplicate refers to what the source's member does. -/
theorem copied_referent {s : System Name} {q p : Process} {table : Table} {f : Field} (good : Good s) (whole : Whole s.table q)
    (copied : Copied s q p table f) : table (p.handle f) = some ⟨referent q.processID_ f, true⟩ := by
  obtain ⟨e, there, new⟩ := copied
  have proper : Proper (q.handle f) := proper_of_open good.clean there
  obtain rfl := Option.some.inj (there.symm.trans (whole f proper))
  exact new

theorem copied_proper {s : System Name} {q p : Process} {table : Table} {f : Field} (clean : Clean table)
    (copied : Copied s q p table f) :
    Proper (p.handle f) := by
  obtain ⟨e, _, new⟩ := copied
  exact proper_of_open clean new

/-- All objects are whole, and none is without a process handle from the start. -/
structure Coherent (s : System Name) : Prop where
  whole : ∀ n p, s.objects n = some p → Whole s.table p
  opened : ∀ n p, s.objects n = some p → p.hProcess_ ≠ INVALID_HANDLE_VALUE

theorem coherent_starts {s : System Name} (starts : Starts s) : Coherent s where
  whole n p is := by simp [starts.1] at is
  opened n p is := by simp [starts.1] at is

variable [DecidableEq Name]

/-- An object whose constructor throws does not come to be, and an assignment that
    throws leaves the object as it is by then. -/
inductive Step : System Name → Label Name → System Name → Prop
  | construct {s n processID p t} (free : s.objects n = none)
      (ends : Ends kernel (Process.construct processID) s.table (.ok p) t) :
      Step s (.construct n processID) ⟨t, update s.objects n (some p)⟩
  | construct_throws {s n processID e t} (free : s.objects n = none)
      (ends : Ends kernel (Process.construct processID) s.table (.error e) t) :
      Step s (.construct n processID) ⟨t, s.objects⟩
  | copy {s n m q p t} (free : s.objects n = none) (is : s.objects m = some q)
      (ends : Ends kernel (Process.copy q) s.table (.ok p) t) : Step s (.copy n m) ⟨t, update s.objects n (some p)⟩
  | copy_throws {s n m q e t} (free : s.objects n = none) (is : s.objects m = some q)
      (ends : Ends kernel (Process.copy q) s.table (.error e) t) : Step s (.copy n m) ⟨t, s.objects⟩
  | assign {s n m p q r t} (is : s.objects n = some p) (is' : s.objects m = some q)
      (ends : Ends kernel (Process.assign p q) s.table (.ok r) t) : Step s (.assign n m) ⟨t, update s.objects n (some r.1)⟩
  | destroy {s n p u t} (is : s.objects n = some p) (ends : Ends kernel (Process.destroy p) s.table (.ok u) t) :
      Step s (.destroy n) ⟨t, update s.objects n none⟩
  | startThread {s n p address param r t} (is : s.objects n = some p)
      (ends : Ends kernel (Process.startThread p address param) s.table (.ok r) t) :
      Step s (.startThread n address param) ⟨t, update s.objects n (some r.1)⟩
  | waitForThread {s n p p' t} (is : s.objects n = some p)
      (ends : Ends kernel (Process.waitForThread p) s.table (.ok p') t) :
      Step s (.waitForThread n) ⟨t, update s.objects n (some p')⟩
  | waitForThread_throws {s n p e t} (is : s.objects n = some p)
      (ends : Ends kernel (Process.waitForThread p) s.table (.error e) t) : Step s (.waitForThread n) ⟨t, s.objects⟩
  | appear {s h} (c : Referent) (proper : Proper h) (fresh : s.table h = none) :
      Step s (.appear h) ⟨update s.table h (some ⟨c, false⟩), s.objects⟩
  | vanish {s h c} (foreign : s.table h = some ⟨c, false⟩) : Step s (.vanish h) ⟨update s.table h none, s.objects⟩

/-- The steps that take a handle out of an object, or out of the constructor of one,
    without closing it. -/
inductive Lossy : System Name → Label Name → System Name → Prop
  | assign {s n m t p p'} (is : s.objects n = some p) (is' : t.objects n = some p') (f : Field) (proper : Proper (p.handle f))
      (replaced : p'.handle f ≠ p.handle f) : Lossy s (.assign n m) t
  | startThread {s n address param t p} (is : s.objects n = some p) (proper : Proper p.hThread_) :
      Lossy s (.startThread n address param) t
  | copy {s n m t} (thrown : t.objects n = none) (opened : t.table ≠ s.table) : Lossy s (.copy n m) t

/-! ## Two objects -/

theorem construct_ends {table table' : Table} {processID r : UInt32} (opens : Opens table r (.process processID) table') :
    Ends kernel (Process.construct processID) table (.ok ⟨r, INVALID_HANDLE_VALUE, processID⟩) table' := by
  have answered : kernel (.OpenProcess processID) table (.ok r) table' := opens
  exact .call answered (.ret _ _)

/-- An object for one process. -/
def sampleFirst : System Bool where
  table := update (fun _ => none) 4 (some ⟨.process 7, true⟩)
  objects := update (fun _ => none) true (some ⟨4, INVALID_HANDLE_VALUE, 7⟩)

/-- One more for another process. -/
def samplePair : System Bool where
  table := update sampleFirst.table 8 (some ⟨.process 9, true⟩)
  objects := update sampleFirst.objects false (some ⟨8, INVALID_HANDLE_VALUE, 9⟩)

/-- The first with a thread. -/
def sampleThread : System Bool where
  table := update samplePair.table 12 (some ⟨.thread 7, true⟩)
  objects := update samplePair.objects true (some ⟨4, 12, 7⟩)

/-- The second assigned to the first. -/
def sampleTorn : System Bool where
  table := update sampleThread.table 16 (some ⟨.process 9, true⟩)
  objects := update sampleThread.objects true (some ⟨16, 12, 9⟩)

theorem sampleFirst_opened : Step (System.mk (fun _ => none) fun _ => none) (.construct true 7) sampleFirst :=
  .construct rfl (construct_ends (show Opens (fun _ => none) 4 (.process 7) sampleFirst.table from ⟨by decide, rfl, rfl⟩))

theorem sampleThread_run :
    ∃ s ls, Starts s ∧ Run (Restrict Step fun _ l => ∀ n m, l ≠ .assign n m) s ls sampleThread := by
  have opens : Opens sampleFirst.table 8 (.process 9) samplePair.table := ⟨by decide, rfl, rfl⟩
  have second : Step sampleFirst (.construct false 9) samplePair := .construct rfl (construct_ends opens)
  have third : Step samplePair (.startThread true 0 0) sampleThread := by
    have answered : kernel (.CreateRemoteThread 4 0 0) samplePair.table (12 : UInt32) sampleThread.table :=
      .inr ⟨7, true, rfl, by decide, rfl, rfl⟩
    have raised : kernel (.SetThreadPriority 12 THREAD_PRIORITY_TIME_CRITICAL) sampleThread.table () sampleThread.table := rfl
    exact .startThread (p := ⟨4, INVALID_HANDLE_VALUE, 7⟩) (r := (⟨4, 12, 7⟩, true)) rfl
      (.call answered (.call raised (.ret _ _)))
  refine ⟨_, _, ⟨fun _ => rfl, by simp⟩,
    .tail (.tail (.tail (.refl _) ⟨sampleFirst_opened, ?_⟩) ⟨second, ?_⟩) ⟨third, ?_⟩⟩
  · simp
  · simp
  · simp

theorem sampleThread_torn : Step sampleThread (.assign true false) sampleTorn := by
  have answered : kernel (.DuplicateHandle 8 4) sampleThread.table (true, 16) sampleTorn.table :=
    .inr ⟨rfl, ⟨.process 9, true⟩, rfl, by decide, rfl, rfl⟩
  exact .assign (p := ⟨4, 12, 7⟩) (q := ⟨8, INVALID_HANDLE_VALUE, 9⟩) (r := (⟨16, 12, 9⟩, .ok ())) rfl rfl
    (.call answered (.ret _ _))

variable {s t : System Name} {l : Label Name}

/-! ## One step -/

/-- A member changes the slots of its object; other code changes none. -/
theorem step_shape (good : Good s) (step : Step s l t) : Clean t.table ∧
    ((∃ n, l.object = some n ∧ Carries (Of n) (Lossy s l t) s.view t.view) ∨
      ∃ a, Holdings.Step s.view a t.view ∧ a.changes = none ∧ ∀ k, a = .vanish k → l = .vanish k) := by
  cases step with
  | @construct n processID p t free ends =>
    have does := (leads_returns (construct_leads good free processID) ends).1
    exact ⟨does.clean, .inl ⟨n, rfl, carries_mono does.carries False.elim⟩⟩
  | @construct_throws n processID e t free ends =>
    obtain rfl := leads_throws (construct_leads good free processID) ends
    exact ⟨good.clean, .inl ⟨n, rfl, carries_refl _⟩⟩
  | @copy n m q p t free is ends =>
    have does := (leads_returns (copy_leads good free is) ends).1
    exact ⟨does.clean, .inl ⟨n, rfl, carries_mono does.carries False.elim⟩⟩
  | @copy_throws n m q e t free is ends =>
    rcases leads_throws (copy_leads good free is) ends with rfl | ⟨_, k, c, opens⟩
    · exact ⟨good.clean, .inl ⟨n, rfl, carries_refl _⟩⟩
    · -- The first duplicate would have been the object's, had there come to be one.
      have opened : t ≠ s.table := by
        rintro rfl
        exact absurd (opens_self opens) (by simp [opens.2.1])
      have empty : s.view.slot (n, .hProcess_) = none := view_none free _
      have first : Carries (Of n) (Lossy s (.copy n m) ⟨t, s.objects⟩) s.view
          ⟨t, update s.view.slot (n, .hProcess_) (held k)⟩ :=
        opens_carries (show Of n (n, .hProcess_) from rfl) opens fun full => absurd empty full
      have second : Carries (Of n) (Lossy s (.copy n m) ⟨t, s.objects⟩)
          ⟨t, update s.view.slot (n, .hProcess_) (held k)⟩
          ⟨t, update (update s.view.slot (n, .hProcess_) (held k)) (n, .hProcess_) none⟩ :=
        carries_forget rfl fun _ => .copy free opened
      refine ⟨clean_opens good.clean opens, .inl ⟨n, rfl, carries_trans first ?_⟩⟩
      rw [update_idem, ← empty, update_eq_self] at second
      exact second
  | @assign n m p q r t is is' ends =>
    have does := (leads_returns (assign_leads good is is') ends).1
    refine ⟨does.clean, .inl ⟨n, rfl, carries_mono does.carries ?_⟩⟩
    rintro ⟨f, proper, replaced⟩
    exact .assign is (update_self _ _ _) f proper replaced
  | @destroy n p u t is ends =>
    have does := (leads_returns (destroy_leads good is) ends).2
    exact ⟨does.clean, .inl ⟨n, rfl, carries_mono does.carries False.elim⟩⟩
  | @startThread n p address param r t is ends =>
    have does := (leads_returns (startThread_leads good is address param) ends).1
    exact ⟨does.clean, .inl ⟨n, rfl, carries_mono does.carries (.startThread is)⟩⟩
  | @waitForThread n p p' t is ends =>
    have does := (leads_returns (waitForThread_leads good is) ends).2.2.2
    exact ⟨does.clean, .inl ⟨n, rfl, carries_mono does.carries False.elim⟩⟩
  | @waitForThread_throws n p e t is ends =>
    obtain ⟨_, rfl⟩ := leads_throws (waitForThread_leads good is) ends
    exact ⟨good.clean, .inl ⟨n, rfl, carries_refl _⟩⟩
  | appear c proper fresh =>
    exact ⟨clean_new good.clean proper _, .inr ⟨_, .appear (s := s.view) c fresh, rfl, by simp⟩⟩
  | @vanish h c foreign =>
    exact ⟨clean_close good.clean h, .inr ⟨_, .vanish (s := s.view) foreign, rfl, fun k same => by cases same; rfl⟩⟩

theorem step_good (good : Good s) (step : Step s l t) : Good t := by
  obtain ⟨clean, ⟨n, _, carries⟩ | ⟨a, moved, _⟩⟩ := step_shape good step
  · exact ⟨clean, carries_sound good.sound carries⟩
  · exact ⟨clean, sound_step good.sound moved⟩

theorem run_good {ls : List (Label Name)} (run : Run Step s ls t) (good : Good s) : Good t :=
  run_invariant (I := Good) (fun _ _ _ good step => step_good good step) run good

/-- Every handle is closed by the object that holds it, or by the other code that has it. -/
theorem step_closes (good : Good s) (step : Step s l t) {k : UInt32} {e : Entry Referent} (there : s.table k = some e) :
    t.table k = some e ∨ (e.acquired = true ∧ ∃ n f p, l.object = some n ∧ s.objects n = some p ∧ p.handle f = k) ∨
      (l = .vanish k ∧ e.acquired = false) := by
  obtain ⟨clean, ⟨n, called, carries⟩ | ⟨a, moved, elsewhere, vanishes⟩⟩ := step_shape good step
  · rcases carries_closed carries there with kept | ⟨⟨m, f⟩, rfl, holds⟩
    · exact .inl kept
    · obtain ⟨c, there'⟩ := good.sound.held _ _ holds
      obtain rfl := Option.some.inj (there.symm.trans there')
      obtain ⟨p, is, same⟩ := Option.bind_eq_some_iff.mp holds
      exact .inr (.inl ⟨rfl, m, f, p, called, is, (held_eq.mp same).1⟩)
  · rcases closed_step moved there with kept | ⟨x, rfl, _⟩ | ⟨gone, foreign⟩
    · exact .inl kept
    · cases elsewhere
    · exact .inr (.inr ⟨vanishes k gone, foreign⟩)

/-! ## Lost handles -/

theorem step_lost (good : Good s) (step : Step s l t) {k : UInt32} (lost : Lost s.view k) : Lost t.view k := by
  obtain ⟨clean, ⟨n, _, carries⟩ | ⟨a, moved, _⟩⟩ := step_shape good step
  · exact carries_lost carries lost
  · exact lost_kept moved lost

/-- A step that is not lossy loses nothing. -/
theorem lost_before (good : Good s) (step : Step s l t) (lossless : ¬ Lossy s l t) {k : UInt32} (lost : Lost t.view k) :
    Lost s.view k := by
  obtain ⟨clean, ⟨n, _, carries⟩ | ⟨a, moved, elsewhere, _⟩⟩ := step_shape good step
  · exact lost_of_carries good.sound carries lossless lost
  · rcases (lost_step good.sound moved k).mp lost with before | drops
    · exact before
    · obtain ⟨x, changes⟩ := drops_changes drops
      rw [elsewhere] at changes
      cases changes

/-- A handle that is replaced in its object and not closed is lost. -/
theorem lost_replaced {n : Name} {p p' : Process} {table : Table} {f : Field} (good : Good s) (is : s.objects n = some p)
    (grows : ∀ k e, s.table k = some e → table k = some e)
    (member : ∀ g, p'.handle g = p.handle g ∨ p'.handle g = NULL ∨ s.table (p'.handle g) = none)
    (proper : Proper (p.handle f)) (replaced : p'.handle f ≠ p.handle f) :
    Lost (System.view ⟨table, update s.objects n (some p')⟩) (p.handle f) := by
  have holds : s.view.slot (n, f) = some (p.handle f) := (view_slot is f).trans (held_eq.mpr ⟨rfl, proper⟩)
  obtain ⟨c, there⟩ := good.sound.held _ _ holds
  refine ⟨⟨c, grows _ _ there⟩, ?_⟩
  rintro ⟨m, g⟩ still
  by_cases same : m = n
  · subst same
    rw [view_slot (update_self _ _ _)] at still
    have here := (held_eq.mp still).1
    rcases member g with left | cleared | fresh
    · obtain rfl := apart_members good is proper (left.symm.trans here)
      exact replaced here
    · exact proper.1 (here.symm.trans cleared)
    · rw [here] at fresh
      exact absurd (there.symm.trans fresh) (by simp)
  · have before : s.view.slot (m, g) = some (p.handle f) := by
      simpa [System.view, update_of_ne same] using still
    exact same (congrArg Prod.fst (good.sound.apart _ _ _ before holds))

/-- A lossy step loses a handle. -/
theorem lossy_loses (good : Good s) (step : Step s l t) (lossy : Lossy s l t) : ∃ k, Lost t.view k := by
  cases lossy with
  | assign is is' f proper replaced =>
    cases step with
    | assign here there ends =>
      obtain rfl := Option.some.inj (here.symm.trans is)
      simp only [update_self, Option.some.injEq] at is'
      subst is'
      have assigned := (leads_returns (assign_leads good here there) ends).2
      exact ⟨_, lost_replaced good here assigned.grows assigned.member proper replaced⟩
  | startThread is proper =>
    cases step with
    | @startThread _ _ _ _ r _ here ends =>
      obtain rfl := Option.some.inj (here.symm.trans is)
      obtain ⟨_, same, grows, started⟩ := leads_returns (startThread_leads good here _ _) ends
      have new : r.1.hThread_ = NULL ∨ s.table r.1.hThread_ = none := by
        rcases started with ⟨null, _⟩ | ⟨_, _, _, opens⟩
        · exact .inl null
        · exact .inr opens.2.1
      refine ⟨_, lost_replaced (f := .hThread_) good here grows ?_ proper fun kept => ?_⟩
      · rintro (_ | _)
        · exact .inl (by rw [same]; rfl)
        · exact .inr new
      · obtain ⟨c, there⟩ := good.sound.held _ _ ((view_slot here .hThread_).trans (held_eq.mpr ⟨rfl, proper⟩))
        rcases new with null | fresh
        · exact proper.1 (kept.symm.trans null)
        · exact absurd (there.symm.trans ((congrArg s.table kept).symm.trans fresh)) (by simp)
  | copy thrown opened =>
    cases step with
    | copy => simp at thrown
    | copy_throws free is ends =>
      rcases leads_throws (copy_leads good free is) ends with same | ⟨_, k, c, opens⟩
      · exact absurd same opened
      · refine ⟨k, ⟨c, opens_self opens⟩, fun x holds => ?_⟩
        obtain ⟨c', there⟩ := good.sound.held x k holds
        exact absurd (there.symm.trans opens.2.1) (by simp)

/-! ## Runs -/

/-- In every state of every run: a member of an object that stands for a handle has
    an open one of its own, no two members have the same, and no call closes a
    handle but those that the object it is made on holds. -/
theorem handles_owned (reached : Reachable Step Starts s) (step : Step s l t) :
    (∀ n p f, s.objects n = some p → Proper (p.handle f) → ∃ c, s.table (p.handle f) = some ⟨c, true⟩) ∧
    (∀ n m p q f g, s.objects n = some p → s.objects m = some q → Proper (p.handle f) → p.handle f = q.handle g →
      n = m ∧ f = g) ∧
    ∀ k e, s.table k = some e → t.table k ≠ some e →
      (e.acquired = true ∧ ∃ n f p, l.object = some n ∧ s.objects n = some p ∧ p.handle f = k) ∨
        (l = .vanish k ∧ e.acquired = false) := by
  have good : Good s := reachable_invariant (I := Good) (fun _ starts => good_starts starts)
    (fun _ _ _ good step => step_good good step) reached
  have holds {n p} {f : Field} (is : s.objects n = some p) (proper : Proper (p.handle f)) :
      s.view.slot (n, f) = some (p.handle f) := (view_slot is f).trans (held_eq.mpr ⟨rfl, proper⟩)
  refine ⟨fun n p f is proper => good.sound.held _ _ (holds is proper), ?_, ?_⟩
  · intro n m p q f g is is' proper same
    have first := holds is proper
    rw [same] at first proper
    exact Prod.mk.inj (good.sound.apart _ _ _ first (holds is' proper))
  · intro k e there gone
    exact (step_closes good step there).resolve_left gone

theorem handles_owned_sample : (∃ c, sampleThread.table 12 = some ⟨c, true⟩) ∧ ¬ ∃ p, sampleThread.objects false = some p ∧
    p.hProcess_ = 12 := by
  obtain ⟨s, ls, starts, run⟩ := sampleThread_run
  have here : sampleThread.objects true = some ⟨4, 12, 7⟩ := rfl
  obtain ⟨holds, apart, _⟩ := handles_owned ⟨s, ls, starts, run_restrict run⟩ sampleThread_torn
  refine ⟨holds true _ .hThread_ here (by decide), ?_⟩
  rintro ⟨p, is, same⟩
  obtain ⟨impossible, _⟩ := apart true false _ p .hThread_ .hProcess_ here is (by decide) same.symm
  simp at impossible

theorem lossy_of_lost {ls : List (Label Name)} (run : Run Step s ls t) (good : Good s) {k : UInt32}
    (unlost : ¬ Lost s.view k) (lost : Lost t.view k) :
    ∃ before l after m n, ls = before ++ l :: after ∧ Run Step s before m ∧ Step m l n ∧ Run Step n after t ∧
      Lossy m l n := by
  induction run with
  | refl => exact absurd lost unlost
  | @tail m t ls l before last ih =>
    by_cases lossy : Lossy m l t
    · exact ⟨ls, l, [], m, t, rfl, before, last, .refl _, lossy⟩
    · obtain ⟨front, a, rest, m', n, rfl, first, step, later, lossy⟩ :=
        ih (lost_before (run_good before good) last lossy lost)
      exact ⟨front, a, rest ++ [l], m', n, by simp, first, step, .tail later last, lossy⟩

/-- At the end of a run a handle that some `Process` opened is open and held by no
    object exactly if the run has a lossy step: an assignment over a handle, a
    thread started over another, or a copy that throws between its two duplicates. -/
theorem handles_lost_iff {ls : List (Label Name)} (starts : Starts s) (run : Run Step s ls t) :
    (∃ k, (∃ c, t.table k = some ⟨c, true⟩) ∧ ∀ n p f, t.objects n = some p → p.handle f ≠ k) ↔
      ∃ before l after m n, ls = before ++ l :: after ∧ Run Step s before m ∧ Step m l n ∧ Run Step n after t ∧
        Lossy m l n := by
  have good := good_starts starts
  constructor
  · rintro ⟨k, lost⟩
    refine lossy_of_lost run good (k := k) ?_ ((lost_view (run_good run good) k).mpr lost)
    rintro ⟨⟨c, there⟩, _⟩
    cases (starts.2 k _ there).2
  · rintro ⟨_, l, _, m, n, _, first, step, later, lossy⟩
    obtain ⟨k, lost⟩ := lossy_loses (run_good first good) step lossy
    have stays := run_invariant (I := fun s => Good s ∧ Lost s.view k)
      (fun _ _ _ both step => ⟨step_good both.1 step, step_lost both.1 step both.2⟩) later
      ⟨step_good (run_good first good) step, lost⟩
    exact ⟨k, (lost_view stays.1 k).mp stays.2⟩

theorem handles_lost_iff_sample :
    ∃ k, (∃ c, sampleTorn.table k = some ⟨c, true⟩) ∧ ∀ n p f, sampleTorn.objects n = some p → p.handle f ≠ k := by
  obtain ⟨s, ls, starts, run⟩ := sampleThread_run
  have steps : Run Step s ls sampleThread := run_restrict run
  refine (handles_lost_iff starts (.tail steps sampleThread_torn)).mpr
    ⟨ls, _, [], sampleThread, sampleTorn, rfl, steps, sampleThread_torn, .refl _, ?_⟩
  have assigned : sampleTorn.objects true = some ⟨16, 12, 9⟩ := rfl
  exact .assign (p := ⟨4, 12, 7⟩) rfl assigned .hProcess_ (by decide) (by decide)

/-! ## Objects that name one process -/

/-- An assignment between objects of two processes tears the object apart where it
    throws after it has replaced the process handle, and where it completes and
    leaves a thread handle in place because the source has none. -/
inductive Tears : System Name → Label Name → System Name → Prop
  | thrown {s n m t p q p'} (is : s.objects n = some p) (is' : s.objects m = some q) (is'' : t.objects n = some p')
      (other : p.processID_ ≠ q.processID_) (same : p'.processID_ = p.processID_) (proper : Proper p'.hProcess_)
      (replaced : p'.hProcess_ ≠ p.hProcess_) : Tears s (.assign n m) t
  | completed {s n m t p q p'} (is : s.objects n = some p) (is' : s.objects m = some q) (is'' : t.objects n = some p')
      (other : p.processID_ ≠ q.processID_) (same : p'.processID_ = q.processID_)
      (none : q.hThread_ = INVALID_HANDLE_VALUE) (left : Proper p.hThread_) : Tears s (.assign n m) t

/-- An object on which no member is called stays as it is, with what its handles refer to. -/
theorem step_elsewhere (good : Good s) (step : Step s l t) {n : Name} {p : Process} (other : l.object ≠ some n)
    (is' : t.objects n = some p) : s.objects n = some p ∧ (Whole s.table p → Whole t.table p) := by
  have is : s.objects n = some p := by
    cases step with
    | @construct m | @copy m | @assign m | @destroy m | @startThread m | @waitForThread m =>
      have apart : n ≠ m := by
        rintro rfl
        exact other rfl
      simpa [update_of_ne apart] using is'
    | _ => exact is'
  refine ⟨is, fun whole f proper => ?_⟩
  have there := whole f proper
  rcases step_closes good step there with kept | ⟨_, m, g, q, called, is', same⟩ | ⟨_, foreign⟩
  · exact kept
  · have first : s.view.slot (m, g) = some (p.handle f) := (view_slot is' g).trans (held_eq.mpr ⟨same, proper⟩)
    have second : s.view.slot (n, f) = some (p.handle f) := (view_slot is f).trans (held_eq.mpr ⟨rfl, proper⟩)
    have equal : m = n := congrArg Prod.fst (good.sound.apart _ _ _ first second)
    exact absurd (equal ▸ called) other
  · cases foreign

/-- An assigned object is whole, unless it is torn apart. -/
theorem assigned_whole {n m : Name} {p q : Process} {r : Process × Except Iat.Thrown Unit} {table : Table} (good : Good s)
    (coherent : Coherent s) (is : s.objects n = some p) (is' : s.objects m = some q) (clean : Clean table)
    (assigned : Assigned s p q r table) (untorn : ¬ Tears s (.assign n m) ⟨table, update s.objects n (some r.1)⟩) :
    Whole table r.1 ∧ r.1.hProcess_ ≠ INVALID_HANDLE_VALUE := by
  have kept {f : Field} (left : r.1.handle f = p.handle f) (proper : Proper (r.1.handle f)) :
      table (r.1.handle f) = some ⟨referent p.processID_ f, true⟩ := by
    rw [left] at proper ⊢
    exact assigned.grows _ _ (coherent.whole n p is f proper)
  have there : System.objects ⟨table, update s.objects n (some r.1)⟩ n = some r.1 := update_self _ _ _
  cases ended : r.2 with
  | ok u =>
    obtain ⟨named, members⟩ := assigned.completed ended
    have process : Copied s q r.1 table .hProcess_ := by
      rcases members .hProcess_ with ⟨invalid, _⟩ | copied
      · exact absurd invalid (coherent.opened m q is')
      · exact copied
    refine ⟨?_, (copied_proper clean process).2⟩
    rintro (_ | _) proper
    · exact named ▸ copied_referent good (coherent.whole m q is') process
    · rcases members .hThread_ with ⟨invalid, left⟩ | copied
      · by_cases same : p.processID_ = q.processID_
        · exact named ▸ same ▸ kept left proper
        · have proper' : Proper p.hThread_ := (show r.1.hThread_ = p.hThread_ from left) ▸ proper
          exact absurd (.completed is is' there same named invalid proper') untorn
      · exact named ▸ copied_referent good (coherent.whole m q is') copied
  | error e =>
    obtain ⟨named, thread, process⟩ := assigned.thrown e ended
    constructor
    · rintro (_ | _) proper
      · rcases process with (left | null) | copied
        · exact named ▸ kept left proper
        · exact absurd null proper.1
        · by_cases same : p.processID_ = q.processID_
          · exact named ▸ same ▸ copied_referent good (coherent.whole m q is') copied
          · by_cases left : r.1.hProcess_ = p.hProcess_
            · exact named ▸ kept left proper
            · exact absurd (.thrown is is' there same named proper left) untorn
      · rcases thread with left | null
        · exact named ▸ kept left proper
        · exact absurd null proper.1
    · rcases process with (left | null) | copied
      · exact left ▸ coherent.opened n p is
      · simp [null, NULL, INVALID_HANDLE_VALUE]
      · exact (copied_proper clean copied).2

/-- The object on which a member is called is whole again, unless it is torn apart. -/
theorem step_own (good : Good s) (coherent : Coherent s) (step : Step s l t) (untorn : ¬ Tears s l t) {n : Name}
    {p' : Process} (called : l.object = some n) (is' : t.objects n = some p') :
    Whole t.table p' ∧ p'.hProcess_ ≠ INVALID_HANDLE_VALUE := by
  have good' := step_good good step
  cases step with
  | @construct _ processID p t free ends =>
    obtain rfl := Option.some.inj called
    obtain rfl : p = p' := by simpa using is'
    obtain ⟨_, named, threadless, opens⟩ := leads_returns (construct_leads good free processID) ends
    refine ⟨?_, opens.1.2⟩
    rintro (_ | _) proper
    · exact named ▸ opens_self opens
    · exact absurd threadless proper.2
  | @copy _ m q p t free is ends =>
    obtain rfl := Option.some.inj called
    obtain rfl : p = p' := by simpa using is'
    obtain ⟨_, named, members⟩ := leads_returns (copy_leads good free is) ends
    refine ⟨fun f proper => ?_, ?_⟩
    · rcases members f with ⟨_, left⟩ | copied
      · exact absurd left proper.2
      · exact named ▸ copied_referent good (coherent.whole m q is) copied
    · rcases members .hProcess_ with ⟨invalid, _⟩ | copied
      · exact absurd invalid (coherent.opened m q is)
      · exact (copied_proper good'.clean copied).2
  | construct_throws free | copy_throws free =>
    obtain rfl := Option.some.inj called
    exact absurd (free.symm.trans is') (by simp)
  | @assign _ m p q r t is is'' ends =>
    obtain rfl := Option.some.inj called
    obtain rfl : r.1 = p' := by simpa using is'
    have assigned := (leads_returns (assign_leads good is is'') ends).2
    exact assigned_whole good coherent is is'' good'.clean assigned untorn
  | destroy =>
    obtain rfl := Option.some.inj called
    simp at is'
  | @startThread _ p address param r t is ends =>
    obtain rfl := Option.some.inj called
    obtain rfl : r.1 = p' := by simpa using is'
    obtain ⟨_, same, grows, started⟩ := leads_returns (startThread_leads good is address param) ends
    have whole := coherent.whole _ p is
    rw [same]
    refine ⟨?_, coherent.opened _ p is⟩
    rintro (_ | _) proper
    · exact grows _ _ (whole .hProcess_ proper)
    · rcases started with ⟨null, _⟩ | ⟨processID, b, there, opens⟩
      · exact absurd null proper.1
      · have named := (whole .hProcess_ (proper_of_open good.clean there)).symm.trans there
        obtain ⟨rfl, _⟩ : p.processID_ = processID ∧ b = true := by simpa [referent, eq_comm] using named
        exact opens_self opens
  | @waitForThread _ p _ t is ends =>
    obtain rfl := Option.some.inj called
    obtain ⟨rfl, _, rfl, _⟩ := leads_returns (waitForThread_leads good is) ends
    obtain rfl : ({ p with hThread_ := NULL } : Process) = p' := by simpa using is'
    refine ⟨?_, coherent.opened _ p is⟩
    rintro (_ | _) proper
    · have other : p.hProcess_ ≠ p.hThread_ := fun same =>
        absurd (apart_members (f := .hProcess_) (g := .hThread_) good is proper same.symm) (by simp)
      exact (update_of_ne other _ _).trans (coherent.whole _ p is .hProcess_ proper)
    · exact absurd rfl proper.1
  | @waitForThread_throws _ p e t is ends =>
    obtain rfl := Option.some.inj called
    obtain rfl := Option.some.inj (is.symm.trans is')
    obtain ⟨_, rfl⟩ := leads_throws (waitForThread_leads good is) ends
    exact ⟨coherent.whole _ p is, coherent.opened _ p is⟩
  | appear | vanish => cases called

theorem step_coherent (good : Good s) (coherent : Coherent s) (step : Step s l t) (untorn : ¬ Tears s l t) : Coherent t := by
  have both (n : Name) (p : Process) (is' : t.objects n = some p) : Whole t.table p ∧ p.hProcess_ ≠ INVALID_HANDLE_VALUE := by
    by_cases called : l.object = some n
    · exact step_own good coherent step untorn called is'
    · obtain ⟨is, stays⟩ := step_elsewhere good step called is'
      exact ⟨stays (coherent.whole n p is), coherent.opened n p is⟩
  exact ⟨fun n p is' => (both n p is').1, fun n p is' => (both n p is').2⟩

/-- A torn object refers to two processes. -/
theorem torn_incoherent (good : Good s) (coherent : Coherent s) (step : Step s l t) (torn : Tears s l t) : ¬ Coherent t := by
  intro coherent'
  have clean := (step_good good step).clean
  cases torn with
  | thrown is is' is'' other same proper replaced =>
    cases step with
    | @assign _ _ p q r t here there ends =>
      obtain rfl := Option.some.inj (is.symm.trans here)
      obtain rfl := Option.some.inj (is'.symm.trans there)
      have whole := coherent'.whole _ _ is''
      simp only [update_self, Option.some.injEq] at is''
      subst is''
      have assigned := (leads_returns (assign_leads good here there) ends).2
      cases ended : r.2 with
      | ok u => exact other (same.symm.trans (assigned.completed ended).1)
      | error e =>
        rcases (assigned.thrown e ended).2.2 with (left | null) | copied
        · exact replaced left
        · exact proper.1 null
        · have both := (whole .hProcess_ proper).symm.trans (copied_referent good (coherent.whole _ _ there) copied)
          exact other (same.symm.trans (by simpa [referent] using both))
  | completed is is' is'' other same none left =>
    cases step with
    | @assign _ _ p q r t here there ends =>
      obtain rfl := Option.some.inj (is.symm.trans here)
      obtain rfl := Option.some.inj (is'.symm.trans there)
      have whole := coherent'.whole _ _ is''
      simp only [update_self, Option.some.injEq] at is''
      subst is''
      have assigned := (leads_returns (assign_leads good here there) ends).2
      cases ended : r.2 with
      | ok u =>
        rcases (assigned.completed ended).2 .hThread_ with ⟨_, kept⟩ | ⟨e, impossible, _⟩
        · have before := assigned.grows _ _ (coherent.whole _ _ here .hThread_ left)
          have both := (kept ▸ whole .hThread_) left |>.symm.trans before
          exact other (by simpa [referent, same, eq_comm] using both)
        · exact absurd none (proper_of_open good.clean impossible).2
      | error e => exact other ((assigned.thrown e ended).1.symm.trans same)

/-- In a run without such an assignment every object's handles refer to the one
    process that it names; and there such an assignment, and no other step, leaves
    an object whose handles do not. -/
theorem objects_coherent_until_torn {ls : List (Label Name)} {m : System Name} (starts : Starts s)
    (run : Run (fun s l t => Step s l t ∧ ¬ Tears s l t) s ls m) (step : Step m l t) :
    Coherent m ∧ (Coherent t ↔ ¬ Tears m l t) := by
  have reached : Good m ∧ Coherent m := run_invariant (I := fun s => Good s ∧ Coherent s)
    (fun _ _ _ both step => ⟨step_good both.1 step.1, step_coherent both.1 both.2 step.1 step.2⟩) run
    ⟨good_starts starts, coherent_starts starts⟩
  exact ⟨reached.2, fun coherent torn => torn_incoherent reached.1 reached.2 step torn coherent,
    step_coherent reached.1 reached.2 step⟩

theorem objects_coherent_until_torn_sample : Coherent sampleThread ∧ ¬ Coherent sampleTorn := by
  obtain ⟨s, ls, starts, run⟩ := sampleThread_run
  have untorn : Run (fun s l t => Step s l t ∧ ¬ Tears s l t) s ls sampleThread := by
    refine run_mono (fun _ _ _ step => ⟨step.1, fun torn => ?_⟩) run
    cases torn with
    | thrown | completed => exact step.2 _ _ rfl
  obtain ⟨before, iff⟩ := objects_coherent_until_torn starts untorn sampleThread_torn
  refine ⟨before, fun coherent => iff.mp coherent ?_⟩
  have assigned : sampleTorn.objects true = some ⟨16, 12, 9⟩ := rfl
  exact .completed (p := ⟨4, 12, 7⟩) (q := ⟨8, INVALID_HANDLE_VALUE, 9⟩) rfl rfl assigned (by decide) rfl rfl (by decide)

/-! ## The objects of a launch -/

/-- What a launch calls: an object is made for the child, copied into the
    `IATModifier`, and both are destroyed, also where something throws. -/
def Plain : Label Name → Prop
  | .assign _ _ => False
  | .startThread _ _ _ => False
  | .waitForThread _ => False
  | _ => True

/-- Every object has a process handle, and none has a thread. -/
def Threadless (s : System Name) : Prop :=
  ∀ n p, s.objects n = some p → Proper p.hProcess_ ∧ p.hThread_ = INVALID_HANDLE_VALUE

theorem step_threadless (good : Good s) (threadless : Threadless s) (step : Step s l t) (plain : Plain l) : Threadless t := by
  intro n p is'
  by_cases called : l.object = some n
  · cases step with
    | @construct _ processID p t free ends =>
      obtain rfl := Option.some.inj called
      obtain rfl : p = _ := by simpa using is'
      obtain ⟨_, _, threadless', opens⟩ := leads_returns (construct_leads good free processID) ends
      exact ⟨opens.1, threadless'⟩
    | @copy _ m q p t free is ends =>
      obtain rfl := Option.some.inj called
      obtain rfl : p = _ := by simpa using is'
      obtain ⟨does, _, members⟩ := leads_returns (copy_leads good free is) ends
      constructor
      · rcases members .hProcess_ with ⟨invalid, _⟩ | copied
        · exact absurd invalid (threadless m q is).1.2
        · exact copied_proper does.clean copied
      · rcases members .hThread_ with ⟨_, left⟩ | ⟨e, there, _⟩
        · exact left
        · exact absurd (threadless m q is).2 (proper_of_open good.clean there).2
    | construct_throws free | copy_throws free =>
      obtain rfl := Option.some.inj called
      exact absurd (free.symm.trans is') (by simp)
    | destroy =>
      obtain rfl := Option.some.inj called
      simp at is'
    | assign | startThread | waitForThread | waitForThread_throws => exact plain.elim
    | appear | vanish => cases called
  · exact threadless n p (step_elsewhere good step called is').1

theorem plain_lossless (good : Good s) (threadless : Threadless s) (step : Step s l t) (plain : Plain l) : ¬ Lossy s l t := by
  intro lossy
  cases lossy with
  | assign | startThread => exact plain.elim
  | copy thrown opened =>
    cases step with
    | copy => simp at thrown
    | @copy_throws _ _ q _ _ free is ends =>
      rcases leads_throws (copy_leads good free is) ends with same | ⟨thread, _⟩
      · exact opened same
      · exact thread (threadless _ q is).2

/-- In a run as a launch makes it, whatever calls fail, the open handles are those
    of the objects: each has one, for the process that it names, and none has a
    thread. When all objects are destroyed, nothing that they opened is open. -/
theorem launch_handles {ls : List (Label Name)} (starts : Starts s)
    (run : Run (Restrict Step fun _ l => Plain l) s ls t) :
    (∀ n p, t.objects n = some p → p.hThread_ = INVALID_HANDLE_VALUE ∧
      t.table p.hProcess_ = some ⟨.process p.processID_, true⟩) ∧
    ∀ k c, t.table k = some ⟨c, true⟩ → ∃ n p, t.objects n = some p ∧ p.hProcess_ = k := by
  have step_keeps (s : System Name) (l : Label Name) (t : System Name)
      (holds : Good s ∧ Coherent s ∧ Threadless s ∧ ∀ k, ¬ Lost s.view k) (step : Restrict Step (fun _ l => Plain l) s l t) :
      Good t ∧ Coherent t ∧ Threadless t ∧ ∀ k, ¬ Lost t.view k := by
    obtain ⟨good, coherent, threadless, kept⟩ := holds
    obtain ⟨step, plain⟩ := step
    have untorn : ¬ Tears s l t := by
      intro torn
      cases torn with
      | thrown | completed => exact plain.elim
    exact ⟨step_good good step, step_coherent good coherent step untorn, step_threadless good threadless step plain,
      fun k lost => kept k (lost_before good step (plain_lossless good threadless step plain) lost)⟩
  have begins : ∀ k, ¬ Lost s.view k := by
    rintro k ⟨⟨c, there⟩, _⟩
    cases (starts.2 k _ there).2
  obtain ⟨good, coherent, threadless, kept⟩ := run_invariant step_keeps run
    ⟨good_starts starts, coherent_starts starts, fun n p is => by simp [starts.1] at is, begins⟩
  refine ⟨fun n p is => ⟨(threadless n p is).2, coherent.whole n p is .hProcess_ (threadless n p is).1⟩, fun k c there => ?_⟩
  by_contra unheld
  refine kept k ((lost_view good k).mpr ⟨⟨c, there⟩, fun n p f is same => ?_⟩)
  cases f with
  | hProcess_ => exact unheld ⟨n, p, is, same⟩
  | hThread_ => exact (proper_of_open good.clean there).2 (same.symm.trans (threadless n p is).2)

/-- The object for the child, and a copy of it. -/
def sampleCopied : System Bool where
  table := update sampleFirst.table 8 (some ⟨.process 7, true⟩)
  objects := update sampleFirst.objects false (some ⟨8, INVALID_HANDLE_VALUE, 7⟩)

/-- The copy alone. -/
def sampleLeft : System Bool where
  table := update sampleCopied.table 4 none
  objects := update sampleCopied.objects true none

/-- The object is copied at the second attempt, and destroyed before the copy. -/
theorem sampleLeft_run : Run (Restrict Step fun _ l => Plain l) (System.mk (fun _ => none) fun _ => none)
    [.construct true 7, .copy false true, .copy false true, .destroy true] sampleLeft := by
  have failed : kernel (.DuplicateHandle 4 INVALID_HANDLE_VALUE) sampleFirst.table (false, NULL) sampleFirst.table :=
    .inl ⟨rfl, .inr rfl, rfl⟩
  have throws : Step sampleFirst (.copy false true) sampleFirst :=
    .copy_throws (q := ⟨4, INVALID_HANDLE_VALUE, 7⟩) rfl rfl (.call failed (.raise _ _))
  have duplicated : kernel (.DuplicateHandle 4 INVALID_HANDLE_VALUE) sampleFirst.table (true, 8) sampleCopied.table :=
    .inr ⟨rfl, ⟨.process 7, true⟩, rfl, by decide, rfl, rfl⟩
  have copied : Step sampleFirst (.copy false true) sampleCopied :=
    .copy (q := ⟨4, INVALID_HANDLE_VALUE, 7⟩) (p := ⟨8, INVALID_HANDLE_VALUE, 7⟩) rfl rfl (.call duplicated (.ret _ _))
  have closed : kernel (.CloseHandle 4) sampleCopied.table () sampleLeft.table := rfl
  have destroyed : Step sampleCopied (.destroy true) sampleLeft :=
    .destroy (p := ⟨4, INVALID_HANDLE_VALUE, 7⟩) rfl (.call closed (.ret _ _))
  exact run_cons ⟨sampleFirst_opened, trivial⟩ (run_cons ⟨throws, trivial⟩ (run_cons ⟨copied, trivial⟩
    (run_single ⟨destroyed, trivial⟩)))

theorem launch_handles_sample : sampleLeft.table 8 = some ⟨.process 7, true⟩ ∧ sampleLeft.table 4 = none ∧
    ∃ n p, sampleLeft.objects n = some p ∧ p.hProcess_ = 8 := by
  obtain ⟨owned, held⟩ := launch_handles ⟨fun _ => rfl, by simp⟩ sampleLeft_run
  exact ⟨(owned false ⟨8, INVALID_HANDLE_VALUE, 7⟩ rfl).2, rfl, held 8 (.process 7) rfl⟩

end

end Sysintercept.Ownership
