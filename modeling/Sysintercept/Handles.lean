import Sysintercept.Environments
import Sysintercept.Holdings
import Sysintercept.Iat

/-!
# The handles of `Process` objects

What the members of `Process` open, duplicate, close and overwrite, whatever the
system answers. `NULL` and `INVALID_HANDLE_VALUE` both stand for no handle, and
the members do not agree on which.
-/
namespace Sysintercept.Handles
open Sysintercept.Effects Sysintercept.Environments Sysintercept.Automaton Sysintercept.Holdings Sysintercept.Iat Function

/-! ## The system's part -/

def NULL : UInt32 := 0

/-- Also what `GetCurrentProcess` returns: where a process is asked for, it is the calling one. -/
def INVALID_HANDLE_VALUE : UInt32 := 0xFFFFFFFF

/-- What a handle refers to. -/
inductive Referent
  | process (processID : UInt32)
  | thread (processID : UInt32)
  deriving DecidableEq

/-- The handles that are open in the launcher, its own code's and those of `Process` objects. -/
abbrev Table := UInt32 → Option (Entry Referent)

/-- The calls on handles; `DuplicateHandle` comes with what `*hDest` holds before. -/
inductive HandleOp
  | OpenProcess (processID : UInt32)
  | DuplicateHandle (hSrc hDest : UInt32)
  | CreateRemoteThread (hProcess lpStartAddress lpParameter : UInt32)
  | SetThreadPriority (hThread nPriority : UInt32)
  | WaitForSingleObject (hHandle : UInt32)
  | CloseHandle (hObject : UInt32)

/-- `OpenProcess` returns a handle or leaves an error code; `DuplicateHandle` says
    whether it succeeded, and leaves something in `*hDest`. -/
abbrev HandleOp.Resp : HandleOp → Type
  | .OpenProcess _ => Except UInt32 UInt32
  | .DuplicateHandle _ _ => Bool × UInt32
  | .CreateRemoteThread .. => UInt32
  | _ => Unit

/-- A value that stands for a handle. -/
def Proper (h : UInt32) : Prop := h ≠ NULL ∧ h ≠ INVALID_HANDLE_VALUE

instance (h : UInt32) : Decidable (Proper h) := inferInstanceAs (Decidable (_ ∧ _))

/-- The handle that a value stands for, if it does. -/
def held (h : UInt32) : Option UInt32 := if Proper h then some h else none

/-- A new handle is open with a value that no open handle has. -/
def Opens (s : Table) (r : UInt32) (c : Referent) (t : Table) : Prop :=
  Proper r ∧ s r = none ∧ t = update s r (some ⟨c, true⟩)

/-- A call that fails may leave `*hDest` as it is or clear it. Waiting for the own
    process to end does not come to an end. -/
def kernel : Environment HandleOp HandleOp.Resp Table
  | .OpenProcess _, s, .error _, t => t = s
  | .OpenProcess processID, s, .ok r, t => Opens s r (.process processID) t
  | .DuplicateHandle hSrc hDest, s, r, t =>
    (r.1 = false ∧ (r.2 = hDest ∨ r.2 = NULL) ∧ t = s) ∨ (r.1 = true ∧ ∃ e, s hSrc = some e ∧ Opens s r.2 e.content t)
  | .CreateRemoteThread hProcess _ _, s, r, t =>
    (r = NULL ∧ t = s) ∨ ∃ processID b, s hProcess = some ⟨.process processID, b⟩ ∧ Opens s r (.thread processID) t
  | .SetThreadPriority .., s, _, t => t = s
  | .WaitForSingleObject hHandle, s, _, t => hHandle ≠ INVALID_HANDLE_VALUE ∧ t = s
  | .CloseHandle hObject, s, _, t => t = update s hObject none

/-! ## Process -/

structure Process where
  hProcess_ : UInt32
  hThread_ : UInt32
  processID_ : UInt32
  deriving DecidableEq

abbrev Handling := Prog HandleOp HandleOp.Resp Thrown

/-- A call with its answer. -/
def perform (op : HandleOp) : Handling op.Resp := .call op .ret

/-- Returns whether it succeeded, and what `*hDest` holds then. -/
def duplicateHandle (hSrc hDest : UInt32) : Handling (Bool × UInt32) :=
  if hSrc = INVALID_HANDLE_VALUE then pure (true, hDest) else perform (.DuplicateHandle hSrc hDest)

def Process.construct (processID : UInt32) : Handling Process := do
  match ← perform (.OpenProcess processID) with
  | .ok hProcess_ => return { hProcess_, hThread_ := INVALID_HANDLE_VALUE, processID_ := processID }
  | .error lastErr => .raise (.ProcessHandleException ("Failed to get appropriate process access rights for process id: " ++
      toString processID ++ ", system error code: " ++ toString lastErr))

def Process.copy (instance_ : Process) : Handling Process := do
  let (duplicated, hProcess_) ← duplicateHandle instance_.hProcess_ INVALID_HANDLE_VALUE
  if !duplicated then .raise (.ProcessHandleException "Failed to duplicate handle!")
  else
    let (duplicated, hThread_) ← duplicateHandle instance_.hThread_ INVALID_HANDLE_VALUE
    if !duplicated then .raise (.ProcessHandleException "Failed to duplicate handle!")
    else return { hProcess_, hThread_, processID_ := instance_.processID_ }

/-- `operator=`; the object keeps what was assigned before it throws. -/
def Process.assign (this instance_ : Process) : Handling (Process × Except Thrown Unit) := do
  let (duplicated, hProcess_) ← duplicateHandle instance_.hProcess_ this.hProcess_
  let this := { this with hProcess_ }
  if !duplicated then return (this, .error (.ProcessHandleException "Failed to duplicate handle!"))
  else
    let (duplicated, hThread_) ← duplicateHandle instance_.hThread_ this.hThread_
    let this := { this with hThread_ }
    if !duplicated then return (this, .error (.ProcessHandleException "Failed to duplicate handle!"))
    else return ({ this with processID_ := instance_.processID_ }, .ok ())

/-- The destructor. -/
def Process.destroy (this : Process) : Handling Unit := do
  if this.hProcess_ ≠ INVALID_HANDLE_VALUE then perform (.CloseHandle this.hProcess_)
  if this.hThread_ ≠ INVALID_HANDLE_VALUE then perform (.CloseHandle this.hThread_)

def THREAD_PRIORITY_TIME_CRITICAL : UInt32 := 15

def Process.startThread (this : Process) (address param : UInt32) : Handling (Process × Bool) := do
  let hThread_ ← perform (.CreateRemoteThread this.hProcess_ address param)
  if hThread_ ≠ INVALID_HANDLE_VALUE then perform (.SetThreadPriority hThread_ THREAD_PRIORITY_TIME_CRITICAL)
  return ({ this with hThread_ }, hThread_ != NULL)

/-- Only `NULL` is refused, not the `INVALID_HANDLE_VALUE` of an object without a thread. -/
def Process.waitForThread (this : Process) : Handling Process := do
  if this.hThread_ = NULL then .raise (.runtime_error "Invalid thread handle")
  else
    perform (.WaitForSingleObject this.hThread_)
    perform (.CloseHandle this.hThread_)
    return { this with hThread_ := NULL }

/-! ## What each member does to the table -/

/-- The two members that hold a handle. -/
inductive Field
  | hProcess_ | hThread_
  deriving DecidableEq

def Process.handle (p : Process) : Field → UInt32
  | .hProcess_ => p.hProcess_
  | .hThread_ => p.hThread_

/-- No handle is open with one of the two values that stand for none. -/
def Clean (s : Table) : Prop := ∀ h, s h ≠ none → Proper h

theorem proper_of_open {s : Table} (clean : Clean s) {h : UInt32} {e : Entry Referent} (there : s h = some e) : Proper h :=
  clean h (by simp [there])

theorem held_eq {h k : UInt32} : held h = some k ↔ h = k ∧ Proper k := by
  unfold held
  by_cases proper : Proper h
  · simp only [if_pos proper, Option.some.injEq]
    exact ⟨fun same => ⟨same, same ▸ proper⟩, And.left⟩
  · simp only [if_neg proper, reduceCtorEq, false_iff, not_and]
    rintro rfl
    exact proper

theorem proper_of_held {h : UInt32} (full : held h ≠ none) : Proper h := by
  by_contra improper
  exact full (if_neg improper)

@[simp] theorem held_INVALID : held INVALID_HANDLE_VALUE = none := rfl

theorem clean_new {s : Table} (clean : Clean s) {h : UInt32} (proper : Proper h) (e : Entry Referent) :
    Clean (update s h (some e)) := by
  intro k there
  by_cases same : k = h
  · exact same ▸ proper
  · exact clean k (by rwa [update_of_ne same] at there)

theorem clean_opens {s t : Table} {r : UInt32} {c : Referent} (clean : Clean s) (opens : Opens s r c t) : Clean t := by
  obtain ⟨proper, _, rfl⟩ := opens
  exact clean_new clean proper _

/-- Closing a value that stands for no handle changes nothing. -/
theorem close_improper {s : Table} (clean : Clean s) {h : UInt32} (improper : ¬ Proper h) : update s h none = s := by
  have none_ : s h = none := by
    by_contra there
    exact improper (clean h there)
  rw [← none_, update_eq_self]

theorem clean_close {s : Table} (clean : Clean s) (h : UInt32) : Clean (update s h none) := by
  intro k there
  by_cases same : k = h
  · subst same
    simp at there
  · exact clean k (by rwa [update_of_ne same] at there)

section
variable {Slot : Type} [DecidableEq Slot] {own : Slot → Prop} {x : Slot} {slot : Slot → Option UInt32} {s t : Table}

/-- A new handle goes into a slot. -/
theorem opens_carries (mine : own x) {r : UInt32} {c : Referent} (opens : Opens s r c t) {drops : Prop}
    (full : slot x ≠ none → drops) : Carries own drops ⟨s, slot⟩ ⟨t, update slot x (held r)⟩ := by
  obtain ⟨proper, fresh, rfl⟩ := opens
  have holds : held r = some r := held_eq.mpr ⟨rfl, proper⟩
  rw [holds]
  exact carries_acquire (s := ⟨s, slot⟩) mine c fresh full

/-- Closing what a member holds, be it `NULL`. -/
theorem close_carries (mine : own x) (clean : Clean s) {h : UInt32} (holds : slot x = held h) {drops : Prop} :
    Carries own drops ⟨s, slot⟩ ⟨update s h none, update slot x none⟩ := by
  by_cases proper : Proper h
  · exact carries_release (s := ⟨s, slot⟩) mine (holds.trans (held_eq.mpr ⟨rfl, proper⟩))
  · have empty : slot x = none := by rw [holds, held, if_neg proper]
    rw [close_improper clean proper, ← empty, update_eq_self]
    exact carries_refl _

theorem opens_self {s t : Table} {r : UInt32} {c : Referent} (opens : Opens s r c t) : t r = some ⟨c, true⟩ := by
  rw [opens.2.2]
  exact update_self _ _ _

theorem grows_opens {s t : Table} {r : UInt32} {c : Referent} (opens : Opens s r c t) (k : UInt32) (e : Entry Referent)
    (there : s k = some e) : t k = some e := by
  obtain ⟨_, fresh, rfl⟩ := opens
  have other : k ≠ r := by
    rintro rfl
    simp [fresh] at there
  exact (update_of_ne other _ _).trans there

/-- What `duplicateHandle` leaves: the answer and `*hDest`, the table, and the
    slot that stands for `*hDest`. -/
structure Duplicated (own : Slot → Prop) (s : Table) (slot : Slot → Option UInt32) (x : Slot) (hSrc hDest : UInt32)
    (r : Bool × UInt32) (t : Table) : Prop where
  carries : Carries own (slot x ≠ none ∧ r.2 ≠ hDest) ⟨s, slot⟩ ⟨t, update slot x (held r.2)⟩
  duplicated : r.1 = true → (hSrc = INVALID_HANDLE_VALUE ∧ r.2 = hDest ∧ t = s) ∨
    ∃ e, s hSrc = some e ∧ Opens s r.2 e.content t
  failed : r.1 = false → hSrc ≠ INVALID_HANDLE_VALUE ∧ (r.2 = hDest ∨ r.2 = NULL) ∧ t = s

/-- It closes nothing. -/
theorem duplicated_grows {hSrc hDest : UInt32} {r : Bool × UInt32} (made : Duplicated own s slot x hSrc hDest r t)
    (k : UInt32) (e : Entry Referent) (there : s k = some e) : t k = some e := by
  cases succeeded : r.1 with
  | false => exact (made.failed succeeded).2.2 ▸ there
  | true =>
    rcases made.duplicated succeeded with ⟨_, _, rfl⟩ | ⟨_, _, opens⟩
    · exact there
    · exact grows_opens opens k e there

/-- What `*hDest` holds is what it held, or `NULL`, or new. -/
theorem duplicated_member {hSrc hDest : UInt32} {r : Bool × UInt32} (made : Duplicated own s slot x hSrc hDest r t) :
    r.2 = hDest ∨ r.2 = NULL ∨ s r.2 = none := by
  cases succeeded : r.1 with
  | false => exact (made.failed succeeded).2.1.imp_right .inl
  | true =>
    rcases made.duplicated succeeded with ⟨_, left, _⟩ | ⟨_, _, opens⟩
    · exact .inl left
    · exact .inr (.inr opens.2.1)

theorem duplicated_clean {hSrc hDest : UInt32} {r : Bool × UInt32} (clean : Clean s)
    (made : Duplicated own s slot x hSrc hDest r t) : Clean t := by
  cases succeeded : r.1 with
  | false => exact (made.failed succeeded).2.2 ▸ clean
  | true =>
    rcases made.duplicated succeeded with ⟨_, _, rfl⟩ | ⟨_, _, opens⟩
    · exact clean
    · exact clean_opens clean opens

/-- A value that is left as it was, or cleared. -/
theorem carries_left (mine : own x) {h h' : UInt32} (holds : slot x = held h) (left : h' = h ∨ h' = NULL) :
    Carries own (slot x ≠ none ∧ h' ≠ h) ⟨s, slot⟩ ⟨s, update slot x (held h')⟩ := by
  by_cases same : h' = h
  · rw [same, ← holds, update_eq_self]
    exact carries_refl _
  · rcases left with impossible | rfl
    · exact absurd impossible same
    · exact carries_forget (s := ⟨s, slot⟩) mine fun full => ⟨full, same⟩

theorem duplicateHandle_leads (own : Slot → Prop) (slot : Slot → Option UInt32) (mine : own x)
    (sound : Sound ⟨s, slot⟩) (hSrc hDest : UInt32)
    (holds : slot x = held hDest) :
    Leads kernel (Duplicated own s slot x hSrc hDest) (fun _ _ => False) False (duplicateHandle hSrc hDest) s := by
  unfold duplicateHandle
  by_cases invalid : hSrc = INVALID_HANDLE_VALUE
  · rw [if_pos invalid]
    exact ⟨carries_left mine holds (.inl rfl), fun _ => .inl ⟨invalid, rfl, rfl⟩, by simp⟩
  · rw [if_neg invalid]
    rintro ⟨b, r⟩ t (⟨failed, left, rfl⟩ | ⟨succeeded, e, there, opens⟩)
    · obtain rfl : b = false := failed
      exact ⟨carries_left mine holds left, by simp, fun _ => ⟨invalid, left, rfl⟩⟩
    · obtain rfl : b = true := succeeded
      have apart : slot x ≠ none → r ≠ hDest := by
        rintro full rfl
        obtain ⟨k, is⟩ := Option.ne_none_iff_exists'.mp full
        obtain ⟨rfl, _⟩ := held_eq.mp (holds.symm.trans is)
        exact held_open sound is opens.2.1
      exact ⟨opens_carries mine opens fun full => ⟨full, apart full⟩, fun _ => .inr ⟨e, there, opens⟩, by simp⟩

end

/-! ## What each member does to its object -/

section
variable {Name : Type}

/-- The launcher's handles, and its `Process` objects. -/
structure System (Name : Type) where
  table : Table
  objects : Name → Option Process

/-- The members of the objects are the slots. -/
def System.view (s : System Name) : Holdings.State (Name × Field) UInt32 Referent where
  table := s.table
  slot x := (s.objects x.1).bind fun p => held (p.handle x.2)

theorem view_slot {s : System Name} {n : Name} {p : Process} (is : s.objects n = some p) (f : Field) :
    s.view.slot (n, f) = held (p.handle f) := by
  simp [System.view, is]

theorem view_none {s : System Name} {n : Name} (free : s.objects n = none) (f : Field) : s.view.slot (n, f) = none := by
  simp [System.view, free]

/-- A member that is a duplicate of another object's. -/
def Copied (s : System Name) (q p : Process) (t : Table) (f : Field) : Prop :=
  ∃ e, s.table (q.handle f) = some e ∧ t (p.handle f) = some ⟨e.content, true⟩

structure Good (s : System Name) : Prop where
  clean : Clean s.table
  sound : Sound s.view

/-- What is found under a member once more handles are open was there before. -/
theorem source_open {m : Name} {q : Process} {s : System Name} (good : Good s) (is : s.objects m = some q)
    {f : Field} {t : Table} (clean : Clean t)
    (grows : ∀ k e, s.table k = some e → t k = some e) {e : Entry Referent} (there : t (q.handle f) = some e) :
    s.table (q.handle f) = some e := by
  have proper : Proper (q.handle f) := proper_of_open clean there
  obtain ⟨c, before⟩ := good.sound.held (m, f) (q.handle f) ((view_slot is f).trans (held_eq.mpr ⟨rfl, proper⟩))
  exact before.trans ((grows _ _ before).symm.trans there)

variable [DecidableEq Name]

/-- An object takes on new members. -/
theorem view_put (s : System Name) (n : Name) (p : Process) (t : Table) :
    System.view ⟨t, update s.objects n (some p)⟩ =
      ⟨t, update (update s.view.slot (n, .hProcess_) (held p.hProcess_)) (n, .hThread_) (held p.hThread_)⟩ := by
  unfold System.view
  congr
  funext ⟨m, f⟩
  by_cases same : m = n
  · subst same
    cases f with
    | hProcess_ => simp [update_of_ne, Process.handle]
    | hThread_ => simp [Process.handle]
  · simp [same, update_of_ne]

theorem view_remove (s : System Name) (n : Name) (t : Table) :
    System.view ⟨t, update s.objects n none⟩ =
      ⟨t, update (update s.view.slot (n, .hProcess_) none) (n, .hThread_) none⟩ := by
  unfold System.view
  congr
  funext ⟨m, f⟩
  by_cases same : m = n
  · subst same
    cases f with
    | hProcess_ => simp [update_of_ne]
    | hThread_ => simp
  · simp [same, update_of_ne]

/-- Slots of the object are changed, and no others. -/
abbrev Of (n : Name) (x : Name × Field) : Prop := x.1 = n

/-- A member of an object leads from one system to another: only its own slots
    change, and a handle is dropped out of them only under a condition. -/
structure Does (n : Name) (drops : Prop) (s t : System Name) : Prop where
  clean : Clean t.table
  carries : Carries (Of n) drops s.view t.view

variable {s : System Name} {n : Name}

theorem construct_leads (good : Good s) (free : s.objects n = none) (processID : UInt32) :
    Leads kernel (fun p t => Does n False s ⟨t, update s.objects n (some p)⟩ ∧ p.processID_ = processID ∧
        p.hThread_ = INVALID_HANDLE_VALUE ∧ Opens s.table p.hProcess_ (.process processID) t)
      (fun _ t => t = s.table) False (Process.construct processID) s.table := by
  rintro (lastErr | r) t answered
  · exact answered
  · have opens : Opens s.table r (.process processID) t := answered
    refine ⟨⟨clean_opens good.clean opens, ?_⟩, rfl, rfl, opens⟩
    rw [view_put]
    have first : Carries (Of n) False s.view ⟨t, update s.view.slot (n, .hProcess_) (held r)⟩ :=
      opens_carries (show Of n (n, .hProcess_) from rfl) opens fun full => absurd (view_none free _) full
    refine carries_trans first ?_
    have empty : update s.view.slot (n, .hProcess_) (held r) (n, .hThread_) = held INVALID_HANDLE_VALUE := by
      simp [update_of_ne, view_none free]
    rw [← empty, update_eq_self]
    exact carries_refl _

/-- The copy constructor makes an object whose members are duplicates, or throws.
    Where it throws it may have made one handle, which no object holds. -/
theorem copy_leads (good : Good s) (free : s.objects n = none) {m : Name} {q : Process} (is : s.objects m = some q) :
    Leads kernel (fun p t => Does n False s ⟨t, update s.objects n (some p)⟩ ∧ p.processID_ = q.processID_ ∧
        ∀ f, (q.handle f = INVALID_HANDLE_VALUE ∧ p.handle f = INVALID_HANDLE_VALUE) ∨ Copied s q p t f)
      (fun _ t => t = s.table ∨ (q.hThread_ ≠ INVALID_HANDLE_VALUE ∧ ∃ k c, Opens s.table k c t)) False (Process.copy q)
      s.table := by
  have empty (f : Field) : s.view.slot (n, f) = held INVALID_HANDLE_VALUE := view_none free f
  refine leads_bind (leads_mono (duplicateHandle_leads (Of n) s.view.slot rfl good.sound q.hProcess_ INVALID_HANDLE_VALUE
    (empty .hProcess_)) ?_ (fun _ _ => False.elim) id)
  rintro ⟨b, h⟩ t made
  cases b with
  | false => exact .inl (made.failed rfl).2.2
  | true =>
    have first := made.carries
    have empty' : update s.view.slot (n, .hProcess_) (held h) (n, .hThread_) = held INVALID_HANDLE_VALUE :=
      (update_of_ne (by simp) _ _).trans (empty .hThread_)
    refine leads_bind (leads_mono (duplicateHandle_leads (Of n) _ rfl (carries_sound good.sound first) q.hThread_
      INVALID_HANDLE_VALUE empty') ?_ (fun _ _ => False.elim) id)
    rintro ⟨b, h'⟩ t' made'
    cases b with
    | false =>
      obtain ⟨thread, _, rfl⟩ := made'.failed rfl
      rcases made.duplicated rfl with ⟨_, _, same⟩ | ⟨e, _, opens⟩
      · exact .inl same
      · exact .inr ⟨thread, h, e.content, opens⟩
    | true =>
      refine ⟨⟨duplicated_clean (duplicated_clean good.clean made) made', ?_⟩, rfl, ?_⟩
      · rw [view_put]
        have second := made'.carries
        refine carries_trans (carries_mono first ?_) (carries_mono second ?_)
        · exact fun full => full.1 (empty .hProcess_)
        · exact fun full => full.1 empty'
      · rintro (_ | _)
        · rcases made.duplicated rfl with ⟨invalid, left, _⟩ | ⟨e, there, opens⟩
          · exact .inl ⟨invalid, left⟩
          · exact .inr ⟨e, there, duplicated_grows made' _ _ (opens_self opens)⟩
        · rcases made'.duplicated rfl with ⟨invalid, left, _⟩ | ⟨e, there, opens⟩
          · exact .inl ⟨invalid, left⟩
          · exact .inr ⟨e, source_open good is (duplicated_clean good.clean made) (duplicated_grows made) there,
              opens_self opens⟩

/-- What an assignment leaves, whether it completes or throws. -/
structure Assigned (s : System Name) (p q : Process) (r : Process × Except Thrown Unit) (t : Table) : Prop where
  grows : ∀ k e, s.table k = some e → t k = some e
  member : ∀ f, r.1.handle f = p.handle f ∨ r.1.handle f = NULL ∨ s.table (r.1.handle f) = none
  completed : r.2 = .ok () → r.1.processID_ = q.processID_ ∧
    ∀ f, (q.handle f = INVALID_HANDLE_VALUE ∧ r.1.handle f = p.handle f) ∨ Copied s q r.1 t f
  thrown : ∀ e, r.2 = .error e → r.1.processID_ = p.processID_ ∧ (r.1.hThread_ = p.hThread_ ∨ r.1.hThread_ = NULL) ∧
    ((r.1.hProcess_ = p.hProcess_ ∨ r.1.hProcess_ = NULL) ∨ Copied s q r.1 t .hProcess_)

/-- An assignment puts duplicates into the object, over whatever it holds. -/
theorem assign_leads (good : Good s) {m : Name} {p q : Process} (is : s.objects n = some p) (is' : s.objects m = some q) :
    Leads kernel (fun r t => Does n (∃ f, Proper (p.handle f) ∧ r.1.handle f ≠ p.handle f) s
        ⟨t, update s.objects n (some r.1)⟩ ∧ Assigned s p q r t) (fun _ _ => False) False (Process.assign p q) s.table := by
  refine leads_bind (leads_mono (duplicateHandle_leads (Of n) s.view.slot rfl good.sound q.hProcess_ p.hProcess_
    (view_slot is .hProcess_)) ?_ (fun _ _ => id) id)
  rintro ⟨b, h⟩ t made
  have kept : update s.view.slot (n, .hProcess_) (held h) (n, .hThread_) = held p.hThread_ :=
    (update_of_ne (by simp) _ _).trans (view_slot is .hThread_)
  cases b with
  | false =>
    obtain ⟨_, left, rfl⟩ := made.failed rfl
    refine ⟨⟨good.clean, ?_⟩, fun _ _ => id, ?_, by simp, fun _ _ => ⟨rfl, .inl rfl, .inl left⟩⟩
    · rw [view_put, ← kept, update_eq_self]
      exact carries_mono made.carries fun full => ⟨.hProcess_, proper_of_held (view_slot is .hProcess_ ▸ full.1), full.2⟩
    · rintro (_ | _)
      · exact left.imp_right .inl
      · exact .inl rfl
  | true =>
    refine leads_bind (leads_mono (duplicateHandle_leads (Of n) _ rfl (carries_sound good.sound made.carries) q.hThread_
      p.hThread_ kept) ?_ (fun _ _ => id) id)
    rintro ⟨b, h'⟩ t' made'
    have carries : Carries (Of n) (∃ f, Proper (p.handle f) ∧ Process.handle ⟨h, h', p.processID_⟩ f ≠ p.handle f)
        s.view ⟨t', update (update s.view.slot (n, .hProcess_) (held h)) (n, .hThread_) (held h')⟩ := by
      refine carries_trans (carries_mono made.carries ?_) (carries_mono made'.carries ?_)
      · exact fun full => ⟨.hProcess_, proper_of_held (view_slot is .hProcess_ ▸ full.1), full.2⟩
      · exact fun full => ⟨.hThread_, proper_of_held (kept ▸ full.1), full.2⟩
    have clean := duplicated_clean (duplicated_clean good.clean made) made'
    have grows (k : UInt32) (e : Entry Referent) (there : s.table k = some e) : t' k = some e :=
      duplicated_grows made' k e (duplicated_grows made k e there)
    have member (f : Field) : Process.handle ⟨h, h', p.processID_⟩ f = p.handle f ∨
        Process.handle ⟨h, h', p.processID_⟩ f = NULL ∨ s.table (Process.handle ⟨h, h', p.processID_⟩ f) = none := by
      cases f with
      | hProcess_ => exact duplicated_member made
      | hThread_ =>
        refine (duplicated_member made').imp_right fun new => new.imp_right fun fresh => ?_
        by_contra there
        obtain ⟨e, is⟩ := Option.ne_none_iff_exists'.mp there
        exact absurd ((duplicated_grows made _ _ is).symm.trans fresh) (by simp)
    cases b with
    | false =>
      refine ⟨⟨clean, by rw [view_put]; exact carries⟩, grows, member, by simp, fun _ _ => ⟨rfl, (made'.failed rfl).2.1, ?_⟩⟩
      rcases made.duplicated rfl with ⟨_, left, _⟩ | ⟨e, there, opens⟩
      · exact .inl (.inl left)
      · exact .inr ⟨e, there, duplicated_grows made' _ _ (opens_self opens)⟩
    | true =>
      refine ⟨⟨clean, by rw [view_put]; exact carries⟩, grows, ?_, fun _ => ⟨rfl, ?_⟩, by simp⟩
      · rintro (_ | _)
        · exact member .hProcess_
        · exact member .hThread_
      rintro (_ | _)
      · rcases made.duplicated rfl with ⟨invalid, left, _⟩ | ⟨e, there, opens⟩
        · exact .inl ⟨invalid, left⟩
        · exact .inr ⟨e, there, duplicated_grows made' _ _ (opens_self opens)⟩
      · rcases made'.duplicated rfl with ⟨invalid, left, _⟩ | ⟨e, there, opens⟩
        · exact .inl ⟨invalid, left⟩
        · exact .inr ⟨e, source_open good is' (duplicated_clean good.clean made) (duplicated_grows made) there,
            opens_self opens⟩

/-- A thread that is started replaces whatever thread handle the object has. -/
theorem startThread_leads (good : Good s) {p : Process} (is : s.objects n = some p) (address param : UInt32) :
    Leads kernel (fun r t => Does n (Proper p.hThread_) s ⟨t, update s.objects n (some r.1)⟩ ∧
        r.1 = { p with hThread_ := r.1.hThread_ } ∧ (∀ k e, s.table k = some e → t k = some e) ∧
        ((r.1.hThread_ = NULL ∧ t = s.table) ∨ ∃ processID b, s.table p.hProcess_ = some ⟨.process processID, b⟩ ∧
          Opens s.table r.1.hThread_ (.thread processID) t))
      (fun _ _ => False) False (Process.startThread p address param) s.table := by
  have same : update s.view.slot (n, .hProcess_) (held p.hProcess_) = s.view.slot :=
    view_slot is .hProcess_ ▸ update_eq_self _ _
  have full : s.view.slot (n, .hThread_) ≠ none → Proper p.hThread_ := fun full =>
    proper_of_held (view_slot is .hThread_ ▸ full)
  rintro h t (⟨rfl, rfl⟩ | ⟨processID, b, there, opens⟩)
  · rintro _ _ rfl
    refine ⟨⟨good.clean, ?_⟩, rfl, fun _ _ => id, .inl ⟨rfl, rfl⟩⟩
    rw [view_put, same]
    exact carries_forget (s := s.view) rfl full
  · show Leads kernel _ _ _ (if h ≠ INVALID_HANDLE_VALUE then _ else _) t
    rw [if_pos opens.1.2]
    rintro _ _ rfl
    refine ⟨⟨clean_opens good.clean opens, ?_⟩, rfl, grows_opens opens, .inr ⟨processID, b, there, opens⟩⟩
    rw [view_put, same]
    exact opens_carries (show Of n (n, .hThread_) from rfl) opens full

/-- The thread handle is closed and cleared. -/
theorem waitForThread_leads (good : Good s) {p : Process} (is : s.objects n = some p) :
    Leads kernel (fun p' t => p' = { p with hThread_ := NULL } ∧ p.hThread_ ≠ INVALID_HANDLE_VALUE ∧
        t = update s.table p.hThread_ none ∧ Does n False s ⟨t, update s.objects n (some p')⟩)
      (fun _ t => p.hThread_ = NULL ∧ t = s.table) False (Process.waitForThread p) s.table := by
  unfold Process.waitForThread
  by_cases null : p.hThread_ = NULL
  · rw [if_pos null]
    exact ⟨null, rfl⟩
  · rw [if_neg null]
    rintro _ _ ⟨valid, rfl⟩ _ _ rfl
    refine ⟨rfl, valid, rfl, clean_close good.clean _, ?_⟩
    have same : update s.view.slot (n, .hProcess_) (held p.hProcess_) = s.view.slot :=
      view_slot is .hProcess_ ▸ update_eq_self _ _
    rw [view_put, same]
    exact close_carries (show Of n (n, .hThread_) from rfl) good.clean (view_slot is .hThread_)

/-- Waiting comes to an end unless the object has never had a thread: then the value
    that is waited for stands for the waiting process itself. -/
theorem waitForThread_ends_iff (p : Process) (t : Table) :
    (∃ x t', Ends kernel (Process.waitForThread p) t x t') ↔ p.hThread_ ≠ INVALID_HANDLE_VALUE := by
  unfold Process.waitForThread
  by_cases null : p.hThread_ = NULL
  · rw [if_pos null, null]
    exact ⟨fun _ => by decide, fun _ => ⟨_, t, .raise _ _⟩⟩
  · rw [if_neg null]
    constructor
    · rintro ⟨x, t', ends⟩
      cases ends with
      | call answered => exact answered.1
    · intro valid
      have waited : kernel (.WaitForSingleObject p.hThread_) t () t := ⟨valid, rfl⟩
      have closed : kernel (.CloseHandle p.hThread_) t () (update t p.hThread_ none) := rfl
      exact ⟨_, _, .call waited (.call closed (.ret _ _))⟩

/-- The destructor closes what the object holds. -/
theorem destroy_leads (good : Good s) {p : Process} (is : s.objects n = some p) :
    Leads kernel (fun _ t => t = update (update s.table p.hProcess_ none) p.hThread_ none ∧
      Does n False s ⟨t, update s.objects n none⟩) (fun _ _ => False) False (Process.destroy p) s.table := by
  have kept : update s.view.slot (n, .hProcess_) none (n, .hThread_) = held p.hThread_ :=
    (update_of_ne (by simp) _ _).trans (view_slot is .hThread_)
  have closed : Does n False s ⟨update (update s.table p.hProcess_ none) p.hThread_ none, update s.objects n none⟩ := by
    refine ⟨clean_close (clean_close good.clean _) _, ?_⟩
    rw [view_remove]
    exact carries_trans (close_carries (show Of n (n, .hProcess_) from rfl) good.clean (view_slot is .hProcess_))
      (close_carries (show Of n (n, .hThread_) from rfl) (clean_close good.clean p.hProcess_) kept)
  suffices Leads kernel (fun _ t => t = update (update s.table p.hProcess_ none) p.hThread_ none) (fun _ _ => False) False
      (Process.destroy p) s.table from leads_mono this (fun _ _ is => ⟨is, is ▸ closed⟩) (fun _ _ => id) id
  have skip {t : Table} (clean : Clean t) {h : UInt32} (invalid : h = INVALID_HANDLE_VALUE) : update t h none = t :=
    close_improper clean fun proper => proper.2 invalid
  unfold Process.destroy
  by_cases process : p.hProcess_ = INVALID_HANDLE_VALUE
  · rw [if_neg (not_not_intro process), skip good.clean process]
    by_cases thread : p.hThread_ = INVALID_HANDLE_VALUE
    · rw [if_neg (not_not_intro thread), skip good.clean thread]
      exact leads_return rfl
    · rw [if_pos thread]
      exact fun _ _ closes => closes
  · rw [if_pos process]
    rintro _ _ rfl
    by_cases thread : p.hThread_ = INVALID_HANDLE_VALUE
    · rw [if_neg (not_not_intro thread), skip (clean_close good.clean _) thread]
      exact leads_return rfl
    · rw [if_pos thread]
      exact fun _ _ closes => closes

end

end Sysintercept.Handles
