import Mathlib.Logic.Function.Basic
import Sysintercept.Environments
import Sysintercept.Iat

/-!
# Snapshots of modules and threads

The two members of `Process` that look through a snapshot of the system:
`getModules`, and the `getImageBase` that finds a thread by itself. Each opens
handles and has to close them on every path.
-/
namespace Sysintercept.Snapshots
open Sysintercept.Effects Sysintercept.Environments Sysintercept.Iat Function

section
variable {Module : Type}

def INVALID_HANDLE_VALUE : UInt32 := 0xFFFFFFFF
def TH32CS_SNAPTHREAD : UInt32 := 4
def TH32CS_SNAPMODULE : UInt32 := 8

/-- `remote` is a call of the members that read the process itself. -/
inductive SnapshotOp
  | CreateToolhelp32Snapshot (dwFlags th32ProcessID : UInt32)
  | Module32First (hSnapshot : UInt32)
  | Module32Next (hSnapshot : UInt32)
  | Thread32First (hSnapshot : UInt32)
  | OpenThread (dwThreadId : UInt32)
  | CloseHandle (hObject : UInt32)
  | remote (hThread : UInt32) (op : Op)

/-- A result, or the error code of a call that failed; closing is not checked. -/
abbrev SnapshotOp.Resp (Module : Type) : SnapshotOp → Type
  | .CreateToolhelp32Snapshot _ _ => Except UInt32 UInt32
  | .Module32First _ => Except UInt32 Module
  | .Module32Next _ => Except UInt32 Module
  | .Thread32First _ => Except UInt32 UInt32
  | .OpenThread _ => Except UInt32 UInt32
  | .CloseHandle _ => Unit
  | .remote _ op => op.Resp

abbrev Snapshooting (Module α : Type) := Prog SnapshotOp (SnapshotOp.Resp Module) Thrown α

def perform (op : SnapshotOp) : Snapshooting Module (op.Resp Module) := .call op .ret

/-- The loop of `getModules` from its condition on; `found` is never set. -/
def nextModules (hModulesSnap : UInt32) : Nat → List Module → Snapshooting Module (List Module)
  | 0, _ => .spin
  | fuel + 1, result => do
    match ← perform (.Module32Next hModulesSnap) with
    | .ok me32 => nextModules hModulesSnap fuel (result ++ [me32])
    | .error _ => return result

def getModules (fuel : Nat) (processID_ : UInt32) : Snapshooting Module (List Module) := do
  match ← perform (.CreateToolhelp32Snapshot TH32CS_SNAPMODULE processID_) with
  | .error err => .raise (.runtime_error ("Unable to create modules snapshot, last error: " ++ toString err ++ "\n"))
  | .ok hModulesSnap =>
    match ← perform (.Module32First hModulesSnap) with
    | .error err =>
      perform (.CloseHandle hModulesSnap)
      .raise (.runtime_error ("Unable to enumerate modules from snapshot, last error: " ++ toString err ++ "\n"))
    | .ok me32 =>
      let result ← nextModules hModulesSnap fuel [me32]
      perform (.CloseHandle hModulesSnap)
      return result

/-- The `getImageBase` without a thread; what it catches it throws again. -/
def getImageBase (processID_ : UInt32) : Snapshooting Module UInt32 := do
  match ← perform (.CreateToolhelp32Snapshot TH32CS_SNAPTHREAD processID_) with
  | .error _ => .raise (.runtime_error "Unable to create thread snapshot")
  | .ok hSnapshot =>
    match ← perform (.Thread32First hSnapshot) with
    | .error lastError =>
      perform (.CloseHandle hSnapshot)
      .raise (throwSysError "Unable to get first thread from snapshot" lastError)
    | .ok th32ThreadID =>
      perform (.CloseHandle hSnapshot)
      match ← perform (.OpenThread th32ThreadID) with
      | .error lastError => .raise (throwSysError "Error while retrieving thread handle" lastError)
      | .ok hThread =>
        Prog.catch_ (do
            let iba ← Process.getImageBase.embed (.remote hThread) (fun _ r => r)
            perform (.CloseHandle hThread)
            return iba)
          (fun e => do
            perform (.CloseHandle hThread)
            .raise e)

/-! ## What the system does -/

/-- What an open handle is: other code's, a snapshot that still lists some modules
    or threads, or a thread. -/
inductive Object (Module : Type)
  | other
  | modules (all rest : List Module)
  | threads (all : List UInt32)
  | thread (threadID : UInt32)

abbrev Open (Module : Type) := UInt32 → Option (Object Module)

/-- The modules of each process, and the threads of the whole system: a snapshot of
    threads has those of all processes. -/
structure Running (Module : Type) where
  modules : UInt32 → List Module
  threads : List UInt32

/-- A call that fails changes nothing. Where `exact` holds, going on in a snapshot
    fails at its end only. -/
def system (exact : Prop) (running : Running Module) : Environment SnapshotOp (SnapshotOp.Resp Module) (Open Module)
  | .CreateToolhelp32Snapshot _ _, s, .error _, t => t = s
  | .CreateToolhelp32Snapshot dwFlags th32ProcessID, s, .ok h, t => h ≠ INVALID_HANDLE_VALUE ∧ s h = none ∧
    t = update s h (some (if dwFlags = TH32CS_SNAPMODULE then
      .modules (running.modules th32ProcessID) (running.modules th32ProcessID) else .threads running.threads))
  | .Module32First _, s, .error _, t => t = s
  | .Module32First h, s, .ok me32, t =>
    ∃ rest before, s h = some (.modules (me32 :: rest) before) ∧ t = update s h (some (.modules (me32 :: rest) rest))
  | .Module32Next h, s, .error _, t => t = s ∧ (exact → ∃ all, s h = some (.modules all []))
  | .Module32Next h, s, .ok me32, t =>
    ∃ all rest, s h = some (.modules all (me32 :: rest)) ∧ t = update s h (some (.modules all rest))
  | .Thread32First _, s, .error _, t => t = s
  | .Thread32First h, s, .ok th32ThreadID, t => (∃ rest, s h = some (.threads (th32ThreadID :: rest))) ∧ t = s
  | .OpenThread _, s, .error _, t => t = s
  | .OpenThread dwThreadId, s, .ok h, t => h ≠ 0 ∧ s h = none ∧ t = update s h (some (.thread dwThreadId))
  | .CloseHandle h, s, _, t => t = update s h none
  | .remote _ _, s, _, t => t = s

variable {exact : Prop} {running : Running Module} {s : Open Module}

/-- Closing a handle that was opened meanwhile. -/
theorem close_opened {h : UInt32} (fresh : s h = none) (o : Option (Object Module)) : update (update s h o) h none = s := by
  rw [update_idem, ← fresh, update_eq_self]

/-- By induction over what the snapshot still lists: the loop comes to an end and
    adds that in its order, up to where going on fails. -/
theorem nextModules_leads {h : UInt32} {all : List Module} (rest : List Module) {fuel : Nat} (enough : rest.length < fuel)
    (found : List Module) (split : all = found ++ rest) :
    Leads (system exact running) (fun result t => ∃ left, t = update s h (some (.modules all left)) ∧
        all = result ++ left ∧ found <+: result ∧ (exact → left = []))
      (fun _ _ => False) False (nextModules h fuel found) (update s h (some (.modules all rest))) := by
  induction rest generalizing fuel found with
  | nil =>
    obtain ⟨fuel, rfl⟩ := Nat.exists_eq_succ_of_ne_zero (by omega : fuel ≠ 0)
    rintro (_ | me32) t answered
    · obtain ⟨rfl, _⟩ := answered
      exact ⟨[], rfl, split, List.prefix_rfl, fun _ => rfl⟩
    · obtain ⟨all', rest', there, _⟩ := answered
      simp at there
  | cons m rest ih =>
    obtain ⟨fuel, rfl⟩ := Nat.exists_eq_succ_of_ne_zero (by omega : fuel ≠ 0)
    rintro (_ | me32) t answered
    · obtain ⟨rfl, atEnd⟩ := answered
      refine ⟨m :: rest, rfl, split, List.prefix_rfl, fun holds => ?_⟩
      obtain ⟨all', there⟩ := atEnd holds
      simp at there
    · obtain ⟨all', rest', there, rfl⟩ := answered
      obtain ⟨rfl, rfl, rfl⟩ : all = all' ∧ m = me32 ∧ rest = rest' := by simpa using there
      rw [update_idem]
      refine leads_mono (ih (by simpa using enough) (found ++ [m]) (by simp [split])) ?_ (fun _ _ => id) id
      rintro result t ⟨left, is, whole, longer, ended⟩
      exact ⟨left, is, whole, (List.prefix_append found [m]).trans longer, ended⟩

/-- The modules come out as the snapshot lists them, up to where going on fails. -/
theorem getModules_leads {processID_ : UInt32} {fuel : Nat} (enough : (running.modules processID_).length ≤ fuel) :
    Leads (system exact running) (fun result t => t = s ∧ result <+: running.modules processID_ ∧ result ≠ [] ∧
        (exact → result = running.modules processID_))
      (fun _ t => t = s) False (getModules fuel processID_) s := by
  rintro (err | h) t answered
  · exact answered
  · obtain ⟨_, fresh, rfl⟩ := answered
    rintro (err | me32) t answered
    · obtain rfl := answered
      rintro _ _ rfl
      exact close_opened fresh _
    · obtain ⟨rest, before, there, rfl⟩ := answered
      obtain ⟨listed, _⟩ : running.modules processID_ = me32 :: rest ∧ running.modules processID_ = before := by
        simpa using there
      rw [update_idem]
      rw [listed, List.length_cons] at enough
      have shorter : rest.length < fuel := enough
      refine leads_bind (p := nextModules h fuel [me32]) (leads_mono
        (nextModules_leads rest shorter [me32] rfl) ?_ (fun _ _ => False.elim) id)
      rintro result t ⟨left, rfl, whole, ⟨more, grown⟩, ended⟩
      rintro _ _ rfl
      refine ⟨close_opened fresh _, ⟨left, by rw [listed, whole]⟩, by simp [← grown], fun holds => ?_⟩
      rw [listed, whole, ended holds, List.append_nil]

/-- What reads the process leaves the handles as they are. -/
theorem remote_leads (hThread : UInt32) :
    Leads (system exact running) (fun _ t => t = s) (fun _ t => t = s) False
      (Process.getImageBase.embed (.remote hThread) (fun _ r => r) : Snapshooting Module UInt32) s := by
  rintro (lastError | SegFs) t rfl
  · rfl
  · rintro (lastError | ldtEntry) t rfl
    · rfl
    · rintro (lastError | iba) t rfl
      · rfl
      · rintro (lastError | iba) t rfl
        · rfl
        · rfl

theorem getImageBase_leads (processID_ : UInt32) :
    Leads (system exact running) (fun _ t => t = s) (fun _ t => t = s) False (getImageBase processID_) s := by
  rintro (err | hSnapshot) t answered
  · exact answered
  · obtain ⟨_, fresh, rfl⟩ := answered
    rintro (lastError | th32ThreadID) t answered
    · obtain rfl := answered
      rintro _ _ rfl
      exact close_opened fresh _
    · obtain ⟨_, rfl⟩ := answered
      rintro _ _ rfl
      rw [close_opened fresh]
      rintro (lastError | hThread) t answered
      · exact answered
      · obtain ⟨_, fresh', rfl⟩ := answered
        refine leads_catch (leads_bind (leads_mono (remote_leads hThread) ?_ ?_ id))
        · rintro iba _ rfl
          rintro _ _ rfl
          exact close_opened fresh' _
        · rintro e _ rfl
          rintro _ _ rfl
          exact close_opened fresh' _

/-- Both members that look through a snapshot come to an end and leave the open
    handles as they found them, whatever the system answers and also when they
    throw. The modules that `getModules` returns are the first of the process in the
    snapshot's order, and all of them unless going on fails before the end. -/
theorem snapshots_closed (exact : Prop) (running : Running Module) (processID_ : UInt32) (s : Open Module) :
    (∀ fuel, (running.modules processID_).length ≤ fuel →
      Leads (system exact running) (fun result t => t = s ∧ result <+: running.modules processID_ ∧ result ≠ [] ∧
          (exact → result = running.modules processID_))
        (fun _ t => t = s) False (getModules fuel processID_) s) ∧
    Leads (system exact running) (fun _ t => t = s) (fun _ t => t = s) False (getImageBase processID_) s :=
  ⟨fun _ enough => getModules_leads enough, getImageBase_leads processID_⟩

/-- Two modules and a thread. -/
def sampleRunning : Running Nat := ⟨fun _ => [1, 2], [5]⟩

theorem snapshots_closed_sample :
    Leads (system True sampleRunning) (fun result t => t = (fun _ => none) ∧ result <+: [1, 2] ∧ result ≠ [] ∧
        (True → result = [1, 2]))
      (fun _ t => t = fun _ => none) False (getModules 2 7) (fun _ => none) :=
  (snapshots_closed True sampleRunning 7 fun _ => none).1 2 (by decide)

end

end Sysintercept.Snapshots
