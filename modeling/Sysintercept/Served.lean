import Sysintercept.Launcher

/-!
# Launches that succeed

From a free name, and as long as the system serves every call, a launch gets to
where its child runs.
-/
namespace Sysintercept.Served
open Sysintercept.Units Sysintercept.Rules Sysintercept.Buffers Sysintercept.Effects Sysintercept.Ipc Sysintercept.Iat
open Sysintercept.Patching Sysintercept.Automaton Sysintercept.Launcher

section
variable {Id : Type} {job : Job} {me : Id}

/-- The child is resumed and has not exited. -/
def Running (child : Child Id) : Prop := child.resumed = true ∧ child.exited = false

/-- While the child runs, no exception is thrown, and waiting for it does not
    return without its exit. -/
def Covered (s : State Id) (a : Action) : Prop :=
  ∀ child, s.launch.child = some child → Running child → a ≠ .throws ∧ a ≠ .wait false

/-- Before the child is resumed, every step is covered. -/
theorem covered_asleep {s : State Id} {child : Child Id} (is : s.launch.child = some child) (asleep : child.resumed = false)
    (a : Action) : Covered s a := by
  intro child' is' running
  obtain rfl := Option.some.inj (is.symm.trans is')
  rw [running.1] at asleep
  cases asleep

/-- The copying of the two paths runs to its end. -/
theorem copy_runs (job : Job) (me : Id) (names : Names Id) {child : Child Id} (asleep : child.resumed = false) (k : Nat) {n : Nat}
    {region : WString} (left : n + k = job.contents.length) (sized : region.length = job.contents.length)
    (copied : region.take n = job.contents.take n) :
    ∃ ls, Run (Restrict (Step job me) Covered) ⟨names, ⟨.share_copy n, region, some child⟩⟩ ls
      ⟨names, ⟨.share_copy job.contents.length, job.contents, some child⟩⟩ := by
  induction k generalizing n region with
  | zero =>
    obtain rfl : n = job.contents.length := left
    obtain rfl := contents_of_take sized copied
    exact ⟨[], .refl _⟩
  | succ k ih =>
    have within : n < job.contents.length := by omega
    have next : job.contents[n]? = some job.contents[n] := List.getElem?_eq_getElem within
    have fits : n < region.length := by omega
    have longer : (poke region n [job.contents[n]]).take (n + 1) = job.contents.take (n + 1) := by
      rw [take_poke_succ _ fits, copied, List.take_add_one, next]
      rfl
    obtain ⟨ls, rest⟩ := ih (n := n + 1) (by omega) ((poke_length (Nat.succ_le_of_lt fits)).trans sized) longer
    exact ⟨_, run_cons ⟨.launcher (.share_copy rfl next), covered_asleep rfl asleep _⟩ rest⟩

/-- The injection takes the answers of the system one by one, and they are recorded. -/
theorem remote_runs (me : Id) (names : Names Id) (region : WString) {answers : (op : Op) → op.Resp}
    (stable : ∀ op, Stable job.image op (answers op)) (p : Remote Unit) :
    ∀ child : Child Id, child.resumed = false →
      ∃ ls, Run (Restrict (Step job me) Covered) ⟨names, ⟨.inject p, region, some child⟩⟩ ls
        ⟨names, ⟨.inject (p.drive answers).2, region, some { child with remote := child.remote ++ (p.drive answers).1 }⟩⟩ := by
  induction p with
  | ret | raise | spin =>
    intro child _
    refine ⟨[], ?_⟩
    simp only [Prog.drive, List.append_nil]
    exact .refl _
  | call op k ih =>
    intro child asleep
    obtain ⟨ls, rest⟩ := ih (answers op) { child with remote := child.remote ++ [⟨op, answers op⟩] } asleep
    simp only [List.append_assoc, List.singleton_append] at rest
    exact ⟨_, run_cons ⟨.launcher (.remote rfl rfl _ (stable op)), covered_asleep rfl asleep _⟩ rest⟩

/-- From a free name, and as long as the system serves its calls, a launch gets to
    where its child runs and it waits. -/
theorem launch_served (me : Id) {names : Names Id} (pid : UInt32) (free : names (get_ipc_name pid) = none)
    {answers : (op : Op) → op.Resp} (stable : ∀ op, Stable job.image op (answers op))
    (served : ((inject job.fuel pid (job.from_utf job.dll)).drive answers).2 = .ret ()) :
    ∃ ls, Run (Restrict (Step job me) Covered) (State.initial names) ls
      ⟨names.create (get_ipc_name pid) me, ⟨.wait, job.contents, some ⟨pid, job.exe, true, false,
        ((inject job.fuel pid (job.from_utf job.dll)).drive answers).1, none⟩⟩⟩ := by
  have asleep : (⟨pid, job.exe, false, false, [], none⟩ : Child Id).resumed = false := rfl
  have sized : (List.replicate job.contents.length (0 : WChar)).length = job.contents.length := List.length_replicate
  obtain ⟨copying, copied⟩ := copy_runs job me (names.create (get_ipc_name pid) me) asleep
    job.contents.length (Nat.zero_add _) sized rfl
  obtain ⟨injecting, injected⟩ := remote_runs me (names.create (get_ipc_name pid) me) job.contents stable
    (inject job.fuel pid (job.from_utf job.dll)) _ asleep
  rw [served] at injected
  generalize ((inject job.fuel pid (job.from_utf job.dll)).drive answers).1 = remote at injected ⊢
  have resumes : Run (Restrict (Step job me) Covered)
      ⟨names.create (get_ipc_name pid) me, ⟨.inject (.ret ()), job.contents, some ⟨pid, job.exe, false, false, remote, none⟩⟩⟩
      [.injected, .resume_thread, .proceed]
      ⟨names.create (get_ipc_name pid) me, ⟨.wait, job.contents, some ⟨pid, job.exe, true, false, remote, none⟩⟩⟩ := by
    refine run_cons ⟨.launcher (.injected rfl), covered_asleep rfl rfl _⟩ ?_
    refine run_cons ⟨.launcher (.resume_thread rfl rfl), covered_asleep rfl rfl _⟩ ?_
    exact run_single ⟨.launcher (.resumed rfl), fun _ _ _ => ⟨nofun, nofun⟩⟩
  have constructs : Run (Restrict (Step job me) Covered) (State.initial names)
      [.create_process pid, .proceed, .share_create, .share_truncate, .share_map]
      ⟨names.create (get_ipc_name pid) me, ⟨.share_copy 0, List.replicate job.contents.length 0,
        some ⟨pid, job.exe, false, false, [], none⟩⟩⟩ := by
    refine run_cons ⟨.launcher (.create_process rfl pid), nofun⟩ ?_
    refine run_cons ⟨.launcher (.created rfl), covered_asleep rfl rfl _⟩ ?_
    refine run_cons ⟨.launcher (.share_create rfl rfl free), covered_asleep rfl rfl _⟩ ?_
    refine run_cons ⟨.launcher (.share_truncate rfl _ (sized.trans (contents_length _ _))), covered_asleep rfl rfl _⟩ ?_
    exact run_single ⟨.launcher (.share_map rfl), covered_asleep rfl rfl _⟩
  exact ⟨_, run_trans constructs (run_trans copied
    (run_cons ⟨.launcher (.constructed rfl rfl), covered_asleep rfl rfl _⟩ (run_trans injected resumes)))⟩

end

/-- A launch of a program whose import table is empty. -/
def sampleJob : Job where
  argv0 := ⟨wide "C:\\bin\\sysintercept.exe", by decide⟩
  argv1 := ⟨wide "C:\\config.xml", by decide⟩
  argv2 := ⟨wide "C:\\main.exe", by decide⟩
  from_utf w := .ok (w.map lowByte)
  image _ := ⟨0, 0, 0, 0, 0⟩
  fuel := 4

/-- A system that serves every call; the image is at its usual base. -/
def sampleAnswers : (op : Op) → op.Resp
  | .OpenProcess _ => .ok ()
  | .DuplicateHandle => .ok ()
  | .GetThreadContext => .ok (0x3B : UInt32)
  | .GetThreadSelectorEntry _ => .ok ⟨0xD000, 0xFD, 0x7F⟩
  | .ReadPointer _ => .ok (0x400000 : UInt32)
  | .ReadDosHeader _ => .ok ⟨IMAGE_DOS_SIGNATURE, 0x80⟩
  | .ReadNtHeaders _ => .ok ⟨IMAGE_NT_SIGNATURE, 1, 0xE0, 0x102, 0x400000, ⟨0x1000, 40⟩, ⟨0, 0⟩, ⟨0x2000, 8⟩, ⟨0, 0⟩⟩
  | .ReadImportDescriptor _ => .ok ⟨0, 0, 0, 0, 0⟩
  | .ReadSectionHeader _ => .ok ⟨0x1000, 0x200⟩
  | .ReadCor20Header _ => .ok ⟨0⟩
  | .new_char size => .ok ⟨List.replicate size.toNat 0, List.length_replicate⟩
  | .VirtualQueryEx address => .ok ⟨address, 0x10000, MEM_FREE⟩
  | .VirtualAllocEx .. => .ok ()
  | .VirtualProtectEx .. => .ok (2 : UInt32)
  | .WriteTable .. => .ok ()
  | .WriteCor20Header .. => .ok ()
  | .WriteNtHeaders .. => .ok ()

theorem sampleAnswers_stable (op : Op) : Stable sampleJob.image op (sampleAnswers op) := by
  cases op <;> trivial

theorem sampleAnswers_serve : ((inject sampleJob.fuel 7 (sampleJob.from_utf sampleJob.dll)).drive sampleAnswers).2 = .ret () := rfl

/-- The sample launch where its child runs, with what was done to the child's memory. -/
def sampleWaiting (remote : List (Event Op Op.Resp)) : State Unit :=
  ⟨Names.create (fun _ => none) (get_ipc_name 7) (),
    ⟨.wait, sampleJob.contents, some ⟨7, sampleJob.exe, true, false, remote, none⟩⟩⟩

theorem sampleJob_served :
    ∃ ls remote, Run (Restrict (Step sampleJob ()) Covered) (State.initial fun _ => none) ls (sampleWaiting remote) :=
  (launch_served () 7 rfl sampleAnswers_stable sampleAnswers_serve).imp fun _ run => ⟨_, run⟩

end Sysintercept.Served
