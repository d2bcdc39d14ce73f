import Sysintercept.Images
import Sysintercept.Served

/-!
# The image of a launch's child

The launcher's calls, one after the other, on the memory of the child that it has
created: wherever the launch is cut off, the child's image imports what it did or
`sysintercept.dll` in front of it, and a child that runs imports the DLL.
-/
namespace Sysintercept.Children
open Sysintercept.Units Sysintercept.Rules Sysintercept.Effects Sysintercept.Environments Sysintercept.Automaton
open Sysintercept.Iat Sysintercept.Ipc Sysintercept.Targets Sysintercept.Launcher Sysintercept.ImportTables
open Sysintercept.Injection Sysintercept.Images Sysintercept.Records Sysintercept.Patching Sysintercept.Served

section
variable {Id : Type} {job : Job} {me : Id}

/-- The calls that were made of the child are those of the injection so far: of all of it
    once the child can be resumed. -/
def Traced (job : Job) (l : Launch Id) : Prop :=
  ∀ child, l.child = some child → ∃ rest, After (inject job.fuel child.pid (job.from_utf job.dll)) child.remote rest ∧
    (∀ here, l.pc = .inject here → here = rest) ∧ (l.pc = .resume ∨ child.resumed = true → rest = .ret ())

/-- A step that leaves the child alone, and the injection behind it. -/
theorem traced_same {l l' : Launch Id} (traced : Traced job l) (same : l'.child = l.child)
    (past : ∀ here, l'.pc ≠ .inject here) (unready : l'.pc ≠ .resume) : Traced job l' := by
  intro child is
  rw [same] at is
  obtain ⟨rest, after, _, done⟩ := traced child is
  refine ⟨rest, after, fun here there => absurd there (past here), fun ready => ?_⟩
  exact done (ready.imp_left fun there => absurd there unready)

theorem traced_move {names names' : Names Id} {l l' : Launch Id} {a : Action} (moved : Move job me names l a names' l')
    (valid : Valid job l) (traced : Traced job l) : Traced job l' := by
  cases moved with
  | create_process here pid =>
    intro child is
    obtain rfl := Option.some.inj is
    exact ⟨_, .refl, by simp, by simp⟩
  | constructed here is =>
    intro child is'
    simp only [Valid, here] at valid
    obtain ⟨⟨child', there, unresumed, untouched⟩, _⟩ := valid
    obtain rfl := Option.some.inj (is.symm.trans there)
    obtain rfl := Option.some.inj (is.symm.trans is')
    rw [untouched, unresumed]
    exact ⟨_, .refl, fun _ same => (Pc.inject.inj same).symm, by simp⟩
  | remote here is r =>
    intro child is'
    obtain ⟨rest, after, stands, done⟩ := traced _ is
    obtain rfl := stands _ here
    obtain rfl := Option.some.inj is'
    refine ⟨_, .tail after r, fun _ same => (Pc.inject.inj same).symm, fun ready => ?_⟩
    exact absurd (done (.inr (by simpa using ready))) (by simp)
  | injected here =>
    intro child is
    obtain ⟨rest, after, stands, _⟩ := traced child is
    obtain rfl := stands _ here
    exact ⟨_, after, by simp, fun _ => rfl⟩
  | resume_thread here is =>
    intro child is'
    obtain ⟨rest, after, _, done⟩ := traced _ is
    obtain rfl := Option.some.inj is'
    exact ⟨rest, after, by simp, fun _ => done (.inl here)⟩
  | _ => exact traced_same traced rfl (by simp) (by simp)

theorem traced_of_run {names : Names Id} {ls : List Action} {s : State Id}
    (run : Run (Step job me) (State.initial names) ls s) : Traced job s.launch := by
  refine (run_invariant (I := fun s => Sound job me s ∧ Traced job s.launch) ?_ run
    ⟨⟨rfl, by simp [Held, State.initial, Launch.initial, Pc.owns]⟩, by simp [Traced, State.initial, Launch.initial]⟩).2
  rintro s a t ⟨sound, traced⟩ step
  refine ⟨sound_step sound step, ?_⟩
  cases step with
  | launcher moved => exact traced_move moved sound.valid traced
  | exits is running =>
    intro child is'
    obtain ⟨rest, after, stands, done⟩ := traced _ is
    cases is'
    exact ⟨rest, after, stands, done⟩

/-- Whatever the system does with the launcher's calls, and wherever in the launch one
    looks, a kill of the launcher being no different: the child's image imports what it imported
    when the child was created, or the DLL and then that; and the DLL if the child was resumed. -/
theorem child_imports_dll {names : Names Id} {ls : List Action} {s : State Id} {child : Child Id} {c t : Target}
    {base : UInt32} {ldtEntry : LdtEntry} {originals : List ImportDescriptor}
    (run : Run (Step job me) (State.initial names) ls s) (is : s.launch.child = some child) (enough : longestTable ≤ job.fuel)
    (small : ∀ path, job.from_utf job.dll = .ok path → path.length < 65536) (based : Based c ldtEntry base)
    (imported : Imported c base [] originals) (replays : Replays (Answers True) c child.remote t) :
    (Imported t base [] originals ∨ ∃ path, job.from_utf job.dll = .ok path ∧ Imported t base [path] originals) ∧
      (child.resumed = true → ∃ path, job.from_utf job.dll = .ok path ∧ Imported t base [path] originals) := by
  obtain ⟨rest, after, _, done⟩ := traced_of_run run child is
  have leads := leads_after (E := Throws False True _) (S := False)
    (inject_leads (fun _ => enough) small based imported False.elim) after replays
  constructor
  · rcases leads_cut answers_idle leads with ⟨_, imports⟩ | ⟨_, thrown⟩
    · exact .inr imports
    · exact thrown.1.2
  · intro resumed
    rw [done (.inr resumed)] at leads
    exact leads

end

/-- A launch of the small process, in a locale of one byte a character. -/
def smallJob : Job :=
  { sampleJob with
    image address := if address = 0x10200 then ⟨0x390, 0, 0, 0x380, 0x3A0⟩ else ⟨0, 0, 0, 0, 0⟩
    fuel := longestTable }

/-- What the system answers to the calls of its injection. -/
def smallAnswers : (op : Op) → op.Resp
  | .GetThreadSelectorEntry _ => .ok ⟨0x0400, 1, 0⟩
  | .ReadPointer address => .ok (if address = 0x10430 then (0x10500 : UInt32) else (0x10000 : UInt32))
  | .ReadDosHeader _ => .ok ⟨IMAGE_DOS_SIGNATURE, 0x40⟩
  | .ReadNtHeaders _ => .ok smallHeaders
  | .ReadImportDescriptor address => .ok (smallJob.image address)
  | .ReadSectionHeader _ => .ok ⟨0, 0⟩
  | .ReadCor20Header _ => .ok ⟨9⟩
  | .VirtualQueryEx address => .ok (if address = 0x10000 then ⟨0x10000, 0x1000, 0x1000⟩ else ⟨0x11000, 0x2F000, MEM_FREE⟩)
  | .VirtualProtectEx _ _ protect => .ok (if protect = PAGE_EXECUTE_READWRITE then (0x04 : UInt32) else PAGE_EXECUTE_READWRITE)
  | op => sampleAnswers op

/-- The table that is written behind the image. -/
def smallTable : Bytes :=
  tableBytes (⟨0x1003C, 0, 0, 0x1004C, 0x1003C⟩ :: smallOriginals) ++ thunks ++ narrow_c_str (smallJob.dll.map lowByte)

/-- The calls of the injection, in their order. -/
def smallEvents : List (Event Op Op.Resp) :=
  [⟨.OpenProcess 7, .ok ()⟩, ⟨.DuplicateHandle, .ok ()⟩, ⟨.GetThreadContext, .ok (0x3B : UInt32)⟩,
    ⟨.GetThreadSelectorEntry 0x3B, .ok ⟨0x0400, 1, 0⟩⟩, ⟨.ReadPointer 0x10430, .ok (0x10500 : UInt32)⟩,
    ⟨.ReadPointer 0x10508, .ok (0x10000 : UInt32)⟩, ⟨.ReadDosHeader 0x10000, .ok ⟨IMAGE_DOS_SIGNATURE, 0x40⟩⟩,
    ⟨.ReadNtHeaders 0x10040, .ok smallHeaders⟩, ⟨.ReadNtHeaders 0x10040, .ok smallHeaders⟩,
    ⟨.ReadImportDescriptor 0x10200, .ok ⟨0x390, 0, 0, 0x380, 0x3A0⟩⟩, ⟨.ReadImportDescriptor 0x10214, .ok ⟨0, 0, 0, 0, 0⟩⟩,
    ⟨.new_char 100, .ok ⟨List.replicate 100 0, List.length_replicate⟩⟩,
    ⟨.VirtualQueryEx 0x10000, .ok ⟨0x10000, 0x1000, 0x1000⟩⟩, ⟨.VirtualQueryEx 0x11000, .ok ⟨0x11000, 0x2F000, MEM_FREE⟩⟩,
    ⟨.VirtualAllocEx 0x20000 100, .ok ()⟩, ⟨.ReadImportDescriptor 0x10200, .ok ⟨0x390, 0, 0, 0x380, 0x3A0⟩⟩,
    ⟨.ReadImportDescriptor 0x10214, .ok ⟨0, 0, 0, 0, 0⟩⟩, ⟨.WriteTable 0x20000 smallTable, .ok ()⟩,
    ⟨.ReadCor20Header 0x10300, .ok ⟨9⟩⟩, ⟨.VirtualProtectEx 0x10300 72 0x40, .ok (0x04 : UInt32)⟩,
    ⟨.WriteCor20Header 0x10300 ⟨8⟩, .ok ()⟩, ⟨.VirtualProtectEx 0x10300 72 0x04, .ok (0x40 : UInt32)⟩,
    ⟨.VirtualProtectEx 0x10040 248 0x40, .ok (0x04 : UInt32)⟩,
    ⟨.WriteNtHeaders 0x10040 (relinked smallHeaders ⟨0, 0⟩ ⟨0x10000, 100⟩), .ok ()⟩,
    ⟨.VirtualProtectEx 0x10040 248 0x04, .ok (0x40 : UInt32)⟩]

set_option maxRecDepth 20000 in
theorem smallEvents_driven : (inject longestTable 7 (smallJob.from_utf smallJob.dll)).drive smallAnswers = (smallEvents, .ret ()) :=
  rfl

/-- The small process with its new table. -/
def smallTabled : Target :=
  { smallProcess.allocate 0x20000 100 with memory := (smallProcess.allocate 0x20000 100).memory.write 0x20000 smallTable }

/-- Each call is done as it is asked for: the process is read and gets the table, and then pages
    of it are made writable, written, and made what they were. -/
theorem smallEvents_replay : ∃ t, Replays (Answers True) smallProcess smallEvents t := by
  have page : ∀ {c : Target} {allows : UInt32 → Bool} {protect : UInt32} {a : UInt32} {n : Nat},
      c.page 16 = .committed protect → allows protect = true → 65536 ≤ a.toNat → a.toNat + n ≤ 69632 → c.Accessible allows a n :=
    fun there allowed above below => Target.accessible_of_page (p := 16) there allowed above below
  have block : (0x10500 : UInt32) = dwordAt smallProcess.memory 0x10430 0 := by decide
  have dosHeader : (⟨IMAGE_DOS_SIGNATURE, 0x40⟩ : DosHeader) = dosHeaderAt smallProcess.memory 0x10000 := by decide
  have first : ⟨0x390, 0, 0, 0x380, 0x3A0⟩ = descriptorAt smallProcess.memory 0x10200 := by decide
  have last : ⟨0, 0, 0, 0, 0⟩ = descriptorAt smallProcess.memory 0x10214 := by decide
  have firstKept : ⟨0x390, 0, 0, 0x380, 0x3A0⟩ = descriptorAt (smallProcess.allocate 0x20000 100).memory 0x10200 := by decide
  have lastKept : ⟨0, 0, 0, 0, 0⟩ = descriptorAt (smallProcess.allocate 0x20000 100).memory 0x10214 := by decide
  have flags : ⟨9⟩ = cor20HeaderAt smallTabled.memory 0x10300 := by decide
  refine replays_starts ⟨rfl, rfl⟩ (replays_starts rfl (replays_starts ⟨rfl, rfl⟩ (replays_starts ⟨rfl, rfl⟩ ?_)))
  refine replays_starts ⟨smallProcess_based.block, block, rfl⟩ ?_
  refine replays_starts ⟨smallProcess_based.field, smallProcess_based.base, rfl⟩ ?_
  refine replays_starts ⟨smallProcess_executable.dosHeader, dosHeader, rfl⟩ ?_
  refine replays_starts ⟨smallProcess_executable.headers, smallHeaders_read.symm, rfl⟩ ?_
  refine replays_starts ⟨smallProcess_executable.headers, smallHeaders_read.symm, rfl⟩ ?_
  refine replays_starts ⟨smallProcess_readable (by decide) (by decide), first, rfl⟩ ?_
  refine replays_starts ⟨smallProcess_readable (by decide) (by decide), last, rfl⟩ ?_
  refine replays_starts rfl ?_
  refine replays_starts ⟨⟨1, by decide, by decide, by decide, rfl⟩, rfl⟩ ?_
  refine replays_starts ⟨⟨47, by decide, by decide, by decide, rfl⟩, rfl⟩ ?_
  refine replays_starts ⟨⟨by decide, by decide, fun p touches => ?_⟩, rfl⟩ ?_
  · obtain ⟨above, below⟩ := touches
    have place : (0x20000 : UInt32).toNat = 131072 := rfl
    have size : (100 : UInt32).toNat = 100 := rfl
    obtain rfl : p = 32 := by omega
    rfl
  refine replays_starts ⟨page rfl rfl (by decide) (by decide), firstKept, rfl⟩ ?_
  refine replays_starts ⟨page rfl rfl (by decide) (by decide), lastKept, rfl⟩ ?_
  refine replays_starts ⟨Target.accessible_of_page (p := 32) rfl rfl (by decide) (by decide), rfl⟩ ?_
  change ∃ t, Replays _ smallTabled _ t
  refine replays_starts ⟨page rfl rfl (by decide) (by decide), flags, rfl⟩ ?_
  refine replays_starts ⟨page rfl rfl (by decide) (by decide), rfl, rfl⟩ ?_
  refine replays_starts ⟨page rfl rfl (by decide) (by decide), rfl⟩ ?_
  refine replays_starts ⟨page rfl rfl (by decide) (by decide), rfl, rfl⟩ ?_
  refine replays_starts ⟨page rfl rfl (by decide) (by decide), rfl, rfl⟩ ?_
  refine replays_starts ⟨page rfl rfl (by decide) (by decide), rfl⟩ ?_
  exact replays_starts ⟨page rfl rfl (by decide) (by decide), rfl, rfl⟩ ⟨_, .refl _⟩

/-- The launch gets to where its child runs, with the image patched. -/
theorem child_imports_dll_small : ∃ ls child t, Run (Step smallJob ()) (State.initial fun _ => none) ls
      ⟨Names.create (fun _ => none) (get_ipc_name 7) (), ⟨.wait, smallJob.contents, some child⟩⟩ ∧
    child.resumed = true ∧ child.remote = smallEvents ∧ Replays (Answers True) smallProcess smallEvents t ∧
    ∃ path, smallJob.from_utf smallJob.dll = .ok path ∧ Imported t 0x10000 [path] smallOriginals := by
  have stable : ∀ op, Stable smallJob.image op (smallAnswers op) := by
    intro op
    cases op <;> first | rfl | trivial
  have served : ∃ ls, Run (Restrict (Step smallJob ()) Covered) (State.initial fun _ => none) ls
      ⟨Names.create (fun _ => none) (get_ipc_name 7) (), ⟨.wait, smallJob.contents, some ⟨7, smallJob.exe, true, false,
        ((inject longestTable 7 (smallJob.from_utf smallJob.dll)).drive smallAnswers).1, none⟩⟩⟩ :=
    launch_served () 7 rfl stable (congrArg Prod.snd smallEvents_driven)
  rw [smallEvents_driven] at served
  obtain ⟨ls, run⟩ := served
  obtain ⟨t, replays⟩ := smallEvents_replay
  have plain := run_restrict run
  refine ⟨ls, _, t, plain, rfl, rfl, replays, ?_⟩
  exact (child_imports_dll plain rfl (Nat.le_refl _) (fun path same => by cases same; decide) smallProcess_based
    smallProcess_imported replays).2 rfl

end Sysintercept.Children
