import Sysintercept.Calls
import Sysintercept.InlineHooks

/-!
# The life of the hooks

The DLL from its attach to the end of its globals: `hook_everything` hooks the
functions one after the other, the program calls them, and the globals are
destroyed in reverse order, `nCodeHook` before `config`. Where a redirected
function still leads to a trampoline that is there, and to a configuration.
-/
namespace Sysintercept.Lifetime
open Sysintercept.Units Sysintercept.Rules Sysintercept.Exceptions Sysintercept.Hooks Sysintercept.Automaton
open Sysintercept.Calls Sysintercept.AddressSpace Sysintercept.InlineHooks

/-- The process that the DLL is loaded into: the code of the hooked functions, where
    their replacements are, and the buffer that `VirtualAlloc` gives. Nothing lies in
    the lowest 64 KiB, the entries leave room for a jump, and none of them jumps to a
    replacement yet. -/
structure Kernel where
  memory : Memory
  address : ApiFunction → UInt32
  newFunction : ApiFunction → UInt32
  trampolineBuffer : UInt32
  buffer_user : 65536 ≤ trampolineBuffer.toNat
  address_user : ∀ f, 65536 ≤ (address f).toNat
  newFunction_user : ∀ f, 65536 ≤ (newFunction f).toNat
  entries_apart : ∀ f g, f ≠ g → Apart (address f) AbsJumpPatchSize (address g) AbsJumpPatchSize
  buffer_apart : ∀ f, Apart (address f) AbsJumpPatchSize trampolineBuffer TrampolineBufferSize
  unhooked : ∀ f, jumpTarget (address f) (memory.read (address f) AbsJumpPatchSize) ≠ some (newFunction f)

/-- What is left to hook, or what has been destroyed. -/
inductive Stage
  | attached (todo : List ApiFunction)
  | nCodeHook_destroyed
  | config_destroyed
  deriving DecidableEq, Repr

def Stage.destroyed : Stage → Bool
  | .attached _ => false
  | _ => true

/-- The process with the globals of the DLL. -/
structure Process where
  memory : Memory
  nCodeHook : NCodeHook
  real : ApiFunction → UInt32
  buffer_allocated : Bool
  world : World
  config_alive : Bool
  stage : Stage

/-- The DLL's globals are constructed, and `DLL_PROCESS_ATTACH` begins. -/
def Process.initial (kernel : Kernel) : Process where
  memory := kernel.memory
  nCodeHook := ⟨trampolines kernel.trampolineBuffer, [], kernel.trampolineBuffer, true, false⟩
  real _ := 0
  buffer_allocated := true
  world := World.initial
  config_alive := true
  stage := .attached hook_everything

inductive Action
  | hook (function : ApiFunction) (installed : Bool)
  | call (call : ApiCall)
  | destroy_nCodeHook
  | destroy_config

section
variable (kernel : Kernel) (distorm : Distorm)

/-- The function's entry jumps to its replacement. -/
def Redirected (m : Memory) (f : ApiFunction) : Prop :=
  jumpTarget (kernel.address f) (m.read (kernel.address f) AbsJumpPatchSize) = some (kernel.newFunction f)

/-- The function's entry has its original bytes. -/
def Intact (m : Memory) (f : ApiFunction) : Prop :=
  m.read (kernel.address f) AbsJumpPatchSize = kernel.memory.read (kernel.address f) AbsJumpPatchSize

def InBuffer (a : UInt32) : Prop :=
  kernel.trampolineBuffer.toNat ≤ a.toNat ∧ a.toNat < kernel.trampolineBuffer.toNat + TrampolineBufferSize

/-- Every redirected function can be called through its real pointer, and its hook
    finds the configuration. -/
def Safe (s : Process) : Prop :=
  ∀ f, Redirected kernel s.memory f →
    s.real f ≠ 0 ∧ InBuffer kernel (s.real f) ∧ s.buffer_allocated = true ∧ s.config_alive = true

/-- `GetProcAddress` may find nothing, and `VirtualProtect` may refuse. -/
inductive Step : Process → Action → Process → Prop
  | hook {s f todo} (next : s.stage = .attached (f :: todo)) (found writable : Bool) {pointer nCodeHook memory}
      (created : createHookByName distorm writable (if found then kernel.address f else 0) (kernel.newFunction f)
        s.nCodeHook s.memory = .ok (pointer, nCodeHook, memory)) :
      Step s (.hook f (decide (pointer ≠ 0)))
        { s with
          memory
          nCodeHook
          real := fun g => if g = f then pointer else s.real g
          stage := .attached todo }
  | call {s todo} (attached : s.stage = .attached todo) {call} (redirected : Redirected kernel s.memory call.function)
      (rt : Runtime) (init : CallSeq) (loaded : Except Stop Config) (inner : CallSeq) (returned : Except Stop Value) :
      Step s (.call call) { s with world := final (run (.call rt call init loaded inner returned .done)) s.world }
  | destroy_nCodeHook {s} (attached : s.stage = .attached []) (writable : Nat → Bool) {nCodeHook memory freed}
      (destroyed : destroy writable s.nCodeHook s.memory = (nCodeHook, memory, freed)) :
      Step s .destroy_nCodeHook
        { s with
          memory
          nCodeHook
          buffer_allocated := s.buffer_allocated && !freed
          stage := .nCodeHook_destroyed }
  | destroy_config {s} (next : s.stage = .nCodeHook_destroyed) :
      Step s .destroy_config { s with config_alive := false, stage := .config_destroyed }

end

/-! ## What the hooks are after any steps -/

/-- A hook of the function was installed. -/
def Installed (ls : List Action) (f : ApiFunction) : Prop := .hook f true ∈ ls

/-- What holds as long as `nCodeHook` is alive. -/
structure Attached (kernel : Kernel) (ls : List Action) (s : Process) (todo : List ApiFunction) : Prop where
  order : ∃ done, hook_everything = done ++ todo ∧ ∀ f, Installed ls f → f ∈ done
  items : ∀ e ∈ s.nCodeHook.hookedFunctions,
    (∃ f, Installed ls f ∧ e.2.OriginalFunc = kernel.address f) ∧ 65536 ≤ e.1.toNat
  few : s.nCodeHook.hookedFunctions.length + todo.length ≤ 5
  free : ∃ k, k + todo.length ≤ 5 ∧ s.nCodeHook.freeTrampolines = (trampolines kernel.trampolineBuffer).drop k
  cleans : s.nCodeHook.cleanOnDestruct = true
  buffer : s.buffer_allocated = true
  config : s.config_alive = true

/-- What holds in every state that a process gets to. -/
structure Sound (kernel : Kernel) (ls : List Action) (s : Process) : Prop where
  attached : ∀ todo, s.stage = .attached todo → Attached kernel ls s todo
  released : s.stage.destroyed = true → s.buffer_allocated = false
  installed : ∀ f, Installed ls f → Redirected kernel s.memory f ∧ InBuffer kernel (s.real f)
  intact : ∀ f, ¬ Installed ls f → Intact kernel s.memory f

section
variable {kernel : Kernel} {distorm : Distorm} {ls : List Action} {s s' : Process}

theorem installed_append_other {a : Action} (other : ∀ f, a ≠ .hook f true) (f : ApiFunction) :
    Installed (ls ++ [a]) f ↔ Installed ls f := by
  unfold Installed
  simp [Ne.symm (other f)]

theorem installed_append_hook (f g : ApiFunction) : Installed (ls ++ [.hook f true]) g ↔ g = f ∨ Installed ls g := by
  unfold Installed
  simp [or_comm]

/-- A step leaves every item the item of an installed hook. -/
theorem items_append {items : List (UInt32 × NCodeHookItem)}
    (before : ∀ e ∈ items, (∃ f, Installed ls f ∧ e.2.OriginalFunc = kernel.address f) ∧ 65536 ≤ e.1.toNat) (a : Action) :
    ∀ e ∈ items, (∃ f, Installed (ls ++ [a]) f ∧ e.2.OriginalFunc = kernel.address f) ∧ 65536 ≤ e.1.toNat := by
  intro e member
  obtain ⟨⟨f, installed, original⟩, user⟩ := before e member
  exact ⟨⟨f, List.mem_append_left _ installed, original⟩, user⟩

/-- An intact function is not redirected. -/
theorem not_redirected_of_intact {m : Memory} {f : ApiFunction} (intact : Intact kernel m f) : ¬ Redirected kernel m f := by
  unfold Redirected
  rw [intact]
  exact kernel.unhooked f

theorem address_inj {f g : ApiFunction} (same : kernel.address f = kernel.address g) : f = g := by
  by_cases equal : f = g
  · exact equal
  · have order := (kernel.entries_apart f g equal).order
    rw [same] at order
    simp only [AbsJumpPatchSize] at order
    omega

/-- The trampolines are taken in ascending order, and lie one behind the other in the buffer. -/
theorem trampoline_next {buffer : UInt32} (fits : buffer.toNat + TrampolineBufferSize ≤ 4294967296) {k : Nat}
    {trampolineAddr : UInt32} {free : List UInt32} (next : (trampolines buffer).drop k = trampolineAddr :: free) :
    trampolineAddr.toNat = buffer.toNat + k * MaxTotalTrampolineSize ∧ free = (trampolines buffer).drop (k + 1) := by
  have first : (trampolines buffer)[k]? = some trampolineAddr := by
    have head : ((trampolines buffer).drop k)[0]? = (trampolines buffer)[k + 0]? := List.getElem?_drop
    rw [next] at head
    exact head.symm
  constructor
  · unfold trampolines at first
    rw [List.getElem?_map, Option.map_eq_some_iff] at first
    obtain ⟨j, there, rfl⟩ := first
    obtain ⟨small, rfl⟩ := List.getElem?_eq_some_iff.mp there
    rw [List.length_range] at small
    simp only [TrampolineBufferSize, MaxTotalTrampolineSize, AbsJumpPatchSize, MaxTrampolineSize, List.getElem_range]
      at fits small ⊢
    rw [UInt32.toNat_add, UInt32.toNat_ofNat']
    omega
  · rw [← List.drop_drop, next]
    rfl

/-- The hook that is next is not there yet. -/
theorem not_installed_next {f : ApiFunction} {todo : List ApiFunction} (attached : Attached kernel ls s (f :: todo)) :
    ¬ Installed ls f := by
  obtain ⟨done, split, earlier⟩ := attached.order
  have distinct : (done ++ f :: todo).Nodup := by
    rw [← split]
    decide
  intro installed
  exact (List.nodup_append.mp distinct).2.2 f (earlier f installed) f (by simp) rfl

/-- What the call for the next function does: nothing, or it hooks the function with
    a trampoline in the buffer. -/
theorem hook_cases {f : ApiFunction} {todo : List ApiFunction} (attached : Attached kernel ls s (f :: todo))
    {found writable : Bool} {result : UInt32 × NCodeHook × Memory}
    (created : createHookByName distorm writable (if found then kernel.address f else 0) (kernel.newFunction f) s.nCodeHook
      s.memory = .ok result) :
    result = (0, s.nCodeHook, s.memory) ∨
      ∃ k trampolineAddr useAbsJump offset,
        k + (todo.length + 1) ≤ 5 ∧ trampolineAddr.toNat = kernel.trampolineBuffer.toNat + k * MaxTotalTrampolineSize ∧
        offset ≤ 20 ∧
        result = (trampolineAddr,
          NCodeHook.insert { s.nCodeHook with freeTrampolines := (trampolines kernel.trampolineBuffer).drop (k + 1) }
            (kernel.newFunction f) ⟨kernel.address f, kernel.newFunction f, offset, trampolineAddr⟩,
          patch useAbsJump (kernel.address f) (kernel.newFunction f) trampolineAddr offset s.memory) := by
  unfold createHookByName at created
  cases found with
  | false => exact .inl (Except.ok.inj created).symm
  | true =>
    have user := kernel.address_user f
    have nonzero : kernel.address f ≠ 0 := by
      intro zero
      rw [zero] at user
      exact absurd user (by decide)
    simp only [↓reduceIte, if_pos nonzero] at created
    have unhooked : ∀ e ∈ s.nCodeHook.hookedFunctions, e.2.OriginalFunc ≠ kernel.address f := by
      intro e member same
      obtain ⟨g, installed, original⟩ := (attached.items e member).1
      rw [original] at same
      obtain rfl := address_inj same
      exact not_installed_next attached installed
    rcases createHook_cases unhooked created with nothing | ⟨trampolineAddr, free, useAbsJump, offset, next, _, short, rfl⟩
    · exact .inl nothing
    · obtain ⟨k, few, dropped⟩ := attached.free
      rw [dropped] at next
      obtain ⟨place, rfl⟩ := trampoline_next (kernel.buffer_apart f).right next
      exact .inr ⟨k, trampolineAddr, useAbsJump, offset, few, place, short, rfl⟩

/-- Every function's entry is apart from the trampolines that the hooks take. -/
theorem trampoline_apart (g : ApiFunction) {k n offset : Nat} {trampolineAddr : UInt32} (few : k + (n + 1) ≤ 5)
    (place : trampolineAddr.toNat = kernel.trampolineBuffer.toNat + k * MaxTotalTrampolineSize) (short : offset ≤ 20) :
    Apart (kernel.address g) AbsJumpPatchSize trampolineAddr (offset + AbsJumpPatchSize) := by
  refine apart_part (kernel.buffer_apart g) (by omega) ?_
  simp only [MaxTotalTrampolineSize, AbsJumpPatchSize, MaxTrampolineSize, TrampolineBufferSize] at place ⊢
  omega

theorem sound_initial (kernel : Kernel) : Sound kernel [] (Process.initial kernel) where
  attached todo begun := by
    obtain rfl := Stage.attached.inj begun
    exact {
      order := ⟨[], rfl, fun f impossible => by cases impossible⟩
      items := fun e impossible => by cases impossible
      few := Nat.le_refl 5
      free := ⟨0, by decide, rfl⟩
      cleans := rfl
      buffer := rfl
      config := rfl }
  released impossible := by cases impossible
  installed f impossible := by cases impossible
  intact f _ := rfl

/-- A call that hooks nothing. -/
theorem sound_unhooked {f : ApiFunction} {todo : List ApiFunction} (sound : Sound kernel ls s)
    (next : s.stage = .attached (f :: todo)) :
    Sound kernel (ls ++ [.hook f false])
      { s with real := fun g => if g = f then 0 else s.real g, stage := .attached todo } where
  attached todo' is := by
    obtain rfl := Stage.attached.inj is
    have attached := sound.attached _ next
    have same : ∀ g, Installed (ls ++ [.hook f false]) g ↔ Installed ls g := installed_append_other (by simp)
    obtain ⟨done, split, earlier⟩ := attached.order
    obtain ⟨k, room, free⟩ := attached.free
    have few := attached.few
    simp only [List.length_cons] at few room
    exact {
      order := ⟨done ++ [f], by simp [split], fun g installed => List.mem_append_left _ (earlier g ((same g).mp installed))⟩
      items := items_append attached.items _
      few := by
        show s.nCodeHook.hookedFunctions.length + todo.length ≤ 5
        omega
      free := ⟨k, by omega, free⟩
      cleans := attached.cleans
      buffer := attached.buffer
      config := attached.config }
  released impossible := by cases impossible
  installed g installed := by
    have before := (installed_append_other (by simp) g).mp installed
    have other : g ≠ f := by
      rintro rfl
      exact not_installed_next (sound.attached _ next) before
    simp only [if_neg other]
    exact sound.installed g before
  intact g missing := sound.intact g (fun installed => missing ((installed_append_other (by simp) g).mpr installed))

/-- A call that hooks the next function with the next trampoline. -/
theorem sound_hooked {f : ApiFunction} {todo : List ApiFunction} (sound : Sound kernel ls s)
    (next : s.stage = .attached (f :: todo)) {k offset : Nat} {trampolineAddr : UInt32} (useAbsJump : Bool)
    (few : k + (todo.length + 1) ≤ 5)
    (place : trampolineAddr.toNat = kernel.trampolineBuffer.toNat + k * MaxTotalTrampolineSize) (short : offset ≤ 20) :
    Sound kernel (ls ++ [.hook f true])
      { s with
        memory := patch useAbsJump (kernel.address f) (kernel.newFunction f) trampolineAddr offset s.memory
        nCodeHook := NCodeHook.insert
          { s.nCodeHook with freeTrampolines := (trampolines kernel.trampolineBuffer).drop (k + 1) }
          (kernel.newFunction f) ⟨kernel.address f, kernel.newFunction f, offset, trampolineAddr⟩
        real := fun g => if g = f then trampolineAddr else s.real g
        stage := .attached todo } where
  attached todo' is := by
    obtain rfl := Stage.attached.inj is
    have attached := sound.attached _ next
    obtain ⟨done, split, earlier⟩ := attached.order
    exact {
      order := by
        refine ⟨done ++ [f], by simp [split], fun g installed => ?_⟩
        rcases (installed_append_hook f g).mp installed with rfl | before
        · simp
        · exact List.mem_append_left _ (earlier g before)
      items := fun e member => by
        rcases mem_insert member with rfl | old
        · exact ⟨⟨f, (installed_append_hook f f).mpr (.inl rfl), rfl⟩, kernel.newFunction_user f⟩
        · exact items_append attached.items _ e old
      few := by
        have before := attached.few
        simp only [List.length_cons] at before
        refine Nat.le_trans (Nat.add_le_add_right (insert_length _ _ _) _) ?_
        show s.nCodeHook.hookedFunctions.length + 1 + todo.length ≤ 5
        omega
      free := ⟨k + 1, by omega, insert_freeTrampolines _ _ _⟩
      cleans := (insert_cleanOnDestruct _ _ _).trans attached.cleans
      buffer := attached.buffer
      config := attached.config }
  released impossible := by cases impossible
  installed g installed := by
    by_cases same : g = f
    · subst same
      refine ⟨jumpTarget_patch (trampoline_apart g few place short), ?_⟩
      simp only [↓reduceIte, InBuffer, place, TrampolineBufferSize, MaxTotalTrampolineSize, MaxTrampolineSize,
        AbsJumpPatchSize]
      omega
    · have before := ((installed_append_hook f g).mp installed).resolve_left same
      obtain ⟨redirected, pointer⟩ := sound.installed g before
      simp only [if_neg same]
      refine ⟨?_, pointer⟩
      unfold Redirected
      rw [read_patch_apart (kernel.entries_apart g f same) (trampoline_apart g few place short)]
      exact redirected
  intact g missing := by
    have other : g ≠ f := fun same => missing ((installed_append_hook f g).mpr (.inl same))
    unfold Intact
    rw [read_patch_apart (kernel.entries_apart g f other) (trampoline_apart g few place short)]
    exact sound.intact g (fun before => missing ((installed_append_hook f g).mpr (.inr before)))

/-- The globals are destroyed one by one. -/
theorem sound_destroyed {stage : Stage} (gone : stage.destroyed = true) (sound : Sound kernel ls s) {a : Action}
    (other : ∀ f, a ≠ .hook f true) (buffer config : Bool) (world : World) (nCodeHook : NCodeHook)
    (released : buffer = false) :
    Sound kernel (ls ++ [a])
      { s with nCodeHook, buffer_allocated := buffer, config_alive := config, world, stage } where
  attached todo is := by
    obtain rfl : stage = .attached todo := is
    cases gone
  released _ := released
  installed f installed := sound.installed f ((installed_append_other other f).mp installed)
  intact f missing := sound.intact f (fun installed => missing ((installed_append_other other f).mpr installed))

/-- A hooked call changes nothing about the hooks. -/
theorem sound_call (sound : Sound kernel ls s) (call : ApiCall) (world : World) :
    Sound kernel (ls ++ [.call call]) { s with world } where
  attached todo is := by
    have attached := sound.attached todo is
    have same : ∀ f, Installed (ls ++ [.call call]) f ↔ Installed ls f := installed_append_other (by simp)
    obtain ⟨done, split, earlier⟩ := attached.order
    exact { attached with
      order := ⟨done, split, fun f installed => earlier f ((same f).mp installed)⟩
      items := items_append attached.items _ }
  released := sound.released
  installed f installed := sound.installed f ((installed_append_other (by simp) f).mp installed)
  intact f missing := sound.intact f (fun installed => missing ((installed_append_other (by simp) f).mpr installed))

theorem sound_step {a : Action} (sound : Sound kernel ls s) (step : Step kernel distorm s a s') :
    Sound kernel (ls ++ [a]) s' := by
  cases step with
  | @hook f todo next found writable pointer nCodeHook memory created =>
    rcases hook_cases (sound.attached _ next) created with
      nothing | ⟨k, trampolineAddr, useAbsJump, offset, few, place, short, hooked⟩
    · obtain ⟨rfl, rfl, rfl⟩ := (by simpa using nothing : pointer = 0 ∧ nCodeHook = s.nCodeHook ∧ memory = s.memory)
      exact sound_unhooked sound next
    · simp only [Prod.mk.injEq] at hooked
      obtain ⟨rfl, rfl, rfl⟩ := hooked
      have nonzero : pointer ≠ 0 := by
        rintro rfl
        have user := kernel.buffer_user
        simp only [UInt32.toNat_zero] at place
        omega
      rw [decide_eq_true nonzero]
      exact sound_hooked sound next useAbsJump few place short
  | call attached redirected rt init loaded inner returned => exact sound_call sound _ _
  | destroy_nCodeHook attached writable destroyed =>
    have before := sound.attached _ attached
    have few := before.few
    obtain ⟨rfl, rfl⟩ := destroy_cases destroyed (fun e member => .inr (before.items e member).2) (by omega) before.cleans
    exact sound_destroyed rfl sound (by simp) _ _ _ _ (by simp)
  | destroy_config next =>
    exact sound_destroyed rfl sound (by simp) _ _ _ _ (sound.released (by rw [next]; rfl))

theorem sound_of_run (run : Run (Step kernel distorm) (Process.initial kernel) ls s) : Sound kernel ls s :=
  run_history (I := Sound kernel) (sound_initial kernel) (fun _ _ _ _ sound step => sound_step sound step) run

/-- The constructor gives the `nCodeHook` that the process begins with. -/
theorem construct_initial (kernel : Kernel) :
    NCodeHook.construct kernel.trampolineBuffer true = .ok (Process.initial kernel).nCodeHook := by
  have user := kernel.buffer_user
  have allocated : kernel.trampolineBuffer ≠ 0 := by
    intro zero
    rw [zero] at user
    exact absurd user (by decide)
  exact if_neg allocated

/-- No call of `hook_everything` throws: there is a trampoline for each of them. -/
theorem hook_everything_goes_on {f : ApiFunction} {todo : List ApiFunction}
    (run : Run (Step kernel distorm) (Process.initial kernel) ls s) (next : s.stage = .attached (f :: todo))
    (found writable : Bool) : ∃ installed s', Step kernel distorm s (.hook f installed) s' := by
  obtain ⟨k, room, free⟩ := ((sound_of_run run).attached _ next).free
  have left : s.nCodeHook.freeTrampolines ≠ [] := by
    have many : (trampolines kernel.trampolineBuffer).length = 164 := by simp [trampolines]; decide
    rw [free]
    intro none
    have enough := List.drop_eq_nil_iff.mp none
    omega
  obtain ⟨⟨pointer, nCodeHook, memory⟩, created⟩ := createHookByName_returns distorm writable
    (if found then kernel.address f else 0) (kernel.newFunction f) s.memory left
  exact ⟨_, _, .hook next found writable created⟩

/-! ## The end of the hooks -/

theorem redirected_iff (sound : Sound kernel ls s) (f : ApiFunction) : Redirected kernel s.memory f ↔ Installed ls f := by
  constructor
  · intro redirected
    by_cases installed : Installed ls f
    · exact installed
    · exact absurd redirected (not_redirected_of_intact (sound.intact f installed))
  · intro installed
    exact (sound.installed f installed).1

theorem intact_iff (sound : Sound kernel ls s) (f : ApiFunction) : Intact kernel s.memory f ↔ ¬ Installed ls f :=
  ⟨fun intact installed => not_redirected_of_intact intact (sound.installed f installed).1, sound.intact f⟩

theorem safe_iff (sound : Sound kernel ls s) :
    Safe kernel s ↔ (s.stage.destroyed = true → ∀ f, ¬ Installed ls f) := by
  constructor
  · intro safe destroyed f installed
    have allocated := (safe f (sound.installed f installed).1).2.2.1
    rw [sound.released destroyed] at allocated
    cases allocated
  · intro harmless f redirected
    have installed := (redirected_iff sound f).mp redirected
    have pointer := (sound.installed f installed).2
    have nonzero : s.real f ≠ 0 := by
      intro zero
      have user := kernel.buffer_user
      have above := pointer.1
      rw [zero, UInt32.toNat_zero] at above
      omega
    cases stage : s.stage with
    | attached todo =>
      have attached := sound.attached todo stage
      exact ⟨nonzero, pointer, attached.buffer, attached.config⟩
    | nCodeHook_destroyed | config_destroyed => exact absurd installed (harmless (by rw [stage]; rfl) f)

/-- In every state of every run: as long as `nCodeHook` is alive, each redirected
    function has a real pointer into the allocated trampolines, and a configuration.
    Once it is destroyed, that holds exactly if no hook was ever installed, and a
    function has its original bytes exactly if no hook of it was. -/
theorem hooks_safe_iff (run : Run (Step kernel distorm) (Process.initial kernel) ls s) :
    (Safe kernel s ↔ (s.stage.destroyed = true → ∀ f, ¬ Installed ls f)) ∧
    (s.stage.destroyed = true → ∀ f, Intact kernel s.memory f ↔ ¬ Installed ls f) :=
  ⟨safe_iff (sound_of_run run), fun _ => intact_iff (sound_of_run run)⟩

end

/-- A process whose hooked functions consist of one-byte instructions. -/
def nopKernel : Kernel where
  memory _ := 0x90
  address
    | .ExitProcess => 0x10000
    | .OpenFile => 0x11000
    | .CreateFileA => 0x12000
    | .CreateFileW => 0x13000
    | .ReadFile => 0x14000
  newFunction
    | .ExitProcess => 0x20000
    | .OpenFile => 0x21000
    | .CreateFileA => 0x22000
    | .CreateFileW => 0x23000
    | .ReadFile => 0x24000
  trampolineBuffer := 0x30000
  buffer_user := by decide
  address_user f := by cases f <;> decide
  newFunction_user f := by cases f <;> decide
  entries_apart f g other := by
    cases f <;> cases g <;> first | exact absurd rfl other | exact ⟨by decide, by decide, by decide⟩
  buffer_apart f := by cases f <;> exact ⟨by decide, by decide, by decide⟩
  unhooked f := by cases f <;> decide

def nopDistorm : Distorm where
  decode code := some (code.map (fun _ => ⟨"NOP", 1⟩))
  within code instructions decoded := by
    obtain rfl := Option.some.inj decoded
    clear decoded
    induction code with
    | nil => exact Nat.le_refl 0
    | cons b rest ih =>
      simp only [List.map_cons, codeSize, List.length_cons]
      omega

/-- A call that hooks the next function, or does not. -/
theorem hook_step {kernel : Kernel} {distorm : Distorm} {s : Process} {f : ApiFunction} {todo : List ApiFunction}
    (next : s.stage = .attached (f :: todo)) (found writable : Bool) {result : UInt32 × NCodeHook × Memory}
    (created : createHookByName distorm writable (if found then kernel.address f else 0) (kernel.newFunction f) s.nCodeHook
      s.memory = .ok result) {installed : Bool} (answer : decide (result.1 ≠ 0) = installed) :
    Step kernel distorm s (.hook f installed)
      { s with
        memory := result.2.2
        nCodeHook := result.2.1
        real := fun g => if g = f then result.1 else s.real g
        stage := .attached todo } := by
  subst answer
  exact .hook next found writable created

/-- `ExitProcess` is hooked, the other functions are not found, and the globals begin to be destroyed. -/
def exitHooked : List Action :=
  [.hook .ExitProcess true, .hook .OpenFile false, .hook .CreateFileA false, .hook .CreateFileW false,
    .hook .ReadFile false, .destroy_nCodeHook]

theorem exitHooked_runs :
    ∃ s, Run (Step nopKernel nopDistorm) (Process.initial nopKernel) exitHooked s ∧ s.stage.destroyed = true := by
  refine run_ends (hook_step rfl true true rfl rfl) ?_
  refine run_ends (hook_step rfl false true rfl rfl) ?_
  refine run_ends (hook_step rfl false true rfl rfl) ?_
  refine run_ends (hook_step rfl false true rfl rfl) ?_
  refine run_ends (hook_step rfl false true rfl rfl) ?_
  exact run_ends (.destroy_nCodeHook rfl (fun _ => true) rfl) ⟨_, .refl _, rfl⟩

theorem exitHooked_safe_iff :
    ∃ s, Run (Step nopKernel nopDistorm) (Process.initial nopKernel) exitHooked s ∧
      (Safe nopKernel s ↔ (s.stage.destroyed = true → ∀ f, ¬ Installed exitHooked f)) := by
  obtain ⟨s, run, _⟩ := exitHooked_runs
  exact ⟨s, run, (hooks_safe_iff run).1⟩

/-- After the destruction of `nCodeHook`, the entry of `ExitProcess` still jumps to its
    replacement, whose real pointer leads into the freed buffer. -/
theorem exitProcess_stays_hooked :
    ∃ s, Run (Step nopKernel nopDistorm) (Process.initial nopKernel) exitHooked s ∧
      ¬ Safe nopKernel s ∧ ¬ Intact nopKernel s.memory .ExitProcess := by
  obtain ⟨s, run, destroyed⟩ := exitHooked_runs
  have installed : Installed exitHooked .ExitProcess := by simp [Installed, exitHooked]
  refine ⟨s, run, fun safe => ?_, fun intact => ?_⟩
  · exact (safe_iff (sound_of_run run)).mp safe destroyed _ installed
  · exact (intact_iff (sound_of_run run) _).mp intact installed

end Sysintercept.Lifetime
