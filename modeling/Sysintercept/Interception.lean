import Sysintercept.Lifetime
import Sysintercept.Trampolines

/-!
# The hooks of the attached DLL

The hooks that `hook_everything` places, run by a processor: while `nCodeHook` is
alive, a call of a hooked function is one of its replacement, and the real pointer
that the replacement calls stands in for the function's own code.
-/
namespace Sysintercept.Interception
open Sysintercept.Units Sysintercept.AddressSpace Sysintercept.Records Sysintercept.Automaton Sysintercept.Hooks
open Sysintercept.InlineHooks Sysintercept.Lifetime Sysintercept.Relocation Sysintercept.HookedFunctions
open Sysintercept.Trampolines
universe u

/-- The code that the hooks read, write and move does not overlap, and the trampolines are
    long enough for its instructions: 6 bytes each, or 16 where the replacement is near. -/
structure Room (kernel : Kernel) (distorm : Distorm) : Prop where
  entries_apart : ∀ f g, f ≠ g → Apart (kernel.address f) 20 (kernel.address g) 20
  buffer_apart : ∀ f, Apart (kernel.address f) 20 kernel.trampolineBuffer TrampolinesSize
  short : ∀ f instructions, distorm.decode (kernel.memory.read (kernel.address f) 20) = some instructions →
    ∀ instr ∈ instructions,
      2 * jumpPatchSize (requiresAbsJump (kernel.address f) (kernel.newFunction f)) + instr.size ≤ MaxTotalTrampolineSize + 1

theorem trampolineBuffer_allocated (kernel : Kernel) : kernel.trampolineBuffer ≠ 0 := by
  have user := kernel.buffer_user
  intro zero
  rw [zero] at user
  exact absurd user (by decide)

def Room.layout {kernel : Kernel} {distorm : Distorm} (room : Room kernel distorm) : Layout where
  functions a := ∃ f, a = kernel.address f
  trampolineBuffer := kernel.trampolineBuffer
  allocated := trampolineBuffer_allocated kernel
  fits := (room.buffer_apart .ExitProcess).right
  apart := by
    rintro a b ⟨f, rfl⟩ ⟨g, rfl⟩ other
    exact room.entries_apart f g fun same => other (by rw [same])
  away := by
    rintro a ⟨f, rfl⟩
    exact room.buffer_apart f

section
variable {kernel : Kernel} {distorm : Distorm} {ls : List Lifetime.Action} {s s' : Process} {lost : List NCodeHookItem}

/-- The table and the memory of a process. -/
def hooks (s : Process) : State := ⟨s.nCodeHook, s.memory⟩

/-- What is installed is what is hooked, with the real pointers leading to the trampolines. -/
structure Intercepts (room : Room kernel distorm) (ls : List Lifetime.Action) (s : Process) (lost : List NCodeHookItem) :
    Prop where
  consistent : Consistent room.layout distorm kernel.memory lost (hooks s)
  installed : ∀ f, Installed ls f → ∃ item ∈ (hooks s).items ++ lost,
    item.OriginalFunc = kernel.address f ∧ item.HookFunc = kernel.newFunction f ∧ item.Trampoline = s.real f
  hooked : ∀ item ∈ (hooks s).items ++ lost, ∃ f, Installed ls f ∧ item.OriginalFunc = kernel.address f
  chosen : s.nCodeHook.forceAbsJmp = false

theorem createHook_forceAbsJmp {writable : Bool} {originalFunc hookFunc : UInt32} {h : NCodeHook} {m : Memory}
    {result : UInt32 × NCodeHook × Memory} (created : createHook distorm writable originalFunc hookFunc h m = .ok result) :
    result.2.1.forceAbsJmp = h.forceAbsJmp := by
  rcases createHook_spec created with ⟨_, _, _, rfl⟩ | rfl | ⟨_, _, _, _, _, _, _, rfl⟩
  · rfl
  · rfl
  · exact insert_forceAbsJmp _ _ _

theorem fits_next (room : Room kernel distorm) (intercepts : Intercepts room ls s lost) {f : ApiFunction}
    (missing : ¬ Installed ls f) : Fits distorm (hooks s) (kernel.address f) (kernel.newFunction f) := by
  have unhooked : ∀ item ∈ (hooks s).items ++ lost, item.OriginalFunc ≠ kernel.address f := by
    intro item member same
    obtain ⟨g, installed, there⟩ := intercepts.hooked item member
    obtain rfl := address_inj (there.symm.trans same)
    exact missing installed
  have intact := intact_of_placed intercepts.consistent.placed ⟨f, rfl⟩ unhooked
  have chosen : (hooks s).usesAbsJump (kernel.address f) (kernel.newFunction f) =
      requiresAbsJump (kernel.address f) (kernel.newFunction f) := by
    simp [State.usesAbsJump, hooks, intercepts.chosen]
  have small := jumpPatchSize_le (requiresAbsJump (kernel.address f) (kernel.newFunction f))
  refine fits_of_short (MaxTotalTrampolineSize + 1 - 2 * jumpPatchSize
    (requiresAbsJump (kernel.address f) (kernel.newFunction f))) (fun instructions decoded instr member => ?_) ?_
  · rw [intact] at decoded
    have short := room.short f instructions decoded instr member
    omega
  · rw [chosen]
    simp only [MaxTotalTrampolineSize, AbsJumpPatchSize, MaxTrampolineSize] at small ⊢
    omega

/-- A call that changes nothing about the hooks. -/
theorem intercepts_same {room : Room kernel distorm} (intercepts : Intercepts room ls s lost) {a : Lifetime.Action}
    (other : ∀ f, a ≠ .hook f true) (same : hooks s' = hooks s) (real : ∀ f, Installed ls f → s'.real f = s.real f) :
    Intercepts room (ls ++ [a]) s' lost where
  consistent := by
    rw [same]
    exact intercepts.consistent
  installed f installed := by
    have before := (installed_append_other other f).mp installed
    rw [same, real f before]
    exact intercepts.installed f before
  hooked item member := by
    rw [same] at member
    obtain ⟨f, installed, there⟩ := intercepts.hooked item member
    exact ⟨f, (installed_append_other other f).mpr installed, there⟩
  chosen := (congrArg (fun t : State => t.hook.forceAbsJmp) same).trans intercepts.chosen

theorem address_nonzero (kernel : Kernel) (f : ApiFunction) : kernel.address f ≠ 0 := by
  have user := kernel.address_user f
  intro zero
  rw [zero] at user
  exact absurd user (by decide)

/-- The next function is hooked, or not. -/
theorem intercepts_hook {room : Room kernel distorm} (intercepts : Intercepts room ls s lost) (branches : Branches distorm)
    {f : ApiFunction} (missing : ¬ Installed ls f) {found writable : Bool} {pointer : UInt32} {nCodeHook : NCodeHook}
    {memory : Memory} (created : createHookByName distorm writable (if found then kernel.address f else 0)
      (kernel.newFunction f) s.nCodeHook s.memory = .ok (pointer, nCodeHook, memory)) (stage : Stage) :
    ∃ lost', Intercepts room (ls ++ [.hook f (decide (pointer ≠ 0))])
      { s with memory, nCodeHook, real := fun g => if g = f then pointer else s.real g, stage } lost' := by
  have others : ∀ g, Installed ls g → (if g = f then pointer else s.real g) = s.real g := by
    intro g installed
    have other : g ≠ f := by
      rintro rfl
      exact missing installed
    exact if_neg other
  cases found with
  | false =>
    obtain ⟨rfl, rfl, rfl⟩ : pointer = 0 ∧ nCodeHook = s.nCodeHook ∧ memory = s.memory := by
      simpa [createHookByName, eq_comm] using created
    exact ⟨lost, intercepts_same intercepts (by simp) rfl others⟩
  | true =>
    simp only [createHookByName, ↓reduceIte, if_pos (address_nonzero kernel f)] at created
    have near := createHook_forceAbsJmp created
    rcases consistent_createHook intercepts.consistent branches ⟨f, rfl⟩ (fits_next room intercepts missing) created with
      ⟨same, nothing⟩ | ⟨item, original, replacement, trampoline, hooked⟩
    · obtain ⟨rfl, rfl⟩ := Prod.mk.inj same
      have zero : pointer = 0 := by
        refine nothing.resolve_right ?_
        rintro ⟨item, member, there⟩
        obtain ⟨g, installed, there'⟩ := intercepts.hooked item (List.mem_append_left _ member)
        obtain rfl := address_inj (there'.symm.trans there)
        exact missing installed
      subst zero
      exact ⟨lost, intercepts_same intercepts (by simp) rfl others⟩
    · have more : ∃ lost', Consistent room.layout distorm kernel.memory lost' ⟨nCodeHook, memory⟩ ∧
          ∀ other, other ∈ (⟨nCodeHook, memory⟩ : State).items ++ lost' ↔ other = item ∨ other ∈ (hooks s).items ++ lost := by
        rcases hooked with ⟨_, items, consistent⟩ | ⟨_, _, table, consistent⟩
        · exact ⟨lost, consistent, fun other => by rw [items]; simp⟩
        · have items : (⟨nCodeHook, memory⟩ : State).items = (hooks s).items := congrArg (List.map Prod.snd) table
          exact ⟨item :: lost, consistent, fun other => by rw [items]; simp [or_left_comm]⟩
      obtain ⟨lost', consistent, members⟩ := more
      have nonzero : pointer ≠ 0 := by
        have pooled := consistent.placed.pooled item ((members item).mpr (.inl rfl))
        have above := (trampoline_within room.layout.fits pooled).1
        have user : 65536 ≤ room.layout.trampolineBuffer.toNat := kernel.buffer_user
        rintro rfl
        rw [trampoline, UInt32.toNat_zero] at above
        omega
      rw [decide_eq_true nonzero]
      refine ⟨lost', ⟨consistent, fun g installed => ?_, fun other member => ?_, near.trans intercepts.chosen⟩⟩
      · rcases (installed_append_hook f g).mp installed with rfl | before
        · exact ⟨item, (members item).mpr (.inl rfl), original, replacement, by simp [trampoline]⟩
        · obtain ⟨other, member, original', replacement', trampoline'⟩ := intercepts.installed g before
          exact ⟨other, (members other).mpr (.inr member), original', replacement', trampoline'.trans (others g before).symm⟩
      · rcases (members other).mp member with rfl | old
        · exact ⟨f, (installed_append_hook f f).mpr (.inl rfl), original⟩
        · obtain ⟨g, installed, there⟩ := intercepts.hooked other old
          exact ⟨g, (installed_append_hook f g).mpr (.inr installed), there⟩

theorem intercepts_run (room : Room kernel distorm) (branches : Branches distorm)
    (run : Run (Lifetime.Step kernel distorm) (Process.initial kernel) ls s) (attached : s.stage.destroyed = false) :
    ∃ lost, Intercepts room ls s lost := by
  have whole : Sound kernel ls s ∧ (s.stage.destroyed = false → ∃ lost, Intercepts room ls s lost) := by
    refine run_history (I := fun ls s => Sound kernel ls s ∧
      (s.stage.destroyed = false → ∃ lost, Intercepts room ls s lost)) ⟨sound_initial kernel, fun _ => ⟨[], ?_⟩⟩ ?_ run
    · exact ⟨consistent_begins ⟨true, construct_initial kernel, rfl⟩, fun f installed => absurd installed (by simp [Installed]),
        by simp [hooks, State.items, Process.initial], rfl⟩
    · rintro ls s a t ⟨sound, intercepts⟩ step
      refine ⟨sound_step sound step, fun attached => ?_⟩
      cases step with
      | @hook f todo next found writable pointer nCodeHook memory created =>
        obtain ⟨lost, intercepts⟩ := intercepts (by rw [next]; rfl)
        exact intercepts_hook intercepts branches (not_installed_next (sound.attached _ next)) created _
      | call there redirected =>
        obtain ⟨lost, intercepts⟩ := intercepts attached
        exact ⟨lost, intercepts_same intercepts (by simp) rfl fun _ _ => rfl⟩
      | destroy_nCodeHook => simp [Stage.destroyed] at attached
      | destroy_config => simp [Stage.destroyed] at attached
  exact whole.2 attached

end

theorem nopKernel_room : Room nopKernel nops where
  entries_apart f g other := by
    cases f <;> cases g <;> first | exact absurd rfl other | exact ⟨by decide, by decide, by decide⟩
  buffer_apart f := by cases f <;> exact ⟨by decide, by decide, by decide⟩
  short f instructions decoded instr member := by
    obtain rfl := Option.some.inj decoded
    obtain ⟨before, after, whole⟩ := List.append_of_mem member
    rw [(nopsOf_split whole).1]
    cases f <;> decide

end Sysintercept.Interception
