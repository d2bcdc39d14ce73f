import Mathlib.Data.List.Nodup
import Sysintercept.Automaton
import Sysintercept.InlineHooks
import Sysintercept.Records

/-!
# Hooking and unhooking

Any order of calls of `createHook`, `createHookByName`, `removeHook` and
`forceAbsoluteJumps` on one `NCodeHook`: which functions are hooked, what lies at
them and in their trampolines, and that everything else is as it was. Two functions
that share a hook function are the odd case: the table has room for one of them.
-/
namespace Sysintercept.HookedFunctions
open Sysintercept.Units Sysintercept.AddressSpace Sysintercept.Buffers Sysintercept.Records Sysintercept.Automaton
open Sysintercept.InlineHooks

/-! ## The trampolines -/

/-- What the trampolines of a buffer take: 164 of them, the last one ending behind the buffer. -/
def TrampolinesSize : Nat := 4100

section
variable {buffer t t' : UInt32}

theorem mem_trampolines (fits : buffer.toNat + TrampolinesSize ≤ 4294967296) :
    t ∈ trampolines buffer ↔ ∃ i < 164, t.toNat = buffer.toNat + i * MaxTotalTrampolineSize := by
  simp only [TrampolinesSize] at fits
  simp only [trampolines, List.mem_map, List.mem_range, TrampolineBufferSize, MaxTotalTrampolineSize, AbsJumpPatchSize,
    MaxTrampolineSize]
  constructor
  · rintro ⟨i, few, rfl⟩
    exact ⟨i, by omega, toNat_offset (by omega)⟩
  · rintro ⟨i, few, place⟩
    refine ⟨i, by omega, UInt32.toNat_inj.mp ?_⟩
    rw [toNat_offset (by omega), place]

theorem trampolines_nodup (fits : buffer.toNat + TrampolinesSize ≤ 4294967296) : (trampolines buffer).Nodup := by
  simp only [TrampolinesSize] at fits
  refine List.Nodup.map_on ?_ List.nodup_range
  intro i small j small' same
  simp only [TrampolineBufferSize, MaxTotalTrampolineSize, AbsJumpPatchSize, MaxTrampolineSize, List.mem_range] at small small'
  have places := congrArg UInt32.toNat same
  simp only [MaxTotalTrampolineSize, AbsJumpPatchSize, MaxTrampolineSize] at places
  rw [toNat_offset (by omega), toNat_offset (by omega)] at places
  omega

theorem trampoline_within (fits : buffer.toNat + TrampolinesSize ≤ 4294967296) (pooled : t ∈ trampolines buffer) :
    buffer.toNat ≤ t.toNat ∧ t.toNat + MaxTotalTrampolineSize ≤ buffer.toNat + TrampolinesSize := by
  obtain ⟨i, few, place⟩ := (mem_trampolines fits).mp pooled
  simp only [MaxTotalTrampolineSize, AbsJumpPatchSize, MaxTrampolineSize, TrampolinesSize] at place ⊢
  omega

theorem trampolines_apart (fits : buffer.toNat + TrampolinesSize ≤ 4294967296) (pooled : t ∈ trampolines buffer)
    (pooled' : t' ∈ trampolines buffer) (other : t ≠ t') :
    Apart t MaxTotalTrampolineSize t' MaxTotalTrampolineSize := by
  have within := trampoline_within fits pooled
  have within' := trampoline_within fits pooled'
  obtain ⟨i, few, place⟩ := (mem_trampolines fits).mp pooled
  obtain ⟨j, few', place'⟩ := (mem_trampolines fits).mp pooled'
  have differ : t.toNat ≠ t'.toNat := fun same => other (UInt32.toNat_inj.mp same)
  simp only [MaxTotalTrampolineSize, AbsJumpPatchSize, MaxTrampolineSize, TrampolinesSize] at *
  exact ⟨by omega, by omega, by omega⟩

end

theorem insertAscending_perm {a : UInt32} {l : List UInt32} (new : a ∉ l) : (insertAscending a l).Perm (a :: l) := by
  induction l with
  | nil => exact .refl _
  | cons b rest ih =>
    have other : a ≠ b := fun same => new (by simp [same])
    have later : a ∉ rest := fun member => new (by simp [member])
    unfold insertAscending
    by_cases below : a < b
    · simp [below]
    · simp only [below, other, ↓reduceIte]
      exact ((ih later).cons b).trans (.swap a b rest)

/-! ## The jumps and what they displace -/

theorem jumpPatchSize_pos (useAbsJump : Bool) : 0 < jumpPatchSize useAbsJump := by
  cases useAbsJump <;> decide

/-- The function's code is moved to a trampoline that is apart from it, and the two of
    them are all that changes. -/
theorem patch_places {useAbsJump : Bool} {originalFunc trampolineAddr : UInt32} {offset : Nat} (hookFunc : UInt32) (m : Memory)
    (apart : Apart originalFunc 20 trampolineAddr MaxTotalTrampolineSize)
    (long : jumpPatchSize useAbsJump ≤ offset) (short : offset ≤ 20)
    (fits : offset + jumpPatchSize useAbsJump ≤ MaxTotalTrampolineSize) :
    (patch useAbsJump originalFunc hookFunc trampolineAddr offset m).read originalFunc 20 =
        writeJump useAbsJump originalFunc hookFunc ++ (m.read originalFunc 20).drop (jumpPatchSize useAbsJump) ∧
      (patch useAbsJump originalFunc hookFunc trampolineAddr offset m).read trampolineAddr
          (offset + jumpPatchSize useAbsJump) =
        m.read originalFunc offset ++
          writeJump useAbsJump (trampolineAddr + UInt32.ofNat offset) (originalFunc + UInt32.ofNat offset) ∧
      ∀ x, ¬ InRun originalFunc 20 x → ¬ InRun trampolineAddr MaxTotalTrampolineSize x →
        patch useAbsJump originalFunc hookFunc trampolineAddr offset m x = m x := by
  have left := apart.left
  have right := apart.right
  have jump := writeJump_length useAbsJump originalFunc hookFunc
  have back := writeJump_length useAbsJump (trampolineAddr + UInt32.ofNat offset) (originalFunc + UInt32.ofNat offset)
  have small := jumpPatchSize_le useAbsJump
  simp only [MaxTotalTrampolineSize, AbsJumpPatchSize, MaxTrampolineSize] at right fits small apart ⊢
  have positive := jumpPatchSize_pos useAbsJump
  have behind : (trampolineAddr + UInt32.ofNat offset).toNat = trampolineAddr.toNat + offset := toNat_offset (by omega)
  have copied : (m.read originalFunc offset).length = offset := read_length ..
  unfold patch
  refine ⟨?_, ?_, fun x outside outside' => ?_⟩
  · rw [read_write_apart, read_write_self _ _ (by omega) (by omega), read_write_apart, jump]
    · exact apart_part apart (Nat.le_refl _) (by omega)
    · exact apart_part apart (by omega) (by omega)
  · rw [read_add, read_write_apart, read_write_apart, read_write_self _ _ (by omega) (by omega),
      read_write_self _ _ (by omega) (by omega), copied, back, List.drop_of_length_le (by simp),
      List.drop_of_length_le (by simp), List.append_nil, List.append_nil]
    · exact apart_part (apart_shorter (apart_symm apart) (by omega)) (Nat.le_refl _) (by omega)
    · exact ⟨by omega, by omega, .inl (by omega)⟩
  · unfold InRun at outside outside'
    rw [write_outside (by omega) (by unfold InRun; omega), write_outside (by omega) (by unfold InRun; omega),
      write_outside (by omega) (by unfold InRun; omega)]

/-! ## Runs -/

/-- Where the functions that may be hooked lie, and the trampolines: none of it overlaps. -/
structure Layout where
  functions : UInt32 → Prop
  trampolineBuffer : UInt32
  allocated : trampolineBuffer ≠ 0
  fits : trampolineBuffer.toNat + TrampolinesSize ≤ 4294967296
  apart : ∀ f g, functions f → functions g → f ≠ g → Apart f 20 g 20
  away : ∀ f, functions f → Apart f 20 trampolineBuffer TrampolinesSize

structure State where
  hook : NCodeHook
  memory : Memory

/-- What the table holds. -/
def State.items (s : State) : List NCodeHookItem := s.hook.hookedFunctions.map Prod.snd

/-- The kind of jump that `createHook` chooses. -/
def State.usesAbsJump (s : State) (originalFunc hookFunc : UInt32) : Bool :=
  s.hook.forceAbsJmp || requiresAbsJump originalFunc hookFunc

/-- The calls, with what `VirtualProtect` and `GetProcAddress` answer. -/
inductive Action
  | createHook (originalFunc hookFunc : UInt32) (writable : Bool)
  | createHookByName (funcPtr newFunc : UInt32) (writable : Bool)
  | removeHook (address : UInt32) (writable : Bool)
  | forceAbsoluteJumps (value : Bool)
  deriving DecidableEq, Repr

/-- A call that throws leaves the hooks as they are. -/
def State.after (s : State) : Except Stop (UInt32 × NCodeHook × Memory) → State
  | .ok (_, hook, memory) => ⟨hook, memory⟩
  | .error _ => s

def perform (distorm : Distorm) (s : State) : Action → State
  | .createHook originalFunc hookFunc writable => s.after (createHook distorm writable originalFunc hookFunc s.hook s.memory)
  | .createHookByName funcPtr newFunc writable => s.after (createHookByName distorm writable funcPtr newFunc s.hook s.memory)
  | .removeHook address writable =>
    let (_, hook, memory) := removeHookOf writable address s.hook s.memory
    ⟨hook, memory⟩
  | .forceAbsoluteJumps value => { s with hook := { s.hook with forceAbsJmp := value } }

section
variable (layout : Layout) (distorm : Distorm)

/-- The moved instructions and the jump back take no more than a trampoline. -/
def Fits (s : State) (originalFunc hookFunc : UInt32) : Prop :=
  ∀ offset, getMinOffset distorm (s.memory.read originalFunc 20) (jumpPatchSize (s.usesAbsJump originalFunc hookFunc)) =
      some offset →
    offset + jumpPatchSize (s.usesAbsJump originalFunc hookFunc) ≤ MaxTotalTrampolineSize

def Permitted (s : State) : Action → Prop
  | .createHook originalFunc hookFunc _ => layout.functions originalFunc ∧ Fits distorm s originalFunc hookFunc
  | .createHookByName funcPtr newFunc _ => funcPtr ≠ 0 → layout.functions funcPtr ∧ Fits distorm s funcPtr newFunc
  | .removeHook _ _ => True
  | .forceAbsoluteJumps _ => True

def Step (s : State) (a : Action) (t : State) : Prop := Permitted layout distorm s a ∧ t = perform distorm s a

/-- The state that the constructor leaves. -/
def Begins (m₀ : Memory) (s : State) : Prop :=
  ∃ cleanOnDestruct, NCodeHook.construct layout.trampolineBuffer cleanOnDestruct = .ok s.hook ∧ s.memory = m₀

variable (m₀ : Memory)

/-- A hook: the jump at the function, and in the trampoline the instructions that it
    displaces with a jump back behind them. -/
structure InPlace (m : Memory) (item : NCodeHookItem) (useAbsJump : Bool) : Prop where
  moved : getMinOffset distorm (m₀.read item.OriginalFunc 20) (jumpPatchSize useAbsJump) = some item.PatchSize
  fits : item.PatchSize + jumpPatchSize useAbsJump ≤ MaxTotalTrampolineSize
  function : m.read item.OriginalFunc 20 = writeJump useAbsJump item.OriginalFunc item.HookFunc ++
    (m₀.read item.OriginalFunc 20).drop (jumpPatchSize useAbsJump)
  trampoline : m.read item.Trampoline (item.PatchSize + jumpPatchSize useAbsJump) = m₀.read item.OriginalFunc item.PatchSize ++
    writeJump useAbsJump (item.Trampoline + UInt32.ofNat item.PatchSize) (item.OriginalFunc + UInt32.ofNat item.PatchSize)

/-- The hooks are in place, and all the rest of the memory is as it was. -/
structure Placed (hooks : List NCodeHookItem) (m : Memory) : Prop where
  originals : (hooks.map NCodeHookItem.OriginalFunc).Nodup
  slots : (hooks.map NCodeHookItem.Trampoline).Nodup
  functions : ∀ item ∈ hooks, layout.functions item.OriginalFunc
  pooled : ∀ item ∈ hooks, item.Trampoline ∈ trampolines layout.trampolineBuffer
  inPlace : ∀ item ∈ hooks, ∃ useAbsJump, InPlace distorm m₀ m item useAbsJump
  elsewhere : ∀ x, ¬ InRun layout.trampolineBuffer TrampolinesSize x →
    (∀ item ∈ hooks, ¬ InRun item.OriginalFunc 20 x) → m x = m₀ x

/-- The table and the pool of trampolines, and what is in place: the hooks of the table, and
    those that it had no room for. -/
structure Consistent (lost : List NCodeHookItem) (s : State) : Prop where
  placed : Placed layout distorm m₀ (s.items ++ lost) s.memory
  partition : (s.hook.freeTrampolines ++ (s.items ++ lost).map NCodeHookItem.Trampoline).Perm
    (trampolines layout.trampolineBuffer)
  keyed : ∀ e ∈ s.hook.hookedFunctions, e.1 = e.2.HookFunc
  distinct : (s.hook.hookedFunctions.map Prod.fst).Nodup

end

/-! ## What a change of the memory leaves in place -/

theorem apart_disjoint {a b x : UInt32} {n k : Nat} (apart : Apart a n b k) (inside : InRun a n x) : ¬ InRun b k x := by
  have order := apart.order
  unfold InRun at *
  omega

section
variable {layout : Layout} {distorm : Distorm} {m₀ m m' : Memory} {hooks hooks' : List NCodeHookItem}
  {item : NCodeHookItem} {useAbsJump : Bool}

theorem away_trampoline {f t : UInt32} (function : layout.functions f) (pooled : t ∈ trampolines layout.trampolineBuffer) :
    Apart f 20 t MaxTotalTrampolineSize := by
  have within := trampoline_within layout.fits pooled
  exact apart_part (layout.away f function) within.1 within.2

theorem inPlace_bounds (placed : InPlace distorm m₀ m item useAbsJump) :
    jumpPatchSize useAbsJump ≤ item.PatchSize ∧ item.PatchSize ≤ 20 := by
  simpa using getMinOffset_bounds placed.moved

/-- Behind the moved instructions the function's code is as it was. -/
theorem displaced_of_inPlace (placed : InPlace distorm m₀ m item useAbsJump) :
    (m.read item.OriginalFunc 20).drop item.PatchSize = (m₀.read item.OriginalFunc 20).drop item.PatchSize := by
  obtain ⟨long, _⟩ := inPlace_bounds placed
  have jump := writeJump_length useAbsJump item.OriginalFunc item.HookFunc
  rw [placed.function, List.drop_append, List.drop_of_length_le (by omega), List.nil_append, List.drop_drop, jump]
  congr 1
  omega

/-- The trampoline begins with the instructions that the jump displaces. -/
theorem moved_of_inPlace (placed : InPlace distorm m₀ m item useAbsJump) :
    m.read item.Trampoline item.PatchSize = m₀.read item.OriginalFunc item.PatchSize := by
  rw [← read_take m _ (Nat.le_add_right _ (jumpPatchSize useAbsJump)), placed.trampoline, List.take_left' (by simp)]

/-- The bytes of a hook are all that it depends on. -/
theorem inPlace_congr (placed : InPlace distorm m₀ m item useAbsJump)
    (apart : Apart item.OriginalFunc 20 item.Trampoline MaxTotalTrampolineSize)
    (same : ∀ x, InRun item.OriginalFunc 20 x ∨ InRun item.Trampoline MaxTotalTrampolineSize x → m' x = m x) :
    InPlace distorm m₀ m' item useAbsJump where
  moved := placed.moved
  fits := placed.fits
  function := by
    rw [read_congr apart.left fun x inside => same x (.inl inside)]
    exact placed.function
  trampoline := by
    have fits := placed.fits
    have right := apart.right
    rw [read_congr (by omega) fun x inside => same x (.inr (by unfold InRun at inside ⊢; omega))]
    exact placed.trampoline

theorem placed_perm (placed : Placed layout distorm m₀ hooks m) (perm : hooks.Perm hooks') :
    Placed layout distorm m₀ hooks' m where
  originals := (perm.map _).nodup_iff.mp placed.originals
  slots := (perm.map _).nodup_iff.mp placed.slots
  functions item member := placed.functions item (perm.mem_iff.mpr member)
  pooled item member := placed.pooled item (perm.mem_iff.mpr member)
  inPlace item member := placed.inPlace item (perm.mem_iff.mpr member)
  elsewhere x outside apart := placed.elsewhere x outside fun item member => apart item (perm.mem_iff.mp member)

/-- A function that is not hooked is as it was. -/
theorem intact_of_placed (placed : Placed layout distorm m₀ hooks m) {f : UInt32} (function : layout.functions f)
    (unhooked : ∀ item ∈ hooks, item.OriginalFunc ≠ f) : m.read f 20 = m₀.read f 20 := by
  refine read_congr (layout.away f function).left fun x inside => placed.elsewhere x ?_ ?_
  · exact apart_disjoint (layout.away f function) inside
  · intro item member
    exact apart_disjoint (layout.apart f _ function (placed.functions item member) (unhooked item member).symm) inside

/-- Another hook stays in place where a function and a trampoline change. -/
theorem inPlace_other (placed : Placed layout distorm m₀ hooks m) (member : item ∈ hooks) {f t : UInt32}
    (function : layout.functions f) (pooled : t ∈ trampolines layout.trampolineBuffer) (new : item.OriginalFunc ≠ f)
    (free : item.Trampoline ≠ t)
    (same : ∀ x, ¬ InRun f 20 x → ¬ InRun t MaxTotalTrampolineSize x → m' x = m x) :
    ∃ useAbsJump, InPlace distorm m₀ m' item useAbsJump := by
  have function' := placed.functions item member
  have pooled' := placed.pooled item member
  obtain ⟨useAbsJump, there⟩ := placed.inPlace item member
  refine ⟨useAbsJump, inPlace_congr there (away_trampoline function' pooled') fun x inside => ?_⟩
  rcases inside with inside | inside
  · exact same x (apart_disjoint (layout.apart _ _ function' function new) inside)
      (apart_disjoint (away_trampoline function' pooled) inside)
  · exact same x (apart_disjoint (apart_symm (away_trampoline function pooled')) inside)
      (apart_disjoint (trampolines_apart layout.fits pooled' pooled free) inside)

/-- A byte of a trampoline is one of all the trampolines. -/
theorem inRun_trampolines {t x : UInt32} (pooled : t ∈ trampolines layout.trampolineBuffer)
    (inside : InRun t MaxTotalTrampolineSize x) : InRun layout.trampolineBuffer TrampolinesSize x := by
  have within := trampoline_within layout.fits pooled
  unfold InRun at *
  omega

/-- One more hook. -/
theorem placed_patch (hookFunc : UInt32) (placed : Placed layout distorm m₀ hooks m)
    {originalFunc trampolineAddr : UInt32} {offset : Nat}
    (function : layout.functions originalFunc) (pooled : trampolineAddr ∈ trampolines layout.trampolineBuffer)
    (new : ∀ item ∈ hooks, item.OriginalFunc ≠ originalFunc) (free : ∀ item ∈ hooks, item.Trampoline ≠ trampolineAddr)
    (found : getMinOffset distorm (m.read originalFunc 20) (jumpPatchSize useAbsJump) = some offset)
    (fits : offset + jumpPatchSize useAbsJump ≤ MaxTotalTrampolineSize) :
    Placed layout distorm m₀ (⟨originalFunc, hookFunc, offset, trampolineAddr⟩ :: hooks)
      (patch useAbsJump originalFunc hookFunc trampolineAddr offset m) := by
  have apart := away_trampoline function pooled
  have bounds := getMinOffset_bounds found
  rw [read_length] at bounds
  have intact := intact_of_placed placed function new
  obtain ⟨entry, moved, same⟩ := patch_places hookFunc m apart bounds.1 bounds.2 fits
  constructor
  · simpa using ⟨fun item member => new item member, placed.originals⟩
  · simpa using ⟨fun item member => free item member, placed.slots⟩
  · simpa using ⟨function, placed.functions⟩
  · simpa using ⟨pooled, placed.pooled⟩
  · intro item member
    rcases List.mem_cons.mp member with rfl | old
    · refine ⟨useAbsJump, ⟨by rw [← intact]; exact found, fits, by rw [← intact]; exact entry, ?_⟩⟩
      rw [moved, ← read_take m _ bounds.2, intact, read_take m₀ _ bounds.2]
    · exact inPlace_other placed old function pooled (new item old) (free item old) same
  · intro x outside apart
    have here := apart ⟨originalFunc, hookFunc, offset, trampolineAddr⟩ (by simp)
    rw [same x here fun inside => outside (inRun_trampolines pooled inside)]
    exact placed.elsewhere x outside fun item member => apart item (by simp [member])

/-- One hook less: its instructions are copied back. -/
theorem placed_restore (placed : Placed layout distorm m₀ (item :: hooks) m) :
    Placed layout distorm m₀ hooks (m.write item.OriginalFunc (m.read item.Trampoline item.PatchSize)) ∧
      (m.write item.OriginalFunc (m.read item.Trampoline item.PatchSize)).read item.OriginalFunc 20 =
        m₀.read item.OriginalFunc 20 := by
  obtain ⟨new, originals⟩ := List.nodup_cons.mp placed.originals
  obtain ⟨free, slots⟩ := List.nodup_cons.mp placed.slots
  have function := placed.functions item (by simp)
  have pooled := placed.pooled item (by simp)
  have left := (layout.away _ function).left
  obtain ⟨useAbsJump, there⟩ := placed.inPlace item (by simp)
  have short := (inPlace_bounds there).2
  have restored : (m.write item.OriginalFunc (m.read item.Trampoline item.PatchSize)).read item.OriginalFunc 20 =
      m₀.read item.OriginalFunc 20 := by
    rw [read_write_self _ _ (by decide) (by simpa using short), moved_of_inPlace there, read_length, displaced_of_inPlace there,
      ← read_take m₀ _ short, List.take_append_drop]
  have same : ∀ x, ¬ InRun item.OriginalFunc 20 x →
      m.write item.OriginalFunc (m.read item.Trampoline item.PatchSize) x = m x := by
    intro x outside
    refine write_outside (by rw [read_length]; omega) fun inside => outside ?_
    unfold InRun at inside ⊢
    rw [read_length] at inside
    omega
  refine ⟨⟨originals, slots, fun other member => placed.functions other (by simp [member]),
    fun other member => placed.pooled other (by simp [member]), fun other member => ?_, fun x outside apart => ?_⟩, restored⟩
  · refine inPlace_other placed (List.mem_cons_of_mem _ member) function pooled ?_ ?_ fun x outside _ => same x outside
    · exact fun equal => new (List.mem_map.mpr ⟨other, member, equal⟩)
    · exact fun equal => free (List.mem_map.mpr ⟨other, member, equal⟩)
  · by_cases inside : InRun item.OriginalFunc 20 x
    · exact eq_of_read restored inside
    · rw [same x inside]
      refine placed.elsewhere x outside fun other member => ?_
      rcases List.mem_cons.mp member with rfl | old
      · exact inside
      · exact apart other old

end

/-! ## The size of a trampoline -/

/-- The last instruction that is moved begins under the jump. -/
theorem minOffset_short {size longest offset result : Nat} {instructions : List Instruction}
    (found : minOffset size instructions offset = some result) (short : ∀ instr ∈ instructions, instr.size ≤ longest)
    (before : offset < size) : result < size + longest := by
  induction instructions generalizing offset with
  | nil => simp [minOffset, before] at found
  | cons instr rest ih =>
    unfold minOffset at found
    cases branch : isBranch instr with
    | true => simp [before, branch] at found
    | false =>
      simp only [before, branch, ↓reduceIte, Bool.false_eq_true] at found
      have here := short instr (by simp)
      by_cases again : offset + instr.size < size
      · exact ih found (fun other member => short other (by simp [member])) again
      · cases rest with
        | nil =>
          simp only [minOffset, again, ↓reduceIte, Option.some.injEq] at found
          omega
        | cons next later =>
          simp only [minOffset, again, ↓reduceIte, Option.some.injEq] at found
          omega

/-- A trampoline is long enough for instructions of 6 bytes, and of 16 if all jumps are near. -/
theorem fits_of_short {distorm : Distorm} {s : State} {originalFunc hookFunc : UInt32} (longest : Nat)
    (short : ∀ instructions, distorm.decode (s.memory.read originalFunc 20) = some instructions →
      ∀ instr ∈ instructions, instr.size ≤ longest)
    (room : 2 * jumpPatchSize (s.usesAbsJump originalFunc hookFunc) + longest ≤ MaxTotalTrampolineSize + 1) :
    Fits distorm s originalFunc hookFunc := by
  intro offset found
  unfold getMinOffset at found
  cases decoded : distorm.decode (s.memory.read originalFunc 20) with
  | none => simp [decoded] at found
  | some instructions =>
    simp only [decoded] at found
    have bound := minOffset_short found (short instructions decoded) (jumpPatchSize_pos _)
    omega

/-! ## What the calls do -/

/-- The disassembler knows the jumps that are written, as branches. -/
def Branches (distorm : Distorm) : Prop :=
  ∀ useAbsJump source target rest instructions,
    distorm.decode (writeJump useAbsJump source target ++ rest) = some instructions →
      ∀ instr ∈ instructions.head?, isBranch instr = true

/-- No hook can be put on a jump of another one. -/
theorem getMinOffset_writeJump {distorm : Distorm} (branches : Branches distorm) (useAbsJump : Bool) (source target : UInt32)
    (rest : Bytes) {size : Nat} (positive : 0 < size) :
    getMinOffset distorm (writeJump useAbsJump source target ++ rest) size = none := by
  unfold getMinOffset
  cases decoded : distorm.decode (writeJump useAbsJump source target ++ rest) with
  | none => rfl
  | some instructions =>
    have first := branches _ _ _ _ _ decoded
    cases instructions with
    | nil => simp [minOffset, positive]
    | cons instr later => simp [minOffset, positive, first instr (by simp)]

/-- What `createHook` does: it finds a hook of the function, it does nothing, or it makes one. -/
theorem createHook_spec {distorm : Distorm} {writable : Bool} {originalFunc hookFunc : UInt32} {h : NCodeHook} {m : Memory}
    {result : UInt32 × NCodeHook × Memory} (created : createHook distorm writable originalFunc hookFunc h m = .ok result) :
    (∃ e ∈ h.hookedFunctions, e.2.OriginalFunc = originalFunc ∧ result = (e.2.Trampoline, h, m)) ∨
      result = (0, h, m) ∨
      (∀ e ∈ h.hookedFunctions, e.2.OriginalFunc ≠ originalFunc) ∧ writable = true ∧ ∃ trampolineAddr freeTrampolines offset,
        h.freeTrampolines = trampolineAddr :: freeTrampolines ∧
        getMinOffset distorm (m.read originalFunc 20) (jumpPatchSize (h.forceAbsJmp || requiresAbsJump originalFunc hookFunc)) =
          some offset ∧
        result = (trampolineAddr,
          NCodeHook.insert { h with freeTrampolines } hookFunc ⟨originalFunc, hookFunc, offset, trampolineAddr⟩,
          patch (h.forceAbsJmp || requiresAbsJump originalFunc hookFunc) originalFunc hookFunc trampolineAddr offset m) := by
  unfold createHook at created
  cases earlier : h.hookedFunctions.find? (fun e => e.2.OriginalFunc == originalFunc) with
  | some e =>
    simp only [earlier] at created
    have member := List.mem_of_find?_eq_some earlier
    have same := List.find?_some earlier
    exact .inl ⟨e, member, by simpa using same, (Except.ok.inj created).symm⟩
  | none =>
    simp only [earlier] at created
    have unhooked : ∀ e ∈ h.hookedFunctions, e.2.OriginalFunc ≠ originalFunc := by simpa using earlier
    cases found : getMinOffset distorm (m.read originalFunc 20)
        (jumpPatchSize (h.forceAbsJmp || requiresAbsJump originalFunc hookFunc)) with
    | none =>
      simp only [found] at created
      exact .inr (.inl (Except.ok.inj created).symm)
    | some offset =>
      simp only [found] at created
      cases writable with
      | false => exact .inr (.inl (Except.ok.inj created).symm)
      | true =>
        cases free : h.freeTrampolines with
        | nil => simp [free] at created
        | cons trampolineAddr freeTrampolines =>
          simp only [free, ↓reduceIte] at created
          exact .inr (.inr ⟨unhooked, rfl, trampolineAddr, freeTrampolines, offset, rfl, rfl, (Except.ok.inj created).symm⟩)

section
variable {α : Type} {l : List (UInt32 × α)}

theorem lookup_eq_none {key : UInt32} : l.lookup key = none ↔ key ∉ l.map Prod.fst := by
  simp only [List.lookup_eq_none_iff, List.mem_map, Prod.exists, exists_and_right, exists_eq_right, not_exists]
  constructor
  · intro differ value member
    simpa using differ (key, value) member
  · intro missing e member
    by_cases same : key = e.1
    · subst same
      exact absurd member (missing e.2)
    · simpa using same

/-- An entry, and those with other keys. -/
theorem perm_filter_key (distinct : (l.map Prod.fst).Nodup) {e : UInt32 × α} (member : e ∈ l) :
    l.Perm (e :: l.filter (fun other => other.1 != e.1)) := by
  induction l with
  | nil => simp at member
  | cons first rest ih =>
    obtain ⟨new, later⟩ := List.nodup_cons.mp distinct
    by_cases same : e = first
    · subst same
      have others : rest.filter (fun other => other.1 != e.1) = rest := by
        refine List.filter_eq_self.mpr fun other inside => ?_
        have differ : other.1 ≠ e.1 := fun equal => new (List.mem_map.mpr ⟨other, inside, equal⟩)
        simpa using differ
      simp [others]
    · have inside : e ∈ rest := (List.mem_cons.mp member).resolve_left same
      have differ : first.1 ≠ e.1 := fun equal => new (List.mem_map.mpr ⟨e, inside, equal.symm⟩)
      simp only [List.filter_cons, bne_iff_ne, ne_eq, differ, not_false_eq_true, ↓reduceIte]
      exact ((ih later inside).cons first).trans (.swap e first _)

end

section
variable {layout : Layout} {distorm : Distorm} {m₀ : Memory} {lost : List NCodeHookItem} {s : State}

theorem mem_items {item : NCodeHookItem} : item ∈ s.items ↔ ∃ e ∈ s.hook.hookedFunctions, e.2 = item := by
  simp [State.items]

theorem consistent_begins (begins : Begins layout m₀ s) : Consistent layout distorm m₀ [] s := by
  obtain ⟨cleanOnDestruct, constructed, memory⟩ := begins
  obtain ⟨hook, m⟩ := s
  obtain rfl : m = m₀ := memory
  simp only [NCodeHook.construct, layout.allocated, ↓reduceIte, Except.ok.injEq] at constructed
  subst constructed
  constructor
  · exact ⟨by simp [State.items], by simp [State.items], by simp [State.items], by simp [State.items],
      by simp [State.items], fun _ _ _ => rfl⟩
  · simp [State.items]
  · simp
  · simp

/-- A free trampoline is one of the buffer's, and of no hook. -/
theorem free_trampoline (consistent : Consistent layout distorm m₀ lost s) {t : UInt32} {rest : List UInt32}
    (free : s.hook.freeTrampolines = t :: rest) :
    t ∈ trampolines layout.trampolineBuffer ∧ ∀ item ∈ s.items ++ lost, item.Trampoline ≠ t := by
  have partition := consistent.partition
  rw [free] at partition
  constructor
  · exact partition.mem_iff.mp (by simp)
  · intro item member same
    have distinct := partition.nodup_iff.mpr (trampolines_nodup layout.fits)
    exact (List.nodup_cons.mp distinct).1 (List.mem_append_right _ (List.mem_map.mpr ⟨item, member, same⟩))

/-- A hook that the table has no room for has its function still hooked. -/
theorem not_lost_again (consistent : Consistent layout distorm m₀ lost s) (branches : Branches distorm) {f : UInt32}
    {size offset : Nat} (found : getMinOffset distorm (s.memory.read f 20) size = some offset) (positive : 0 < size) :
    ∀ item ∈ lost, item.OriginalFunc ≠ f := by
  rintro item member rfl
  obtain ⟨useAbsJump, there⟩ := consistent.placed.inPlace item (List.mem_append_right _ member)
  rw [there.function, getMinOffset_writeJump branches _ _ _ _ positive] at found
  simp at found

theorem insert_new (h : NCodeHook) {hookFunc : UInt32} (new : hookFunc ∉ h.hookedFunctions.map Prod.fst) (item : NCodeHookItem) :
    h.insert hookFunc item = { h with hookedFunctions := (hookFunc, item) :: h.hookedFunctions } := by
  simp [NCodeHook.insert, lookup_eq_none.mpr new]

theorem insert_old (h : NCodeHook) {hookFunc : UInt32} (old : hookFunc ∈ h.hookedFunctions.map Prod.fst) (item : NCodeHookItem) :
    h.insert hookFunc item = h := by
  cases found : h.hookedFunctions.lookup hookFunc with
  | none => exact absurd old (lookup_eq_none.mp found)
  | some there => simp [NCodeHook.insert, found]

theorem insert_forceAbsJmp (h : NCodeHook) (hookFunc : UInt32) (item : NCodeHookItem) :
    (h.insert hookFunc item).forceAbsJmp = h.forceAbsJmp := by
  unfold NCodeHook.insert
  split <;> rfl

/-- The hook functions of the table. -/
def State.hookFuncs (s : State) : List UInt32 := s.hook.hookedFunctions.map Prod.fst

/-- The table has a hook function for another function. -/
def State.Shared (s : State) (originalFunc hookFunc : UInt32) : Prop :=
  ∃ item ∈ s.items, item.HookFunc = hookFunc ∧ item.OriginalFunc ≠ originalFunc

instance (s : State) (originalFunc hookFunc : UInt32) : Decidable (s.Shared originalFunc hookFunc) :=
  inferInstanceAs (Decidable (∃ item ∈ s.items, item.HookFunc = hookFunc ∧ item.OriginalFunc ≠ originalFunc))

/-- Hooking a function: nothing changes, or there is one hook more, in the table unless the
    hook function is another function's. -/
theorem consistent_createHook (consistent : Consistent layout distorm m₀ lost s) (branches : Branches distorm)
    {originalFunc hookFunc : UInt32} {writable : Bool} (function : layout.functions originalFunc)
    (fits : Fits distorm s originalFunc hookFunc) {result : UInt32 × NCodeHook × Memory}
    (created : createHook distorm writable originalFunc hookFunc s.hook s.memory = .ok result) :
    (result.2 = (s.hook, s.memory) ∧ (result.1 = 0 ∨ ∃ item ∈ s.items, item.OriginalFunc = originalFunc)) ∨
      ∃ item : NCodeHookItem, item.OriginalFunc = originalFunc ∧ item.HookFunc = hookFunc ∧ item.Trampoline = result.1 ∧
        ((hookFunc ∉ s.hookFuncs ∧ (⟨result.2.1, result.2.2⟩ : State).items = item :: s.items ∧
            Consistent layout distorm m₀ lost ⟨result.2.1, result.2.2⟩) ∨
          (writable = true ∧ s.Shared originalFunc hookFunc ∧ result.2.1.hookedFunctions = s.hook.hookedFunctions ∧
            Consistent layout distorm m₀ (item :: lost) ⟨result.2.1, result.2.2⟩)) := by
  rcases createHook_spec created with
    ⟨e, member, same, rfl⟩ | rfl | ⟨unhooked, allowed, trampolineAddr, rest, offset, free, found, rfl⟩
  · exact .inl ⟨rfl, .inr ⟨e.2, mem_items.mpr ⟨e, member, rfl⟩, same⟩⟩
  · exact .inl ⟨rfl, .inl rfl⟩
  refine .inr ⟨⟨originalFunc, hookFunc, offset, trampolineAddr⟩, rfl, rfl, rfl, ?_⟩
  obtain ⟨pooled, others⟩ := free_trampoline consistent free
  have new : ∀ item ∈ s.items ++ lost, item.OriginalFunc ≠ originalFunc := by
    intro item member
    rcases List.mem_append.mp member with tabled | member
    · obtain ⟨e, inside, rfl⟩ := mem_items.mp tabled
      exact unhooked e inside
    · exact not_lost_again consistent branches found (jumpPatchSize_pos _) item member
  have placed := placed_patch hookFunc consistent.placed function pooled new others found (fits offset found)
  have partition := consistent.partition
  rw [free] at partition
  by_cases tabled : hookFunc ∈ s.hookFuncs
  · rw [insert_old { s.hook with freeTrampolines := rest } tabled]
    obtain ⟨e, member, same⟩ := List.mem_map.mp tabled
    have other : s.Shared originalFunc hookFunc :=
      ⟨e.2, mem_items.mpr ⟨e, member, rfl⟩, (consistent.keyed e member).symm.trans same, unhooked e member⟩
    refine .inr ⟨allowed, other, rfl, ⟨placed_perm placed List.perm_middle.symm, ?_, consistent.keyed, consistent.distinct⟩⟩
    refine .trans ?_ partition
    simp only [State.items, List.map_append, List.map_cons, List.cons_append, ← List.append_assoc]
    exact List.perm_middle
  · rw [insert_new { s.hook with freeTrampolines := rest } tabled]
    refine .inl ⟨tabled, rfl, ⟨placed, ?_, ?_, ?_⟩⟩
    · refine .trans ?_ partition
      simp only [State.items, List.map_append, List.map_cons, List.cons_append]
      exact List.perm_middle
    · simpa using consistent.keyed
    · exact List.nodup_cons.mpr ⟨tabled, consistent.distinct⟩

/-- Removing a hook of the table. -/
theorem consistent_restore (consistent : Consistent layout distorm m₀ lost s) {e : UInt32 × NCodeHookItem}
    (member : e ∈ s.hook.hookedFunctions) {t : State}
    (removed : removeHook true e.2 s.hook s.memory = (true, t.hook, t.memory)) :
    s.items.Perm (e.2 :: t.items) ∧ t.memory.read e.2.OriginalFunc 20 = m₀.read e.2.OriginalFunc 20 ∧
      Consistent layout distorm m₀ lost t := by
  obtain ⟨hook, memory⟩ := t
  simp only [removeHook, ↓reduceIte, Prod.mk.injEq, true_and] at removed
  obtain ⟨rfl, rfl⟩ := removed
  have same := consistent.keyed e member
  have perm := perm_filter_key consistent.distinct member
  have items := perm.map Prod.snd
  rw [List.map_cons, same] at items
  have whole := items.append_right lost
  obtain ⟨placed, restored⟩ := placed_restore (placed_perm consistent.placed whole)
  have partition := ((whole.map NCodeHookItem.Trampoline).append_left s.hook.freeTrampolines).symm.trans consistent.partition
  have distinct := partition.nodup_iff.mpr (trampolines_nodup layout.fits)
  have free : e.2.Trampoline ∉ s.hook.freeTrampolines := fun inside =>
    (List.nodup_append.mp distinct).2.2 _ inside _ (by simp) rfl
  refine ⟨items, restored, ⟨placed, ?_, ?_, ?_⟩⟩
  · refine .trans ((insertAscending_perm free).append_right _) (.trans ?_ partition)
    simp only [List.cons_append, List.map_cons]
    exact List.perm_middle.symm
  · intro other inside
    exact consistent.keyed other (List.mem_filter.mp inside).1
  · exact consistent.distinct.sublist (List.filter_sublist.map _)

/-- Removing by the address of a hook function. -/
theorem consistent_removeHook (consistent : Consistent layout distorm m₀ lost s) (address : UInt32) (writable : Bool) :
    perform distorm s (.removeHook address writable) = s ∨
      ∃ item, item.HookFunc = address ∧ s.items.Perm (item :: (perform distorm s (.removeHook address writable)).items) ∧
        Consistent layout distorm m₀ lost (perform distorm s (.removeHook address writable)) := by
  cases found : s.hook.hookedFunctions.lookup address with
  | none =>
    left
    simp [perform, removeHookOf, found]
  | some item =>
    cases writable with
    | false =>
      left
      simp [perform, removeHookOf, found, removeHook]
    | true =>
      right
      obtain ⟨before, after, same, _⟩ := List.lookup_eq_some_iff.mp found
      have member : (address, item) ∈ s.hook.hookedFunctions := by simp [same]
      obtain ⟨perm, _, consistent'⟩ := consistent_restore consistent member
        (t := perform distorm s (.removeHook address true)) (by simp [perform, removeHookOf, found, removeHook])
      exact ⟨item, (consistent.keyed _ member).symm, perm, consistent'⟩

/-- A call that hooks no function with the hook function of another one. -/
def Fresh (s : State) : Action → Prop
  | .createHook originalFunc hookFunc writable => writable = true → ¬ s.Shared originalFunc hookFunc
  | .createHookByName funcPtr newFunc writable => funcPtr ≠ 0 → writable = true → ¬ s.Shared funcPtr newFunc
  | .removeHook _ _ => True
  | .forceAbsoluteJumps _ => True

theorem consistent_after (consistent : Consistent layout distorm m₀ lost s) (branches : Branches distorm)
    {originalFunc hookFunc : UInt32} (writable : Bool) (function : layout.functions originalFunc)
    (fits : Fits distorm s originalFunc hookFunc) :
    ∃ lost', Consistent layout distorm m₀ lost' (s.after (createHook distorm writable originalFunc hookFunc s.hook s.memory)) ∧
      (lost' = lost ∨ (writable = true ∧ s.Shared originalFunc hookFunc) ∧ ∃ item, lost' = item :: lost) := by
  cases created : createHook distorm writable originalFunc hookFunc s.hook s.memory with
  | error thrown => exact ⟨lost, consistent, .inl rfl⟩
  | ok result =>
    obtain ⟨pointer, hook, memory⟩ := result
    rcases consistent_createHook consistent branches function fits created with
      ⟨same, _⟩ | ⟨item, _, _, _, ⟨_, _, consistent'⟩ | ⟨allowed, other, _, consistent'⟩⟩
    · obtain ⟨rfl, rfl⟩ := Prod.mk.inj same
      exact ⟨lost, consistent, .inl rfl⟩
    · exact ⟨lost, consistent', .inl rfl⟩
    · exact ⟨item :: lost, consistent', .inr ⟨⟨allowed, other⟩, item, rfl⟩⟩

/-- The hooks stay consistent, and none is lost while no two functions share a hook function. -/
theorem consistent_step (consistent : Consistent layout distorm m₀ lost s) (branches : Branches distorm) {a : Action}
    {t : State} (step : Step layout distorm s a t) :
    ∃ lost', Consistent layout distorm m₀ lost' t ∧ (lost' = lost ∨ ¬ Fresh s a ∧ ∃ item, lost' = item :: lost) := by
  obtain ⟨permitted, rfl⟩ := step
  cases a with
  | createHook originalFunc hookFunc writable =>
    obtain ⟨lost', consistent', grown⟩ := consistent_after consistent branches writable permitted.1 permitted.2
    exact ⟨lost', consistent', grown.imp_right fun ⟨⟨allowed, other⟩, more⟩ => ⟨fun fresh => fresh allowed other, more⟩⟩
  | createHookByName funcPtr newFunc writable =>
    by_cases found : funcPtr = 0
    · refine ⟨lost, ?_, .inl rfl⟩
      simpa [perform, createHookByName, found, State.after] using consistent
    · obtain ⟨function, fits⟩ := permitted found
      obtain ⟨lost', consistent', grown⟩ := consistent_after consistent branches writable function fits
      refine ⟨lost', ?_, grown.imp_right fun ⟨⟨allowed, other⟩, more⟩ => ⟨fun fresh => fresh found allowed other, more⟩⟩
      simpa [perform, createHookByName, found] using consistent'
  | removeHook address writable =>
    rcases consistent_removeHook consistent address writable with same | ⟨_, _, _, consistent'⟩
    · rw [same]
      exact ⟨lost, consistent, .inl rfl⟩
    · exact ⟨lost, consistent', .inl rfl⟩
  | forceAbsoluteJumps value =>
    exact ⟨lost, ⟨consistent.placed, consistent.partition, consistent.keyed, consistent.distinct⟩, .inl rfl⟩

/-- What was lost stays lost. -/
theorem consistent_run (branches : Branches distorm) {ls : List Action} {t : State} (run : Run (Step layout distorm) s ls t)
    (consistent : Consistent layout distorm m₀ lost s) :
    ∃ more, Consistent layout distorm m₀ (more ++ lost) t := by
  refine run_invariant (I := fun s => ∃ more, Consistent layout distorm m₀ (more ++ lost) s) ?_ run ⟨[], consistent⟩
  rintro s a t ⟨more, consistent⟩ step
  obtain ⟨lost', consistent', rfl | ⟨_, item, rfl⟩⟩ := consistent_step consistent branches step
  · exact ⟨more, consistent'⟩
  · exact ⟨item :: more, consistent'⟩

/-- Any calls in any order, whatever `VirtualProtect` answers: the pool and the hooks share the
    trampolines, each hook is in place, and outside of them the memory is as it was. -/
theorem hooks_consistent {ls : List Action} {t : State} (begins : Begins layout m₀ s) (branches : Branches distorm)
    (run : Run (Step layout distorm) s ls t) : ∃ lost, Consistent layout distorm m₀ lost t := by
  obtain ⟨more, consistent⟩ := consistent_run branches run (consistent_begins begins)
  exact ⟨_, consistent⟩

/-- The disassembly of code made of `nop`, `mov dword [esp+n], imm32` and the two jumps. -/
def listing : Bytes → List Instruction
  | 0x90 :: rest => ⟨"NOP", 1⟩ :: listing rest
  | 0xC7 :: 0x44 :: 0x24 :: _ :: _ :: _ :: _ :: _ :: rest => ⟨"MOV", 8⟩ :: listing rest
  | 0xE9 :: _ :: _ :: _ :: _ :: rest => ⟨"JMP", 5⟩ :: listing rest
  | 0xFF :: 0x25 :: _ :: _ :: _ :: _ :: rest => ⟨"JMP", 6⟩ :: listing rest
  | _ => []

theorem codeSize_listing (code : Bytes) : codeSize (listing code) ≤ code.length := by
  fun_induction listing code <;> simp only [codeSize, List.length_cons] <;> omega

theorem listing_short {code : Bytes} : ∀ instr ∈ listing code, instr.size ≤ 8 := by
  fun_induction listing code <;> simp_all

def listed : Distorm where
  decode code := some (listing code)
  within code instructions decoded := by
    obtain rfl := Option.some.inj decoded
    exact codeSize_listing code

theorem listed_branches : Branches listed := by
  intro useAbsJump source target rest instructions decoded
  obtain rfl := Option.some.inj decoded
  cases useAbsJump with
  | false =>
    intro instr first
    obtain rfl := Option.some.inj first
    decide
  | true =>
    intro instr first
    obtain rfl := Option.some.inj first
    decide

def smallLayout : Layout where
  functions f := f = 0x20000 ∨ f = 0x30000 ∨ f = 0x40000
  trampolineBuffer := 0x10000
  allocated := by decide
  fits := by decide
  apart := by
    rintro f g (rfl | rfl | rfl) (rfl | rfl | rfl) other
    all_goals first
      | exact absurd rfl other
      | exact ⟨by decide, by decide, by decide⟩
  away := by
    rintro f (rfl | rfl | rfl)
    all_goals exact ⟨by decide, by decide, by decide⟩

/-- Every function stores two numbers on the stack before anything else. -/
def smallCode : Memory := fun x =>
  [0xC7, 0x44, 0x24, 0x04, 1, 0, 0, 0, 0xC7, 0x44, 0x24, 0x08, 2, 0, 0, 0].getD (x.toNat % 65536) 0x90

def smallStart : State := ⟨⟨trampolines 0x10000, [], 0x10000, true, false⟩, smallCode⟩

theorem smallStart_begins : Begins smallLayout smallCode smallStart := ⟨true, rfl, rfl⟩

theorem small_permitted {s : State} {originalFunc hookFunc : UInt32} (writable : Bool)
    (function : smallLayout.functions originalFunc) (near : s.usesAbsJump originalFunc hookFunc = false) :
    Permitted smallLayout listed s (.createHook originalFunc hookFunc writable) := by
  refine ⟨function, fits_of_short 8 (fun instructions decoded instr member => ?_) (by rw [near]; decide)⟩
  obtain rfl := Option.some.inj decoded
  exact listing_short instr member

/-- Two functions get one hook function, and of the other calls three change nothing. -/
def smallCalls : List Action :=
  [.createHook 0x20000 0x50000 true, .createHook 0x30000 0x50000 true, .createHook 0x40000 0x60000 false,
    .createHookByName 0 0x60000 true, .removeHook 0x50000 false, .createHook 0x40000 0x60000 true]

def smallShared : State := smallCalls.foldl (perform listed) smallStart

theorem smallShared_run : Run (Step smallLayout listed) smallStart smallCalls smallShared :=
  run_cons ⟨small_permitted _ (.inl rfl) rfl, rfl⟩ (run_cons ⟨small_permitted _ (.inr (.inl rfl)) (by decide), rfl⟩
    (run_cons ⟨small_permitted _ (.inr (.inr rfl)) (by decide), rfl⟩ (run_cons ⟨fun found => absurd rfl found, rfl⟩
      (run_cons ⟨trivial, rfl⟩ (run_single ⟨small_permitted _ (.inr (.inr rfl)) (by decide), rfl⟩)))))

theorem hooks_consistent_small : (∃ lost, Consistent smallLayout listed smallCode lost smallShared) ∧
    smallShared.items.map NCodeHookItem.OriginalFunc = [0x40000, 0x20000] ∧
      jumpTarget 0x30000 (smallShared.memory.read 0x30000 AbsJumpPatchSize) = some 0x50000 :=
  ⟨hooks_consistent smallStart_begins listed_branches smallShared_run, by decide, by decide⟩

theorem fresh_consistent {ls : List Action} {t : State} (begins : Begins layout m₀ s) (branches : Branches distorm)
    (run : Run (Restrict (Step layout distorm) Fresh) s ls t) : Consistent layout distorm m₀ [] t := by
  refine run_invariant (I := Consistent layout distorm m₀ []) ?_ run (consistent_begins begins)
  rintro s a t consistent ⟨step, fresh⟩
  obtain ⟨lost', consistent', rfl | ⟨stale, _⟩⟩ := consistent_step consistent branches step
  · exact consistent'
  · exact absurd fresh stale

/-! ## Removing all hooks, and the hooks that stay -/

theorem mem_hookFuncs_removed (consistent : Consistent layout distorm m₀ lost s) {f address : UInt32} {writable : Bool} :
    f ∈ (perform distorm s (.removeHook address writable)).hookFuncs ↔
      f ∈ s.hookFuncs ∧ ¬ (f = address ∧ writable = true) := by
  cases found : s.hook.hookedFunctions.lookup address with
  | none =>
    have missing := lookup_eq_none.mp found
    simp only [perform, removeHookOf, found, State.hookFuncs]
    constructor
    · intro member
      refine ⟨member, fun same => missing ?_⟩
      rw [← same.1]
      exact member
    · exact fun member => member.1
  | some item =>
    obtain ⟨before, after, same, _⟩ := List.lookup_eq_some_iff.mp found
    have key : address = item.HookFunc := consistent.keyed (address, item) (by simp [same])
    cases writable with
    | false => simp [perform, removeHookOf, found, removeHook, State.hookFuncs]
    | true =>
      subst key
      simp only [perform, removeHookOf, found, removeHook, State.hookFuncs, ↓reduceIte, List.mem_map, List.mem_filter,
        bne_iff_ne, and_true]
      constructor
      · rintro ⟨e, ⟨inside, other⟩, rfl⟩
        exact ⟨⟨e, inside, rfl⟩, other⟩
      · rintro ⟨⟨e, inside, rfl⟩, other⟩
        exact ⟨e, ⟨inside, other⟩, rfl⟩

/-- Where no two hooks share a hook function, removing them all, in any order and between any
    other attempts to remove hooks, brings every trampoline and the whole memory back. -/
theorem hooks_removed {s₀ t : State} {ls ls' : List Action} (begins : Begins layout m₀ s₀) (branches : Branches distorm)
    (run : Run (Restrict (Step layout distorm) Fresh) s₀ ls s) (unhooks : Run (Step layout distorm) s ls' t)
    (only : ∀ a ∈ ls', ∃ address writable, a = .removeHook address writable)
    (every : ∀ f ∈ s.hookFuncs, .removeHook f true ∈ ls') :
    t.hook.hookedFunctions = [] ∧ t.hook.freeTrampolines.Perm (trampolines layout.trampolineBuffer) ∧
      ∀ x, ¬ InRun layout.trampolineBuffer TrampolinesSize x → t.memory x = m₀ x := by
  have start := fresh_consistent begins branches run
  have left : (∀ a ∈ ls', ∃ address writable, a = .removeHook address writable) →
      Consistent layout distorm m₀ [] t ∧ ∀ f ∈ t.hookFuncs, f ∈ s.hookFuncs ∧ .removeHook f true ∉ ls' := by
    refine run_history (I := fun ls t => (∀ a ∈ ls, ∃ address writable, a = .removeHook address writable) →
      Consistent layout distorm m₀ [] t ∧ ∀ f ∈ t.hookFuncs, f ∈ s.hookFuncs ∧ .removeHook f true ∉ ls)
      (fun _ => ⟨start, by simp⟩) ?_ unhooks
    intro ls s' a t earlier step only
    obtain ⟨consistent, hooked⟩ := earlier fun a member => only a (List.mem_append_left _ member)
    obtain ⟨address, writable, rfl⟩ := only a (by simp)
    obtain ⟨lost', consistent', rfl | ⟨stale, _⟩⟩ := consistent_step consistent branches step
    · obtain ⟨_, rfl⟩ := step
      refine ⟨consistent', fun f member => ?_⟩
      obtain ⟨before, other⟩ := (mem_hookFuncs_removed consistent).mp member
      refine ⟨(hooked f before).1, fun inside => ?_⟩
      rcases List.mem_append.mp inside with earlier | now
      · exact (hooked f before).2 earlier
      · simp only [List.mem_singleton, Action.removeHook.injEq] at now
        exact other ⟨now.1, now.2.symm⟩
    · exact absurd trivial stale
  obtain ⟨consistent, hooked⟩ := left only
  have none : t.hook.hookedFunctions = [] := by
    refine List.eq_nil_iff_forall_not_mem.mpr fun e member => ?_
    obtain ⟨before, unmentioned⟩ := hooked e.1 (List.mem_map.mpr ⟨e, member, rfl⟩)
    exact unmentioned (every e.1 before)
  have partition := consistent.partition
  have elsewhere := consistent.placed.elsewhere
  simp only [State.items, none, List.map_nil, List.append_nil] at partition elsewhere
  exact ⟨none, partition, fun x outside => elsewhere x outside (by simp)⟩

/-- One function is hooked twice with the same hook function, which a second one gets once
    the first is unhooked; a third is hooked at the second attempt. -/
def smallHooks : List Action :=
  [.createHook 0x20000 0x50000 true, .createHook 0x20000 0x50000 true, .createHook 0x30000 0x60000 false,
    .createHook 0x30000 0x60000 true, .removeHook 0x50000 true, .createHook 0x40000 0x50000 true]

def smallHooked : State := smallHooks.foldl (perform listed) smallStart

theorem smallHooked_run : Run (Restrict (Step smallLayout listed) Fresh) smallStart smallHooks smallHooked :=
  run_cons ⟨⟨small_permitted _ (.inl rfl) rfl, rfl⟩, fun _ => by decide⟩
    (run_cons ⟨⟨small_permitted _ (.inl rfl) (by decide), rfl⟩, fun _ => by decide⟩
      (run_cons ⟨⟨small_permitted _ (.inr (.inl rfl)) (by decide), rfl⟩, fun _ => by decide⟩
        (run_cons ⟨⟨small_permitted _ (.inr (.inl rfl)) (by decide), rfl⟩, fun _ => by decide⟩
          (run_cons ⟨⟨trivial, rfl⟩, trivial⟩
            (run_single ⟨⟨small_permitted _ (.inr (.inr rfl)) (by decide), rfl⟩, fun _ => by decide⟩)))))

/-- Both hooks are removed, one of them at the second attempt. -/
def smallUnhooks : List Action :=
  [.removeHook 0x60000 false, .removeHook 0x50000 true, .removeHook 0x70000 true, .removeHook 0x60000 true]

def smallUnhooked : State := smallUnhooks.foldl (perform listed) smallHooked

theorem hooks_removed_small : smallUnhooked.hook.hookedFunctions = [] ∧
    smallUnhooked.hook.freeTrampolines.Perm (trampolines 0x10000) ∧
      ∀ x, ¬ InRun 0x10000 TrampolinesSize x → smallUnhooked.memory x = smallCode x := by
  have unhooks : Run (Step smallLayout listed) smallHooked smallUnhooks smallUnhooked :=
    run_cons ⟨trivial, rfl⟩ (run_cons ⟨trivial, rfl⟩ (run_cons ⟨trivial, rfl⟩ (run_single ⟨trivial, rfl⟩)))
  have two : smallHooked.hookFuncs = [0x50000, 0x60000] := by decide
  exact hooks_removed smallStart_begins listed_branches smallHooked_run unhooks (by simp [smallUnhooks])
    (by simp [two, smallUnhooks])

theorem jumpTarget_of_inPlace {m : Memory} {item : NCodeHookItem} {useAbsJump : Bool}
    (placed : InPlace distorm m₀ m item useAbsJump) :
    jumpTarget item.OriginalFunc (m.read item.OriginalFunc AbsJumpPatchSize) = some item.HookFunc := by
  have short := jumpPatchSize_le useAbsJump
  have jump := writeJump_length useAbsJump item.OriginalFunc item.HookFunc
  rw [← read_take m _ (show AbsJumpPatchSize ≤ 20 by decide), placed.function, List.take_append,
    List.take_of_length_le (by omega), jumpTarget_writeJump]

/-- A function that gets the hook function of another one is hooked without an entry in the
    table, and no call ever unhooks it. -/
theorem lost_hook_stays {s₀ t : State} {ls ls' : List Action} {f g pointer : UInt32} {writable : Bool} {hook : NCodeHook}
    {memory : Memory} (begins : Begins layout m₀ s₀) (branches : Branches distorm) (run : Run (Step layout distorm) s₀ ls s)
    (permitted : Permitted layout distorm s (.createHook f g writable)) (tabled : g ∈ s.hookFuncs)
    (unhooked : ∀ item ∈ s.items, item.OriginalFunc ≠ f)
    (created : createHook distorm writable f g s.hook s.memory = .ok (pointer, hook, memory)) (hooked : pointer ≠ 0)
    (later : Run (Step layout distorm) ⟨hook, memory⟩ ls' t) : hook.hookedFunctions = s.hook.hookedFunctions ∧
    jumpTarget f (t.memory.read f AbsJumpPatchSize) = some g ∧ ∀ item ∈ t.items, item.OriginalFunc ≠ f := by
  obtain ⟨lost, consistent⟩ := consistent_run branches run (consistent_begins begins)
  rcases consistent_createHook consistent branches permitted.1 permitted.2 created with
    ⟨_, zero | ⟨item, member, same⟩⟩ | ⟨item, rfl, rfl, _, ⟨fresh, _⟩ | ⟨_, _, table, consistent'⟩⟩
  · exact absurd zero hooked
  · exact absurd same (unhooked item member)
  · exact absurd tabled fresh
  · obtain ⟨more, consistent'⟩ := consistent_run branches later consistent'
    have there : item ∈ more ++ item :: (lost ++ []) := by simp
    obtain ⟨useAbsJump, placed⟩ := consistent'.placed.inPlace item (List.mem_append_right _ there)
    refine ⟨table, jumpTarget_of_inPlace placed, fun other member same => ?_⟩
    have originals := consistent'.placed.originals
    rw [List.map_append] at originals
    exact (List.nodup_append.mp originals).2.2 _ (List.mem_map.mpr ⟨other, member, rfl⟩) _
      (List.mem_map.mpr ⟨item, there, rfl⟩) same

/-- The second of the functions that share a hook function is hooked, and then the hook
    function is removed, and used once more. -/
def smallFirst : State := perform listed smallStart (.createHook 0x20000 0x50000 true)
def smallLost : State := perform listed smallFirst (.createHook 0x30000 0x50000 true)
def smallLater : State := perform listed (perform listed smallLost (.removeHook 0x50000 true)) (.createHook 0x40000 0x50000 true)

theorem lost_hook_stays_small : smallLost.hook.hookedFunctions = smallFirst.hook.hookedFunctions ∧
    jumpTarget 0x30000 (smallLater.memory.read 0x30000 AbsJumpPatchSize) = some 0x50000 ∧
      ∀ item ∈ smallLater.items, item.OriginalFunc ≠ 0x30000 := by
  have run : Run (Step smallLayout listed) smallStart [.createHook 0x20000 0x50000 true] smallFirst :=
    run_single ⟨small_permitted _ (.inl rfl) rfl, rfl⟩
  have created : createHook listed true 0x30000 0x50000 smallFirst.hook smallFirst.memory =
      .ok (0x10019, smallLost.hook, smallLost.memory) := rfl
  have later : Run (Step smallLayout listed) smallLost [.removeHook 0x50000 true, .createHook 0x40000 0x50000 true] smallLater :=
    run_cons ⟨trivial, rfl⟩ (run_single ⟨small_permitted _ (.inr (.inr rfl)) (by decide), rfl⟩)
  exact lost_hook_stays smallStart_begins listed_branches run (small_permitted _ (.inr (.inl rfl)) (by decide)) (by decide)
    (by decide) created (by decide) later

/-- What of the jump back lies behind the end of its trampoline. -/
def overrun (useAbsJump : Bool) (originalFunc trampolineAddr : UInt32) (offset : Nat) : Bytes :=
  (writeJump useAbsJump (trampolineAddr + UInt32.ofNat offset) (originalFunc + UInt32.ofNat offset)).drop
    (MaxTotalTrampolineSize - offset)

/-- The jump back is written last, whatever it is written over. -/
theorem read_overrun (useAbsJump : Bool) (originalFunc hookFunc trampolineAddr : UInt32) {offset : Nat} (m : Memory)
    (short : offset ≤ 20) (overruns : MaxTotalTrampolineSize < offset + jumpPatchSize useAbsJump) :
    (patch useAbsJump originalFunc hookFunc trampolineAddr offset m).read
        (trampolineAddr + UInt32.ofNat MaxTotalTrampolineSize) (offset + jumpPatchSize useAbsJump - MaxTotalTrampolineSize) =
      overrun useAbsJump originalFunc trampolineAddr offset := by
  have long := writeJump_length useAbsJump (trampolineAddr + UInt32.ofNat offset) (originalFunc + UInt32.ofNat offset)
  have small := jumpPatchSize_le useAbsJump
  simp only [AbsJumpPatchSize] at small
  simp only [overrun, show MaxTotalTrampolineSize = 25 from rfl] at overruns ⊢
  have place : trampolineAddr + UInt32.ofNat 25 = trampolineAddr + UInt32.ofNat offset + UInt32.ofNat (25 - offset) := by
    rw [UInt32.add_assoc, ← UInt32.ofNat_add]
    congr 2
    omega
  rw [place, patch, read_write_peek _ _ (by omega) (by omega), peek, List.take_of_length_le]
  rw [List.length_drop]
  omega

/-- Where the moved instructions and the jump take more than a trampoline, the end of the jump
    is written over the beginning of the next one; a hook that has it loses its instructions,
    unless the same bytes are there. -/
theorem overrun_breaks_neighbour {s₀ : State} {ls : List Action} {f g pointer : UInt32} {writable : Bool} {hook : NCodeHook}
    {memory : Memory} {offset : Nat} (begins : Begins layout m₀ s₀) (branches : Branches distorm)
    (run : Run (Step layout distorm) s₀ ls s) (unhooked : ∀ item ∈ s.items, item.OriginalFunc ≠ f)
    (created : createHook distorm writable f g s.hook s.memory = .ok (pointer, hook, memory)) (hooked : pointer ≠ 0)
    (found : getMinOffset distorm (s.memory.read f 20) (jumpPatchSize (s.usesAbsJump f g)) = some offset)
    (overruns : MaxTotalTrampolineSize < offset + jumpPatchSize (s.usesAbsJump f g)) :
    memory.read (pointer + UInt32.ofNat MaxTotalTrampolineSize)
        (offset + jumpPatchSize (s.usesAbsJump f g) - MaxTotalTrampolineSize) =
      overrun (s.usesAbsJump f g) f pointer offset ∧
    ∃ lost, Consistent layout distorm m₀ lost s ∧ ∀ item ∈ s.items ++ lost,
      item.Trampoline = pointer + UInt32.ofNat MaxTotalTrampolineSize →
      m₀.read item.OriginalFunc (offset + jumpPatchSize (s.usesAbsJump f g) - MaxTotalTrampolineSize) ≠
        overrun (s.usesAbsJump f g) f pointer offset →
      memory.read item.Trampoline item.PatchSize ≠ m₀.read item.OriginalFunc item.PatchSize ∧
        ∀ useAbsJump, ¬ InPlace distorm m₀ memory item useAbsJump := by
  have short := (getMinOffset_bounds found).2
  rw [read_length] at short
  have written : memory.read (pointer + UInt32.ofNat MaxTotalTrampolineSize)
      (offset + jumpPatchSize (s.usesAbsJump f g) - MaxTotalTrampolineSize) =
        overrun (s.usesAbsJump f g) f pointer offset := by
    rcases createHook_spec created with ⟨e, tabled, same, _⟩ | nothing | ⟨_, _, trampolineAddr, rest, offset', _, found', made⟩
    · exact absurd same (unhooked _ (mem_items.mpr ⟨e, tabled, rfl⟩))
    · exact absurd (congrArg Prod.fst nothing) hooked
    · obtain rfl : offset = offset' := Option.some.inj (found.symm.trans found')
      obtain ⟨rfl, _, rfl⟩ : pointer = trampolineAddr ∧ _ ∧ memory = patch (s.usesAbsJump f g) f g trampolineAddr offset s.memory :=
        by simpa [State.usesAbsJump] using made
      exact read_overrun _ _ _ _ _ short overruns
  obtain ⟨lost, consistent⟩ := consistent_run branches run (consistent_begins begins)
  refine ⟨written, _, consistent, fun item member next differ => ?_⟩
  have lost_instructions : memory.read item.Trampoline item.PatchSize ≠ m₀.read item.OriginalFunc item.PatchSize := by
    intro kept
    obtain ⟨useAbsJump, placed⟩ := consistent.placed.inPlace item member
    have within : offset + jumpPatchSize (s.usesAbsJump f g) - MaxTotalTrampolineSize ≤ item.PatchSize := by
      have long := (inPlace_bounds placed).1
      have least : 5 ≤ jumpPatchSize useAbsJump := by cases useAbsJump <;> decide
      have size := jumpPatchSize_le (s.usesAbsJump f g)
      simp only [MaxTotalTrampolineSize, AbsJumpPatchSize, MaxTrampolineSize] at size ⊢
      omega
    apply differ
    rw [← written, ← next, ← read_take memory _ within, kept, read_take m₀ _ within]
  exact ⟨lost_instructions, fun useAbsJump placed => lost_instructions (moved_of_inPlace placed)⟩

/-- The first of two neighbours is unhooked again, and then jumps are to be absolute. -/
def smallGaps : List Action :=
  [.createHook 0x20000 0x50000 true, .createHook 0x30000 0x60000 true, .removeHook 0x50000 true, .forceAbsoluteJumps true]

def smallGap : State := smallGaps.foldl (perform listed) smallStart
def smallOverrun : State := perform listed smallGap (.createHook 0x40000 0x70000 true)

theorem smallGap_run : Run (Step smallLayout listed) smallStart smallGaps smallGap :=
  run_cons ⟨small_permitted _ (.inl rfl) rfl, rfl⟩ (run_cons ⟨small_permitted _ (.inr (.inl rfl)) (by decide), rfl⟩
    (run_cons ⟨trivial, rfl⟩ (run_single ⟨trivial, rfl⟩)))

theorem overrun_breaks_neighbour_small : smallOverrun.memory.read 0x10019 1 = [0x00] ∧
    (⟨0x30000, 0x60000, 8, 0x10019⟩ : NCodeHookItem) ∈ smallOverrun.items ∧
      smallOverrun.memory.read 0x10019 8 ≠ smallCode.read 0x30000 8 := by
  have created : createHook listed true 0x40000 0x70000 smallGap.hook smallGap.memory =
      .ok (0x10000, smallOverrun.hook, smallOverrun.memory) := rfl
  have found : getMinOffset listed (smallGap.memory.read 0x40000 20) (jumpPatchSize (smallGap.usesAbsJump 0x40000 0x70000)) =
      some 16 := by decide
  obtain ⟨written, lost, _, broken⟩ := overrun_breaks_neighbour smallStart_begins listed_branches smallGap_run (by decide)
    created (by decide) found (by decide)
  have there : (⟨0x30000, 0x60000, 8, 0x10019⟩ : NCodeHookItem) ∈ smallGap.items := by decide
  exact ⟨written, by decide, (broken _ (List.mem_append_left lost there) rfl (by decide)).1⟩

end
end Sysintercept.HookedFunctions
