import Sysintercept.Iat
import Sysintercept.AddressSpace

/-!
# Inline hooks

`NCodeHook` for the IA-32 architecture: a function's first instructions are moved
to a trampoline, which jumps back behind them, and a jump to the new function is
written over them. Creating a hook, removing one, and the destructor, with the
disassembler and the answers of `VirtualProtect` as parameters.
-/
namespace Sysintercept.InlineHooks
open Sysintercept.Units Sysintercept.Rules Sysintercept.Iat Sysintercept.AddressSpace

/-! ## Jumps -/

def NearJumpPatchSize : Nat := 5
def AbsJumpPatchSize : Nat := 10
/-- The longest instruction starting one byte before the end of the jump. -/
def MaxTrampolineSize : Nat := AbsJumpPatchSize - 1 + 6
def MaxTotalTrampolineSize : Nat := AbsJumpPatchSize + MaxTrampolineSize
def TrampolineBufferSize : Nat := 4096

def requiresAbsJump (source target : UInt32) : Bool :=
  let jmpDistance := if source > target then source - target else target - source
  !decide (jmpDistance ≤ 0x7FFF0000)

def writeNearJump (source target : UInt32) : Bytes := 0xE9 :: dword (target - source - 5)

/-- An indirect jump through the address that follows it. -/
def writeAbsJump (source target : UInt32) : Bytes := 0xFF :: 0x25 :: (dword (source + 6) ++ dword target)

/-- The jump of either kind. -/
def writeJump (useAbsJump : Bool) (source target : UInt32) : Bytes :=
  if useAbsJump then writeAbsJump source target else writeNearJump source target

def jumpPatchSize (useAbsJump : Bool) : Nat := if useAbsJump then AbsJumpPatchSize else NearJumpPatchSize

/-- Where code at an address jumps to, if it begins with one of the two jumps. -/
def jumpTarget (source : UInt32) : Bytes → Option UInt32
  | 0xE9 :: b₀ :: b₁ :: b₂ :: b₃ :: _ => some (source + 5 + ofDword b₀ b₁ b₂ b₃)
  | 0xFF :: 0x25 :: p₀ :: p₁ :: p₂ :: p₃ :: b₀ :: b₁ :: b₂ :: b₃ :: _ =>
    if ofDword p₀ p₁ p₂ p₃ = source + 6 then some (ofDword b₀ b₁ b₂ b₃) else none
  | _ => none

/-! ## Hooks -/

structure Instruction where
  mnemonic : String
  size : Nat
  deriving DecidableEq, Repr

/-- The bytes that instructions take. -/
def codeSize : List Instruction → Nat
  | [] => 0
  | instr :: rest => instr.size + codeSize rest

/-- `distorm_decode`: the instructions that lie in a piece of code one after the other. -/
structure Distorm where
  decode : Bytes → Option (List Instruction)
  within : ∀ code instructions, decode code = some instructions → codeSize instructions ≤ code.length

/-- Whether a text occurs in another one. -/
def strstr (sub : List Char) : List Char → Bool
  | [] => sub.isEmpty
  | c :: rest => sub.isPrefixOf (c :: rest) || strstr sub rest

def isBranch (instr : Instruction) : Bool :=
  instr.mnemonic.toList.head? == some 'J' || strstr "CALL".toList instr.mnemonic.toList

/-- The loop of `getMinOffset`: whole instructions until the jump fits over them; a
    branch among them cannot be moved. -/
def minOffset (size : Nat) : List Instruction → Nat → Option Nat
  | [], offset => if offset < size then none else some offset
  | instr :: rest, offset =>
    if offset < size then
      if isBranch instr then none else minOffset size rest (offset + instr.size)
    else some offset

def getMinOffset (distorm : Distorm) (code : Bytes) (size : Nat) : Option Nat :=
  match distorm.decode code with
  | none => none
  | some instructions => minOffset size instructions 0

structure NCodeHookItem where
  OriginalFunc : UInt32
  HookFunc : UInt32
  PatchSize : Nat
  Trampoline : UInt32
  deriving DecidableEq, Repr

/-- The item that `NCodeHookItem()` makes. -/
def NCodeHookItem.default : NCodeHookItem := ⟨0, 0, 0, 0⟩

/-- `freeTrampolines` in ascending order, `hookedFunctions` by hook function. -/
structure NCodeHook where
  freeTrampolines : List UInt32
  hookedFunctions : List (UInt32 × NCodeHookItem)
  trampolineBuffer : UInt32
  cleanOnDestruct : Bool
  forceAbsJmp : Bool

/-- The trampolines of a buffer; the last one ends four bytes behind it. -/
def trampolines (trampolineBuffer : UInt32) : List UInt32 :=
  (List.range ((TrampolineBufferSize + MaxTotalTrampolineSize - 1) / MaxTotalTrampolineSize)).map
    (fun i => trampolineBuffer + UInt32.ofNat (i * MaxTotalTrampolineSize))

namespace NCodeHook

/-- The constructor, with what `VirtualAlloc` returned. -/
def construct (trampolineBuffer : UInt32) (cleanOnDestruct : Bool) : Except Stop NCodeHook :=
  if trampolineBuffer = 0 then .error (.std "Unable to allocate trampoline memory!")
  else .ok ⟨trampolines trampolineBuffer, [], trampolineBuffer, cleanOnDestruct, false⟩

/-- `hookedFunctions_.insert`, which keeps what is already there. -/
def insert (h : NCodeHook) (hookFunc : UInt32) (item : NCodeHookItem) : NCodeHook :=
  match h.hookedFunctions.lookup hookFunc with
  | some _ => h
  | none => { h with hookedFunctions := (hookFunc, item) :: h.hookedFunctions }

/-- `hookedFunctions_[key]`, which inserts a default item where there is none. -/
def index (h : NCodeHook) (key : UInt32) : NCodeHookItem × NCodeHook :=
  match h.hookedFunctions.lookup key with
  | some item => (item, h)
  | none => (.default, { h with hookedFunctions := (key, .default) :: h.hookedFunctions })

end NCodeHook

/-- Adding to an ascending set. -/
def insertAscending (a : UInt32) : List UInt32 → List UInt32
  | [] => [a]
  | b :: rest => if a < b then a :: b :: rest else if a = b then b :: rest else b :: insertAscending a rest

/-- The bytes that `createHook` changes, with the trampoline that it has taken. -/
def patch (useAbsJump : Bool) (originalFunc hookFunc trampolineAddr : UInt32) (offset : Nat) (m : Memory) : Memory :=
  let m := m.write trampolineAddr (m.read originalFunc offset)
  let m := m.write originalFunc (writeJump useAbsJump originalFunc hookFunc)
  m.write (trampolineAddr + UInt32.ofNat offset)
    (writeJump useAbsJump (trampolineAddr + UInt32.ofNat offset) (originalFunc + UInt32.ofNat offset))

/-- `writable` is the answer of `VirtualProtect`; the result is the trampoline or NULL. -/
def createHook (distorm : Distorm) (writable : Bool) (originalFunc hookFunc : UInt32) (h : NCodeHook) (m : Memory) :
    Except Stop (UInt32 × NCodeHook × Memory) :=
  match h.hookedFunctions.find? (fun e => e.2.OriginalFunc == originalFunc) with
  | some (_, item) => .ok (item.Trampoline, h, m)
  | none =>
    let useAbsJump := h.forceAbsJmp || requiresAbsJump originalFunc hookFunc
    match getMinOffset distorm (m.read originalFunc 20) (jumpPatchSize useAbsJump) with
    | none => .ok (0, h, m)
    | some offset =>
      if writable then
        match h.freeTrampolines with
        | [] => .error (.std "No trampoline space available!")
        | trampolineAddr :: freeTrampolines =>
          .ok (trampolineAddr,
            NCodeHook.insert { h with freeTrampolines } hookFunc ⟨originalFunc, hookFunc, offset, trampolineAddr⟩,
            patch useAbsJump originalFunc hookFunc trampolineAddr offset m)
      else .ok (0, h, m)

/-- `funcPtr` is what `GetProcAddress` returned. -/
def createHookByName (distorm : Distorm) (writable : Bool) (funcPtr newFunc : UInt32) (h : NCodeHook) (m : Memory) :
    Except Stop (UInt32 × NCodeHook × Memory) :=
  if funcPtr ≠ 0 then createHook distorm writable funcPtr newFunc h m else .ok (0, h, m)

/-- `removeHook(NCodeHookItem)`: the moved instructions are copied back. -/
def removeHook (writable : Bool) (item : NCodeHookItem) (h : NCodeHook) (m : Memory) : Bool × NCodeHook × Memory :=
  if writable then
    (true,
      { h with
        hookedFunctions := h.hookedFunctions.filter (fun e => e.1 != item.HookFunc)
        freeTrampolines := insertAscending item.Trampoline h.freeTrampolines },
      m.write item.OriginalFunc (m.read item.Trampoline item.PatchSize))
  else (false, h, m)

/-- `removeHook(address)`, with the address of the hook function. -/
def removeHookOf (writable : Bool) (address : UInt32) (h : NCodeHook) (m : Memory) : Bool × NCodeHook × Memory :=
  match h.hookedFunctions.lookup address with
  | some item => removeHook writable item h m
  | none => (true, h, m)

/-- The loop of the destructor, `removeHook(hookedFunctions_[i - 1])` from `i` down to 1;
    the map is keyed by hook function all the same. -/
def restoreAll (writable : Nat → Bool) : Nat → NCodeHook → Memory → NCodeHook × Memory
  | 0, h, m => (h, m)
  | i + 1, h, m =>
    let (item, h) := h.index (UInt32.ofNat i)
    let (_, h, m) := removeHook (writable i) item h m
    restoreAll writable i h m

/-- The destructor; the last result tells whether the trampolines are freed. -/
def destroy (writable : Nat → Bool) (h : NCodeHook) (m : Memory) : NCodeHook × Memory × Bool :=
  if h.cleanOnDestruct then
    let (h, m) := restoreAll writable h.hookedFunctions.length h m
    (h, m, true)
  else (h, m, false)

/-! ## What a jump does -/

/-- Either jump leads to its target, whatever follows it. -/
theorem jumpTarget_writeJump (useAbsJump : Bool) (source target : UInt32) (rest : Bytes) :
    jumpTarget source (writeJump useAbsJump source target ++ rest) = some target := by
  cases useAbsJump with
  | false =>
    show some (source + 5 + ofDword _ _ _ _) = some target
    have around : source + 5 + (target - source - 5) = target := by
      apply UInt32.toNat_inj.mp
      have bound := target.toNat_lt
      have bound' := source.toNat_lt
      simp only [UInt32.toNat_add, UInt32.toNat_sub, UInt32.reduceToNat]
      omega
    rw [ofDword_dword, around]
  | true =>
    show (if ofDword _ _ _ _ = source + 6 then some (ofDword _ _ _ _) else none) = some target
    rw [ofDword_dword, ofDword_dword, if_pos rfl]

theorem writeJump_length (useAbsJump : Bool) (source target : UInt32) :
    (writeJump useAbsJump source target).length = jumpPatchSize useAbsJump := by
  cases useAbsJump <;> rfl

theorem jumpPatchSize_le (useAbsJump : Bool) : jumpPatchSize useAbsJump ≤ AbsJumpPatchSize := by
  cases useAbsJump <;> decide

/-! ## What a hook changes -/

theorem minOffset_bounds {size offset result : Nat} {instructions : List Instruction}
    (found : minOffset size instructions offset = some result) :
    size ≤ result ∧ result ≤ offset + codeSize instructions := by
  induction instructions generalizing offset with
  | nil =>
    unfold minOffset at found
    by_cases small : offset < size
    · rw [if_pos small] at found
      cases found
    · rw [if_neg small] at found
      cases found
      simp
      omega
  | cons instr rest ih =>
    unfold minOffset at found
    unfold codeSize
    by_cases small : offset < size
    · rw [if_pos small] at found
      by_cases branch : isBranch instr
      · rw [if_pos branch] at found
        cases found
      · rw [if_neg branch] at found
        have bounds := ih found
        omega
    · rw [if_neg small] at found
      cases found
      omega

/-- The moved instructions are at least as long as the jump, and no longer than the code that was read. -/
theorem getMinOffset_bounds {distorm : Distorm} {code : Bytes} {size offset : Nat}
    (found : getMinOffset distorm code size = some offset) : size ≤ offset ∧ offset ≤ code.length := by
  unfold getMinOffset at found
  cases decoded : distorm.decode code with
  | none => simp [decoded] at found
  | some instructions =>
    simp only [decoded] at found
    have bounds := minOffset_bounds found
    have within := distorm.within code instructions decoded
    omega

section
variable {useAbsJump : Bool} {originalFunc hookFunc trampolineAddr : UInt32} {offset : Nat} {m : Memory}

/-- A trampoline that does not wrap around goes on behind the moved instructions. -/
theorem trampoline_end {a : UInt32} {n : Nat} (apart : Apart a n trampolineAddr (offset + AbsJumpPatchSize)) :
    (trampolineAddr + UInt32.ofNat offset).toNat = trampolineAddr.toNat + offset := by
  have fits := apart.right
  simp only [AbsJumpPatchSize] at fits
  rw [UInt32.toNat_add, UInt32.toNat_ofNat']
  omega

/-- Outside the jump and the trampoline nothing changes. -/
theorem read_patch_apart {a : UInt32} {n : Nat} (fromFunction : Apart a n originalFunc AbsJumpPatchSize)
    (fromTrampoline : Apart a n trampolineAddr (offset + AbsJumpPatchSize)) :
    (patch useAbsJump originalFunc hookFunc trampolineAddr offset m).read a n = m.read a n := by
  have short := jumpPatchSize_le useAbsJump
  have behind := trampoline_end fromTrampoline
  unfold patch
  rw [read_write_apart, read_write_apart, read_write_apart]
  · exact apart_part fromTrampoline (Nat.le_refl _) (by rw [read_length]; omega)
  · exact apart_part fromFunction (Nat.le_refl _) (by rw [writeJump_length]; omega)
  · exact apart_part fromTrampoline (by omega) (by rw [writeJump_length]; omega)

/-- The hooked function begins with the jump, and goes on as before. -/
theorem read_patch_function {n : Nat} (apart : Apart originalFunc n trampolineAddr (offset + AbsJumpPatchSize))
    (long : AbsJumpPatchSize ≤ n) :
    (patch useAbsJump originalFunc hookFunc trampolineAddr offset m).read originalFunc n =
      writeJump useAbsJump originalFunc hookFunc ++ (m.read originalFunc n).drop (jumpPatchSize useAbsJump) := by
  have short := jumpPatchSize_le useAbsJump
  have behind := trampoline_end apart
  have small := apart.left
  have copied : ((m.write trampolineAddr (m.read originalFunc offset)).read originalFunc n) = m.read originalFunc n :=
    read_write_apart m (apart_part apart (Nat.le_refl _) (by rw [read_length]; omega))
  unfold patch
  rw [read_write_apart, read_write_self _ _ (by omega) (by rw [writeJump_length]; omega), copied, writeJump_length]
  exact apart_part apart (by omega) (by rw [writeJump_length]; omega)

/-- At the hooked function there is a jump to the new one. -/
theorem jumpTarget_patch (apart : Apart originalFunc AbsJumpPatchSize trampolineAddr (offset + AbsJumpPatchSize)) :
    jumpTarget originalFunc
      ((patch useAbsJump originalFunc hookFunc trampolineAddr offset m).read originalFunc AbsJumpPatchSize) =
        some hookFunc := by
  rw [read_patch_function apart (Nat.le_refl _), jumpTarget_writeJump]

/-- The trampoline begins with the moved instructions. -/
theorem read_patch_trampoline (apart : Apart originalFunc AbsJumpPatchSize trampolineAddr (offset + AbsJumpPatchSize)) :
    (patch useAbsJump originalFunc hookFunc trampolineAddr offset m).read trampolineAddr offset =
      m.read originalFunc offset := by
  have short := jumpPatchSize_le useAbsJump
  have fits := apart.right
  have behind := trampoline_end apart
  simp only [AbsJumpPatchSize] at fits short
  unfold patch
  rw [read_write_apart, read_write_apart, read_write_self _ _ (by omega) (by simp), read_length,
    List.drop_of_length_le (by simp), List.append_nil]
  · refine apart_part (apart_shorter (apart_symm apart) (by omega)) (Nat.le_refl _) ?_
    rw [writeJump_length]
    simp only [AbsJumpPatchSize]
    omega
  · exact ⟨by omega, by rw [writeJump_length]; omega, .inl (by omega)⟩

/-- Removing a hook puts the function's code back as it was. -/
theorem read_removeHook_patch (apart : Apart originalFunc 20 trampolineAddr (offset + AbsJumpPatchSize))
    (long : jumpPatchSize useAbsJump ≤ offset) (short : offset ≤ 20) (h : NCodeHook) :
    (removeHook true ⟨originalFunc, hookFunc, offset, trampolineAddr⟩ h
      (patch useAbsJump originalFunc hookFunc trampolineAddr offset m)).2.2.read originalFunc 20 =
        m.read originalFunc 20 := by
  have front : Apart originalFunc AbsJumpPatchSize trampolineAddr (offset + AbsJumpPatchSize) :=
    apart_shorter apart (by decide)
  have length := writeJump_length useAbsJump originalFunc hookFunc
  have behind : jumpPatchSize useAbsJump + (offset - jumpPatchSize useAbsJump) = offset := by omega
  show ((patch useAbsJump originalFunc hookFunc trampolineAddr offset m).write originalFunc
    ((patch useAbsJump originalFunc hookFunc trampolineAddr offset m).read trampolineAddr offset)).read originalFunc 20 = _
  rw [read_patch_trampoline front, read_write_self _ _ (by decide) (by rw [read_length]; exact short), read_length,
    read_patch_function apart (by decide), List.drop_append, List.drop_of_length_le (by omega), List.nil_append,
    List.drop_drop, length, behind, ← read_take m originalFunc short, List.take_append_drop]

end

/-! ## What the functions do -/

/-- What `createHook` does to a function that is not hooked: nothing at all, or it
    moves the first instructions to the first free trampoline. -/
theorem createHook_cases {distorm : Distorm} {writable : Bool} {originalFunc hookFunc : UInt32} {h : NCodeHook} {m : Memory}
    {result : UInt32 × NCodeHook × Memory} (unhooked : ∀ e ∈ h.hookedFunctions, e.2.OriginalFunc ≠ originalFunc)
    (created : createHook distorm writable originalFunc hookFunc h m = .ok result) :
    result = (0, h, m) ∨
      ∃ trampolineAddr freeTrampolines useAbsJump offset,
        h.freeTrampolines = trampolineAddr :: freeTrampolines ∧ jumpPatchSize useAbsJump ≤ offset ∧ offset ≤ 20 ∧
        result = (trampolineAddr,
          NCodeHook.insert { h with freeTrampolines } hookFunc ⟨originalFunc, hookFunc, offset, trampolineAddr⟩,
          patch useAbsJump originalFunc hookFunc trampolineAddr offset m) := by
  have missing : h.hookedFunctions.find? (fun e => e.2.OriginalFunc == originalFunc) = none := by
    simpa using unhooked
  unfold createHook at created
  simp only [missing] at created
  cases found : getMinOffset distorm (m.read originalFunc 20)
      (jumpPatchSize (h.forceAbsJmp || requiresAbsJump originalFunc hookFunc)) with
  | none =>
    simp only [found] at created
    exact .inl (Except.ok.inj created).symm
  | some offset =>
    simp only [found] at created
    cases writable with
    | false => exact .inl (Except.ok.inj created).symm
    | true =>
      cases free : h.freeTrampolines with
      | nil =>
        simp only [free, ↓reduceIte] at created
        cases created
      | cons trampolineAddr freeTrampolines =>
        simp only [free, ↓reduceIte] at created
        have bounds := getMinOffset_bounds found
        rw [read_length] at bounds
        exact .inr ⟨trampolineAddr, freeTrampolines, _, offset, rfl, bounds.1, bounds.2, (Except.ok.inj created).symm⟩

/-- With a free trampoline it does not throw. -/
theorem createHook_returns (distorm : Distorm) (writable : Bool) (originalFunc hookFunc : UInt32) {h : NCodeHook}
    (m : Memory) (free : h.freeTrampolines ≠ []) :
    ∃ result, createHook distorm writable originalFunc hookFunc h m = .ok result := by
  unfold createHook
  split
  · exact ⟨_, rfl⟩
  · dsimp only
    split
    · exact ⟨_, rfl⟩
    · cases writable with
      | false => exact ⟨_, rfl⟩
      | true =>
        cases trampolines : h.freeTrampolines with
        | nil => exact absurd trampolines free
        | cons trampolineAddr freeTrampolines => exact ⟨_, rfl⟩

theorem createHookByName_returns (distorm : Distorm) (writable : Bool) (funcPtr newFunc : UInt32) {h : NCodeHook}
    (m : Memory) (free : h.freeTrampolines ≠ []) :
    ∃ result, createHookByName distorm writable funcPtr newFunc h m = .ok result := by
  unfold createHookByName
  split
  · exact createHook_returns distorm writable funcPtr newFunc m free
  · exact ⟨_, rfl⟩

/-- Nothing but the new entry comes into the map. -/
theorem mem_insert {h : NCodeHook} {hookFunc : UInt32} {item : NCodeHookItem} {e : UInt32 × NCodeHookItem}
    (member : e ∈ (h.insert hookFunc item).hookedFunctions) : e = (hookFunc, item) ∨ e ∈ h.hookedFunctions := by
  unfold NCodeHook.insert at member
  split at member
  · exact .inr member
  · exact List.mem_cons.mp member

theorem insert_length (h : NCodeHook) (hookFunc : UInt32) (item : NCodeHookItem) :
    (h.insert hookFunc item).hookedFunctions.length ≤ h.hookedFunctions.length + 1 := by
  unfold NCodeHook.insert
  split
  · exact Nat.le_succ _
  · exact Nat.le_refl _

@[simp] theorem insert_freeTrampolines (h : NCodeHook) (hookFunc : UInt32) (item : NCodeHookItem) :
    (h.insert hookFunc item).freeTrampolines = h.freeTrampolines := by
  unfold NCodeHook.insert
  split <;> rfl

@[simp] theorem insert_cleanOnDestruct (h : NCodeHook) (hookFunc : UInt32) (item : NCodeHookItem) :
    (h.insert hookFunc item).cleanOnDestruct = h.cleanOnDestruct := by
  unfold NCodeHook.insert
  split <;> rfl

/-- Removed by the address of its hook function, a hook leaves the code as it was before. -/
theorem removeHookOf_restores {useAbsJump : Bool} {originalFunc hookFunc trampolineAddr : UInt32} {offset : Nat}
    {h : NCodeHook} (m : Memory) (unhooked : h.hookedFunctions.lookup hookFunc = none)
    (apart : Apart originalFunc 20 trampolineAddr (offset + AbsJumpPatchSize)) (long : jumpPatchSize useAbsJump ≤ offset)
    (short : offset ≤ 20) :
    (removeHookOf true hookFunc (h.insert hookFunc ⟨originalFunc, hookFunc, offset, trampolineAddr⟩)
      (patch useAbsJump originalFunc hookFunc trampolineAddr offset m)).2.2.read originalFunc 20 =
        m.read originalFunc 20 := by
  have found : (h.insert hookFunc ⟨originalFunc, hookFunc, offset, trampolineAddr⟩).hookedFunctions.lookup hookFunc =
      some ⟨originalFunc, hookFunc, offset, trampolineAddr⟩ := by
    simp [NCodeHook.insert, unhooked]
  unfold removeHookOf
  simp only [found]
  exact read_removeHook_patch apart long short _

/-- Every entry is a hook of a function in user space, or a default item. -/
def Keyed (h : NCodeHook) : Prop := ∀ e ∈ h.hookedFunctions, e.2 = .default ∨ 65536 ≤ e.1.toNat

/-- A number up to the size of the map is no hook function, so its item is a default one. -/
theorem index_default {h : NCodeHook} (keyed : Keyed h) {i : Nat} (small : i < 65536) :
    (h.index (UInt32.ofNat i)).1 = .default ∧ Keyed (h.index (UInt32.ofNat i)).2 := by
  unfold NCodeHook.index
  cases found : h.hookedFunctions.lookup (UInt32.ofNat i) with
  | none =>
    refine ⟨rfl, fun e member => ?_⟩
    rcases List.mem_cons.mp member with rfl | old
    · exact .inl rfl
    · exact keyed e old
  | some item =>
    obtain ⟨before, after, same, _⟩ := List.lookup_eq_some_iff.mp found
    refine ⟨(keyed (UInt32.ofNat i, item) (by rw [same]; simp)).resolve_right ?_, keyed⟩
    simp only [UInt32.toNat_ofNat']
    omega

/-- Removing a default item changes no byte. -/
theorem removeHook_default (writable : Bool) {h : NCodeHook} (keyed : Keyed h) (m : Memory) :
    Keyed (removeHook writable .default h m).2.1 ∧ (removeHook writable .default h m).2.2 = m := by
  cases writable with
  | false => exact ⟨keyed, rfl⟩
  | true => exact ⟨fun e member => keyed e (List.mem_filter.mp member).1, rfl⟩

/-- The loop of the destructor removes default items only. -/
theorem restoreAll_memory (writable : Nat → Bool) {n : Nat} (small : n ≤ 65536) {h : NCodeHook} (keyed : Keyed h)
    (m : Memory) : (restoreAll writable n h m).2 = m := by
  induction n generalizing h m with
  | zero => rfl
  | succ i ih =>
    obtain ⟨item, keyed'⟩ := index_default keyed (Nat.lt_of_succ_le small)
    have removed := removeHook_default (writable i) keyed' m
    unfold restoreAll
    dsimp only
    rw [item, ih (by omega) removed.1, removed.2]

/-- The destructor frees the trampolines, and puts no hooked function's code back. -/
theorem destroy_cases {writable : Nat → Bool} {h h' : NCodeHook} {m m' : Memory} {freed : Bool}
    (destroyed : destroy writable h m = (h', m', freed)) (keyed : Keyed h) (few : h.hookedFunctions.length ≤ 65536)
    (cleans : h.cleanOnDestruct = true) : m' = m ∧ freed = true := by
  unfold destroy at destroyed
  rw [if_pos cleans] at destroyed
  simp only [Prod.mk.injEq] at destroyed
  obtain ⟨_, rfl, rfl⟩ := destroyed
  exact ⟨restoreAll_memory writable few keyed m, rfl⟩

end Sysintercept.InlineHooks
