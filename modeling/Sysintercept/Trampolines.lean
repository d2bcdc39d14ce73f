import Sysintercept.HookedFunctions
import Sysintercept.Relocation

/-!
# Calling the hooked functions

A processor that runs the code which the hooks leave behind: a call of a hooked
function gets to its hook function, and a call of its trampoline does what the
function did before it was hooked, until it comes to code that a hook has changed.
-/
namespace Sysintercept.Trampolines
open Sysintercept.Units Sysintercept.AddressSpace Sysintercept.Buffers Sysintercept.Records Sysintercept.Automaton
open Sysintercept.InlineHooks Sysintercept.Relocation Sysintercept.HookedFunctions
universe u

/-- The branches that `isBranch` does not know. -/
def isLoop (instr : Instruction) : Bool := "LOOP".toList.isPrefixOf instr.mnemonic.toList

/-- The instructions of some code up to a size. -/
def instructionsBefore (size : Nat) : List Instruction → Nat → List Instruction
  | [], _ => []
  | instr :: rest, offset => if offset < size then instr :: instructionsBefore size rest (offset + instr.size) else []

section
variable {σ : Type u}

/-- The processor jumps where the jumps lead, and what is no branch for the disassembler
    can be moved. -/
structure Understands (distorm : Distorm) (cpu : Processor σ) : Prop where
  fetches : AbsJumpPatchSize ≤ cpu.fetch
  jumps : ∀ pc code target s, jumpTarget pc code = some target → cpu.execute pc code s = some (target, s)
  branches : Branches distorm
  moves : ∀ code instructions, distorm.decode code = some instructions → ∀ before instr after,
    instructions = before ++ instr :: after → isBranch instr = false → isLoop instr = false →
      0 < instr.size ∧ instr.size ≤ cpu.fetch ∧ ∃ effect, cpu.Does ⟨(code.drop (codeSize before)).take instr.size, effect⟩

/-- None of the instructions that a hook moves is a loop. -/
def NoLoops (distorm : Distorm) (m₀ : Memory) (item : NCodeHookItem) : Prop :=
  ∀ instructions, distorm.decode (m₀.read item.OriginalFunc 20) = some instructions →
    ∀ instr ∈ instructionsBefore item.PatchSize instructions 0, isLoop instr = false

/-- What is fetched from here is neither of a trampoline nor of the moved instructions. -/
def Elsewhere (layout : Layout) (cpu : Processor σ) (hooks : List NCodeHookItem) (pc : UInt32) : Prop :=
  Apart pc cpu.fetch layout.trampolineBuffer TrampolinesSize ∧
    ∀ item ∈ hooks, Apart pc cpu.fetch item.OriginalFunc item.PatchSize

variable {distorm : Distorm} {cpu : Processor σ}

@[simp] theorem codeSize_append (first second : List Instruction) :
    codeSize (first ++ second) = codeSize first + codeSize second := by
  induction first with
  | nil => simp [codeSize]
  | cons instr rest ih => simp [codeSize, ih, Nat.add_assoc]

/-- The instructions that `getMinOffset` finds before its offset are known to the processor. -/
theorem block_of_minOffset (understands : Understands distorm cpu) {code : Bytes} {instructions : List Instruction}
    (decoded : distorm.decode code = some instructions) {size offset : Nat} (before rest : List Instruction)
    (whole : instructions = before ++ rest) (found : minOffset size rest (codeSize before) = some offset)
    (noLoops : ∀ instr ∈ instructionsBefore offset rest (codeSize before), isLoop instr = false) :
    ∃ block, cpu.Knows block ∧ codeSize before ≤ offset ∧
      blockBytes block = (code.drop (codeSize before)).take (offset - codeSize before) := by
  induction rest generalizing before with
  | nil =>
    unfold minOffset at found
    by_cases small : codeSize before < size
    · simp [small] at found
    · simp only [small, ↓reduceIte, Option.some.injEq] at found
      subst found
      exact ⟨[], ⟨by simp, by simp, by simp⟩, Nat.le_refl _, by simp [blockBytes]⟩
  | cons instr later ih =>
    have bounds := minOffset_bounds found
    unfold minOffset at found
    by_cases small : codeSize before < size
    · simp only [small, ↓reduceIte] at found
      cases branch : isBranch instr with
      | true => simp [branch] at found
      | false =>
        simp only [branch, Bool.false_eq_true, ↓reduceIte] at found
        have moved : codeSize before < offset := by omega
        simp only [instructionsBefore, moved, ↓reduceIte, List.mem_cons, forall_eq_or_imp] at noLoops
        obtain ⟨long, fetched, effect, does⟩ :=
          understands.moves code instructions decoded before instr later whole branch noLoops.1
        have behind : codeSize (before ++ [instr]) = codeSize before + instr.size := by simp [codeSize]
        obtain ⟨block, knows, within, same⟩ := ih (before ++ [instr]) (by simp [whole]) (by rw [behind]; exact found)
          (by rw [behind]; exact noLoops.2)
        rw [behind] at within same
        have inside : codeSize before + instr.size ≤ code.length := by
          have total := distorm.within code instructions decoded
          simp only [whole, codeSize_append, codeSize] at total
          omega
        have length : ((code.drop (codeSize before)).take instr.size).length = instr.size := by
          simp only [List.length_take, List.length_drop]
          omega
        refine ⟨⟨(code.drop (codeSize before)).take instr.size, effect⟩ :: block, ⟨?_, ?_, ?_⟩, by omega, ?_⟩
        · simpa using ⟨does, knows.does⟩
        · simpa [length] using ⟨long, knows.longs⟩
        · simpa [length] using ⟨fetched, knows.fetches⟩
        · have parts : offset - codeSize before = instr.size + (offset - (codeSize before + instr.size)) := by omega
          rw [blockBytes, same, parts, List.take_add, List.drop_drop]
    · simp only [small, ↓reduceIte, Option.some.injEq] at found
      subst found
      exact ⟨[], ⟨by simp, by simp, by simp⟩, Nat.le_refl _, by simp [blockBytes]⟩

variable {layout : Layout} {m₀ : Memory} {lost : List NCodeHookItem} {s : State} {item : NCodeHookItem}

/-- Where no hook is, the code is as it was. -/
theorem fetch_elsewhere (consistent : Consistent layout distorm m₀ lost s) {pc : UInt32}
    (away : Elsewhere layout cpu (s.items ++ lost) pc) : m₀.read pc cpu.fetch = s.memory.read pc cpu.fetch := by
  refine read_congr away.1.left fun x inside => ?_
  by_cases hooked : ∃ item ∈ s.items ++ lost, InRun item.OriginalFunc 20 x
  · obtain ⟨item, member, there⟩ := hooked
    obtain ⟨useAbsJump, placed⟩ := consistent.placed.inPlace item member
    have short := (inPlace_bounds placed).2
    have left := (layout.away _ (consistent.placed.functions item member)).left
    have unmoved := apart_disjoint (away.2 item member) inside
    have within : item.PatchSize + (20 - item.PatchSize) ≤ 20 := by omega
    have behind : m₀.read (item.OriginalFunc + UInt32.ofNat item.PatchSize) (20 - item.PatchSize) =
        s.memory.read (item.OriginalFunc + UInt32.ofNat item.PatchSize) (20 - item.PatchSize) := by
      rw [← peek_read _ _ within, ← peek_read _ _ within, peek, peek, displaced_of_inPlace placed]
    refine eq_of_read behind ?_
    unfold InRun at *
    rw [toNat_offset (by omega)]
    omega
  · refine (consistent.placed.elsewhere x (apart_disjoint away.1 inside) fun item member there => ?_).symm
    exact hooked ⟨item, member, there⟩

/-- A function's jump is taken. -/
theorem step_hooked (understands : Understands distorm cpu) {m : Memory} {useAbsJump : Bool}
    (placed : InPlace distorm m₀ m item useAbsJump) (state : σ) :
    cpu.step m (item.OriginalFunc, state) = some (item.HookFunc, state) := by
  have long := jumpPatchSize_le useAbsJump
  have fetches := understands.fetches
  have jump := writeJump_length useAbsJump item.OriginalFunc item.HookFunc
  have there : m.read item.OriginalFunc (writeJump useAbsJump item.OriginalFunc item.HookFunc).length =
      writeJump useAbsJump item.OriginalFunc item.HookFunc := by
    rw [← read_take m _ (show _ ≤ 20 by simp only [AbsJumpPatchSize] at long; omega), placed.function, List.take_left]
  obtain ⟨rest, fetched⟩ := fetch_prefix cpu (by omega) there
  unfold Processor.step
  rw [fetched]
  exact understands.jumps _ _ _ _ (jumpTarget_writeJump ..)

/-- The jump behind the moved instructions is taken. -/
theorem step_back (understands : Understands distorm cpu) {m : Memory} {useAbsJump : Bool}
    (placed : InPlace distorm m₀ m item useAbsJump) (state : σ) :
    cpu.step m (item.Trampoline + UInt32.ofNat item.PatchSize, state) =
      some (item.OriginalFunc + UInt32.ofNat item.PatchSize, state) := by
  have long := jumpPatchSize_le useAbsJump
  have fetches := understands.fetches
  have jump := writeJump_length useAbsJump (item.Trampoline + UInt32.ofNat item.PatchSize)
    (item.OriginalFunc + UInt32.ofNat item.PatchSize)
  have trampoline := placed.trampoline
  rw [read_add] at trampoline
  have there := (List.append_inj trampoline (by simp)).2
  rw [← jump] at there
  obtain ⟨rest, fetched⟩ := fetch_prefix cpu (by omega) there
  unfold Processor.step
  rw [fetched]
  exact understands.jumps _ _ _ _ (jumpTarget_writeJump ..)

/-- The moved instructions, as the processor knows them. -/
theorem moved_block (understands : Understands distorm cpu) {m : Memory} {useAbsJump : Bool}
    (placed : InPlace distorm m₀ m item useAbsJump) (noLoops : NoLoops distorm m₀ item) :
    ∃ block, cpu.Knows block ∧ (blockBytes block).length = item.PatchSize ∧
      m₀.read item.OriginalFunc item.PatchSize = blockBytes block ∧
      m.read item.Trampoline item.PatchSize = blockBytes block := by
  have moved := placed.moved
  have short := (inPlace_bounds placed).2
  unfold getMinOffset at moved
  cases decoded : distorm.decode (m₀.read item.OriginalFunc 20) with
  | none => simp [decoded] at moved
  | some instructions =>
    simp only [decoded] at moved
    obtain ⟨block, knows, _, same⟩ := block_of_minOffset understands decoded [] instructions rfl moved (noLoops _ decoded)
    simp only [codeSize, List.drop_zero, Nat.sub_zero] at same
    rw [read_take m₀ _ short] at same
    exact ⟨block, knows, by rw [same, read_length], same.symm, (moved_of_inPlace placed).trans same.symm⟩

/-- What becomes of a call of a hooked function, and of its trampoline. -/
def Works (layout : Layout) (distorm : Distorm) (cpu : Processor σ) (m₀ m : Memory) (hooks : List NCodeHookItem)
    (item : NCodeHookItem) : Prop :=
  (∀ state, cpu.step m (item.OriginalFunc, state) = some (item.HookFunc, state)) ∧
    (NoLoops distorm m₀ item →
      cpu.StandsIn m₀ m item.OriginalFunc item.Trampoline item.PatchSize (Elsewhere layout cpu hooks))

theorem works_of_consistent (consistent : Consistent layout distorm m₀ lost s) (understands : Understands distorm cpu)
    (member : item ∈ s.items ++ lost) : Works layout distorm cpu m₀ s.memory (s.items ++ lost) item := by
  obtain ⟨useAbsJump, placed⟩ := consistent.placed.inPlace item member
  refine ⟨step_hooked understands placed, fun noLoops => ?_⟩
  have function := (layout.away _ (consistent.placed.functions item member)).left
  have slot := trampoline_within layout.fits (consistent.placed.pooled item member)
  have fits := placed.fits
  have positive := jumpPatchSize_pos useAbsJump
  have short := (inPlace_bounds placed).2
  have bound := layout.fits
  obtain ⟨block, knows, length, there, copied⟩ := moved_block understands placed noLoops
  rw [← length] at there copied
  rw [← length]
  exact copy_stands_in knows (by omega) there (by omega) copied (by rw [length]; exact step_back understands placed)
    fun pc away => fetch_elsewhere consistent away

end

/-! ## A processor that knows one instruction -/

def nopsOf : Bytes → List Instruction
  | [] => []
  | b :: rest => if b = 0x90 then ⟨"NOP", 1⟩ :: nopsOf rest else []

theorem codeSize_nopsOf (code : Bytes) : codeSize (nopsOf code) ≤ code.length := by
  induction code with
  | nil => simp [nopsOf, codeSize]
  | cons b rest ih =>
    unfold nopsOf
    by_cases nop : b = 0x90
    · simp only [nop, ↓reduceIte, codeSize, List.length_cons]
      omega
    · simp [nop, codeSize]

/-- Where a text of the instruction is cut, the instruction begins. -/
theorem nopsOf_split {code : Bytes} {before after : List Instruction} {instr : Instruction}
    (whole : nopsOf code = before ++ instr :: after) :
    instr = ⟨"NOP", 1⟩ ∧ (code.drop (codeSize before)).take 1 = [0x90] := by
  induction code generalizing before with
  | nil => simp [nopsOf] at whole
  | cons b rest ih =>
    unfold nopsOf at whole
    by_cases nop : b = 0x90
    · simp only [nop, ↓reduceIte] at whole
      cases before with
      | nil =>
        simp only [List.nil_append, List.cons.injEq] at whole
        simp [whole.1.symm, codeSize, nop]
      | cons first later =>
        simp only [List.cons_append, List.cons.injEq] at whole
        obtain ⟨rfl, whole⟩ := whole
        rw [codeSize, Nat.add_comm, List.drop_succ_cons]
        exact ih whole
    · simp [nop] at whole

def nops : Distorm where
  decode code := some (nopsOf code)
  within code instructions decoded := by
    obtain rfl := Option.some.inj decoded
    exact codeSize_nopsOf code

/-- It counts the instructions that do nothing. -/
def counter : Processor Nat where
  fetch := 15
  execute pc code n :=
    match jumpTarget pc code with
    | some target => some (target, n)
    | none => if code.head? = some 0x90 then some (pc + 1, n + 1) else none

theorem counter_understands : Understands nops counter where
  fetches := by decide
  jumps pc code target n jump := by simp [counter, jump]
  branches := by
    intro useAbsJump source target rest instructions decoded
    obtain rfl := Option.some.inj decoded
    cases useAbsJump <;> simp [writeJump, writeAbsJump, writeNearJump, nopsOf]
  moves code instructions decoded before instr after whole _ _ := by
    obtain rfl := Option.some.inj decoded
    obtain ⟨rfl, nop⟩ := nopsOf_split whole
    refine ⟨by decide, by decide, fun n => some (none, n + 1), fun pc rest n => ?_⟩
    rw [nop]
    rfl

theorem nops_fits (s : State) (originalFunc hookFunc : UInt32) : Fits nops s originalFunc hookFunc := by
  have small := jumpPatchSize_le (s.usesAbsJump originalFunc hookFunc)
  refine fits_of_short 1 (fun instructions decoded instr member => ?_) ?_
  · obtain rfl := Option.some.inj decoded
    obtain ⟨before, after, whole⟩ := List.append_of_mem member
    simp [(nopsOf_split whole).1]
  · simp only [MaxTotalTrampolineSize, AbsJumpPatchSize, MaxTrampolineSize] at small ⊢
    omega

def nopStart : State := ⟨⟨trampolines 0x10000, [], 0x10000, true, false⟩, fun _ => 0x90⟩

def smallCall : State := perform nops nopStart (.createHook 0x20000 0x50000 true)

end Sysintercept.Trampolines
