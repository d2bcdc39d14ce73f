import Mathlib.Logic.Relation
import Sysintercept.Records

/-!
# Moved code

A processor that fetches its instructions from a memory: where two memories have
the same code, it does the same, and a copy of instructions that do not depend on
where they lie stands in for them if a jump leads from its end back behind them.
-/
namespace Sysintercept.Relocation
open Sysintercept.Units Sysintercept.AddressSpace Sysintercept.Records
universe u

/-- `execute` gets an address, the bytes from there on, and the state that is not code;
    nothing comes of it where there is no instruction. -/
structure Processor (σ : Type u) where
  fetch : Nat
  execute : UInt32 → Bytes → σ → Option (UInt32 × σ)

/-- Some bytes with what they do: go on behind themselves, or at an address of their choice. -/
structure Code (σ : Type u) where
  bytes : Bytes
  effect : σ → Option (Option UInt32 × σ)

/-- Where code that lies at an address leads to. -/
def arrival (a : UInt32) (size : Nat) {σ : Type u} (e : Option UInt32 × σ) : UInt32 × σ :=
  (e.1.getD (a + UInt32.ofNat size), e.2)

namespace Processor
variable {σ : Type u} (cpu : Processor σ)

def step (m : Memory) (c : UInt32 × σ) : Option (UInt32 × σ) := cpu.execute c.1 (m.read c.1 cpu.fetch) c.2

/-- Steps from addresses of a kind only. -/
def Runs (m : Memory) (allowed : UInt32 → Prop) : UInt32 × σ → UInt32 × σ → Prop :=
  Relation.ReflTransGen fun c c' => allowed c.1 ∧ cpu.step m c = some c'

/-- A run that cannot go on. -/
def Sticks (m : Memory) (allowed : UInt32 → Prop) (c : UInt32 × σ) : Prop :=
  ∃ c', cpu.Runs m allowed c c' ∧ allowed c'.1 ∧ cpu.step m c' = none

/-- Code at `a'` in one memory does what some bytes at `a` do in another: the two stick in it, or
    they come to the same point, from where code at addresses of a kind runs alike. -/
def StandsIn (m m' : Memory) (a a' : UInt32) (size : Nat) (alike : UInt32 → Prop) : Prop :=
  ∀ s, (cpu.Sticks m (InRun a size) (a, s) ∧ cpu.Sticks m' (InRun a' (size + 1)) (a', s)) ∨
    ∃ c, cpu.Runs m (InRun a size) (a, s) c ∧ cpu.Runs m' (InRun a' (size + 1)) (a', s) c ∧
      ∀ c', cpu.Runs m alike c c' ↔ cpu.Runs m' alike c c'

/-- The instruction does this wherever it lies and whatever follows it. -/
def Does (instr : Code σ) : Prop :=
  ∀ pc rest s, cpu.execute pc (instr.bytes ++ rest) s = (instr.effect s).map (arrival pc instr.bytes.length)

end Processor

def blockBytes {σ : Type u} : List (Code σ) → Bytes
  | [] => []
  | instr :: rest => instr.bytes ++ blockBytes rest

/-- What instructions do one after the other. -/
def blockEffect {σ : Type u} : List (Code σ) → σ → Option (Option UInt32 × σ)
  | [], s => some (none, s)
  | instr :: rest, s =>
    match instr.effect s with
    | some (none, s') => blockEffect rest s'
    | left => left

section
variable {σ : Type u} {cpu : Processor σ} {m m' : Memory} {allowed : UInt32 → Prop} {c c' : UInt32 × σ}

/-- Where the code is the same, so is every run. -/
theorem runs_same (same : ∀ pc, allowed pc → m.read pc cpu.fetch = m'.read pc cpu.fetch) :
    cpu.Runs m allowed c c' ↔ cpu.Runs m' allowed c c' := by
  unfold Processor.Runs Processor.step
  constructor
  · intro runs
    refine Relation.ReflTransGen.mono (fun d d' moved => ⟨moved.1, ?_⟩) _ _ runs
    rw [← same d.1 moved.1]
    exact moved.2
  · intro runs
    refine Relation.ReflTransGen.mono (fun d d' moved => ⟨moved.1, ?_⟩) _ _ runs
    rw [same d.1 moved.1]
    exact moved.2

/-- What is fetched at the beginning of a run of bytes begins with them. -/
theorem fetch_prefix (cpu : Processor σ) {a : UInt32} {bytes : Bytes} (short : bytes.length ≤ cpu.fetch)
    (there : m.read a bytes.length = bytes) :
    ∃ rest, m.read a cpu.fetch = bytes ++ rest := by
  have parts := List.take_append_drop bytes.length (m.read a cpu.fetch)
  rw [read_take m a short, there] at parts
  exact ⟨_, parts.symm⟩

/-- The parts of a run of bytes. -/
theorem read_parts {a : UInt32} {first second : Bytes}
    (there : m.read a (first.length + second.length) = first ++ second) :
    m.read a first.length = first ∧ m.read (a + UInt32.ofNat first.length) second.length = second := by
  rw [read_add] at there
  exact List.append_inj there (by simp)

/-- Instructions that a processor knows, and how it finds them in a memory. -/
structure Processor.Knows (cpu : Processor σ) (block : List (Code σ)) : Prop where
  does : ∀ instr ∈ block, cpu.Does instr
  longs : ∀ instr ∈ block, 0 < instr.bytes.length
  fetches : ∀ instr ∈ block, instr.bytes.length ≤ cpu.fetch

/-- A step at the first of some instructions, wherever they lie. -/
theorem step_block {instr : Code σ} {rest : List (Code σ)} (knows : cpu.Knows (instr :: rest)) {a : UInt32}
    (there : m.read a instr.bytes.length = instr.bytes) (s : σ) :
    cpu.step m (a, s) = (instr.effect s).map (arrival a instr.bytes.length) := by
  obtain ⟨behind, fetched⟩ := fetch_prefix cpu (knows.fetches instr (by simp)) there
  unfold Processor.step
  rw [fetched]
  exact knows.does instr (by simp) a behind s

theorem knows_rest {instr : Code σ} {rest : List (Code σ)} (knows : cpu.Knows (instr :: rest)) : cpu.Knows rest where
  does other member := knows.does other (by simp [member])
  longs other member := knows.longs other (by simp [member])
  fetches other member := knows.fetches other (by simp [member])

theorem arrival_behind (a : UInt32) (first second : Nat) (e : Option UInt32 × σ) :
    arrival (a + UInt32.ofNat first) second e = arrival a (first + second) e := by
  unfold arrival
  rw [UInt32.ofNat_add, UInt32.add_assoc]

/-- Instructions that lie in a memory: a run passes them as their effect says, or sticks among them. -/
theorem runs_block {block : List (Code σ)} (knows : cpu.Knows block) {a : UInt32}
    (fits : a.toNat + (blockBytes block).length ≤ 4294967296)
    (there : m.read a (blockBytes block).length = blockBytes block)
    (inside : ∀ x, InRun a (blockBytes block).length x → allowed x) (s : σ) :
    (∀ e, blockEffect block s = some e → cpu.Runs m allowed (a, s) (arrival a (blockBytes block).length e)) ∧
      (blockEffect block s = none → cpu.Sticks m allowed (a, s)) := by
  induction block generalizing a s with
  | nil =>
    constructor
    · intro e effect
      obtain rfl := Option.some.inj effect
      simp only [blockBytes, List.length_nil, arrival, Option.getD_none]
      rw [show UInt32.ofNat 0 = 0 from rfl, UInt32.add_zero]
      exact .refl
    · intro stuck
      simp [blockEffect] at stuck
  | cons instr rest ih =>
    have long := knows.longs instr (by simp)
    simp only [blockBytes, List.length_append] at fits there inside ⊢
    obtain ⟨front, behind⟩ := read_parts there
    have here : allowed a := inside a ⟨Nat.le_refl _, by omega⟩
    have step := step_block knows front s
    have next : (blockBytes rest).length = 0 ∨
        (a + UInt32.ofNat instr.bytes.length).toNat = a.toNat + instr.bytes.length := by
      by_cases none : (blockBytes rest).length = 0
      · exact .inl none
      · exact .inr (toNat_offset (by omega))
    have bound := (a + UInt32.ofNat instr.bytes.length).toNat_lt
    have later := ih (knows_rest knows) (a := a + UInt32.ofNat instr.bytes.length) (by omega) behind
      fun x within => inside x (by unfold InRun at within ⊢; omega)
    cases effect : instr.effect s with
    | none =>
      rw [effect] at step
      simp only [blockEffect, effect]
      exact ⟨by simp, fun _ => ⟨(a, s), .refl, here, step⟩⟩
    | some e =>
      obtain ⟨target, s'⟩ := e
      rw [effect] at step
      cases target with
      | some target =>
        simp only [blockEffect, effect]
        refine ⟨fun e same => ?_, by simp⟩
        obtain rfl := Option.some.inj same
        exact .single ⟨here, step⟩
      | none =>
        simp only [blockEffect, effect]
        obtain ⟨passes, sticks⟩ := later s'
        constructor
        · intro e same
          rw [← arrival_behind]
          exact .head ⟨here, step⟩ (passes e same)
        · intro stuck
          obtain ⟨c, runs, there, stands⟩ := sticks stuck
          exact ⟨c, .head ⟨here, step⟩ runs, there, stands⟩

/-- A copy of instructions stands in for them, with a jump at its end that leads back behind them. -/
theorem copy_stands_in {block : List (Code σ)} (knows : cpu.Knows block) {a a' : UInt32}
    (fits : a.toNat + (blockBytes block).length ≤ 4294967296)
    (there : m.read a (blockBytes block).length = blockBytes block)
    (fits' : a'.toNat + (blockBytes block).length < 4294967296)
    (copied : m'.read a' (blockBytes block).length = blockBytes block)
    (back : ∀ s, cpu.step m' (a' + UInt32.ofNat (blockBytes block).length, s) =
      some (a + UInt32.ofNat (blockBytes block).length, s))
    (same : ∀ pc, allowed pc → m.read pc cpu.fetch = m'.read pc cpu.fetch) :
    cpu.StandsIn m m' a a' (blockBytes block).length allowed := by
  intro s
  have wider : ∀ x, InRun a' (blockBytes block).length x → InRun a' ((blockBytes block).length + 1) x := by
    intro x within
    unfold InRun at within ⊢
    omega
  obtain ⟨passes, sticks⟩ := runs_block knows fits there (fun _ within => within) s
  obtain ⟨passes', sticks'⟩ := runs_block knows (Nat.le_of_lt fits') copied wider s
  cases effect : blockEffect block s with
  | none => exact .inl ⟨sticks effect, sticks' effect⟩
  | some e =>
    refine .inr ⟨_, passes e effect, ?_, fun c' => runs_same same⟩
    obtain ⟨target, s'⟩ := e
    cases target with
    | some target => exact passes' _ effect
    | none =>
      refine .tail (passes' _ effect) ⟨?_, back s'⟩
      have behind := toNat_offset fits'
      simp only [InRun, arrival, Option.getD_none]
      omega

end
end Sysintercept.Relocation
