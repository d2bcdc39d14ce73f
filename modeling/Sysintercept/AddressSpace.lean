import Sysintercept.Units

/-!
# A process's memory

The bytes of a 32-bit address space, with reads and writes of runs of bytes that
may wrap around: what is read back where bytes were written, and what a write
leaves alone.
-/
namespace Sysintercept.AddressSpace
open Sysintercept.Units

abbrev Memory := UInt32 → UInt8

namespace Memory

/-- `n` bytes from an address on. -/
def read (m : Memory) (a : UInt32) (n : Nat) : Bytes := (List.range n).map (fun i => m (a + UInt32.ofNat i))

/-- `memcpy` to an address. -/
def write (m : Memory) (a : UInt32) (bytes : Bytes) : Memory := fun x => bytes.getD (x - a).toNat (m x)

end Memory

/-- Two runs of bytes that share no address, neither of them wrapping around. -/
structure Apart (a : UInt32) (n : Nat) (b : UInt32) (k : Nat) : Prop where
  left : a.toNat + n ≤ 4294967296
  right : b.toNat + k ≤ 4294967296
  order : a.toNat + n ≤ b.toNat ∨ b.toNat + k ≤ a.toNat

theorem apart_symm {a b : UInt32} {n k : Nat} (apart : Apart a n b k) : Apart b k a n :=
  ⟨apart.right, apart.left, apart.order.symm⟩

/-- Parts of runs that are apart are apart. -/
theorem apart_part {a b : UInt32} {n k : Nat} (apart : Apart a n b k) {c : UInt32} {j : Nat} (above : b.toNat ≤ c.toNat)
    (below : c.toNat + j ≤ b.toNat + k) : Apart a n c j := by
  obtain ⟨left, right, order⟩ := apart
  exact ⟨left, by omega, by omega⟩

theorem apart_shorter {a b : UInt32} {n k : Nat} (apart : Apart a n b k) {j : Nat} (shorter : j ≤ n) : Apart a j b k :=
  apart_symm (apart_part (apart_symm apart) (Nat.le_refl _) (by omega))

/-- A byte of a run lies as far behind the beginning of the run as its index says. -/
theorem offset_self (a : UInt32) {i : Nat} (small : i < 4294967296) : (a + UInt32.ofNat i - a).toNat = i := by
  have bound := a.toNat_lt
  rw [UInt32.toNat_sub, UInt32.toNat_add, UInt32.toNat_ofNat']
  omega

/-- A byte of one run lies behind the whole of a run that is apart from it, counted around. -/
theorem offset_apart {a b : UInt32} {n k i : Nat} (apart : Apart a n b k) (inside : i < n) :
    k ≤ (a + UInt32.ofNat i - b).toNat := by
  obtain ⟨left, right, order⟩ := apart
  have bound := b.toNat_lt
  rw [UInt32.toNat_sub, UInt32.toNat_add, UInt32.toNat_ofNat']
  omega

section
variable (m : Memory)

@[simp] theorem read_length (a : UInt32) (n : Nat) : (m.read a n).length = n := by
  simp [Memory.read]

theorem getElem_read (a : UInt32) {n i : Nat} (inside : i < (m.read a n).length) :
    (m.read a n)[i] = m (a + UInt32.ofNat i) := by
  simp [Memory.read]

theorem read_take (a : UInt32) {n k : Nat} (shorter : k ≤ n) : (m.read a n).take k = m.read a k := by
  unfold Memory.read
  rw [← List.map_take, List.take_range, Nat.min_eq_left shorter]

/-- What is written elsewhere is not read. -/
theorem read_write_apart {a b : UInt32} {n : Nat} {bytes : Bytes} (apart : Apart a n b bytes.length) :
    (m.write b bytes).read a n = m.read a n := by
  apply List.map_congr_left
  intro i member
  have behind := offset_apart apart (List.mem_range.mp member)
  show bytes.getD _ _ = _
  rw [List.getD_eq_getElem?_getD, List.getElem?_eq_none behind, Option.getD_none]

/-- What is written is read back, and behind it what was there before. -/
theorem read_write_self (a : UInt32) {n : Nat} (small : n ≤ 4294967296) {bytes : Bytes} (fits : bytes.length ≤ n) :
    (m.write a bytes).read a n = bytes ++ (m.read a n).drop bytes.length := by
  apply List.ext_getElem
  · simp
    omega
  intro i inside _
  have bound : i < n := by simpa using inside
  rw [getElem_read]
  show bytes.getD (a + UInt32.ofNat i - a).toNat _ = _
  rw [offset_self a (by omega), List.getD_eq_getElem?_getD]
  by_cases written : i < bytes.length
  · rw [List.getElem?_eq_getElem written, Option.getD_some, List.getElem_append_left written]
  · rw [List.getElem?_eq_none (by omega), Option.getD_none, List.getElem_append_right (by omega), List.getElem_drop,
      getElem_read]
    congr 3
    omega

end

/-- A double word, low byte first. -/
def ofDword (b₀ b₁ b₂ b₃ : UInt8) : UInt32 :=
  UInt32.ofNat (b₀.toNat + 256 * b₁.toNat + 65536 * b₂.toNat + 16777216 * b₃.toNat)

theorem ofDword_dword (v : UInt32) :
    ofDword v.toUInt8 (v >>> 8).toUInt8 (v >>> 16).toUInt8 (v >>> 24).toUInt8 = v := by
  have bound := v.toNat_lt
  have second : (v >>> 8).toNat = v.toNat / 256 := (UInt32.toNat_shiftRight v 8).trans (Nat.shiftRight_eq_div_pow _ 8)
  have third : (v >>> 16).toNat = v.toNat / 65536 := (UInt32.toNat_shiftRight v 16).trans (Nat.shiftRight_eq_div_pow _ 16)
  have fourth : (v >>> 24).toNat = v.toNat / 16777216 :=
    (UInt32.toNat_shiftRight v 24).trans (Nat.shiftRight_eq_div_pow _ 24)
  apply UInt32.toNat_inj.mp
  simp only [ofDword, UInt32.toNat_ofNat', UInt32.toNat_toUInt8, second, third, fourth]
  omega

end Sysintercept.AddressSpace
