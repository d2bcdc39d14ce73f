import Sysintercept.AddressSpace
import Sysintercept.Buffers

/-!
# Records in memory

Words and double words in a 32-bit address space, and records whose fields lie at
offsets from an address: what is read back of a record that was written field by
field, and what writing it leaves alone.
-/
namespace Sysintercept.Records
open Sysintercept.Units Sysintercept.AddressSpace Sysintercept.Buffers

/-- An address of a run of bytes. -/
def InRun (a : UInt32) (n : Nat) (x : UInt32) : Prop := a.toNat ≤ x.toNat ∧ x.toNat < a.toNat + n

theorem toNat_offset {a : UInt32} {i : Nat} (fits : a.toNat + i < 4294967296) : (a + UInt32.ofNat i).toNat = a.toNat + i := by
  rw [UInt32.toNat_add, UInt32.toNat_ofNat']
  omega

section
variable {m m' : Memory}

/-- Only the bytes of a run decide what is read of it. -/
theorem read_congr {a : UInt32} {n : Nat} (fits : a.toNat + n ≤ 4294967296) (same : ∀ x, InRun a n x → m x = m' x) :
    m.read a n = m'.read a n := by
  apply List.map_congr_left
  intro i member
  have inside := List.mem_range.mp member
  apply same
  rw [InRun, toNat_offset (by omega)]
  omega

/-- Only if a run is read alike are its bytes the same. -/
theorem eq_of_read {a x : UInt32} {n : Nat} (same : m.read a n = m'.read a n) (inside : InRun a n x) : m x = m' x := by
  have place : a + UInt32.ofNat (x.toNat - a.toNat) = x := by
    apply UInt32.toNat_inj.mp
    have bound := x.toNat_lt
    unfold InRun at inside
    rw [toNat_offset (by omega)]
    omega
  have here : (m.read a n)[x.toNat - a.toNat]? = (m'.read a n)[x.toNat - a.toNat]? := by rw [same]
  have within : x.toNat - a.toNat < n := by
    unfold InRun at inside
    omega
  rw [List.getElem?_eq_getElem (by simpa using within), List.getElem?_eq_getElem (by simpa using within), getElem_read,
    getElem_read, place] at here
  exact Option.some.inj here

/-- What is read behind something else. -/
theorem read_add (m : Memory) (a : UInt32) (n k : Nat) : m.read a (n + k) = m.read a n ++ m.read (a + UInt32.ofNat n) k := by
  unfold Memory.read
  rw [List.range_add, List.map_append, List.map_map]
  congr 1
  apply List.map_congr_left
  intro i _
  simp only [Function.comp_apply, UInt32.ofNat_add, UInt32.add_assoc]

/-- A byte outside of what is written stays. -/
theorem write_outside {a x : UInt32} {bytes : Bytes} (fits : a.toNat + bytes.length ≤ 4294967296)
    (outside : ¬ InRun a bytes.length x) : m.write a bytes x = m x := by
  have behind : bytes.length ≤ (x - a).toNat := by
    have bound := x.toNat_lt
    unfold InRun at outside
    rw [UInt32.toNat_sub]
    omega
  show bytes.getD (x - a).toNat (m x) = m x
  rw [List.getD_eq_getElem?_getD, List.getElem?_eq_none behind, Option.getD_none]

end

/-- A part of what is read from an address on. -/
theorem peek_read (m : Memory) (a : UInt32) {n offset k : Nat} (within : offset + k ≤ n) :
    peek (m.read a n) offset k = m.read (a + UInt32.ofNat offset) k := by
  apply List.ext_getElem
  · simp only [peek, List.length_take, List.length_drop, read_length]
    omega
  · intro i inside _
    simp only [peek, List.getElem_take, List.getElem_drop, getElem_read, UInt32.ofNat_add, UInt32.add_assoc]

/-- A part of what is written is read back. -/
theorem read_write_peek (m : Memory) (a : UInt32) {bytes : Bytes} {offset k : Nat} (small : bytes.length ≤ 4294967296)
    (within : offset + k ≤ bytes.length) : (m.write a bytes).read (a + UInt32.ofNat offset) k = peek bytes offset k := by
  have whole : (m.write a bytes).read a bytes.length = bytes := by
    rw [read_write_self m a small (Nat.le_refl _), List.drop_of_length_le (by simp), List.append_nil]
  rw [← peek_read _ _ within, whole]

/-! ## Words -/

/-- A word, low byte first. -/
def ofWord (b₀ b₁ : UInt8) : UInt16 := UInt16.ofNat (b₀.toNat + 256 * b₁.toNat)

def word (v : UInt16) : Bytes := [v.toUInt8, (v >>> 8).toUInt8]

/-- The word or double word that bytes begin with. -/
def takeWord : Bytes → UInt16
  | b₀ :: b₁ :: _ => ofWord b₀ b₁
  | _ => 0

def takeDword : Bytes → UInt32
  | b₀ :: b₁ :: b₂ :: b₃ :: _ => ofDword b₀ b₁ b₂ b₃
  | _ => 0

/-- The field of a record at an offset. -/
def wordAt (m : Memory) (a : UInt32) (offset : Nat) : UInt16 := takeWord (m.read (a + UInt32.ofNat offset) 2)
def dwordAt (m : Memory) (a : UInt32) (offset : Nat) : UInt32 := takeDword (m.read (a + UInt32.ofNat offset) 4)

theorem takeWord_word (v : UInt16) (rest : Bytes) : takeWord (word v ++ rest) = v := by
  have bound := v.toNat_lt
  have second : (v >>> 8).toNat = v.toNat / 256 := (UInt16.toNat_shiftRight v 8).trans (Nat.shiftRight_eq_div_pow _ 8)
  apply UInt16.toNat_inj.mp
  simp only [takeWord, word, List.cons_append, ofWord, UInt16.toNat_ofNat', UInt16.toNat_toUInt8, second]
  omega

section
variable {m m' : Memory} {a : UInt32} {size offset : Nat}

/-- Only the bytes of a record decide its fields. -/
theorem read_field_congr {n : Nat} (fits : a.toNat + size ≤ 4294967296) (same : ∀ x, InRun a size x → m x = m' x)
    (within : offset + n ≤ size) : m.read (a + UInt32.ofNat offset) n = m'.read (a + UInt32.ofNat offset) n := by
  by_cases empty : n = 0
  · subst empty
    rfl
  have place : (a + UInt32.ofNat offset).toNat = a.toNat + offset := toNat_offset (by omega)
  apply read_congr (by omega)
  intro x inside
  apply same
  unfold InRun at inside ⊢
  omega

theorem wordAt_congr (fits : a.toNat + size ≤ 4294967296) (same : ∀ x, InRun a size x → m x = m' x)
    (within : offset + 2 ≤ size) : wordAt m a offset = wordAt m' a offset := by
  unfold wordAt
  rw [read_field_congr fits same within]

theorem dwordAt_congr (fits : a.toNat + size ≤ 4294967296) (same : ∀ x, InRun a size x → m x = m' x)
    (within : offset + 4 ≤ size) : dwordAt m a offset = dwordAt m' a offset := by
  unfold dwordAt
  rw [read_field_congr fits same within]

end

/-! ## Records -/

/-- Pieces of bytes written at offsets from an address. -/
def writeAll (m : Memory) (a : UInt32) : List (Nat × Bytes) → Memory
  | [] => m
  | (offset, bytes) :: rest => writeAll (m.write (a + UInt32.ofNat offset) bytes) a rest

/-- The pieces lie one behind the other between two offsets. -/
def Laid (size : Nat) : Nat → List (Nat × Bytes) → Prop
  | start, [] => start ≤ size
  | start, (offset, bytes) :: rest => start ≤ offset ∧ Laid size (offset + bytes.length) rest

theorem laid_le {size start : Nat} {pieces : List (Nat × Bytes)} (laid : Laid size start pieces) : start ≤ size := by
  induction pieces generalizing start with
  | nil => exact laid
  | cons piece rest ih =>
    have further := ih laid.2
    have before := laid.1
    omega

section
variable {m : Memory} {a : UInt32} {size start : Nat} {pieces : List (Nat × Bytes)}

/-- Writing a record changes none of the bytes before its first piece or behind it. -/
theorem writeAll_outside (laid : Laid size start pieces) (fits : a.toNat + size ≤ 4294967296) {x : UInt32}
    (outside : x.toNat < a.toNat + start ∨ a.toNat + size ≤ x.toNat) : writeAll m a pieces x = m x := by
  induction pieces generalizing start m with
  | nil => rfl
  | cons piece rest ih =>
    obtain ⟨offset, bytes⟩ := piece
    have before := laid.1
    have further : offset + bytes.length ≤ size := laid_le laid.2
    rw [writeAll, ih laid.2 (by omega)]
    by_cases empty : bytes = []
    · rw [empty]
      rfl
    have some := List.length_pos_iff.mpr empty
    have place : (a + UInt32.ofNat offset).toNat = a.toNat + offset := toNat_offset (by omega)
    apply write_outside (by omega)
    unfold InRun
    omega

/-- A run before the first piece reads as before. -/
theorem read_writeAll_before (laid : Laid size start pieces) (fits : a.toNat + size ≤ 4294967296) {offset n : Nat}
    (before : offset + n ≤ start) :
    (writeAll m a pieces).read (a + UInt32.ofNat offset) n = m.read (a + UInt32.ofNat offset) n := by
  have within := laid_le laid
  by_cases empty : n = 0
  · subst empty
    rfl
  have place : (a + UInt32.ofNat offset).toNat = a.toNat + offset := toNat_offset (by omega)
  apply read_congr (by omega)
  intro x inside
  unfold InRun at inside
  exact writeAll_outside laid fits (.inl (by omega))

/-- Each piece of a record is read back. -/
theorem read_writeAll (laid : Laid size start pieces) (fits : a.toNat + size ≤ 4294967296) {offset : Nat} {bytes : Bytes}
    (member : (offset, bytes) ∈ pieces) :
    (writeAll m a pieces).read (a + UInt32.ofNat offset) bytes.length = bytes := by
  induction pieces generalizing start m with
  | nil => cases member
  | cons piece rest ih =>
    rcases List.mem_cons.mp member with rfl | later
    · have within := laid_le laid.2
      rw [writeAll, read_writeAll_before laid.2 fits (Nat.le_refl _), read_write_self _ _ (by omega) (Nat.le_refl _),
        List.drop_of_length_le (by simp), List.append_nil]
    · exact ih laid.2 later

end

end Sysintercept.Records
