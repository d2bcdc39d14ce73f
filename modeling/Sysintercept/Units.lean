import Sysintercept.Terminated

/-!
# Bytes and wide units

The memory that the intercepted functions read: narrow strings are bytes, wide
strings are 16-bit units stored low byte first.
-/
namespace Sysintercept.Units
open Sysintercept.Terminated

/-- `wchar_t` of the Windows ABI. -/
abbrev WChar := UInt16
abbrev WString := List WChar
abbrev Bytes := List UInt8

def lowByte (u : WChar) : UInt8 := UInt8.ofNat (u.toNat % 256)
def highByte (u : WChar) : UInt8 := UInt8.ofNat (u.toNat / 256)
def unit (low high : UInt8) : WChar := UInt16.ofNat (low.toNat + 256 * high.toNat)

/-- The bytes of a wide string in memory. -/
def toBytes : WString → Bytes
  | [] => []
  | u :: rest => lowByte u :: highByte u :: toBytes rest

/-- Memory taken two bytes at a time; a last odd byte makes no unit. -/
def units : Bytes → WString
  | low :: high :: rest => unit low high :: units rest
  | _ => []

theorem unit_bytes (u : WChar) : unit (lowByte u) (highByte u) = u := by
  apply UInt16.toNat_inj.mp
  have bound := u.toNat_lt
  simp only [unit, lowByte, highByte, UInt16.toNat_ofNat', UInt8.toNat_ofNat']
  omega

theorem lowByte_unit (low high : UInt8) : lowByte (unit low high) = low := by
  apply UInt8.toNat_inj.mp
  have lowBound := low.toNat_lt
  have highBound := high.toNat_lt
  simp only [unit, lowByte, UInt16.toNat_ofNat', UInt8.toNat_ofNat']
  omega

theorem highByte_unit (low high : UInt8) : highByte (unit low high) = high := by
  apply UInt8.toNat_inj.mp
  have lowBound := low.toNat_lt
  have highBound := high.toNat_lt
  simp only [unit, highByte, UInt16.toNat_ofNat', UInt8.toNat_ofNat']
  omega

theorem units_toBytes (w : WString) (m : Bytes) : units (toBytes w ++ m) = w ++ units m := by
  induction w with
  | nil => rfl
  | cons u rest ih => simp only [toBytes, List.cons_append, units, unit_bytes, ih]

theorem toBytes_append (v w : WString) : toBytes (v ++ w) = toBytes v ++ toBytes w := by
  induction v with
  | nil => rfl
  | cons u rest ih => simp [toBytes, ih]

/-- Memory begins with its own units. -/
theorem toBytes_units_prefix (m : Bytes) : toBytes (units m) <+: m := by
  induction m using units.induct with
  | case1 low high rest ih =>
    obtain ⟨after, same⟩ := ih
    refine ⟨after, ?_⟩
    simp only [units, toBytes, lowByte_unit, highByte_unit, List.cons_append, same]
  | case2 m none =>
    rw [show units m = [] from units.eq_2 m none]
    exact List.nil_prefix

/-- A C string of narrow units at the start of readable memory. -/
def narrowScan (m : Bytes) : Option Bytes := scan 0 m
/-- A C string of wide units at the start of readable memory. -/
def wideScan (m : Bytes) : Option WString := scan 0 (units m)

/-- A wide buffer with its terminator, as `c_str` lays it out. -/
def wide_c_str (w : WString) : Bytes := toBytes (w ++ [0])
/-- A narrow buffer with its terminator, as `c_str` lays it out. -/
def narrow_c_str (b : Bytes) : Bytes := b ++ [0]

/-- A wide buffer reads back as its string up to the first NUL. -/
theorem wideScan_c_str (w : WString) (m : Bytes) : wideScan (wide_c_str w ++ m) = some (cut 0 w) := by
  unfold wideScan wide_c_str
  rw [units_toBytes, List.append_assoc]
  exact scan_terminated w (units m)

theorem narrowScan_c_str (b m : Bytes) : narrowScan (narrow_c_str b ++ m) = some (cut 0 b) := by
  unfold narrowScan narrow_c_str
  rw [List.append_assoc]
  exact scan_terminated b m

theorem wideScan_clean {w : WString} (clean : 0 ∉ w) (m : Bytes) : wideScan (wide_c_str w ++ m) = some w := by
  rw [wideScan_c_str, cut_of_not_mem clean]

theorem narrowScan_clean {b : Bytes} (clean : 0 ∉ b) (m : Bytes) : narrowScan (narrow_c_str b ++ m) = some b := by
  rw [narrowScan_c_str, cut_of_not_mem clean]

/-- A wide string read from memory begins it, down to the bytes. -/
theorem of_wideScan {m : Bytes} {w : WString} (scanned : wideScan m = some w) :
    ∃ rest, m = toBytes w ++ 0 :: 0 :: rest := by
  obtain ⟨_, after, found⟩ := (scan_eq_some_iff _ _).mp scanned
  obtain ⟨rest, same⟩ := toBytes_units_prefix m
  refine ⟨toBytes after ++ rest, ?_⟩
  rw [← same, found, toBytes_append, List.append_assoc]
  rfl

/-- Memory read as a wide string, and the buffer of that string, read the same
    as a narrow one. -/
theorem narrowScan_of_wideScan {m : Bytes} {w : WString} (scanned : wideScan m = some w) :
    narrowScan m = some (cut 0 (toBytes w)) := by
  obtain ⟨rest, rfl⟩ := of_wideScan scanned
  exact scan_terminated (toBytes w) (0 :: rest)

end Sysintercept.Units
