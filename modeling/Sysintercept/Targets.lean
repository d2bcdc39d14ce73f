import Sysintercept.Environments
import Sysintercept.Iat
import Sysintercept.Records

/-!
# The process that is patched

The suspended child as the system has it: its bytes, the pages of its address
space, and its first thread. What each call of `Process` reads or changes there
when it succeeds; a call that fails changes nothing.
-/
namespace Sysintercept.Targets
open Sysintercept.Units Sysintercept.AddressSpace Sysintercept.Records Sysintercept.Effects Sysintercept.Environments
open Sysintercept.Iat

/-! ## The records of an image in memory -/

def dosHeaderAt (m : Memory) (a : UInt32) : DosHeader := ⟨wordAt m a 0, dwordAt m a 60⟩

def directoryAt (m : Memory) (a : UInt32) (offset : Nat) : DataDirectory :=
  ⟨dwordAt m a offset, dwordAt m a (offset + 4)⟩

def ntHeadersAt (m : Memory) (a : UInt32) : NtHeaders where
  Signature := dwordAt m a 0
  NumberOfSections := wordAt m a 6
  SizeOfOptionalHeader := wordAt m a 20
  Characteristics := wordAt m a 22
  ImageBase := dwordAt m a 52
  entry_import := directoryAt m a 128
  entry_bound_import := directoryAt m a 208
  entry_iat := directoryAt m a 216
  entry_com_descriptor := directoryAt m a 232

def descriptorAt (m : Memory) (a : UInt32) : ImportDescriptor :=
  ⟨dwordAt m a 0, dwordAt m a 4, dwordAt m a 8, dwordAt m a 12, dwordAt m a 16⟩

def sectionHeaderAt (m : Memory) (a : UInt32) : SectionHeader := ⟨dwordAt m a 12, dwordAt m a 16⟩

def cor20HeaderAt (m : Memory) (a : UInt32) : Cor20Header := ⟨dwordAt m a 16⟩

/-- The headers field by field; the other fields are written back as they were read. -/
def ntHeadersPieces (h : NtHeaders) : List (Nat × Bytes) :=
  [(0, dword h.Signature), (6, word h.NumberOfSections), (20, word h.SizeOfOptionalHeader), (22, word h.Characteristics),
    (52, dword h.ImageBase), (128, dword h.entry_import.VirtualAddress), (132, dword h.entry_import.Size),
    (208, dword h.entry_bound_import.VirtualAddress), (212, dword h.entry_bound_import.Size),
    (216, dword h.entry_iat.VirtualAddress), (220, dword h.entry_iat.Size),
    (232, dword h.entry_com_descriptor.VirtualAddress), (236, dword h.entry_com_descriptor.Size)]

def cor20HeaderPieces (h : Cor20Header) : List (Nat × Bytes) := [(16, dword h.Flags)]

theorem takeDword_dword (v : UInt32) (rest : Bytes) : takeDword (dword v ++ rest) = v := ofDword_dword v

section
variable {m : Memory} {a : UInt32} {size offset : Nat} {pieces : List (Nat × Bytes)}

theorem dwordAt_writeAll (laid : Laid size 0 pieces) (fits : a.toNat + size ≤ 4294967296) {v : UInt32}
    (member : (offset, dword v) ∈ pieces) : dwordAt (writeAll m a pieces) a offset = v := by
  have same := read_writeAll (m := m) laid fits member
  have whole := takeDword_dword v []
  rw [List.append_nil] at whole
  unfold dwordAt
  rw [show 4 = (dword v).length from rfl, same, whole]

theorem wordAt_writeAll (laid : Laid size 0 pieces) (fits : a.toNat + size ≤ 4294967296) {v : UInt16}
    (member : (offset, word v) ∈ pieces) : wordAt (writeAll m a pieces) a offset = v := by
  have same := read_writeAll (m := m) laid fits member
  have whole := takeWord_word v []
  rw [List.append_nil] at whole
  unfold wordAt
  rw [show 2 = (word v).length from rfl, same, whole]

end

theorem ntHeaders_laid (h : NtHeaders) : Laid 248 0 (ntHeadersPieces h) := by
  simp [ntHeadersPieces, Laid, dword, word]

theorem cor20Header_laid (h : Cor20Header) : Laid 20 16 (cor20HeaderPieces h) := by
  simp [cor20HeaderPieces, Laid, dword]

theorem cor20HeaderAt_writeAll (m : Memory) {a : UInt32} (fits : a.toNat + 72 ≤ 4294967296) (h : Cor20Header) :
    cor20HeaderAt (writeAll m a (cor20HeaderPieces h)) a = h := by
  have laid : Laid 20 0 (cor20HeaderPieces h) := ⟨Nat.zero_le _, (cor20Header_laid h).2⟩
  unfold cor20HeaderAt
  rw [dwordAt_writeAll laid (by omega) (show (16, dword h.Flags) ∈ cor20HeaderPieces h from List.mem_singleton.mpr rfl)]

/-- Headers are read as they were written. -/
theorem ntHeadersAt_writeAll (m : Memory) {a : UInt32} (fits : a.toNat + 248 ≤ 4294967296) (h : NtHeaders) :
    ntHeadersAt (writeAll m a (ntHeadersPieces h)) a = h := by
  have words : ∀ offset v, (offset, word v) ∈ ntHeadersPieces h →
      wordAt (writeAll m a (ntHeadersPieces h)) a offset = v :=
    fun _ _ => wordAt_writeAll (ntHeaders_laid h) fits
  have dwords : ∀ offset v, (offset, dword v) ∈ ntHeadersPieces h →
      dwordAt (writeAll m a (ntHeadersPieces h)) a offset = v :=
    fun _ _ => dwordAt_writeAll (ntHeaders_laid h) fits
  unfold ntHeadersAt directoryAt
  rw [words 6 h.NumberOfSections (by simp [ntHeadersPieces]), words 20 h.SizeOfOptionalHeader (by simp [ntHeadersPieces]),
    words 22 h.Characteristics (by simp [ntHeadersPieces]), dwords 0 h.Signature (by simp [ntHeadersPieces]),
    dwords 52 h.ImageBase (by simp [ntHeadersPieces]), dwords 128 h.entry_import.VirtualAddress (by simp [ntHeadersPieces]),
    dwords (128 + 4) h.entry_import.Size (by simp [ntHeadersPieces]),
    dwords 208 h.entry_bound_import.VirtualAddress (by simp [ntHeadersPieces]),
    dwords (208 + 4) h.entry_bound_import.Size (by simp [ntHeadersPieces]),
    dwords 216 h.entry_iat.VirtualAddress (by simp [ntHeadersPieces]),
    dwords (216 + 4) h.entry_iat.Size (by simp [ntHeadersPieces]),
    dwords 232 h.entry_com_descriptor.VirtualAddress (by simp [ntHeadersPieces]),
    dwords (232 + 4) h.entry_com_descriptor.Size (by simp [ntHeadersPieces])]

/-- Only the bytes of the headers decide what is read of them. -/
theorem ntHeadersAt_congr {m m' : Memory} {a : UInt32} (fits : a.toNat + 248 ≤ 4294967296)
    (same : ∀ x, InRun a 248 x → m x = m' x) : ntHeadersAt m a = ntHeadersAt m' a := by
  have words : ∀ offset, offset + 2 ≤ 248 → wordAt m a offset = wordAt m' a offset := fun _ => wordAt_congr fits same
  have dwords : ∀ offset, offset + 4 ≤ 248 → dwordAt m a offset = dwordAt m' a offset := fun _ => dwordAt_congr fits same
  unfold ntHeadersAt directoryAt
  simp only [words 6 (by decide), words 20 (by decide), words 22 (by decide), dwords 0 (by decide), dwords 52 (by decide),
    dwords 128 (by decide), dwords (128 + 4) (by decide), dwords 208 (by decide), dwords (208 + 4) (by decide),
    dwords 216 (by decide), dwords (216 + 4) (by decide), dwords 232 (by decide), dwords (232 + 4) (by decide)]

theorem dosHeaderAt_congr {m m' : Memory} {a : UInt32} (fits : a.toNat + 64 ≤ 4294967296)
    (same : ∀ x, InRun a 64 x → m x = m' x) : dosHeaderAt m a = dosHeaderAt m' a := by
  unfold dosHeaderAt
  rw [wordAt_congr fits same (by decide), dwordAt_congr fits same (by decide)]

theorem cor20HeaderAt_congr {m m' : Memory} {a : UInt32} (fits : a.toNat + 72 ≤ 4294967296)
    (same : ∀ x, InRun a 72 x → m x = m' x) : cor20HeaderAt m a = cor20HeaderAt m' a := by
  unfold cor20HeaderAt
  rw [dwordAt_congr fits same (by decide)]

theorem descriptorAt_congr {m m' : Memory} {a : UInt32} (fits : a.toNat + 20 ≤ 4294967296)
    (same : ∀ x, InRun a 20 x → m x = m' x) : descriptorAt m a = descriptorAt m' a := by
  have dwords : ∀ offset, offset + 4 ≤ 20 → dwordAt m a offset = dwordAt m' a offset := fun _ => dwordAt_congr fits same
  unfold descriptorAt
  rw [dwords 0 (by decide), dwords 4 (by decide), dwords 8 (by decide), dwords 12 (by decide), dwords 16 (by decide)]

/-! ## The process -/

inductive PageState
  | free
  | reserved
  | committed (protect : UInt32)
  deriving DecidableEq, Repr

def PageState.State : PageState → UInt32
  | .free => MEM_FREE
  | .reserved => 0x2000
  | .committed _ => 0x1000

def PageState.withProtect (protect : UInt32) : PageState → PageState
  | .committed _ => .committed protect
  | other => other

theorem withProtect_eq_reserved {protect : UInt32} {state : PageState} (reserved : state = .reserved) :
    state.withProtect protect = .reserved := by
  rw [reserved]
  rfl

/-- A suspended process. Nothing is given out from the upper end of the user address space
    on, nor of the lowest 64 KiB: these count as reserved, although Windows tells of them as free
    and allocates anywhere when it is asked for memory at NULL, so that an image base of
    NULL is left out. -/
@[ext] structure Target where
  processID : UInt32
  SegFs : UInt32
  selectorEntry : UInt32 → Option LdtEntry
  memory : Memory
  pages : Nat
  page : Nat → PageState
  pages_le : pages ≤ 1048560
  null_reserved : ∀ p < 16, page p = .reserved
  outside_reserved : ∀ p, pages ≤ p → page p = .reserved

/-- A page has a byte of the run. -/
def Touches (a : UInt32) (n p : Nat) : Prop := a.toNat / 4096 ≤ p ∧ p * 4096 < a.toNat + n

instance (a : UInt32) (n p : Nat) : Decidable (Touches a n p) := inferInstanceAs (Decidable (_ ∧ _))

def readable (protect : UInt32) : Bool := [0x02, 0x04, 0x08, 0x20, 0x40, 0x80].contains protect
def writable (protect : UInt32) : Bool := [0x04, 0x08, 0x40, 0x80].contains protect

namespace Target

/-- All of the run's pages are committed with a protection that allows the access. -/
def Accessible (c : Target) (allows : UInt32 → Bool) (a : UInt32) (n : Nat) : Prop :=
  a.toNat + n ≤ 4294967296 ∧ ∀ p, Touches a n p → ∃ protect, c.page p = .committed protect ∧ allows protect = true

def Readable (c : Target) (a : UInt32) (n : Nat) : Prop := c.Accessible readable a n
def Writable (c : Target) (a : UInt32) (n : Nat) : Prop := c.Accessible writable a n

/-- The run can be allocated where it is asked for. -/
def Allocatable (c : Target) (a size : UInt32) : Prop :=
  0 < size.toNat ∧ a.toNat % 65536 = 0 ∧ ∀ p, Touches a size.toNat p → c.page p = .free

/-- The free pages of the run are committed, with zeros in them. -/
def allocate (c : Target) (a size : UInt32) : Target where
  processID := c.processID
  SegFs := c.SegFs
  selectorEntry := c.selectorEntry
  memory x := if Touches a size.toNat (x.toNat / 4096) ∧ c.page (x.toNat / 4096) = .free then 0 else c.memory x
  pages := c.pages
  page p := if Touches a size.toNat p ∧ c.page p = .free then .committed PAGE_EXECUTE_READWRITE else c.page p
  pages_le := c.pages_le
  null_reserved p low := by simp [c.null_reserved p low]
  outside_reserved p high := by simp [c.outside_reserved p high]

/-- The committed pages of the run get another protection. -/
def protect (c : Target) (a : UInt32) (n : Nat) (protection : UInt32) : Target where
  processID := c.processID
  SegFs := c.SegFs
  selectorEntry := c.selectorEntry
  memory := c.memory
  pages := c.pages
  page p := if Touches a n p then (c.page p).withProtect protection else c.page p
  pages_le := c.pages_le
  null_reserved p low := by
    rw [withProtect_eq_reserved (c.null_reserved p low), c.null_reserved p low, ite_self]
  outside_reserved p high := by
    rw [withProtect_eq_reserved (c.outside_reserved p high), c.outside_reserved p high, ite_self]

/-- What can be accessed lies in the user address space, above the lowest 64 KiB. -/
theorem accessible_user {c : Target} {allows : UInt32 → Bool} {a : UInt32} {n : Nat} (accessible : c.Accessible allows a n)
    (some : 0 < n) : 65536 ≤ a.toNat ∧ a.toNat + n ≤ 4294901760 := by
  obtain ⟨_, allowed⟩ := accessible
  have bound := c.pages_le
  have committed : ∀ p, Touches a n p → c.page p ≠ .reserved := by
    intro p touches reserved
    obtain ⟨protect, page, _⟩ := allowed p touches
    rw [page] at reserved
    cases reserved
  constructor
  · refine Nat.le_of_not_lt fun low => committed (a.toNat / 4096) ⟨Nat.le_refl _, by omega⟩ ?_
    exact c.null_reserved _ (by omega)
  · refine Nat.le_of_not_lt fun high => committed ((a.toNat + n - 1) / 4096) ⟨by omega, by omega⟩ ?_
    exact c.outside_reserved _ (by omega)

/-- A part of what can be accessed can be accessed. -/
theorem accessible_part {c : Target} {allows : UInt32 → Bool} {a b : UInt32} {n k : Nat} (accessible : c.Accessible allows a n)
    (above : a.toNat ≤ b.toNat) (below : b.toNat + k ≤ a.toNat + n) : c.Accessible allows b k := by
  obtain ⟨fits, allowed⟩ := accessible
  refine ⟨by omega, fun p touches => allowed p ?_⟩
  obtain ⟨first, last⟩ := touches
  exact ⟨by omega, by omega⟩

/-- A committed page can be accessed as its protection allows. -/
theorem accessible_of_page {c : Target} {allows : UInt32 → Bool} {p : Nat} {protect a : UInt32} {n : Nat}
    (page : c.page p = .committed protect) (allowed : allows protect = true) (above : p * 4096 ≤ a.toNat)
    (below : a.toNat + n ≤ p * 4096 + 4096) : c.Accessible allows a n := by
  have high : p < c.pages := by
    refine Nat.lt_of_not_le fun outside => ?_
    rw [c.outside_reserved p outside] at page
    cases page
  have bound := c.pages_le
  refine ⟨by omega, fun q touches => ⟨protect, ?_, allowed⟩⟩
  obtain ⟨first, last⟩ := touches
  obtain rfl : q = p := by omega
  exact page

/-- The pages of accessible bytes are committed. -/
theorem accessible_page {c : Target} {allows : UInt32 → Bool} {a x : UInt32} {n : Nat} (accessible : c.Accessible allows a n)
    (inside : InRun a n x) : c.page (x.toNat / 4096) ≠ .free := by
  obtain ⟨above, below⟩ := inside
  obtain ⟨protect, page, _⟩ := accessible.2 (x.toNat / 4096) ⟨by omega, by omega⟩
  rw [page]
  exact fun free => nomatch free

end Target

/-! ## What stays -/

/-- Memory that was there stays, with its bytes but for the changed ones, and can be
    read if it could be. -/
structure Keeps (changed : UInt32 → Prop) (c c' : Target) : Prop where
  states : ∀ p, c.page p ≠ .free → (c'.page p).State = (c.page p).State
  reads : ∀ p, (∃ protect, c.page p = .committed protect ∧ readable protect = true) →
    ∃ protect, c'.page p = .committed protect ∧ readable protect = true
  bytes : ∀ x, c.page (x.toNat / 4096) ≠ .free → ¬ changed x → c'.memory x = c.memory x

theorem state_free {state : PageState} : state.State = MEM_FREE ↔ state = .free := by
  cases state with
  | free => exact ⟨fun _ => rfl, fun _ => rfl⟩
  | reserved => exact ⟨fun same => absurd same (by decide), fun same => nomatch same⟩
  | committed => exact ⟨fun same => absurd same (by simp [PageState.State, MEM_FREE]), fun same => nomatch same⟩

@[simp] theorem withProtect_state (protect : UInt32) (state : PageState) : (state.withProtect protect).State = state.State := by
  cases state <;> rfl

@[simp] theorem withProtect_withProtect (first second : UInt32) (state : PageState) :
    (state.withProtect first).withProtect second = state.withProtect second := by
  cases state <;> rfl

section
variable {changed changed' : UInt32 → Prop} {c c' c'' : Target}

theorem keeps_refl : Keeps changed c c := ⟨fun _ _ => rfl, fun _ there => there, fun _ _ _ => rfl⟩

theorem keeps_mono (keeps : Keeps changed c c') (wider : ∀ x, changed x → changed' x) : Keeps changed' c c' :=
  ⟨keeps.states, keeps.reads, fun x there same => keeps.bytes x there fun changes => same (wider x changes)⟩

/-- No page is freed. -/
theorem keeps_taken (keeps : Keeps changed c c') {p : Nat} (there : c.page p ≠ .free) : c'.page p ≠ .free := by
  intro free
  have same := keeps.states p there
  rw [free] at same
  exact there (state_free.mp same.symm)

theorem keeps_readable (keeps : Keeps changed c c') {a : UInt32} {n : Nat} (readable : c.Readable a n) : c'.Readable a n :=
  ⟨readable.1, fun p touches => keeps.reads p (readable.2 p touches)⟩

theorem keeps_trans (first : Keeps changed c c') (second : Keeps changed c' c'') : Keeps changed c c'' :=
  ⟨fun p here => (second.states p (keeps_taken first here)).trans (first.states p here),
    fun p there => second.reads p (first.reads p there),
    fun x here same => (second.bytes x (keeps_taken first here) same).trans (first.bytes x here same)⟩

theorem allocate_page {a size : UInt32} {p : Nat} (there : c.page p ≠ .free) : (c.allocate a size).page p = c.page p :=
  if_neg fun free => there free.2

theorem keeps_allocate (a size : UInt32) : Keeps changed c (c.allocate a size) := by
  refine ⟨fun p here => by rw [allocate_page here], fun p there => ?_, fun x here _ => if_neg fun free => here free.2⟩
  obtain ⟨protect, page, allowed⟩ := there
  refine ⟨protect, ?_, allowed⟩
  rw [allocate_page (by rw [page]; exact fun free => nomatch free), page]

theorem keeps_protect (a : UInt32) (n : Nat) {protection : UInt32} (allowed : readable protection = true) :
    Keeps changed c (c.protect a n protection) := by
  refine ⟨fun p _ => ?_, fun p there => ?_, fun _ _ _ => rfl⟩
  · show (if _ then _ else _ : PageState).State = _
    split
    · exact withProtect_state _ _
    · rfl
  · obtain ⟨protect, page, before⟩ := there
    by_cases touches : Touches a n p
    · refine ⟨protection, ?_, allowed⟩
      show (if _ then _ else _ : PageState) = _
      rw [if_pos touches, page]
      rfl
    · refine ⟨protect, ?_, before⟩
      show (if _ then _ else _ : PageState) = _
      rw [if_neg touches, page]

theorem keeps_memory (keeps : Keeps changed c c') {m : Memory}
    (same : ∀ x, c.page (x.toNat / 4096) ≠ .free → ¬ changed x → m x = c.memory x) :
    Keeps changed c { c' with memory := m } :=
  ⟨keeps.states, keeps.reads, same⟩

end

namespace Target

theorem accessible_mono {c : Target} {allows allows' : UInt32 → Bool} {a : UInt32} {n : Nat}
    (accessible : c.Accessible allows a n) (wider : ∀ protect, allows protect = true → allows' protect = true) :
    c.Accessible allows' a n :=
  ⟨accessible.1, fun p touches => (accessible.2 p touches).imp fun protect page => ⟨page.1, wider protect page.2⟩⟩

/-- The pages of a run that is made writable are. -/
theorem writable_protect {c : Target} {a : UInt32} {n : Nat} (committed : c.Accessible (fun _ => true) a n) :
    (c.protect a n PAGE_EXECUTE_READWRITE).Writable a n := by
  refine ⟨committed.1, fun p touches => ?_⟩
  obtain ⟨protect, page, _⟩ := committed.2 p touches
  refine ⟨PAGE_EXECUTE_READWRITE, ?_, rfl⟩
  show (if _ then _ else _ : PageState) = _
  rw [if_pos touches, page]
  rfl

/-- The first page of a run has a protection. -/
theorem accessible_first {c : Target} {allows : UInt32 → Bool} {a : UInt32} {n : Nat} (accessible : c.Accessible allows a n)
    (some : 0 < n) : ∃ protect, c.page (a.toNat / 4096) = .committed protect := by
  obtain ⟨protect, page, _⟩ := accessible.2 (a.toNat / 4096) ⟨Nat.le_refl _, by omega⟩
  exact ⟨protect, page⟩

/-- Only the last protection counts. -/
theorem protect_protect (c : Target) (a : UInt32) (n : Nat) (first second : UInt32) :
    (c.protect a n first).protect a n second = c.protect a n second := by
  ext p
  case page =>
    show (if _ then (if _ then _ else _ : PageState).withProtect _ else if _ then _ else _ : PageState) = if _ then _ else _
    by_cases touches : Touches a n p
    · rw [if_pos touches, if_pos touches, if_pos touches, withProtect_withProtect]
    · rw [if_neg touches, if_neg touches, if_neg touches]
  all_goals rfl

end Target

/-! ## The calls -/

/-- What a call reads and does when it succeeds. `VirtualQueryEx` tells of some pages
    in the same state from the asked one on. -/
def Serves : (op : Op) → Target → op.Result → Target → Prop
  | .OpenProcess dwProcessId, c, _, c' => dwProcessId = c.processID ∧ c' = c
  | .DuplicateHandle, c, _, c' => c' = c
  | .GetThreadContext, c, SegFs, c' => SegFs = c.SegFs ∧ c' = c
  | .GetThreadSelectorEntry dwSelector, c, entry, c' => c.selectorEntry dwSelector = some entry ∧ c' = c
  | .ReadPointer a, c, value, c' => c.Readable a 4 ∧ value = dwordAt c.memory a 0 ∧ c' = c
  | .ReadDosHeader a, c, header, c' => c.Readable a 64 ∧ header = dosHeaderAt c.memory a ∧ c' = c
  | .ReadNtHeaders a, c, headers, c' => c.Readable a 248 ∧ headers = ntHeadersAt c.memory a ∧ c' = c
  | .ReadImportDescriptor a, c, descriptor, c' => c.Readable a 20 ∧ descriptor = descriptorAt c.memory a ∧ c' = c
  | .ReadSectionHeader a, c, header, c' => c.Readable a 40 ∧ header = sectionHeaderAt c.memory a ∧ c' = c
  | .ReadCor20Header a, c, header, c' => c.Readable a 72 ∧ header = cor20HeaderAt c.memory a ∧ c' = c
  | .new_char _, c, _, c' => c' = c
  | .VirtualQueryEx a, c, mbi, c' =>
    (∃ n, 0 < n ∧ a.toNat / 4096 + n ≤ c.pages ∧
      (∀ i < n, (c.page (a.toNat / 4096 + i)).State = (c.page (a.toNat / 4096)).State) ∧
      mbi = ⟨UInt32.ofNat (a.toNat / 4096 * 4096), UInt32.ofNat (n * 4096), (c.page (a.toNat / 4096)).State⟩) ∧ c' = c
  | .VirtualAllocEx a size, c, _, c' => c.Allocatable a size ∧ c' = c.allocate a size
  | .VirtualProtectEx a size protection, c, old, c' =>
    c.Accessible (fun _ => true) a size.toNat ∧ c.page (a.toNat / 4096) = .committed old ∧
      c' = c.protect a size.toNat protection
  | .WriteTable a table, c, _, c' => c.Writable a table.length ∧ c' = { c with memory := c.memory.write a table }
  | .WriteCor20Header a header, c, _, c' => c.Writable a 72 ∧ c' = { c with memory := writeAll c.memory a (cor20HeaderPieces header) }
  | .WriteNtHeaders a headers, c, _, c' => c.Writable a 248 ∧ c' = { c with memory := writeAll c.memory a (ntHeadersPieces headers) }

/-- The call cannot but fail. -/
def Refused (op : Op) (c : Target) : Prop := ∀ result c', ¬ Serves op c result c'

/-- The system does what a call asks for, or fails it and changes nothing: where it
    cannot do it, and anywhere if calls may fail at all. -/
def Answers (mayFail : Prop) : Environment Op Op.Resp Target := fun op c r c' =>
  match r with
  | .ok result => Serves op c result c'
  | .error _ => (mayFail ∨ Refused op c) ∧ c' = c

/-- Any call may fail and change nothing. -/
theorem answers_idle (op : Op) (c : Target) : ∃ r, Answers True op c r c := ⟨.error 0, .inl trivial, rfl⟩

/-- An exception with a property of the state it is thrown in; where all is well, it
    comes from a call that the system failed. -/
def Throws (allWell mayFail : Prop) (Err : Thrown → Target → Prop) (e : Thrown) (c : Target) : Prop :=
  Err e c ∧ (allWell → mayFail)

section
variable {mayFail allWell S : Prop} {c : Target} {op : Op} {thrown : UInt32 → Thrown} {Q : op.Result → Target → Prop}

/-- A call whose failure throws. -/
theorem leads_request {E : Thrown → Target → Prop} (returns : ∀ result c', Serves op c result c' → Q result c')
    (throws : ∀ code, mayFail ∨ Refused op c → E (thrown code) c) :
    Leads (Answers mayFail) Q E S (request op thrown) c := by
  intro r c' answered
  cases r with
  | ok result => exact returns result c' answered
  | error code =>
    obtain ⟨cause, rfl⟩ := answered
    exact throws code cause

/-- A call that the system can do if all is well. -/
theorem leads_due {Err : Thrown → Target → Prop} (due : allWell → ∃ result c', Serves op c result c')
    (throws : ∀ code, Err (thrown code) c) (returns : ∀ result c', Serves op c result c' → Q result c') :
    Leads (Answers mayFail) Q (Throws allWell mayFail Err) S (request op thrown) c := by
  refine leads_request returns fun code cause => ⟨throws code, fun well => ?_⟩
  obtain ⟨result, c', serves⟩ := due well
  exact cause.resolve_right fun refused => refused result c' serves

end

/-! ## A small process -/

/-- The bytes of `smallProcess` that are not zero: the signatures and directories of the headers,
    an import table of one DLL, the CLR header, and the process environment block with the
    image base. -/
def smallBytes : List (UInt32 × UInt8) :=
  [(0x10000, 0x4D), (0x10001, 0x5A), (0x1003C, 0x40), (0x10040, 0x50), (0x10041, 0x45), (0x10076, 0x01), (0x100C1, 0x02),
    (0x100C4, 0x28), (0x10129, 0x03), (0x1012C, 0x48),
    (0x10200, 0x90), (0x10201, 0x03), (0x1020C, 0x80), (0x1020D, 0x03), (0x10210, 0xA0), (0x10211, 0x03),
    (0x10300, 0x48), (0x10310, 0x09),
    (0x10380, 0x6D), (0x10381, 0x73), (0x10382, 0x63), (0x10383, 0x6F), (0x10384, 0x72), (0x10385, 0x65), (0x10386, 0x65),
    (0x10387, 0x2E), (0x10388, 0x64), (0x10389, 0x6C), (0x1038A, 0x6C), (0x10390, 0x01), (0x10393, 0x80), (0x103A0, 0x01),
    (0x103A3, 0x80),
    (0x10431, 0x05), (0x10432, 0x01), (0x1050A, 0x01)]

def smallMemory : Memory := fun x => (smallBytes.lookup x).getD 0

/-- A suspended process with one page of a managed executable, and free pages behind it. -/
def smallProcess : Target where
  processID := 7
  SegFs := 0x3B
  selectorEntry _ := some ⟨0x0400, 1, 0⟩
  memory := smallMemory
  pages := 64
  page p := if p < 16 then .reserved else if p = 16 then .committed 0x04 else if p < 64 then .free else .reserved
  pages_le := by decide
  null_reserved p low := if_pos low
  outside_reserved p high := by
    rw [if_neg (by omega), if_neg (by omega), if_neg (by omega)]

theorem smallProcess_readable {a : UInt32} {n : Nat} (above : 65536 ≤ a.toNat) (below : a.toNat + n ≤ 69632) :
    smallProcess.Readable a n :=
  Target.accessible_of_page (p := 16) rfl rfl above below

/-- What the image of the small process imports: `mscoree.dll`. -/
def smallOriginals : List ImportDescriptor := [⟨0x390, 0, 0, 0x380, 0x3A0⟩, ⟨0, 0, 0, 0, 0⟩]

end Sysintercept.Targets
