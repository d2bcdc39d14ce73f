import Sysintercept.ImportTables

/-!
# The injection

`writeIAT` on the memory of a process, for any list of DLLs and whichever calls
the system fails: it never writes behind its buffer, it comes to an end, and at
any time the image imports what it imported before, or the DLLs and then what it
imported before.
-/
namespace Sysintercept.Injection
open Sysintercept.Units Sysintercept.AddressSpace Sysintercept.Records Sysintercept.Buffers Sysintercept.Effects
open Sysintercept.Environments Sysintercept.Iat Sysintercept.Patching Sysintercept.Targets Sysintercept.Searching
open Sysintercept.ImportTables

/-- Any table that fits into an address space has less descriptors. -/
def longestTable : Nat := 214748366

/-- Nothing is undefined. -/
def Defined (e : Thrown) : Prop := ∀ s, e ≠ .stop s

section
variable {mayFail allWell S : Prop} {c : Target} {Err : Thrown → Target → Prop}

/-! ## Reading -/

theorem table_readable {a : UInt32} {ds : List ImportDescriptor} (table : Table c a ds) : c.Readable a 20 := by
  cases table with
  | last readable => exact readable
  | next readable => exact readable

/-- The first pass over a table, which ends as the table does or where nothing can be read. -/
theorem determineIIDSize_leads (throws : ∀ e, Defined e → Err e c) (fuel : Nat) {a count : UInt32}
    (due : allWell → ∃ ds, Table c a ds) (enough : ¬ S → 4294967296 ≤ a.toNat + 20 * fuel) :
    Leads (Answers mayFail) (fun size c' => c' = c ∧ ∃ ds, Table c a ds ∧
        size = (count + UInt32.ofNat ds.length) * UInt32.ofNat sizeof_ImportDescriptor)
      (Throws allWell mayFail Err) S (determineIIDSize fuel a count) c := by
  induction fuel generalizing a count with
  | zero =>
    have bound := a.toNat_lt
    exact Classical.byContradiction fun short => absurd (enough short) (by omega)
  | succ fuel ih =>
    unfold determineIIDSize
    refine leads_bind (leads_due (fun well => ?_) (fun _ => throws _ (by simp [Defined])) ?_)
    · obtain ⟨ds, table⟩ := due well
      exact ⟨_, c, table_readable table, rfl, rfl⟩
    · rintro iid c' ⟨readable, rfl, rfl⟩
      by_cases ends : (descriptorAt c'.memory a).Ends
      · rw [if_pos ends]
        exact ⟨rfl, _, .last readable ends, rfl⟩
      · rw [if_neg ends]
        have next := next_toNat readable
        refine leads_mono (ih (fun well => ?_) fun long => ?_) ?_ (fun _ _ thrown => thrown) id
        · obtain ⟨ds, table⟩ := due well
          cases table with
          | last _ there => exact absurd there ends
          | next _ _ rest => exact ⟨_, rest⟩
        · have := enough long
          omega
        · rintro size t ⟨rfl, ds, rest, counted⟩
          refine ⟨rfl, _, .next readable ends rest, ?_⟩
          have one : (1 : UInt32) = UInt32.ofNat 1 := rfl
          rw [counted, List.length_cons, UInt32.ofNat_add, one]
          congr 1
          ac_rfl

/-- The second pass copies the table. -/
theorem copyDescriptors_leads (throws : ∀ e, Defined e → Err e c) {a : UInt32} {ds : List ImportDescriptor}
    (table : Table c a ds) (fuel offset : Nat) (tbl : Bytes) (fits : offset + 20 * ds.length ≤ tbl.length)
    (enough : ¬ S → ds.length ≤ fuel) :
    Leads (Answers mayFail) (fun tbl' c' => c' = c ∧ tbl' = poke tbl offset (tableBytes ds))
      (Throws allWell mayFail Err) S (copyDescriptors fuel a offset tbl) c := by
  induction table generalizing fuel offset tbl with
  | @last a readable ends =>
    have size := descriptor_length (descriptorAt c.memory a)
    simp only [sizeof_ImportDescriptor] at size
    rw [List.length_singleton] at fits enough
    cases fuel with
    | zero => exact Classical.byContradiction fun short => absurd (enough short) (by decide)
    | succ fuel =>
      unfold copyDescriptors
      refine leads_bind (leads_due (fun _ => ⟨_, c, readable, rfl, rfl⟩) (fun _ => throws _ (by simp [Defined])) ?_)
      rintro iid c' ⟨_, rfl, rfl⟩
      rw [store_bind (by omega), if_pos ends]
      refine ⟨rfl, ?_⟩
      rw [tableBytes_cons]
      show _ = poke tbl offset (_ ++ [])
      rw [List.append_nil]
  | @next a ds readable goesOn _ ih =>
    have size := descriptor_length (descriptorAt c.memory a)
    simp only [sizeof_ImportDescriptor] at size
    rw [List.length_cons] at fits enough
    cases fuel with
    | zero => exact Classical.byContradiction fun short => absurd (enough short) (by omega)
    | succ fuel =>
      unfold copyDescriptors
      refine leads_bind (leads_due (fun _ => ⟨_, c, readable, rfl, rfl⟩) (fun _ => throws _ (by simp [Defined])) ?_)
      rintro iid c' ⟨_, rfl, rfl⟩
      rw [store_bind (by omega), if_neg goesOn]
      have stored : (poke tbl offset (descriptorAt c'.memory a).bytes).length = tbl.length := poke_length (by omega)
      refine leads_mono (ih fuel (offset + 20) _ (by omega) fun long => ?_) ?_ (fun _ _ thrown => thrown) id
      · have := enough long
        omega
      · rintro tbl' t ⟨rfl, rfl⟩
        refine ⟨rfl, ?_⟩
        have joined := poke_poke tbl offset (descriptorAt t.memory a).bytes (tableBytes ds)
          (by rw [tableBytes_length]; omega)
        rw [size] at joined
        rw [joined, tableBytes_cons]

/-- The section headers from an address on can be read. -/
def SectionsReadable (c : Target) : Nat → UInt32 → Prop
  | 0, _ => True
  | n + 1, sectionHdrAddr => c.Readable sectionHdrAddr 40 ∧ SectionsReadable c n (sectionHdrAddr + sizeof_SectionHeader)

/-- The search for the section with the import directory reads only. -/
theorem searchSections_leads (throws : ∀ e, Defined e → Err e c) (ntHeaders : NtHeaders) (n : Nat) {sectionHdrAddr : UInt32}
    {entry_iat : DataDirectory} (due : allWell → SectionsReadable c n sectionHdrAddr) :
    Leads (Answers mayFail) (fun _ c' => c' = c) (Throws allWell mayFail Err) S
      (searchSections ntHeaders n sectionHdrAddr entry_iat) c := by
  induction n generalizing sectionHdrAddr entry_iat with
  | zero => exact rfl
  | succ n ih =>
    unfold searchSections
    refine leads_bind (leads_due (fun well => ⟨_, c, (due well).1, rfl, rfl⟩) (fun _ => throws _ (by simp [Defined])) ?_)
    rintro ish c' ⟨_, _, rfl⟩
    exact ih fun well => (due well).2

/-! ## Writing -/

/-- The process with other bytes and the pages of a run under one protection. -/
def rewritten (c : Target) (a : UInt32) (n : Nat) (protection : UInt32) (m : Memory) : Target :=
  { c.protect a n protection with memory := m }

/-- Memory is made writable, written, and given back the protection of its first page. -/
def rewrite (op : Op) (address size : UInt32) : Remote Unit := do
  let oldProtect ← protectMemory address size PAGE_EXECUTE_READWRITE
  let _ ← writeMemory op
  let _ ← protectMemory address size oldProtect
  return ()

theorem rewrite_leads {op : Op} {a size : UInt32} {m : Memory} (some : 0 < size.toNat)
    (serves : (c.protect a size.toNat PAGE_EXECUTE_READWRITE).Writable a size.toNat →
      ∃ r t, Serves op (c.protect a size.toNat PAGE_EXECUTE_READWRITE) r t)
    (written : ∀ r t, Serves op (c.protect a size.toNat PAGE_EXECUTE_READWRITE) r t →
      t = rewritten c a size.toNat PAGE_EXECUTE_READWRITE m)
    (due : allWell → c.Accessible (fun _ => true) a size.toNat) (before : ∀ e, Defined e → Err e c)
    (between : ∀ e, Defined e → c.Accessible (fun _ => true) a size.toNat →
      Err e (c.protect a size.toNat PAGE_EXECUTE_READWRITE))
    (after : ∀ e, Defined e → c.Accessible (fun _ => true) a size.toNat →
      Err e (rewritten c a size.toNat PAGE_EXECUTE_READWRITE m)) :
    Leads (Answers mayFail) (fun _ t => c.Accessible (fun _ => true) a size.toNat ∧
        ∃ old, c.page (a.toNat / 4096) = .committed old ∧ t = rewritten c a size.toNat old m)
      (Throws allWell mayFail Err) S (rewrite op a size) c := by
  refine leads_bind (leads_due (fun well => ?_) (fun _ => before _ (by simp [Defined])) ?_)
  · obtain ⟨old, page⟩ := Target.accessible_first (due well) some
    exact ⟨old, _, due well, page, rfl⟩
  rintro old t₁ ⟨committed, page, rfl⟩
  have writable : (c.protect a size.toNat PAGE_EXECUTE_READWRITE).Writable a size.toNat :=
    Target.writable_protect committed
  refine leads_bind (leads_due (fun _ => serves writable) (fun _ => between _ (by simp [Defined]) committed) ?_)
  intro r t₂ wrote
  obtain rfl := written r t₂ wrote
  have stays : (rewritten c a size.toNat PAGE_EXECUTE_READWRITE m).Accessible (fun _ => true) a size.toNat :=
    Target.accessible_mono writable fun _ _ => rfl
  refine leads_bind (leads_due (fun _ => ?_) (fun _ => after _ (by simp [Defined]) committed) ?_)
  · obtain ⟨again, page'⟩ := Target.accessible_first stays some
    exact ⟨again, _, stays, page', rfl⟩
  · rintro _ t₃ ⟨_, _, rfl⟩
    refine ⟨committed, old, page, ?_⟩
    have last := Target.protect_protect c a size.toNat PAGE_EXECUTE_READWRITE old
    unfold rewritten
    rw [← last]
    rfl

/-- The bytes of the CLR header's flags, where the image has one. -/
def ClrFlags (h : NtHeaders) (x : UInt32) : Prop :=
  h.entry_com_descriptor.VirtualAddress ≠ 0 ∧
    (h.entry_com_descriptor.VirtualAddress + h.ImageBase).toNat + 16 ≤ x.toNat ∧
    x.toNat < (h.entry_com_descriptor.VirtualAddress + h.ImageBase).toNat + 20

/-- The bytes of a process with the flag of pure IL images taken away. -/
def withoutILOnly (m : Memory) (a : UInt32) : Memory :=
  writeAll m a (cor20HeaderPieces ⟨(cor20HeaderAt m a).Flags &&& ~~~COMIMAGE_FLAGS_ILONLY⟩)

theorem withoutILOnly_outside {m : Memory} {a x : UInt32} (fits : a.toNat + 72 ≤ 4294967296)
    (outside : ¬ (a.toNat + 16 ≤ x.toNat ∧ x.toNat < a.toNat + 20)) : withoutILOnly m a x = m x :=
  writeAll_outside (cor20Header_laid _) (by omega) (by omega)

theorem keeps_rewritten {changed : UInt32 → Prop} {a : UInt32} {n : Nat} {protection : UInt32} {m : Memory}
    (allowed : readable protection = true) (same : ∀ x, ¬ changed x → m x = c.memory x) :
    Keeps changed c (rewritten c a n protection m) :=
  keeps_memory (keeps_protect a n allowed) fun x _ => same x

/-- The protection of the first page of a run that can be read. -/
theorem readable_first {a : UInt32} {n : Nat} {old : UInt32} (there : c.Readable a n) (some : 0 < n)
    (first : c.page (a.toNat / 4096) = .committed old) : readable old = true := by
  obtain ⟨protect, page, allowed⟩ := there.2 (a.toNat / 4096) ⟨Nat.le_refl _, by omega⟩
  rw [first] at page
  cases page
  exact allowed

/-- The CLR header is given back with the same flags but the one. -/
theorem clearILOnly_leads {h : NtHeaders} {a : UInt32} (place : a = h.entry_com_descriptor.VirtualAddress + h.ImageBase)
    (throws : ∀ e t, Defined e → Keeps (ClrFlags h) c t → Err e t)
    (due : allWell → h.entry_com_descriptor.VirtualAddress ≠ 0 → c.Readable a 72) :
    Leads (Answers mayFail) (fun _ t =>
        (h.entry_com_descriptor.VirtualAddress = 0 ∧ t = c) ∨
        (h.entry_com_descriptor.VirtualAddress ≠ 0 ∧ c.Readable a 72 ∧
          ∃ old, c.page (a.toNat / 4096) = .committed old ∧ t = rewritten c a 72 old (withoutILOnly c.memory a)))
      (Throws allWell mayFail Err) S (clearILOnly h.ImageBase h) c := by
  unfold clearILOnly
  by_cases native : h.entry_com_descriptor.VirtualAddress = 0
  · rw [if_neg (not_not_intro native)]
    exact .inl ⟨native, rfl⟩
  rw [if_pos native]
  dsimp only
  rw [← place]
  refine leads_bind (leads_due (fun well => ⟨_, c, due well native, rfl, rfl⟩) (fun _ => throws _ _ (by simp [Defined]) keeps_refl) ?_)
  rintro header t ⟨readable, rfl, rfl⟩
  have user := Target.accessible_user readable (by decide)
  -- The test joins the flag instead of taking it out of the others, so it always holds.
  have always : (cor20HeaderAt t.memory a).Flags ||| COMIMAGE_FLAGS_ILONLY ≠ 0 := by
    intro zero
    exact absurd (UInt32.or_eq_zero_iff.mp zero).2 (by decide)
  rw [if_pos always]
  have same : ∀ x, ¬ ClrFlags h x → withoutILOnly t.memory a x = t.memory x := by
    intro x outside
    refine withoutILOnly_outside (by omega) fun inside => outside ⟨native, ?_⟩
    rw [← place]
    exact inside
  have size : sizeof_Cor20Header.toNat = 72 := rfl
  have committed : t.Accessible (fun _ => true) a sizeof_Cor20Header.toNat :=
    Target.accessible_mono readable fun _ _ => rfl
  refine leads_mono (rewrite_leads (m := withoutILOnly t.memory a) (by decide)
    (fun writable => ⟨(), _, writable, rfl⟩) (fun _ _ wrote => wrote.2) (fun _ => committed)
    (fun e defined => throws e t defined keeps_refl)
    (fun e defined _ => throws e _ defined (keeps_protect a _ rfl))
    (fun e defined _ => throws e _ defined (keeps_rewritten rfl same))) ?_ (fun _ _ thrown => thrown) id
  rintro _ t' ⟨_, old, page, rfl⟩
  exact .inr ⟨native, readable, old, page, rfl⟩

/-! ## The new table -/

/-- The process with bytes in memory that it has been given. -/
def installed (c : Target) (a size : UInt32) (tbl : Bytes) : Target :=
  { c.allocate a size with memory := (c.allocate a size).memory.write a tbl }

/-- Bytes in memory of their own. -/
structure Holds (t : Target) (a : UInt32) (tbl : Bytes) : Prop where
  fits : a.toNat + tbl.length ≤ 4294967296
  pages : ∀ p, Touches a tbl.length p → t.page p = .committed PAGE_EXECUTE_READWRITE
  bytes : t.memory.read a tbl.length = tbl

theorem touches_run {a x : UInt32} {n : Nat} (inside : InRun a n x) : Touches a n (x.toNat / 4096) := by
  obtain ⟨above, below⟩ := inside
  exact ⟨by omega, by omega⟩

/-- Memory is given in the user address space. -/
theorem allocatable_user {a size : UInt32} (allocatable : c.Allocatable a size) : a.toNat + size.toNat ≤ 4294901760 := by
  obtain ⟨some, _, free⟩ := allocatable
  have bound := c.pages_le
  refine Nat.le_of_not_lt fun high => ?_
  have last := free ((a.toNat + size.toNat - 1) / 4096) ⟨by omega, by omega⟩
  rw [c.outside_reserved _ (by omega)] at last
  cases last

theorem installed_outside {a size x : UInt32} {tbl : Bytes} (allocatable : c.Allocatable a size)
    (whole : tbl.length = size.toNat) (there : c.page (x.toNat / 4096) ≠ .free) :
    (installed c a size tbl).memory x = c.memory x := by
  have user := allocatable_user allocatable
  show (c.allocate a size).memory.write a tbl x = _
  rw [write_outside (by omega)]
  · exact if_neg fun free => there free.2
  · rw [whole]
    exact fun inside => there (allocatable.2.2 _ (touches_run inside))

theorem keeps_installed {changed : UInt32 → Prop} {a size : UInt32} {tbl : Bytes} (allocatable : c.Allocatable a size)
    (whole : tbl.length = size.toNat) : Keeps changed c (installed c a size tbl) :=
  keeps_memory (keeps_allocate a size) fun _ there _ => installed_outside allocatable whole there

theorem readable_installed {a size : UInt32} {tbl : Bytes} (allocatable : c.Allocatable a size)
    (whole : tbl.length = size.toNat) {b : UInt32} {n : Nat} (readable : c.Readable b n) :
    (installed c a size tbl).Readable b n := by
  have keeps : Keeps (fun _ => False) c (installed c a size tbl) := keeps_installed allocatable whole
  exact keeps_readable keeps readable

theorem holds_installed {a size : UInt32} {tbl : Bytes} (allocatable : c.Allocatable a size)
    (whole : tbl.length = size.toNat) : Holds (installed c a size tbl) a tbl := by
  have user := allocatable_user allocatable
  refine ⟨by omega, fun p touches => ?_, ?_⟩
  · rw [whole] at touches
    exact if_pos ⟨touches, allocatable.2.2 p touches⟩
  · show ((c.allocate a size).memory.write a tbl).read a tbl.length = tbl
    rw [read_write_self _ _ (by omega) (Nat.le_refl _), List.drop_of_length_le (by simp), List.append_nil]

/-- Rewriting memory elsewhere leaves them alone. -/
theorem holds_rewritten {t : Target} {a b : UInt32} {tbl : Bytes} {n : Nat} {protection : UInt32} {m : Memory}
    (holds : Holds t a tbl) (fresh : ∀ p, Touches a tbl.length p → c.page p = .free)
    (taken : ∀ p, Touches b n p → c.page p ≠ .free) (outside : ∀ x, ¬ InRun b n x → m x = t.memory x) :
    Holds (rewritten t b n protection m) a tbl := by
  refine ⟨holds.fits, fun p touches => ?_, ?_⟩
  · show (if _ then _ else _ : PageState) = _
    rw [if_neg fun touched => taken p touched (fresh p touches), holds.pages p touches]
  · show m.read a tbl.length = tbl
    rw [read_congr holds.fits fun x inside => outside x fun within => ?_, holds.bytes]
    exact taken _ (touches_run within) (fresh _ (touches_run inside))

/-- The bytes of a whole table. -/
structure TableData (dlls : List Bytes) (originals : List ImportDescriptor) (rva : UInt32) (tbl : Bytes) : Prop where
  length : tbl.length = 20 * (dlls.length + originals.length) + blocksSize dlls
  front : peek tbl 0 (20 * (dlls.length + originals.length)) = tableBytes (ownDescriptors dlls rva ++ originals)
  blocks : Blocks tbl (20 * (dlls.length + originals.length)) dlls

/-- The image imports the DLLs, in their order, and then what it imported before: its
    headers name a table in new memory, and this is all that is different in them. -/
structure Links (c : Target) (m : IATModifier) (dlls : List Bytes) (t : Target) (h : NtHeaders)
    (originals own : List ImportDescriptor) (tableAddress size : UInt32) (entry_iat : DataDirectory) : Prop where
  found : Table c m.importDescrTblAddr_ originals
  above : h.ImageBase ≤ tableAddress
  allocatable : c.Allocatable tableAddress size
  sized : size.toNat = 20 * (dlls.length + originals.length) + blocksSize dlls
  headers : ntHeadersAt t.memory m.ntHeadersAddr_ = relinked h entry_iat ⟨tableAddress - h.ImageBase, size⟩
  iat : h.entry_iat.VirtualAddress ≠ 0 → entry_iat = h.entry_iat
  pages : ∀ p, Touches tableAddress size.toNat p → t.page p = .committed PAGE_EXECUTE_READWRITE
  table : Table t tableAddress (own ++ originals)
  imports : List.Forall₂ (fun d dll => Imports t.memory h.ImageBase d dll ∧
    Within h.ImageBase d dll tableAddress size.toNat) own dlls

def Injected (c : Target) (m : IATModifier) (dlls : List Bytes) (t : Target) : Prop :=
  ∃ originals own tableAddress size entry_iat,
    Links c m dlls t (ntHeadersAt c.memory m.ntHeadersAddr_) originals own tableAddress size entry_iat

/-- Where the bytes of a table are, its descriptors are found, and their DLLs. -/
theorem links_of {m : IATModifier} {dlls : List Bytes} {t : Target} {h : NtHeaders} {originals : List ImportDescriptor}
    {a size : UInt32} {entry_iat : DataDirectory} {tbl : Bytes} (table : Table c m.importDescrTblAddr_ originals)
    (above : h.ImageBase ≤ a) (allocatable : c.Allocatable a size) (whole : tbl.length = size.toNat)
    (data : TableData dlls originals (a - h.ImageBase + UInt32.ofNat (20 * (dlls.length + originals.length))) tbl)
    (holds : Holds t a tbl)
    (headers : ntHeadersAt t.memory m.ntHeadersAddr_ = relinked h entry_iat ⟨a - h.ImageBase, size⟩)
    (iat : h.entry_iat.VirtualAddress ≠ 0 → entry_iat = h.entry_iat) :
    ∃ own, Links c m dlls t h originals own a size entry_iat := by
  have user := allocatable_user allocatable
  have length := data.length
  have positive := (table_fits table).1
  have base : h.ImageBase.toNat ≤ a.toNat := above
  have relative : (a - h.ImageBase).toNat = a.toNat - h.ImageBase.toNat := UInt32.toNat_sub_of_le _ _ above
  have rva : (a - h.ImageBase + UInt32.ofNat (20 * (dlls.length + originals.length))).toNat =
      a.toNat - h.ImageBase.toNat + 20 * (dlls.length + originals.length) := by
    rw [toNat_offset (by omega), relative]
  have ownLength : (ownDescriptors dlls (a - h.ImageBase + UInt32.ofNat (20 * (dlls.length + originals.length))) ++
      originals).length = dlls.length + originals.length := by
    rw [List.length_append, ownDescriptors_length]
  have sized : size.toNat = 20 * (dlls.length + originals.length) + blocksSize dlls := by
    rw [← whole, length]
  refine ⟨ownDescriptors dlls (a - h.ImageBase + UInt32.ofNat (20 * (dlls.length + originals.length))), table, above, allocatable,
    sized, headers, iat, ?_, ?_, ?_⟩
  · rw [← whole]
    exact holds.pages
  · refine table_of_bytes (closed_append (own_goesOn (by omega) (by omega)) (table_closed table)) ?_ ?_
    · refine ⟨by omega, fun p touches => ⟨_, holds.pages p ?_, rfl⟩⟩
      obtain ⟨first, last⟩ := touches
      exact ⟨first, by omega⟩
    · rw [ownLength]
      have front := peek_read t.memory a (show 0 + 20 * (dlls.length + originals.length) ≤ tbl.length by omega)
      rw [holds.bytes, data.front] at front
      rw [front]
      congr 1
      exact (UInt32.add_zero a).symm
  · rw [← whole]
    refine own_imports (a := a) (fun other n within => ?_) data.blocks (by omega) (by omega) ?_
    · rw [← peek_read t.memory a within, holds.bytes]
    · rw [← UInt32.add_assoc]
      congr 1
      apply UInt32.toNat_inj.mp
      rw [UInt32.toNat_add, relative]
      omega

/-- The three steps put the bytes of the table together. -/
theorem tableData_built {fill : Bytes} (dlls : List Bytes) (originals : List ImportDescriptor) (rva : UInt32)
    (length : fill.length = 20 * (dlls.length + originals.length) + blocksSize dlls) (small : fill.length < 4294967296) :
    ∃ tbl, buildBlocks dlls (20 * (dlls.length + originals.length))
        (poke (poke fill 0 (tableBytes (ownDescriptors dlls rva))) (dlls.length * sizeof_ImportDescriptor)
          (tableBytes originals)) = .ret tbl ∧ TableData dlls originals rva tbl := by
  have ownLength : (tableBytes (ownDescriptors dlls rva)).length = 20 * dlls.length := by
    rw [tableBytes_length, ownDescriptors_length]
  have wholeLength : (tableBytes (ownDescriptors dlls rva ++ originals)).length =
      20 * (dlls.length + originals.length) := by
    rw [tableBytes_length, List.length_append, ownDescriptors_length]
  have joined : poke (poke fill 0 (tableBytes (ownDescriptors dlls rva))) (dlls.length * sizeof_ImportDescriptor)
      (tableBytes originals) = poke fill 0 (tableBytes (ownDescriptors dlls rva ++ originals)) := by
    have pieces := poke_poke fill 0 (tableBytes (ownDescriptors dlls rva)) (tableBytes originals)
      (by rw [ownLength, tableBytes_length]; omega)
    rw [ownLength, Nat.zero_add, Nat.mul_comm] at pieces
    rw [tableBytes_append]
    exact pieces
  have fits : 0 + (tableBytes (ownDescriptors dlls rva ++ originals)).length ≤ fill.length := by omega
  rw [joined]
  obtain ⟨tbl, built, long, blocks, before⟩ := buildBlocks_built dlls (20 * (dlls.length + originals.length))
    (poke fill 0 (tableBytes (ownDescriptors dlls rva ++ originals))) (by rw [poke_length fits]; omega) (by omega)
  refine ⟨tbl, built, by rw [long, poke_length fits, length], ?_, blocks⟩
  rw [before _ _ (by omega), ← wholeLength, peek_poke_same fits]

theorem fillIat_leads (throws : ∀ e, Defined e → Err e c) (m : IATModifier) (h : NtHeaders)
    (due : allWell → h.entry_iat.VirtualAddress = 0 →
      SectionsReadable c h.NumberOfSections.toNat (m.ntHeadersAddr_ + 24 + h.SizeOfOptionalHeader.toUInt32)) :
    Leads (Answers mayFail) (fun entry_iat c' => c' = c ∧ (h.entry_iat.VirtualAddress ≠ 0 → entry_iat = h.entry_iat))
      (Throws allWell mayFail Err) S (fillIat m h) c := by
  unfold fillIat
  by_cases missing : h.entry_iat.VirtualAddress = 0
  · rw [if_pos missing]
    refine leads_mono (searchSections_leads throws h _ fun well => due well missing) ?_ (fun _ _ thrown => thrown) id
    exact fun _ _ kept => ⟨kept, fun there => absurd missing there⟩
  · rw [if_neg missing]
    exact ⟨rfl, fun _ => rfl⟩

/-! ## The whole -/

/-- What can be changed of memory that is there: the headers and the flags of the CLR header. -/
def Changed (m : IATModifier) (h : NtHeaders) (x : UInt32) : Prop := InRun m.ntHeadersAddr_ 248 x ∨ ClrFlags h x

/-- The CLR header lies in the image, apart from the NT headers. -/
def ClrPlaced (c : Target) (m : IATModifier) (h : NtHeaders) : Prop :=
  h.entry_com_descriptor.VirtualAddress ≠ 0 →
    Apart m.ntHeadersAddr_ 248 (h.entry_com_descriptor.VirtualAddress + h.ImageBase) 72 ∧
      ∀ p, Touches (h.entry_com_descriptor.VirtualAddress + h.ImageBase) 72 p → c.page p ≠ .free

/-- The pages of a run in the state of the first one. -/
def levelled (page : Nat → PageState) (a : UInt32) (n p : Nat) : PageState :=
  if Touches a n p then page (a.toNat / 4096) else page p

/-- The image can be patched. -/
structure Patchable (c : Target) (m : IATModifier) (dlls : List Bytes) (h : NtHeaders) : Prop where
  some : dlls ≠ []
  set : m.importDescrTblAddr_ ≠ 0
  headers : c.Readable m.ntHeadersAddr_ 248
  table : ∃ originals, Table c m.importDescrTblAddr_ originals ∧ ∃ a : UInt32, h.ImageBase ≤ a ∧
    c.Allocatable a (UInt32.ofNat (20 * (dlls.length + originals.length) + blocksSize dlls))
  sections : h.entry_iat.VirtualAddress = 0 →
    SectionsReadable c h.NumberOfSections.toNat (m.ntHeadersAddr_ + 24 + h.SizeOfOptionalHeader.toUInt32)
  clr : h.entry_com_descriptor.VirtualAddress ≠ 0 → c.Readable (h.entry_com_descriptor.VirtualAddress + h.ImageBase) 72

theorem rewritten_page {a : UInt32} {n p : Nat} {old : UInt32} {m : Memory} (committed : c.Accessible (fun _ => true) a n)
    (first : c.page (a.toNat / 4096) = .committed old) : (rewritten c a n old m).page p = levelled c.page a n p := by
  show (if _ then _ else _ : PageState) = _
  unfold levelled
  by_cases touches : Touches a n p
  · obtain ⟨protect, page, _⟩ := committed.2 p touches
    rw [if_pos touches, if_pos touches, page, first]
    rfl
  · rw [if_neg touches, if_neg touches]

theorem levelled_congr {page page' : Nat → PageState} {a : UInt32} {n p : Nat}
    (first : page (a.toNat / 4096) = page' (a.toNat / 4096))
    (here : page p = page' p) : levelled page a n p = levelled page' a n p := by
  unfold levelled
  rw [first, here]

theorem sectionsReadable_mono {c' : Target} {n : Nat} {a : UInt32} (sections : SectionsReadable c n a)
    (readable : ∀ b, c.Readable b 40 → c'.Readable b 40) : SectionsReadable c' n a := by
  induction n generalizing a with
  | zero => trivial
  | succ n ih => exact ⟨readable a sections.1, ih sections.2⟩

theorem committed_rewritten {a b : UInt32} {n k : Nat} {protection : UInt32} {m : Memory}
    (committed : c.Accessible (fun _ => true) b k) : (rewritten c a n protection m).Accessible (fun _ => true) b k := by
  refine ⟨committed.1, fun p touches => ?_⟩
  obtain ⟨protect, page, _⟩ := committed.2 p touches
  by_cases touched : Touches a n p
  · refine ⟨protection, ?_, rfl⟩
    show (if _ then _ else _ : PageState) = _
    rw [if_pos touched, page]
    rfl
  · refine ⟨protect, ?_, rfl⟩
    show (if _ then _ else _ : PageState) = _
    rw [if_neg touched, page]

/-- The table is in the process, and the headers are to follow. -/
structure Prepared (c : Target) (m : IATModifier) (h : NtHeaders) (a size : UInt32) (tbl : Bytes) (t : Target) : Prop where
  keeps : Keeps (ClrFlags h) c t
  holds : Holds t a tbl
  committed : t.Accessible (fun _ => true) m.ntHeadersAddr_ 248
  flags : h.entry_com_descriptor.VirtualAddress ≠ 0 →
    cor20HeaderAt t.memory (h.entry_com_descriptor.VirtualAddress + h.ImageBase) =
      ⟨(cor20HeaderAt c.memory (h.entry_com_descriptor.VirtualAddress + h.ImageBase)).Flags &&& ~~~COMIMAGE_FLAGS_ILONLY⟩
  pages : ∀ p, t.page p = if h.entry_com_descriptor.VirtualAddress = 0 then (c.allocate a size).page p
    else levelled (c.allocate a size).page (h.entry_com_descriptor.VirtualAddress + h.ImageBase) 72 p

section
variable {m : IATModifier} {h : NtHeaders} {a size : UInt32} {tbl : Bytes}

theorem prepared_native (readable : c.Readable m.ntHeadersAddr_ 248) (allocatable : c.Allocatable a size)
    (whole : tbl.length = size.toNat) (native : h.entry_com_descriptor.VirtualAddress = 0) :
    Prepared c m h a size tbl (installed c a size tbl) where
  keeps := keeps_installed allocatable whole
  holds := holds_installed allocatable whole
  committed := Target.accessible_mono (readable_installed allocatable whole readable) fun _ _ => rfl
  flags managed := absurd native managed
  pages p := by
    rw [if_pos native]
    rfl

theorem prepared_clr (readable : c.Readable m.ntHeadersAddr_ 248) (allocatable : c.Allocatable a size)
    (whole : tbl.length = size.toNat) (managed : h.entry_com_descriptor.VirtualAddress ≠ 0) (placed : ClrPlaced c m h)
    {b old : UInt32} (place : b = h.entry_com_descriptor.VirtualAddress + h.ImageBase)
    (header : (installed c a size tbl).Readable b 72)
    (first : (installed c a size tbl).page (b.toNat / 4096) = .committed old) :
    Prepared c m h a size tbl
      (rewritten (installed c a size tbl) b 72 old (withoutILOnly (installed c a size tbl).memory b)) := by
  obtain ⟨_, taken⟩ := placed managed
  rw [← place] at taken
  have user := Target.accessible_user header (by decide)
  have committed : (installed c a size tbl).Accessible (fun _ => true) b 72 :=
    Target.accessible_mono header fun _ _ => rfl
  refine ⟨?_, ?_, ?_, fun _ => ?_, fun p => ?_⟩
  · refine keeps_trans (keeps_installed allocatable whole)
      (keeps_rewritten (readable_first header (by decide) first) fun x outside => ?_)
    refine withoutILOnly_outside (by omega) fun inside => outside ⟨managed, ?_⟩
    rw [← place]
    exact inside
  · refine holds_rewritten (holds_installed allocatable whole) (fun p touches => ?_) taken fun x outside => ?_
    · rw [whole] at touches
      exact allocatable.2.2 p touches
    · refine withoutILOnly_outside (by omega) fun inside => outside ?_
      exact ⟨by omega, by omega⟩
  · exact committed_rewritten (Target.accessible_mono (readable_installed allocatable whole readable) fun _ _ => rfl)
  · rw [← place]
    show cor20HeaderAt (withoutILOnly (installed c a size tbl).memory b) b = _
    have before : cor20HeaderAt (installed c a size tbl).memory b = cor20HeaderAt c.memory b :=
      cor20HeaderAt_congr (by omega) fun x inside => installed_outside allocatable whole (taken _ (touches_run inside))
    unfold withoutILOnly
    rw [cor20HeaderAt_writeAll _ (by omega), before]
  · rw [if_neg managed, rewritten_page committed first, place]
    rfl

/-- With the headers written, whatever the protection of their pages is, the image is linked. -/
theorem injected_of_prepared {t : Target} {dlls : List Bytes} {originals : List ImportDescriptor}
    {entry_iat : DataDirectory} (same : ntHeadersAt c.memory m.ntHeadersAddr_ = h)
    (there : c.Readable m.ntHeadersAddr_ 248) (table : Table c m.importDescrTblAddr_ originals)
    (above : h.ImageBase ≤ a) (allocatable : c.Allocatable a size) (whole : tbl.length = size.toNat)
    (data : TableData dlls originals (a - h.ImageBase + UInt32.ofNat (20 * (dlls.length + originals.length))) tbl)
    (iat : h.entry_iat.VirtualAddress ≠ 0 → entry_iat = h.entry_iat) (prepared : Prepared c m h a size tbl t)
    (protection : UInt32) (allowed : readable protection = true) :
    Injected c m dlls (rewritten t m.ntHeadersAddr_ 248 protection
        (writeAll t.memory m.ntHeadersAddr_ (ntHeadersPieces (relinked h entry_iat ⟨a - h.ImageBase, size⟩)))) ∧
      Keeps (Changed m h) c (rewritten t m.ntHeadersAddr_ 248 protection
        (writeAll t.memory m.ntHeadersAddr_ (ntHeadersPieces (relinked h entry_iat ⟨a - h.ImageBase, size⟩)))) := by
  have user := Target.accessible_user there (by decide)
  have outside : ∀ x, ¬ InRun m.ntHeadersAddr_ 248 x → writeAll t.memory m.ntHeadersAddr_
      (ntHeadersPieces (relinked h entry_iat ⟨a - h.ImageBase, size⟩)) x = t.memory x := by
    intro x outside
    refine writeAll_outside (ntHeaders_laid _) (by omega) ?_
    unfold InRun at outside
    omega
  constructor
  · have linked := links_of (t := rewritten t m.ntHeadersAddr_ 248 protection
        (writeAll t.memory m.ntHeadersAddr_ (ntHeadersPieces (relinked h entry_iat ⟨a - h.ImageBase, size⟩))))
      table above allocatable whole data ?_ (ntHeadersAt_writeAll _ (by omega) _) iat
    · obtain ⟨own, links⟩ := linked
      subst same
      exact ⟨originals, own, a, size, entry_iat, links⟩
    · refine holds_rewritten (c := c) prepared.holds (fun p touches => ?_) (fun p touches => ?_) outside
      · rw [whole] at touches
        exact allocatable.2.2 p touches
      · obtain ⟨protect, page, _⟩ := there.2 p touches
        rw [page]
        exact fun free => nomatch free
  · exact keeps_trans (keeps_mono prepared.keeps fun _ flags => .inr flags)
      (keeps_rewritten allowed fun x unchanged => outside x fun inside => unchanged (.inl inside))

end

/-- The process after `writeIAT` has returned. -/
structure Done (c : Target) (m : IATModifier) (dlls : List Bytes) (h : NtHeaders) (t : Target) : Prop where
  injected : Injected c m dlls t
  keeps : Keeps (Changed m h) c t
  flags : h.entry_com_descriptor.VirtualAddress ≠ 0 →
    cor20HeaderAt t.memory (h.entry_com_descriptor.VirtualAddress + h.ImageBase) =
      ⟨(cor20HeaderAt c.memory (h.entry_com_descriptor.VirtualAddress + h.ImageBase)).Flags &&& ~~~COMIMAGE_FLAGS_ILONLY⟩
  pages : ∀ p, c.page p ≠ .free → t.page p = levelled
    (if h.entry_com_descriptor.VirtualAddress = 0 then c.page
      else levelled c.page (h.entry_com_descriptor.VirtualAddress + h.ImageBase) 72) m.ntHeadersAddr_ 248 p

/-- The process when `writeIAT` throws: the headers are as they were, or all is done but
    the protection of their pages. -/
def Failed (c : Target) (m : IATModifier) (dlls : List Bytes) (h : NtHeaders) (e : Thrown) (t : Target) : Prop :=
  Defined e ∧ (Keeps (ClrFlags h) c t ∨ Injected c m dlls t ∧ Keeps (Changed m h) c t)

section
variable {m : IATModifier} {dlls : List Bytes} {h : NtHeaders}

/-- The last part of `writeIAT`, once the table has been written. -/
def link (m : IATModifier) (h : NtHeaders) (entry_iat : DataDirectory) (newDescrTblAddress newDescrTblSize : UInt32) :
    Remote Unit := do
  let ntHeaders := relinked h entry_iat ⟨newDescrTblAddress - h.ImageBase, newDescrTblSize⟩
  clearILOnly h.ImageBase ntHeaders
  rewrite (.WriteNtHeaders m.ntHeadersAddr_ ntHeaders) m.ntHeadersAddr_ sizeof_NtHeaders

theorem link_leads {originals : List ImportDescriptor} {a size : UInt32} {tbl : Bytes} {entry_iat : DataDirectory}
    (same : ntHeadersAt c.memory m.ntHeadersAddr_ = h) (there : c.Readable m.ntHeadersAddr_ 248)
    (table : Table c m.importDescrTblAddr_ originals) (above : h.ImageBase ≤ a) (allocatable : c.Allocatable a size)
    (whole : tbl.length = size.toNat)
    (data : TableData dlls originals (a - h.ImageBase + UInt32.ofNat (20 * (dlls.length + originals.length))) tbl)
    (iat : h.entry_iat.VirtualAddress ≠ 0 → entry_iat = h.entry_iat) (placed : ClrPlaced c m h)
    (due : allWell → h.entry_com_descriptor.VirtualAddress ≠ 0 →
      c.Readable (h.entry_com_descriptor.VirtualAddress + h.ImageBase) 72) :
    Leads (Answers mayFail) (fun _ t => Done c m dlls h t) (Throws allWell mayFail (Failed c m dlls h)) S
      (link m h entry_iat a size) (installed c a size tbl) := by
  have installs : ∀ {changed}, Keeps changed c (installed c a size tbl) := keeps_installed allocatable whole
  have before : ∀ e t, Defined e → Keeps (ClrFlags h) c t → Failed c m dlls h e t :=
    fun _ _ defined keeps => ⟨defined, .inl keeps⟩
  refine leads_bind (leads_mono (clearILOnly_leads (h := relinked h entry_iat ⟨a - h.ImageBase, size⟩) rfl
    (fun e t defined keeps => before e t defined (keeps_trans installs keeps))
    fun well managed => readable_installed allocatable whole (due well managed)) ?_ (fun _ _ thrown => thrown) id)
  intro _ t cleared
  have prepared : Prepared c m h a size tbl t := by
    rcases cleared with ⟨native, rfl⟩ | ⟨managed, header, old, first, rfl⟩
    · exact prepared_native there allocatable whole native
    · exact prepared_clr (h := h) there allocatable whole managed placed rfl header first
  have linked := injected_of_prepared same there table above allocatable whole data iat prepared
  refine leads_mono (rewrite_leads (m := writeAll t.memory m.ntHeadersAddr_
      (ntHeadersPieces (relinked h entry_iat ⟨a - h.ImageBase, size⟩))) (by decide)
    (fun writable => ⟨(), _, writable, rfl⟩) (fun _ _ wrote => wrote.2) (fun _ => prepared.committed)
    (fun e defined => before e _ defined prepared.keeps)
    (fun e defined _ => before e _ defined (keeps_trans prepared.keeps (keeps_protect _ _ rfl)))
    (fun e defined _ => ⟨defined, .inr (linked PAGE_EXECUTE_READWRITE rfl)⟩)) ?_ (fun _ _ thrown => thrown) id
  rintro _ t' ⟨committed, old, first, rfl⟩
  have allowed : readable old = true := readable_first (keeps_readable prepared.keeps there) (by decide) first
  refine ⟨(linked old allowed).1, (linked old allowed).2, fun managed => ?_, fun p taken => ?_⟩
  · have apart := (placed managed).1
    rw [← prepared.flags managed]
    refine cor20HeaderAt_congr apart.right fun x inside => writeAll_outside (ntHeaders_laid _) apart.left ?_
    have order := apart.order
    unfold InRun at inside
    omega
  have earlier : ∀ q, c.page q ≠ .free → t.page q = (if h.entry_com_descriptor.VirtualAddress = 0 then c.page
      else levelled c.page (h.entry_com_descriptor.VirtualAddress + h.ImageBase) 72) q := by
    intro q taken
    rw [prepared.pages q]
    by_cases native : h.entry_com_descriptor.VirtualAddress = 0
    · rw [if_pos native, if_pos native, allocate_page taken]
    · rw [if_neg native, if_neg native]
      exact levelled_congr (allocate_page ((placed native).2 _ ⟨Nat.le_refl _, by omega⟩)) (allocate_page taken)
  obtain ⟨protect, page⟩ := Target.accessible_first there (by decide)
  rw [rewritten_page committed first]
  refine levelled_congr (earlier _ ?_) (earlier p taken)
  rw [page]
  exact fun free => nomatch free

theorem writeIAT_leads {fuel : Nat} (same : ntHeadersAt c.memory m.ntHeadersAddr_ = h)
    (enough : ¬ S → longestTable ≤ fuel) (small : 20 * dlls.length + blocksSize dlls < 131072) (placed : ClrPlaced c m h)
    (due : allWell → Patchable c m dlls h) :
    Leads (Answers mayFail) (fun _ t => Done c m dlls h t) (Throws allWell mayFail (Failed c m dlls h)) S
      (writeIAT fuel m dlls) c := by
  have before : ∀ e t, Defined e → Keeps (ClrFlags h) c t → Failed c m dlls h e t :=
    fun _ _ defined keeps => ⟨defined, .inl keeps⟩
  unfold writeIAT
  by_cases none : dlls = []
  · rw [if_pos none]
    exact ⟨before _ _ (by simp [Defined]) keeps_refl, fun well => absurd none (due well).some⟩
  rw [if_neg none]
  by_cases null : m.importDescrTblAddr_ = 0
  · rw [if_pos null]
    exact ⟨before _ _ (by simp [Defined]) keeps_refl, fun well => absurd null (due well).set⟩
  rw [if_neg null]
  refine leads_bind (leads_due (fun well => ⟨_, c, (due well).headers, rfl, rfl⟩)
    (fun _ => before _ _ (by simp [Defined]) keeps_refl) ?_)
  rintro headers c ⟨readable, read, rfl⟩
  obtain rfl : h = headers := same.symm.trans read.symm
  refine leads_bind (leads_mono (determineIIDSize_leads (fun e defined => before e c defined keeps_refl) fuel
    (fun well => ?_) fun long => ?_) ?_ (fun _ _ thrown => thrown) id)
  · obtain ⟨originals, table, _⟩ := (due well).table
    exact ⟨originals, table⟩
  · have := enough long
    simp only [longestTable] at this
    omega
  rintro origIIDTblSize c ⟨rfl, originals, table, counted⟩
  have fits := table_fits table
  have orig : origIIDTblSize = UInt32.ofNat (20 * originals.length) := by
    rw [counted, UInt32.zero_add, Nat.mul_comm, UInt32.ofNat_mul]
    rfl
  have own : UInt32.ofNat dlls.length * UInt32.ofNat sizeof_ImportDescriptor = UInt32.ofNat (20 * dlls.length) := by
    rw [Nat.mul_comm, UInt32.ofNat_mul]
    rfl
  have blocksOffset : UInt32.ofNat (20 * originals.length) + UInt32.ofNat (20 * dlls.length) =
      UInt32.ofNat (20 * (dlls.length + originals.length)) := by
    rw [← UInt32.ofNat_add]
    congr 1
    omega
  have sum : customDataSize dlls + UInt32.ofNat (20 * originals.length) =
      UInt32.ofNat (20 * (dlls.length + originals.length) + blocksSize dlls) := by
    rw [customDataSize_eq (by omega), ← UInt32.ofNat_add]
    congr 1
    omega
  have sized : (UInt32.ofNat (20 * (dlls.length + originals.length) + blocksSize dlls)).toNat =
      20 * (dlls.length + originals.length) + blocksSize dlls := UInt32.toNat_ofNat_of_lt' (by
    show _ < 4294967296
    omega)
  dsimp only
  rw [orig, sum, own]
  generalize wholeSize : UInt32.ofNat (20 * (dlls.length + originals.length) + blocksSize dlls) = size at sized
  refine leads_bind (leads_due (fun _ => ⟨⟨List.replicate size.toNat 0, List.length_replicate ..⟩, c, rfl⟩)
    (fun _ => before _ _ (by simp [Defined]) keeps_refl) ?_)
  rintro ⟨fill, length⟩ c rfl
  refine leads_bind (leads_mono (allocateMemAboveBase_leads fun long => ?_) ?_ (fun _ _ never => never.elim) id)
  · have := enough long
    have bound := c.pages_le
    simp only [longestTable] at this
    omega
  intro address t got
  have kept : ∀ {changed}, Keeps changed c t := by
    rcases got with found | ⟨_, rfl, _⟩
    · rw [found.allocated]
      exact keeps_allocate address size
    · exact keeps_refl
  have before' : ∀ e, Defined e → Failed c m dlls h e t := fun e defined => before e t defined kept
  have unchanged : Keeps (fun _ => False) c t := kept
  have reads : ∀ b n, c.Readable b n → t.Readable b n := fun b n => keeps_readable unchanged
  have again : Table t m.importDescrTblAddr_ originals := table_congr table reads fun x inside =>
    (unchanged.bytes x (table_page table inside) id).symm
  have ownFits : 0 + 20 * dlls.length ≤ fill.length := by omega
  rw [prependDescriptors_eq ownFits, blocksOffset, UInt32.add_assoc, blocksOffset,
    UInt32.toNat_ofNat_of_lt' (show 20 * (dlls.length + originals.length) < 4294967296 by omega)]
  refine leads_bind (leads_return (leads_bind (leads_mono (copyDescriptors_leads before' again fuel _ _ ?_ fun long => ?_) ?_
    (fun _ _ thrown => thrown) id)))
  · rw [poke_length (by rw [tableBytes_length, ownDescriptors_length]; exact ownFits)]
    simp only [sizeof_ImportDescriptor]
    omega
  · have := enough long
    simp only [longestTable] at this
    omega
  rintro _ t ⟨rfl, rfl⟩
  obtain ⟨tbl, built, data⟩ := tableData_built dlls originals
    (address - h.ImageBase + UInt32.ofNat (20 * (dlls.length + originals.length))) (length.trans sized) (by omega)
  rw [built]
  have whole : tbl.length = size.toNat := data.length.trans sized.symm
  refine leads_bind (leads_return (leads_bind (leads_mono (fillIat_leads before' m h fun well missing => ?_) ?_
    (fun _ _ thrown => thrown) id)))
  · exact sectionsReadable_mono ((due well).sections missing) fun b => reads b 40
  rintro entry_iat t ⟨rfl, iat⟩
  rcases got with found | ⟨rfl, rfl, gone⟩
  · have allocated := found.allocated
    subst allocated
    refine leads_bind (leads_due (fun _ => ?_) (fun _ => before' _ (by simp [Defined])) ?_)
    · refine ⟨(), _, ⟨?_, fun p touches => ⟨PAGE_EXECUTE_READWRITE, ?_, rfl⟩⟩, rfl⟩
      · have user := allocatable_user found.allocatable
        omega
      · rw [whole] at touches
        exact if_pos ⟨touches, found.allocatable.2.2 p touches⟩
    · rintro _ t ⟨_, rfl⟩
      exact link_leads same readable table found.above found.allocatable whole data iat placed fun well => (due well).clr
  · -- No memory was found, and NULL cannot be written.
    refine leads_bind (leads_request ?_ fun _ _ => ⟨before' _ (by simp [Defined]), fun well => ?_⟩)
    · rintro _ t ⟨writable, _⟩
      have user := Target.accessible_user writable (by omega)
      exact absurd user.1 (by decide)
    · obtain ⟨originals', table', a, above, allocatable⟩ := (due well).table
      obtain rfl := table_unique table table'
      rw [wholeSize] at allocatable
      exact Classical.byContradiction fun sound => gone sound a above a.toNat_lt allocatable

/-- Whichever calls the system fails, and for any list of DLLs: `writeIAT` comes to an end
    and writes nowhere but where it may. When it returns, the image imports the DLLs and then
    what it imported before; when it throws, either this is so as well, or nothing of the
    memory that was there has changed, but for the flags of the CLR header. -/
theorem imports_switched_at_once {fuel : Nat} (c : Target) (m : IATModifier) (dlls : List Bytes)
    (enough : longestTable ≤ fuel) (small : 20 * dlls.length + blocksSize dlls < 131072)
    (placed : ClrPlaced c m (ntHeadersAt c.memory m.ntHeadersAddr_)) :
    Leads (Answers True)
      (fun _ t => Injected c m dlls t ∧ Keeps (Changed m (ntHeadersAt c.memory m.ntHeadersAddr_)) c t)
      (fun e t => (∀ s, e ≠ .stop s) ∧ (Keeps (ClrFlags (ntHeadersAt c.memory m.ntHeadersAddr_)) c t ∨
        Injected c m dlls t ∧ Keeps (Changed m (ntHeadersAt c.memory m.ntHeadersAddr_)) c t))
      False (writeIAT fuel m dlls) c := by
  refine leads_mono (E := Throws False True _) (writeIAT_leads rfl (fun _ => enough) small placed False.elim) ?_ ?_ id
  · exact fun _ t done => ⟨done.injected, done.keeps⟩
  · exact fun e t failed => failed.1

theorem smallProcess_touches {a : UInt32} {n p : Nat} (above : 65536 ≤ a.toNat) (below : a.toNat + n ≤ 69632)
    (touches : Touches a n p) : p = 16 := by
  obtain ⟨first, last⟩ := touches
  omega

/-- The NT headers of the small process. -/
def smallHeaders : NtHeaders := ⟨0x4550, 0, 0, 0, 0x10000, ⟨0x200, 0x28⟩, ⟨0, 0⟩, ⟨0, 0⟩, ⟨0x300, 0x48⟩⟩

theorem smallHeaders_read : ntHeadersAt smallProcess.memory 0x10040 = smallHeaders := by decide

theorem smallProcess_clr : ClrPlaced smallProcess ⟨0x10040, 0x10200, 0x28⟩ smallHeaders := by
  intro _
  refine ⟨⟨by decide, by decide, by decide⟩, fun p touches => ?_⟩
  rw [smallProcess_touches (by decide) (by decide) touches]
  exact fun free => nomatch free

theorem imports_switched_at_once_small :
    Leads (Answers True)
      (fun _ t => Injected smallProcess ⟨0x10040, 0x10200, 0x28⟩ [[97]] t ∧
        Keeps (Changed ⟨0x10040, 0x10200, 0x28⟩ smallHeaders) smallProcess t)
      (fun e t => (∀ s, e ≠ .stop s) ∧ (Keeps (ClrFlags smallHeaders) smallProcess t ∨
        Injected smallProcess ⟨0x10040, 0x10200, 0x28⟩ [[97]] t ∧
          Keeps (Changed ⟨0x10040, 0x10200, 0x28⟩ smallHeaders) smallProcess t))
      False (writeIAT longestTable ⟨0x10040, 0x10200, 0x28⟩ [[97]]) smallProcess := by
  have placed : ClrPlaced smallProcess ⟨0x10040, 0x10200, 0x28⟩ (ntHeadersAt smallProcess.memory 0x10040) := by
    rw [smallHeaders_read]
    exact smallProcess_clr
  have switched := imports_switched_at_once smallProcess ⟨0x10040, 0x10200, 0x28⟩ [[97]] (Nat.le_refl _) (by decide) placed
  rw [show ntHeadersAt smallProcess.memory (0x10040 : UInt32) = smallHeaders from smallHeaders_read] at switched
  exact switched

/-- All of a run's pages are in one state. -/
def Level (c : Target) (a : UInt32) (n : Nat) : Prop := ∀ p, Touches a n p → c.page p = c.page (a.toNat / 4096)

/-- When `writeIAT` returns, the pages that were there have the protection that they had, if the
    pages of the NT headers had one protection and those of a CLR header had one; and of
    the flags of a CLR header the one of pure IL images is cleared and no other. -/
theorem protections_restored {fuel : Nat} (c : Target) (m : IATModifier) (dlls : List Bytes)
    (enough : longestTable ≤ fuel) (small : 20 * dlls.length + blocksSize dlls < 131072)
    (same : ntHeadersAt c.memory m.ntHeadersAddr_ = h) (placed : ClrPlaced c m h)
    (level : Level c m.ntHeadersAddr_ 248) (clrLevel : h.entry_com_descriptor.VirtualAddress ≠ 0 →
      Level c (h.entry_com_descriptor.VirtualAddress + h.ImageBase) 72) :
    Leads (Answers True) (fun _ t => (∀ p, c.page p ≠ .free → t.page p = c.page p) ∧
        (h.entry_com_descriptor.VirtualAddress ≠ 0 →
          cor20HeaderAt t.memory (h.entry_com_descriptor.VirtualAddress + h.ImageBase) =
            ⟨(cor20HeaderAt c.memory (h.entry_com_descriptor.VirtualAddress + h.ImageBase)).Flags &&&
              ~~~COMIMAGE_FLAGS_ILONLY⟩))
      (fun _ _ => True) False (writeIAT fuel m dlls) c := by
  refine leads_mono (E := Throws False True _) (writeIAT_leads same (fun _ => enough) small placed False.elim) ?_
    (fun _ _ _ => trivial) id
  have unchanged : ∀ {a n}, Level c a n → ∀ p, levelled c.page a n p = c.page p := by
    intro a n even p
    unfold levelled
    by_cases touches : Touches a n p
    · rw [if_pos touches, even p touches]
    · rw [if_neg touches]
  refine fun _ t done => ⟨fun p there => ?_, done.flags⟩
  rw [done.pages p there]
  by_cases native : h.entry_com_descriptor.VirtualAddress = 0
  · rw [if_pos native, unchanged level]
  · have even : levelled (levelled c.page (h.entry_com_descriptor.VirtualAddress + h.ImageBase) 72) m.ntHeadersAddr_ 248 p =
        levelled c.page m.ntHeadersAddr_ 248 p :=
      levelled_congr (unchanged (clrLevel native) _) (unchanged (clrLevel native) _)
    rw [if_neg native, even, unchanged level]

end

end

theorem smallProcess_level {a : UInt32} {n : Nat} (above : 65536 ≤ a.toNat) (below : a.toNat + n ≤ 69632)
    (some : 0 < n) : Level smallProcess a n := by
  intro p touches
  have first : a.toNat / 4096 = 16 := by omega
  rw [smallProcess_touches above below touches, first]

/-- The CLR header of the small process has a flag beside the one of pure IL images. -/
theorem protections_restored_small :
    Leads (Answers True) (fun _ t => (∀ p, smallProcess.page p ≠ .free → t.page p = smallProcess.page p) ∧
        cor20HeaderAt t.memory 0x10300 = ⟨8⟩)
      (fun _ _ => True) False (writeIAT longestTable ⟨0x10040, 0x10200, 0x28⟩ [[97]]) smallProcess := by
  have flags : (cor20HeaderAt smallProcess.memory 0x10300).Flags &&& ~~~COMIMAGE_FLAGS_ILONLY = 8 := by decide
  refine leads_mono (protections_restored smallProcess ⟨0x10040, 0x10200, 0x28⟩ [[97]] (Nat.le_refl _) (by decide)
    smallHeaders_read smallProcess_clr (smallProcess_level (by decide) (by decide) (by decide))
    fun _ => smallProcess_level (by decide) (by decide) (by decide)) ?_ (fun _ _ _ => trivial) id
  exact fun _ t done => ⟨done.1, (done.2 (by decide)).trans (congrArg Cor20Header.mk flags)⟩

end Sysintercept.Injection
