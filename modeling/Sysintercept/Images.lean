import Sysintercept.Injection

/-!
# What an image imports

The DLLs that are imported by the image of an executable in front of its own
imports: a list, in front of which each completed `writeIAT` puts its DLLs. From
the suspended process on, whatever calls the system fails and wherever the
injection is cut off, the image imports one list or the other.
-/
namespace Sysintercept.Images
open Sysintercept.Units Sysintercept.AddressSpace Sysintercept.Records Sysintercept.Effects Sysintercept.Environments
open Sysintercept.Rules Sysintercept.Iat Sysintercept.Patching Sysintercept.Targets Sysintercept.Searching
open Sysintercept.ImportTables Sysintercept.Injection

/-! ## Finding the image -/

/-- What `setImageBase` finds at an address. -/
def modifierOf (m : Memory) (address : UInt32) : IATModifier :=
  let ntHeadersAddr_ := address + (dosHeaderAt m address).e_lfanew
  let entry_import := (ntHeadersAt m ntHeadersAddr_).entry_import
  ⟨ntHeadersAddr_, entry_import.VirtualAddress + address, entry_import.Size⟩

def headersOf (m : Memory) (address : UInt32) : NtHeaders := ntHeadersAt m (modifierOf m address).ntHeadersAddr_

/-- The image of an executable with imports. -/
structure Executable (c : Target) (address : UInt32) : Prop where
  dosHeader : c.Readable address 64
  magic : (dosHeaderAt c.memory address).e_magic = IMAGE_DOS_SIGNATURE
  headers : c.Readable (modifierOf c.memory address).ntHeadersAddr_ 248
  signature : (headersOf c.memory address).Signature = IMAGE_NT_SIGNATURE
  executable : (headersOf c.memory address).Characteristics &&& IMAGE_FILE_DLL = 0
  imports : (headersOf c.memory address).entry_import.VirtualAddress ≠ 0

/-- The linear address of a segment. -/
def fsVA (ldtEntry : LdtEntry) : UInt32 :=
  ldtEntry.BaseHi.toUInt32 <<< 24 ||| ldtEntry.BaseMid.toUInt32 <<< 16 ||| ldtEntry.BaseLow.toUInt32

/-- The process environment block of the first thread names an image base. -/
structure Based (c : Target) (ldtEntry : LdtEntry) (iba : UInt32) : Prop where
  selector : c.selectorEntry c.SegFs = some ldtEntry
  block : c.Readable (fsVA ldtEntry + 0x30) 4
  field : c.Readable (dwordAt c.memory (fsVA ldtEntry + 0x30) 0 + 8) 4
  base : iba = dwordAt c.memory (dwordAt c.memory (fsVA ldtEntry + 0x30) 0 + 8) 0

section
variable {mayFail allWell S : Prop} {c : Target} {Err : Thrown → Target → Prop}

theorem setImageBase_leads (throws : ∀ e, Defined e → Err e c) {address : UInt32} (due : allWell → Executable c address) :
    Leads (Answers mayFail) (fun m t => t = c ∧ Executable c address ∧ m = modifierOf c.memory address)
      (Throws allWell mayFail Err) S (setImageBase address) c := by
  unfold setImageBase
  refine leads_bind (leads_due (fun well => ⟨_, c, (due well).dosHeader, rfl, rfl⟩) (fun _ => throws _ (by simp [Defined])) ?_)
  rintro _ c ⟨dosHeader, rfl, rfl⟩
  by_cases magic : (dosHeaderAt c.memory address).e_magic = IMAGE_DOS_SIGNATURE
  case neg =>
    rw [if_pos magic]
    exact ⟨throws _ (by simp [Defined]), fun well => absurd (due well).magic magic⟩
  rw [if_neg (not_not_intro magic)]
  refine leads_bind (leads_due (fun well => ⟨_, c, (due well).headers, rfl, rfl⟩) (fun _ => throws _ (by simp [Defined])) ?_)
  rintro h c ⟨headers, read, rfl⟩
  obtain rfl : h = headersOf c.memory address := read
  by_cases signature : (headersOf c.memory address).Signature = IMAGE_NT_SIGNATURE
  case neg =>
    rw [if_pos signature]
    exact ⟨throws _ (by simp [Defined]), fun well => absurd (due well).signature signature⟩
  rw [if_neg (not_not_intro signature)]
  by_cases executable : (headersOf c.memory address).Characteristics &&& IMAGE_FILE_DLL = 0
  case neg =>
    rw [if_pos executable]
    exact ⟨throws _ (by simp [Defined]), fun well => absurd (due well).executable executable⟩
  rw [if_neg (not_not_intro executable)]
  by_cases imports : (headersOf c.memory address).entry_import.VirtualAddress = 0
  · rw [if_pos imports]
    exact ⟨throws _ (by simp [Defined]), fun well => absurd imports (due well).imports⟩
  rw [if_neg imports]
  exact ⟨rfl, ⟨dosHeader, magic, headers, signature, executable, imports⟩, rfl⟩

theorem defined_throwSysError (msg : String) (lastError : UInt32) : Defined (throwSysError msg lastError) := by
  simp [Defined, throwSysError]

theorem getImageBase_leads (throws : ∀ e, Defined e → Err e c) (due : allWell → ∃ ldtEntry iba, Based c ldtEntry iba) :
    Leads (Answers mayFail) (fun iba t => t = c ∧ ∃ ldtEntry, Based c ldtEntry iba)
      (Throws allWell mayFail Err) S Process.getImageBase c := by
  unfold Process.getImageBase
  refine leads_bind (leads_due (fun _ => ⟨_, c, rfl, rfl⟩) (fun _ => throws _ (defined_throwSysError _ _)) ?_)
  rintro _ c ⟨rfl, rfl⟩
  refine leads_bind (leads_due (fun well => ?_) (fun _ => throws _ (defined_throwSysError _ _)) ?_)
  · obtain ⟨ldtEntry, _, based⟩ := due well
    exact ⟨ldtEntry, c, based.selector, rfl⟩
  rintro ldtEntry c ⟨selector, rfl⟩
  have unique : ∀ {ldtEntry' iba}, Based c ldtEntry' iba → ldtEntry' = ldtEntry := fun based =>
    Option.some.inj (based.selector.symm.trans selector)
  refine leads_bind (leads_due (fun well => ?_) (fun _ => throws _ (defined_throwSysError _ _)) ?_)
  · obtain ⟨ldtEntry', _, based⟩ := due well
    obtain rfl := unique based
    exact ⟨_, c, based.block, rfl, rfl⟩
  rintro _ c ⟨block, rfl, rfl⟩
  refine leads_due (fun well => ?_) (fun _ => throws _ (defined_throwSysError _ _)) ?_
  · obtain ⟨ldtEntry', _, based⟩ := due well
    obtain rfl := unique based
    exact ⟨_, c, based.field, rfl, rfl⟩
  rintro _ c ⟨field, rfl, rfl⟩
  exact ⟨rfl, ldtEntry, selector, block, field, rfl⟩

end

/-! ## The list of imports -/

/-- What the descriptor of a DLL refers to is there, and not in the headers. -/
def Own (c : Target) (m : IATModifier) (h : NtHeaders) (d : ImportDescriptor) (dll : Bytes) : Prop :=
  Imports c.memory h.ImageBase d dll ∧ ∃ a n, a.toNat + n ≤ 4294967296 ∧ Within h.ImageBase d dll a n ∧
    ∀ x, InRun a n x → c.page (x.toNat / 4096) ≠ .free ∧ ¬ Changed m h x

/-- The table of a modifier, apart from the headers, imports the named DLLs and then the originals. -/
def Lists (c : Target) (m : IATModifier) (h : NtHeaders) (names : List Bytes) (originals : List ImportDescriptor) : Prop :=
  ∃ own, Table c m.importDescrTblAddr_ (own ++ originals) ∧
    (∀ x, InRun m.importDescrTblAddr_ (20 * (own ++ originals).length) x → ¬ Changed m h x) ∧
    List.Forall₂ (Own c m h) own names

/-- An image that lies where its headers say, with nothing in them that is written over. -/
structure Image (c : Target) (base : UInt32) : Prop where
  executable : Executable c base
  based : (headersOf c.memory base).ImageBase = base
  clr : ClrPlaced c (modifierOf c.memory base) (headersOf c.memory base)
  dos : ∀ x, InRun base 64 x → ¬ Changed (modifierOf c.memory base) (headersOf c.memory base) x

/-- The image imports the named DLLs and then the originals. -/
structure Imported (c : Target) (base : UInt32) (names : List Bytes) (originals : List ImportDescriptor) : Prop where
  image : Image c base
  lists : Lists c (modifierOf c.memory base) (headersOf c.memory base) names originals

/-- Headers at one place, of one image. -/
structure SameImage (m m' : IATModifier) (h h' : NtHeaders) : Prop where
  place : m'.ntHeadersAddr_ = m.ntHeadersAddr_
  base : h'.ImageBase = h.ImageBase
  clr : h'.entry_com_descriptor = h.entry_com_descriptor

section
variable {c t : Target} {base : UInt32} {m m' : IATModifier} {h h' : NtHeaders} {names dlls : List Bytes}
  {originals : List ImportDescriptor}

theorem changed_iff (same : SameImage m m' h h') (x : UInt32) : Changed m' h' x ↔ Changed m h x := by
  unfold Changed ClrFlags
  rw [same.place, same.base, same.clr]

theorem clrPlaced_keeps {changed : UInt32 → Prop} (same : SameImage m m' h h') (keeps : Keeps changed c t)
    (placed : ClrPlaced c m h) : ClrPlaced t m' h' := by
  unfold ClrPlaced at placed ⊢
  rw [same.place, same.base, same.clr]
  exact fun managed => ⟨(placed managed).1, fun p touches => keeps_taken keeps ((placed managed).2 p touches)⟩

theorem own_keeps (same : SameImage m m' h h') (keeps : Keeps (Changed m h) c t) {d : ImportDescriptor} {dll : Bytes}
    (own : Own c m h d dll) : Own t m' h' d dll := by
  obtain ⟨imports, a, n, fits, within, there⟩ := own
  unfold Own
  rw [same.base]
  refine ⟨imports_congr imports within fits fun x inside => keeps.bytes x (there x inside).1 (there x inside).2,
    a, n, fits, within, fun x inside => ⟨keeps_taken keeps (there x inside).1, ?_⟩⟩
  rw [changed_iff same]
  exact (there x inside).2

/-- A table stays where the headers are written. -/
theorem lists_keeps (same : SameImage m m' h h') (table : m'.importDescrTblAddr_ = m.importDescrTblAddr_)
    (keeps : Keeps (Changed m h) c t) (lists : Lists c m h names originals) : Lists t m' h' names originals := by
  obtain ⟨own, there, apart, owns⟩ := lists
  refine ⟨own, ?_, ?_, owns.imp fun _ _ => own_keeps same keeps⟩
  · rw [table]
    refine table_congr there (fun _ _ => keeps_readable keeps) fun x inside => ?_
    exact (keeps.bytes x (table_page there inside) (apart x inside)).symm
  · rw [table]
    intro x inside
    rw [changed_iff same]
    exact apart x inside

/-- The image is found again, with the headers that are there now. -/
theorem image_keeps (image : Image c base) (same : SameImage (modifierOf c.memory base) m' (headersOf c.memory base) h')
    (keeps : Keeps (Changed (modifierOf c.memory base) (headersOf c.memory base)) c t)
    (headers : ntHeadersAt t.memory (modifierOf c.memory base).ntHeadersAddr_ = h')
    (signature : h'.Signature = (headersOf c.memory base).Signature)
    (executable : h'.Characteristics = (headersOf c.memory base).Characteristics)
    (imports : h'.entry_import.VirtualAddress ≠ 0) :
    Image t base ∧ headersOf t.memory base = h' ∧
      modifierOf t.memory base = ⟨(modifierOf c.memory base).ntHeadersAddr_,
        h'.entry_import.VirtualAddress + base, h'.entry_import.Size⟩ := by
  have dos := image.executable.dosHeader
  have user := Target.accessible_user dos (by decide)
  have unchanged : ∀ x, InRun base 64 x → t.memory x = c.memory x := fun x inside =>
    keeps.bytes x (Target.accessible_page dos inside) (image.dos x inside)
  have dosHeader : dosHeaderAt t.memory base = dosHeaderAt c.memory base := dosHeaderAt_congr (by omega) unchanged
  have place : (modifierOf t.memory base).ntHeadersAddr_ = (modifierOf c.memory base).ntHeadersAddr_ := by
    unfold modifierOf
    rw [dosHeader]
  have found : headersOf t.memory base = h' := by
    unfold headersOf
    rw [place, headers]
  have modifier : modifierOf t.memory base = ⟨(modifierOf c.memory base).ntHeadersAddr_,
      h'.entry_import.VirtualAddress + base, h'.entry_import.Size⟩ := by
    rw [← place, ← found]
    rfl
  have again : SameImage (modifierOf c.memory base) (modifierOf t.memory base) (headersOf c.memory base)
      (headersOf t.memory base) := by
    rw [found]
    exact ⟨place, same.base, same.clr⟩
  refine ⟨⟨⟨keeps_readable keeps dos, ?_, ?_, ?_, ?_, ?_⟩, ?_, clrPlaced_keeps again keeps image.clr, fun x inside => ?_⟩,
    found, modifier⟩
  · rw [dosHeader]
    exact image.executable.magic
  · rw [place]
    exact keeps_readable keeps image.executable.headers
  · rw [found, signature]
    exact image.executable.signature
  · rw [found, executable]
    exact image.executable.executable
  · rw [found]
    exact imports
  · rw [found, same.base]
    exact image.based
  · rw [changed_iff again]
    exact image.dos x inside

/-- Where only the flags of the CLR header may have changed, the image imports what it did. -/
theorem imported_kept (imported : Imported c base names originals) (keeps : Keeps (ClrFlags (headersOf c.memory base)) c t) :
    Imported t base names originals := by
  obtain ⟨image, lists⟩ := imported
  have wide : Keeps (Changed (modifierOf c.memory base) (headersOf c.memory base)) c t :=
    keeps_mono keeps fun _ flags => .inr flags
  have readable := image.executable.headers
  have user := Target.accessible_user readable (by decide)
  have headers : ntHeadersAt t.memory (modifierOf c.memory base).ntHeadersAddr_ = headersOf c.memory base := by
    refine ntHeadersAt_congr (by omega) fun x inside => keeps.bytes x (Target.accessible_page readable inside) fun flags => ?_
    have order := (image.clr flags.1).1.order
    obtain ⟨_, above, below⟩ := flags
    unfold InRun at inside
    omega
  have same : SameImage (modifierOf c.memory base) (modifierOf c.memory base) (headersOf c.memory base)
      (headersOf c.memory base) := ⟨rfl, rfl, rfl⟩
  obtain ⟨image', found, modifier⟩ := image_keeps image same wide headers rfl rfl image.executable.imports
  refine ⟨image', ?_⟩
  rw [found, modifier]
  exact lists_keeps same rfl wide lists

/-- The headers lie in memory that is there. -/
theorem changed_page (image : Image c base) {x : UInt32}
    (changed : Changed (modifierOf c.memory base) (headersOf c.memory base) x) : c.page (x.toNat / 4096) ≠ .free := by
  rcases changed with inside | ⟨managed, above, below⟩
  · exact Target.accessible_page image.executable.headers inside
  · exact (image.clr managed).2 _ (touches_run ⟨by omega, by omega⟩)

/-- Where the image was linked to DLLs in front of a list, it imports them and then the list. -/
theorem imported_injected (image : Image c base) (place : m.ntHeadersAddr_ = (modifierOf c.memory base).ntHeadersAddr_)
    (lists : Lists c m (headersOf c.memory base) names originals) (injected : Injected c m dlls t)
    (keeps : Keeps (Changed m (headersOf c.memory base)) c t) : Imported t base (dlls ++ names) originals ∧
      SameImage m (modifierOf t.memory base) (headersOf c.memory base) (headersOf t.memory base) := by
  obtain ⟨found, own, a, size, entry_iat, links⟩ := injected
  obtain ⟨own₀, table₀, _, owns₀⟩ := lists
  have same₀ : SameImage m (modifierOf c.memory base) (headersOf c.memory base) (headersOf c.memory base) :=
    ⟨place.symm, rfl, rfl⟩
  have header : ntHeadersAt c.memory m.ntHeadersAddr_ = headersOf c.memory base := by
    rw [place]
    rfl
  rw [header] at links
  obtain rfl := table_unique table₀ links.found
  have keeps' : Keeps (Changed (modifierOf c.memory base) (headersOf c.memory base)) c t :=
    keeps_mono keeps fun x => (changed_iff same₀ x).mpr
  have free : ∀ x, InRun a size.toNat x → c.page (x.toNat / 4096) = .free := fun x inside =>
    links.allocatable.2.2 _ (touches_run inside)
  have user := allocatable_user links.allocatable
  have sized := links.sized
  have imports : a - (headersOf c.memory base).ImageBase ≠ 0 := by
    intro zero
    have relative := UInt32.toNat_sub_of_le _ _ links.above
    have above : (headersOf c.memory base).ImageBase.toNat ≤ a.toNat := links.above
    rw [zero] at relative
    have first := allocatable_page links.allocatable
    have there := Target.accessible_page image.executable.dosHeader (x := base) ⟨Nat.le_refl _, by omega⟩
    obtain rfl : a = base := by
      rw [← image.based]
      exact UInt32.toNat_inj.mp (Nat.le_antisymm (Nat.sub_eq_zero_iff_le.mp relative.symm) above)
    exact there first.1
  have linked := links.headers
  rw [place] at linked
  have same : SameImage (modifierOf c.memory base) ⟨(modifierOf c.memory base).ntHeadersAddr_, a, size⟩ (headersOf c.memory base)
      (relinked (headersOf c.memory base) entry_iat ⟨a - (headersOf c.memory base).ImageBase, size⟩) := ⟨rfl, rfl, rfl⟩
  obtain ⟨image', found, modifier⟩ := image_keeps image same keeps' linked rfl rfl imports
  refine ⟨⟨image', ?_⟩, by rw [found, modifier]; exact ⟨place.symm, rfl, rfl⟩⟩
  have target : a - (headersOf c.memory base).ImageBase + base = a := by
    rw [image.based, UInt32.sub_add_cancel]
  rw [found, modifier]
  show Lists t ⟨_, a - (headersOf c.memory base).ImageBase + base, size⟩ _ _ _
  rw [target]
  have unchanged : ∀ x, InRun a size.toNat x → ¬ Changed ⟨(modifierOf c.memory base).ntHeadersAddr_, a, size⟩
      (relinked (headersOf c.memory base) entry_iat ⟨a - (headersOf c.memory base).ImageBase, size⟩) x := by
    intro x inside
    rw [changed_iff same]
    exact fun changed => changed_page image changed (free x inside)
  have length : own.length = dlls.length := links.imports.length_eq
  refine ⟨own ++ own₀, ?_, fun x inside => unchanged x ⟨inside.1, ?_⟩, List.rel_append ?_ ?_⟩
  · rw [List.append_assoc]
    exact links.table
  · have below := inside.2
    rw [List.append_assoc, List.length_append, length] at below
    dsimp only at below
    omega
  · refine links.imports.imp fun d dll imports => ⟨imports.1, a, size.toNat, by omega, imports.2, fun x inside => ?_⟩
    refine ⟨?_, unchanged x inside⟩
    rw [links.pages _ (touches_run inside)]
    exact fun free => nomatch free
  · exact owns₀.imp fun _ _ own => own_keeps ⟨place.symm, rfl, rfl⟩ keeps own

end

/-! The small process imports one DLL. -/

theorem smallProcess_executable : Executable smallProcess 0x10000 where
  dosHeader := smallProcess_readable (by decide) (by decide)
  magic := by decide
  headers := smallProcess_readable (by decide) (by decide)
  signature := by decide
  executable := by decide
  imports := by decide

theorem smallProcess_table : Table smallProcess 0x10200 smallOriginals := by
  have first : descriptorAt smallProcess.memory 0x10200 = ⟨0x390, 0, 0, 0x380, 0x3A0⟩ := by decide
  have last : descriptorAt smallProcess.memory 0x10214 = ⟨0, 0, 0, 0, 0⟩ := by decide
  unfold smallOriginals
  rw [← first, ← last]
  exact .next (smallProcess_readable (by decide) (by decide)) (by decide)
    (.last (smallProcess_readable (by decide) (by decide)) (by decide))

theorem smallProcess_changed {x : UInt32} (changed : Changed (modifierOf smallProcess.memory 0x10000)
    (headersOf smallProcess.memory 0x10000) x) :
    65600 ≤ x.toNat ∧ x.toNat < 65848 ∨ 66320 ≤ x.toNat ∧ x.toNat < 66324 := by
  rcases changed with inside | flags
  · exact .inl inside
  · exact .inr flags.2

theorem smallProcess_imported : Imported smallProcess 0x10000 [] smallOriginals where
  image := {
    executable := smallProcess_executable
    based := by decide
    clr := by
      have headers : headersOf smallProcess.memory 0x10000 = smallHeaders := smallHeaders_read
      rw [headers]
      exact smallProcess_clr
    dos := fun x inside changed => by
      have place := smallProcess_changed changed
      obtain ⟨above, below⟩ := inside
      have base : (0x10000 : UInt32).toNat = 65536 := rfl
      omega }
  lists := by
    refine ⟨[], smallProcess_table, fun x inside changed => ?_, .nil⟩
    have place := smallProcess_changed changed
    have above : (0x10200 : UInt32).toNat ≤ x.toNat := inside.1
    have below : x.toNat < (0x10200 : UInt32).toNat + 40 := inside.2
    have table : (0x10200 : UInt32).toNat = 66048 := rfl
    omega

/-! ## Injections -/

section
variable {mayFail allWell S : Prop} {c : Target} {base : UInt32} {names dlls : List Bytes} {originals : List ImportDescriptor}
  {fuel : Nat}

/-- The DLLs of a call that returns are in front; one that throws has put them there or
    changed nothing of the list. -/
theorem writeIAT_imported {m : IATModifier} (enough : ¬ S → longestTable ≤ fuel)
    (small : 20 * dlls.length + blocksSize dlls < 131072) (imported : Imported c base names originals)
    (set : m = modifierOf c.memory base) (due : allWell → Patchable c m dlls (headersOf c.memory base)) :
    Leads (Answers mayFail) (fun _ t => Imported t base (dlls ++ names) originals)
      (Throws allWell mayFail fun e t =>
        Defined e ∧ (Imported t base names originals ∨ Imported t base (dlls ++ names) originals))
      S (writeIAT fuel m dlls) c := by
  subst set
  refine leads_mono (writeIAT_leads rfl enough small imported.image.clr due) ?_ ?_ id
  · exact fun _ t done => (imported_injected imported.image rfl imported.lists done.injected done.keeps).1
  · rintro e t ⟨⟨defined, kept | ⟨injected, keeps⟩⟩, cause⟩
    · exact ⟨⟨defined, .inl (imported_kept imported kept)⟩, cause⟩
    · exact ⟨⟨defined, .inr (imported_injected imported.image rfl imported.lists injected keeps).1⟩, cause⟩

/-- What a process is like that `inject` cannot but succeed in, if the system does what it can. -/
structure Injectable (c : Target) (processID : UInt32) (dll : Except Stop Bytes) (base : UInt32) : Prop where
  process : processID = c.processID
  path : ∃ path, dll = .ok path ∧ Patchable c (modifierOf c.memory base) [path] (headersOf c.memory base)

/-- From the process handle on: the image imports the DLL, or what it imported before. -/
theorem inject_leads {processID : UInt32} {dll : Except Stop Bytes} {ldtEntry : LdtEntry} (enough : ¬ S → longestTable ≤ fuel)
    (small : ∀ path, dll = .ok path → path.length < 65536) (based : Based c ldtEntry base)
    (imported : Imported c base names originals) (due : allWell → Injectable c processID dll base) :
    Leads (Answers mayFail) (fun _ t => ∃ path, dll = .ok path ∧ Imported t base (path :: names) originals)
      (Throws allWell mayFail fun e t => ((∃ s, dll = .error s ∧ e = .stop s) ∨ Defined e) ∧
        (Imported t base names originals ∨ ∃ path, dll = .ok path ∧ Imported t base (path :: names) originals))
      S (inject fuel processID dll) c := by
  have before : ∀ e, Defined e → ((∃ s, dll = .error s ∧ e = .stop s) ∨ Defined e) ∧
      (Imported c base names originals ∨ ∃ path, dll = .ok path ∧ Imported c base (path :: names) originals) :=
    fun e defined => ⟨.inr defined, .inl imported⟩
  unfold inject
  refine leads_bind (leads_due (fun well => ⟨(), c, (due well).process, rfl⟩) (fun _ => before _ (by simp [Defined])) ?_)
  rintro _ c ⟨_, rfl⟩
  refine leads_bind (leads_due (fun _ => ⟨(), c, rfl⟩) (fun _ => before _ (by simp [Defined])) ?_)
  rintro _ c rfl
  refine leads_bind (leads_mono (getImageBase_leads before fun _ => ⟨ldtEntry, base, based⟩) ?_ (fun _ _ thrown => thrown) id)
  rintro iba c ⟨rfl, ldtEntry', found⟩
  obtain rfl : ldtEntry' = ldtEntry := Option.some.inj (found.selector.symm.trans based.selector)
  obtain rfl : iba = base := found.base.trans based.base.symm
  refine leads_bind (leads_mono (setImageBase_leads before fun _ => imported.image.executable) ?_ (fun _ _ thrown => thrown) id)
  rintro m c ⟨rfl, _, set⟩
  refine leads_bind (leads_lift ?_ ?_)
  · intro path converted
    cases dll with
    | error s => cases converted
    | ok name =>
      obtain rfl : name = path := Except.ok.inj converted
      have short := small name rfl
      refine leads_mono (E := Throws allWell mayFail _) (writeIAT_imported enough ?_ imported set ?_)
        (fun _ _ imports => ⟨name, rfl, imports⟩) ?_ id
      · simp only [blocksSize, blockSize, List.length_singleton]
        omega
      · intro well
        obtain ⟨_, same, patchable⟩ := (due well).path
        cases same
        rw [set]
        exact patchable
      · rintro e t ⟨⟨defined, either⟩, cause⟩
        exact ⟨⟨.inr defined, either.imp_right fun imports => ⟨name, rfl, imports⟩⟩, cause⟩
  · intro e failed
    cases dll with
    | ok name => cases failed
    | error s =>
      obtain rfl : Thrown.stop s = e := Except.error.inj failed
      refine ⟨⟨.inl ⟨s, rfl, rfl⟩, .inl imported⟩, fun well => ?_⟩
      obtain ⟨_, same, _⟩ := (due well).path
      cases same

/-- Where the image can be patched, and the system does what it can do, the injection succeeds. -/
theorem inject_succeeds {processID : UInt32} {dll : Except Stop Bytes} {ldtEntry : LdtEntry} (enough : longestTable ≤ fuel)
    (small : ∀ path, dll = .ok path → path.length < 65536) (based : Based c ldtEntry base)
    (imported : Imported c base names originals) (injectable : Injectable c processID dll base) :
    Leads (Answers False) (fun _ t => ∃ path, dll = .ok path ∧ Imported t base (path :: names) originals)
      (fun _ _ => False) False (inject fuel processID dll) c := by
  refine leads_mono (E := Throws True False _) (inject_leads (fun _ => enough) small based imported fun _ => injectable)
    (fun _ _ done => done) ?_ id
  exact fun e t thrown => thrown.2 trivial

theorem smallProcess_based : Based smallProcess ⟨0x0400, 1, 0⟩ 0x10000 where
  selector := rfl
  block := smallProcess_readable (by decide) (by decide)
  field := smallProcess_readable (by decide) (by decide)
  base := by decide

theorem smallProcess_injectable : Injectable smallProcess 7 (.ok [97]) 0x10000 where
  process := rfl
  path := by
    have sections : (headersOf smallProcess.memory 0x10000).NumberOfSections.toNat = 0 := by decide
    refine ⟨[97], rfl, nofun, by decide, smallProcess_readable (by decide) (by decide),
      ⟨_, smallProcess_table, 0x20000, by decide, by decide, by decide, fun p touches => ?_⟩, fun _ => ?_,
      fun _ => smallProcess_readable (by decide) (by decide)⟩
    · obtain ⟨first, last⟩ := touches
      have place : (0x20000 : UInt32).toNat = 131072 := rfl
      have size : (UInt32.ofNat (20 * ([[97]].length + smallOriginals.length) + blocksSize [[97]])).toNat = 80 := rfl
      obtain rfl : p = 32 := by omega
      rfl
    · rw [sections]
      trivial

theorem inject_succeeds_small :
    Leads (Answers False) (fun _ t => ∃ path, (Except.ok [97] : Except Stop Bytes) = .ok path ∧
        Imported t 0x10000 [path] smallOriginals)
      (fun _ _ => False) False (inject longestTable 7 (.ok [97])) smallProcess :=
  inject_succeeds (Nat.le_refl _) (fun path same => by cases same; decide) smallProcess_based smallProcess_imported
    smallProcess_injectable

end

/-! ## Any number of injections -/

/-- Injections into one image, one after the other, and which of them returned. -/
def attempts (fuel : Nat) (base : UInt32) : List (List Bytes) → Remote (List Bool)
  | [] => .ret []
  | dlls :: rest => do
    let returned ← Prog.catch_
      (do
        let m ← setImageBase base
        writeIAT fuel m dlls
        return true)
      (fun _ => .ret false)
    let others ← attempts fuel base rest
    return returned :: others

/-- A list to which calls that return prepend, and calls that do not may. -/
inductive Prepends : List (List Bytes) → List Bool → List Bytes → List Bytes → Prop
  | nil {names : List Bytes} : Prepends [] [] names names
  | taken {dlls names final : List Bytes} {rest : List (List Bytes)} {returned : Bool} {others : List Bool}
      (later : Prepends rest others (dlls ++ names) final) : Prepends (dlls :: rest) (returned :: others) names final
  | failed {dlls names final : List Bytes} {rest : List (List Bytes)} {others : List Bool}
      (later : Prepends rest others names final) : Prepends (dlls :: rest) (false :: others) names final

section
variable {c : Target} {base : UInt32} {names : List Bytes} {originals : List ImportDescriptor} {fuel : Nat}

/-- One attempt prepends, or it does not return and may have. -/
theorem attempt_leads {dlls : List Bytes} (enough : longestTable ≤ fuel)
    (small : 20 * dlls.length + blocksSize dlls < 131072) (imported : Imported c base names originals) :
    Leads (Answers True) (fun returned t => Imported t base (dlls ++ names) originals ∨
        returned = false ∧ Imported t base names originals)
      (fun _ _ => False) False
      (Prog.catch_ (do
        let m ← setImageBase base
        writeIAT fuel m dlls
        return true) (fun _ => .ret false)) c := by
  refine leads_catch (leads_mono (E := Throws False True fun _ t =>
      Imported t base names originals ∨ Imported t base (dlls ++ names) originals) (leads_bind (leads_mono
    (setImageBase_leads (fun _ _ => .inl imported) False.elim) ?_ (fun _ _ thrown => thrown) id)) (fun _ _ holds => holds) ?_ id)
  · rintro m c ⟨rfl, _, set⟩
    refine leads_bind (leads_mono (writeIAT_imported (fun _ => enough) small imported set False.elim) ?_ ?_ id)
    · exact fun _ t imports => .inl imports
    · exact fun e t thrown => ⟨thrown.1.2, fun well => well.elim⟩
  · rintro e t ⟨kept | imports, _⟩
    · exact .inr ⟨rfl, kept⟩
    · exact .inl imports

/-- Whichever calls the system fails in whichever of them: injections into an image refine
    prepending to the list of the DLLs that it imports. -/
theorem injections_prepend (calls : List (List Bytes)) (enough : longestTable ≤ fuel)
    (small : ∀ dlls ∈ calls, 20 * dlls.length + blocksSize dlls < 131072) (imported : Imported c base names originals) :
    Leads (Answers True) (fun returned t => ∃ final, Prepends calls returned names final ∧ Imported t base final originals)
      (fun _ _ => False) False (attempts fuel base calls) c := by
  induction calls generalizing c names with
  | nil => exact ⟨names, .nil, imported⟩
  | cons dlls rest ih =>
    have later : ∀ {t final}, Imported t base final originals → Leads (Answers True) (fun returned t' =>
        ∃ last, Prepends rest returned final last ∧ Imported t' base last originals) (fun _ _ => False) False
        (attempts fuel base rest) t := fun there => ih (fun dlls member => small dlls (List.mem_cons_of_mem _ member)) there
    refine leads_bind (leads_mono (attempt_leads enough (small dlls List.mem_cons_self) imported) ?_ (fun _ _ never => never) id)
    rintro returned t (taken | ⟨rfl, kept⟩)
    · refine leads_bind (leads_mono (later taken) ?_ (fun _ _ never => never) id)
      rintro others t' ⟨last, prepends, there⟩
      exact ⟨last, .taken prepends, there⟩
    · refine leads_bind (leads_mono (later kept) ?_ (fun _ _ never => never) id)
      rintro others t' ⟨last, prepends, there⟩
      exact ⟨last, .failed prepends, there⟩

theorem injections_prepend_small :
    Leads (Answers True) (fun returned t => ∃ final, Prepends [[[97]], [[98]]] returned [] final ∧
        Imported t 0x10000 final smallOriginals)
      (fun _ _ => False) False (attempts longestTable 0x10000 [[[97]], [[98]]]) smallProcess :=
  injections_prepend [[[97]], [[98]]] (Nat.le_refl _) (by decide) smallProcess_imported

/-- A modifier that is not set anew keeps to the table that it found: the DLLs of its
    first call are not imported any more after its second one. -/
theorem last_write_counts {m : IATModifier} (first second : List Bytes) (enough : longestTable ≤ fuel)
    (firstSmall : 20 * first.length + blocksSize first < 131072) (secondSmall : 20 * second.length + blocksSize second < 131072)
    (imported : Imported c base names originals) (set : m = modifierOf c.memory base) :
    Leads (Answers True) (fun _ t => Imported t base (second ++ names) originals)
      (fun _ t => Imported t base names originals ∨ Imported t base (first ++ names) originals ∨
        Imported t base (second ++ names) originals)
      False (do writeIAT fuel m first; writeIAT fuel m second) c := by
  subst set
  refine leads_bind (leads_mono (E := Throws False True _) (writeIAT_leads rfl (fun _ => enough) firstSmall imported.image.clr
    False.elim) ?_ ?_ id)
  · intro _ t done
    obtain ⟨there, same⟩ := imported_injected imported.image rfl imported.lists done.injected done.keeps
    have old : Lists t (modifierOf c.memory base) (headersOf t.memory base) names originals :=
      lists_keeps ⟨rfl, same.base, same.clr⟩ rfl done.keeps imported.lists
    have headers : ntHeadersAt t.memory (modifierOf c.memory base).ntHeadersAddr_ = headersOf t.memory base := by
      rw [← same.place]
      rfl
    have placed : ClrPlaced t (modifierOf c.memory base) (headersOf t.memory base) :=
      clrPlaced_keeps ⟨same.place.symm, rfl, rfl⟩ (show Keeps (fun _ => False) t t from keeps_refl) there.image.clr
    refine leads_mono (E := Throws False True _) (writeIAT_leads headers (fun _ => enough) secondSmall placed False.elim) ?_ ?_ id
    · exact fun _ t' done => (imported_injected there.image same.place.symm old done.injected done.keeps).1
    · rintro e t' ⟨⟨_, kept | ⟨injected, keeps⟩⟩, _⟩
      · exact .inr (.inl (imported_kept there kept))
      · exact .inr (.inr (imported_injected there.image same.place.symm old injected keeps).1)
  · rintro e t ⟨⟨_, kept | ⟨injected, keeps⟩⟩, _⟩
    · exact .inl (imported_kept imported kept)
    · exact .inr (.inl (imported_injected imported.image rfl imported.lists injected keeps).1)

theorem last_write_counts_small :
    Leads (Answers True) (fun _ t => Imported t 0x10000 [[98]] smallOriginals)
      (fun _ t => Imported t 0x10000 [] smallOriginals ∨ Imported t 0x10000 [[97]] smallOriginals ∨
        Imported t 0x10000 [[98]] smallOriginals)
      False (do writeIAT longestTable ⟨0x10040, 0x10200, 0x28⟩ [[97]]; writeIAT longestTable ⟨0x10040, 0x10200, 0x28⟩ [[98]])
      smallProcess :=
  last_write_counts (m := ⟨0x10040, 0x10200, 0x28⟩) [[97]] [[98]] (Nat.le_refl _) (by decide) (by decide) smallProcess_imported
    (by decide)

end

end Sysintercept.Images
