import Sysintercept.Iat

/-!
# What the child's image has been given

Whatever the system answers or fails on the way: when `writeIAT` returns, a table
that imports the DLL in front of the original descriptors is in the child, and
its headers point there.
-/
namespace Sysintercept.Patching
open Sysintercept.Units Sysintercept.Rules Sysintercept.Buffers Sysintercept.Effects Sysintercept.Iat

/-- The import descriptors in an image from an address on, up to the first that
    ends a table. -/
inductive Descriptors (image : UInt32 → ImportDescriptor) : UInt32 → List ImportDescriptor → Prop
  | last {a : UInt32} (ends : (image a).Ends) : Descriptors image a [image a]
  | next {a : UInt32} {ds : List ImportDescriptor} (goesOn : ¬ (image a).Ends)
      (rest : Descriptors image (a + UInt32.ofNat sizeof_ImportDescriptor) ds) : Descriptors image a (image a :: ds)

/-- What a suspended image holds does not change between two reads. -/
def Stable (image : UInt32 → ImportDescriptor) : (op : Op) → op.Resp → Prop
  | .ReadImportDescriptor address, .ok d => d = image address
  | _, _ => True

/-- A table that imports the DLL in front of the original descriptors; `rva` is
    its address relative to the image. -/
structure ImportTable (table : Bytes) (rva : UInt32) (dll : Bytes) (originals : List ImportDescriptor) : Prop where
  own : peek table 0 sizeof_ImportDescriptor =
    ImportDescriptor.bytes ⟨rva + UInt32.ofNat (20 * (originals.length + 1)), 0, 0,
      rva + UInt32.ofNat (20 * (originals.length + 1) + 16), rva + UInt32.ofNat (20 * (originals.length + 1))⟩
  kept : ∀ j d, originals[j]? = some d → peek table (20 * (j + 1)) sizeof_ImportDescriptor = d.bytes
  thunk : peek table (20 * (originals.length + 1)) 16 = thunks
  name : peek table (20 * (originals.length + 1) + 16) (dll.length + 1) = narrow_c_str dll

/-- The modifier was set to an executable's image base. -/
def SetTo (m : IATModifier) (imageBase : UInt32) (h : List (Event Op Op.Resp)) : Prop :=
  ∃ dosHeader : DosHeader, ∃ ntHeaders : NtHeaders,
    ⟨.ReadDosHeader imageBase, .ok dosHeader⟩ ∈ h ∧ dosHeader.e_magic = IMAGE_DOS_SIGNATURE ∧
    m.ntHeadersAddr_ = imageBase + dosHeader.e_lfanew ∧
    ⟨.ReadNtHeaders m.ntHeadersAddr_, .ok ntHeaders⟩ ∈ h ∧ ntHeaders.Signature = IMAGE_NT_SIGNATURE ∧
    m.importDescrTblAddr_ = ntHeaders.entry_import.VirtualAddress + imageBase

/-- A patch whose every write was done: the new table is in the child, and then
    the headers that point to it were written, between two protection changes. -/
structure Patch (image : UInt32 → ImportDescriptor) (dll : Bytes) (h : List (Event Op Op.Resp)) where
  m : IATModifier
  imageBase : UInt32
  set : SetTo m imageBase h
  originals : List ImportDescriptor
  descriptors : Descriptors image m.importDescrTblAddr_ originals
  ntHeaders : NtHeaders
  tableAddress : UInt32
  table : Bytes
  imports : ImportTable table (tableAddress - ntHeaders.ImageBase) dll originals
  written : ⟨.WriteTable tableAddress table, .ok ()⟩ ∈ h
  points : ntHeaders.entry_import = ⟨tableAddress - ntHeaders.ImageBase, UInt32.ofNat table.length⟩
  oldProtect : UInt32
  protectedAgain : UInt32
  before : List (Event Op Op.Resp)
  last : h = before ++ [⟨.VirtualProtectEx m.ntHeadersAddr_ sizeof_NtHeaders PAGE_EXECUTE_READWRITE, .ok oldProtect⟩,
    ⟨.WriteNtHeaders m.ntHeadersAddr_ ntHeaders, .ok ()⟩,
    ⟨.VirtualProtectEx m.ntHeadersAddr_ sizeof_NtHeaders oldProtect, .ok protectedAgain⟩]

def Patched (image : UInt32 → ImportDescriptor) (dll : Bytes) (h : List (Event Op Op.Resp)) : Prop :=
  Nonempty (Patch image dll h)

section
variable {admits : (op : Op) → op.Resp → Prop} {α : Type} {R : α → List (Event Op Op.Resp) → Prop}
  {h : List (Event Op Op.Resp)}

theorem ensures_request {op : Op} {thrown : UInt32 → Thrown} {f : op.Result → Remote α}
    (rest : ∀ result, admits op (.ok result) → Ensures admits R (h ++ [⟨op, .ok result⟩]) (f result)) :
    Ensures admits R h (request op thrown >>= f) := by
  intro r admitted
  cases r with
  | error lastError => trivial
  | ok result => exact rest result admitted

theorem ensures_store {newDescrTbl bytes : Bytes} {offset : Nat} {f : Bytes → Remote α}
    (rest : offset + bytes.length ≤ newDescrTbl.length → Ensures admits R h (f (poke newDescrTbl offset bytes))) :
    Ensures admits R h (store newDescrTbl offset bytes >>= f) := by
  unfold store
  by_cases fits : offset + bytes.length ≤ newDescrTbl.length
  · rw [if_pos fits]
    exact rest fits
  · rw [if_neg fits]
    trivial

end

theorem dword_length (v : UInt32) : (dword v).length = 4 := by
  simp [dword]

theorem descriptor_length (d : ImportDescriptor) : d.bytes.length = sizeof_ImportDescriptor := by
  simp [ImportDescriptor.bytes, dword_length, sizeof_ImportDescriptor]

theorem thunks_length : thunks.length = 16 := by
  simp [thunks, dword_length]

theorem descriptors_unique {image : UInt32 → ImportDescriptor} {a : UInt32} {ds ds' : List ImportDescriptor}
    (first : Descriptors image a ds) (second : Descriptors image a ds') : ds = ds' := by
  induction first generalizing ds' with
  | last ends =>
    cases second with
    | last => rfl
    | next goesOn => exact absurd ends goesOn
  | next goesOn _ ih =>
    cases second with
    | last ends => exact absurd ends goesOn
    | next _ rest => rw [ih rest]

/-- The first pass over the table counts its descriptors. -/
theorem determineIIDSize_ensures (image : UInt32 → ImportDescriptor) (fuel : Nat) (a count : UInt32)
    (h : List (Event Op Op.Resp)) :
    Ensures (Stable image) (fun size h' => h <+: h' ∧ ∃ ds, Descriptors image a ds ∧
      size = (count + UInt32.ofNat ds.length) * UInt32.ofNat sizeof_ImportDescriptor) h (determineIIDSize fuel a count) := by
  induction fuel generalizing a count h with
  | zero => trivial
  | succ fuel ih =>
    refine ensures_request fun iid stable => ?_
    obtain rfl : iid = image a := stable
    by_cases ends : (image a).Ends
    · rw [if_pos ends]
      exact ⟨List.prefix_append _ _, [image a], .last ends, rfl⟩
    · rw [if_neg ends]
      refine ensures_mono (ih _ _ _) ?_
      rintro size h' ⟨longer, ds, rest, counted⟩
      refine ⟨(List.prefix_append _ _).trans longer, image a :: ds, .next ends rest, ?_⟩
      rw [counted, List.length_cons, UInt32.ofNat_add]
      congr 1
      have one : UInt32.ofNat 1 = 1 := rfl
      rw [one]
      ac_rfl

/-- Descriptors copied one behind the other into a buffer, which is as before elsewhere. -/
structure Copied (tbl : Bytes) (offset : Nat) (ds : List ImportDescriptor) (tbl' : Bytes) : Prop where
  length : tbl'.length = tbl.length
  fits : offset + 20 * ds.length ≤ tbl.length
  copies : ∀ j d, ds[j]? = some d → peek tbl' (offset + 20 * j) sizeof_ImportDescriptor = d.bytes
  apart : ∀ other n, other + n ≤ offset ∨ offset + 20 * ds.length ≤ other → peek tbl' other n = peek tbl other n

theorem copied_one {tbl : Bytes} {offset : Nat} {d : ImportDescriptor} (fits : offset + d.bytes.length ≤ tbl.length) :
    Copied tbl offset [d] (poke tbl offset d.bytes) := by
  have size := descriptor_length d
  simp only [sizeof_ImportDescriptor] at size
  refine ⟨poke_length fits, by rw [size] at fits; simpa using fits, ?_, ?_⟩
  · intro j d' member
    cases j with
    | zero =>
      obtain rfl : d = d' := by simpa using member
      have same := peek_poke_same fits
      rw [size] at same
      exact same
    | succ j => simp at member
  · intro other n apart
    refine peek_poke_apart fits ?_
    rw [size]
    simpa using apart

theorem copied_cons {tbl middle tbl' : Bytes} {offset : Nat} {d : ImportDescriptor} {ds : List ImportDescriptor}
    (first : Copied tbl offset [d] middle) (rest : Copied middle (offset + 20) ds tbl') :
    Copied tbl offset (d :: ds) tbl' := by
  refine ⟨rest.length.trans first.length, ?_, ?_, ?_⟩
  · have fits := rest.fits
    rw [first.length] at fits
    rw [List.length_cons]
    omega
  · intro j d' member
    cases j with
    | zero =>
      obtain rfl : d = d' := by simpa using member
      rw [rest.apart _ _ (.inl (by simp [sizeof_ImportDescriptor]))]
      exact first.copies 0 d rfl
    | succ j =>
      have there := rest.copies j d' (by simpa using member)
      rw [show offset + 20 * (j + 1) = offset + 20 + 20 * j by omega]
      exact there
  · intro other n apart
    rw [List.length_cons] at apart
    rw [rest.apart other n (by omega), first.apart other n (by simp only [List.length_singleton]; omega)]

/-- The second pass copies them. -/
theorem copyDescriptors_ensures (image : UInt32 → ImportDescriptor) (fuel : Nat) (a : UInt32) (offset : Nat) (tbl : Bytes)
    (h : List (Event Op Op.Resp)) :
    Ensures (Stable image) (fun tbl' h' => h <+: h' ∧ ∃ ds, Descriptors image a ds ∧ Copied tbl offset ds tbl') h
      (copyDescriptors fuel a offset tbl) := by
  induction fuel generalizing a offset tbl h with
  | zero => trivial
  | succ fuel ih =>
    refine ensures_request fun iid stable => ?_
    obtain rfl : iid = image a := stable
    refine ensures_store fun fits => ?_
    have first := copied_one fits
    by_cases ends : (image a).Ends
    · rw [if_pos ends]
      exact ⟨List.prefix_append _ _, [image a], .last ends, first⟩
    · rw [if_neg ends]
      refine ensures_mono (ih _ _ _ _) ?_
      rintro tbl' h' ⟨longer, ds, rest, copied⟩
      exact ⟨(List.prefix_append _ _).trans longer, image a :: ds, .next ends rest, copied_cons first copied⟩

/-- The size of the old descriptors and the one in front of them. -/
theorem size_eq (n : Nat) :
    (0 + UInt32.ofNat n) * UInt32.ofNat sizeof_ImportDescriptor + UInt32.ofNat 1 * UInt32.ofNat sizeof_ImportDescriptor =
      UInt32.ofNat (20 * (n + 1)) := by
  have spread : UInt32.ofNat (20 * (n + 1)) = UInt32.ofNat n * UInt32.ofNat 20 + UInt32.ofNat 1 * UInt32.ofNat 20 := by
    rw [← UInt32.ofNat_mul, ← UInt32.ofNat_mul, ← UInt32.ofNat_add]
    congr 1
    omega
  rw [spread, UInt32.zero_add]
  rfl

/-- The three steps build a table that imports the DLL in front of the originals. -/
theorem importTable_built {fill copied : Bytes} {rva : UInt32} {dll : Bytes} {ds : List ImportDescriptor} {at_ : Nat}
    (offset : at_ = 20 * (ds.length + 1)) {own : ImportDescriptor}
    (shape : own = ⟨rva + UInt32.ofNat at_, 0, 0, rva + UInt32.ofNat at_ + 16, rva + UInt32.ofNat at_⟩)
    (first : 0 + own.bytes.length ≤ fill.length) (second : Copied (poke fill 0 own.bytes) 20 ds copied)
    (third : at_ + thunks.length ≤ copied.length)
    (fourth : at_ + 16 + (narrow_c_str dll).length ≤ (poke copied at_ thunks).length) :
    ImportTable (poke (poke copied at_ thunks) (at_ + 16) (narrow_c_str dll)) rva dll ds ∧
      (poke (poke copied at_ thunks) (at_ + 16) (narrow_c_str dll)).length = fill.length := by
  have ownSize := descriptor_length own
  simp only [sizeof_ImportDescriptor] at ownSize
  have thunksSize := thunks_length
  -- What lies in front of the blocks is not touched by writing them.
  have front : ∀ other n, other + n ≤ at_ →
      peek (poke (poke copied at_ thunks) (at_ + 16) (narrow_c_str dll)) other n = peek copied other n := by
    intro other n before
    rw [peek_poke_apart fourth (.inl (by omega)), peek_poke_apart third (.inl before)]
  refine ⟨⟨?_, ?_, ?_, ?_⟩, ?_⟩
  · rw [front 0 _ (by simp only [sizeof_ImportDescriptor]; omega), second.apart 0 _ (.inl (by simp [sizeof_ImportDescriptor]))]
    have same := peek_poke_same first
    rw [ownSize] at same
    have name : rva + UInt32.ofNat at_ + 16 = rva + UInt32.ofNat (at_ + 16) := by
      rw [UInt32.ofNat_add, UInt32.add_assoc]
      rfl
    rw [name] at shape
    rw [← offset, ← shape]
    exact same
  · intro j d member
    have within : j < ds.length := (List.getElem?_eq_some_iff.mp member).1
    rw [front _ _ (by simp only [sizeof_ImportDescriptor]; omega), show 20 * (j + 1) = 20 + 20 * j by omega]
    exact second.copies j d member
  · rw [← offset, peek_poke_apart fourth (.inl (by omega)), ← thunksSize]
    exact peek_poke_same third
  · have same := peek_poke_same fourth
    rw [← offset]
    simpa [narrow_c_str] using same
  · rw [poke_length fourth, poke_length third, second.length, poke_length first]

theorem setTo_extends {m : IATModifier} {imageBase : UInt32} {h h' : List (Event Op Op.Resp)} (longer : h <+: h')
    (set : SetTo m imageBase h) : SetTo m imageBase h' := by
  obtain ⟨dosHeader, ntHeaders, dosRead, dos, headers, ntRead, nt, table⟩ := set
  exact ⟨dosHeader, ntHeaders, longer.subset dosRead, dos, headers, longer.subset ntRead, nt, table⟩

/-- Whatever the system answers or fails: when `writeIAT` returns, the patch is complete. -/
theorem writeIAT_ensures (image : UInt32 → ImportDescriptor) (fuel : Nat) {m : IATModifier} {imageBase : UInt32}
    {h : List (Event Op Op.Resp)} (set : SetTo m imageBase h) (dll : Bytes) :
    Ensures (Stable image) (fun _ h' => Patched image dll h') h (writeIAT fuel m [dll]) := by
  unfold writeIAT
  rw [if_neg (by simp)]
  by_cases null : m.importDescrTblAddr_ = 0
  · rw [if_pos null]
    trivial
  rw [if_neg null]
  refine ensures_request fun ntHeaders _ => ?_
  refine ensures_bind (ensures_mono (determineIIDSize_ensures image fuel _ 0 _) ?_)
  rintro origIIDTblSize h₁ ⟨longer₁, ds, descriptors, sized⟩
  refine ensures_request fun fill _ => ?_
  refine ensures_any fun tableAddress h₂ longer₂ => ?_
  refine ensures_bind (ensures_store fun first => ?_)
  refine ensures_bind (ensures_mono (copyDescriptors_ensures image fuel _ _ _ _) ?_)
  rintro copied h₃ ⟨longer₃, ds', descriptors', second⟩
  obtain rfl := descriptors_unique descriptors descriptors'
  refine ensures_bind (ensures_store fun third => ensures_store fun fourth => ?_)
  refine ensures_any fun entry_iat h₄ longer₄ => ?_
  refine ensures_request fun _ _ => ?_
  refine ensures_any fun _ h₅ longer₅ => ?_
  refine ensures_request fun oldProtect _ => ensures_request fun _ _ => ensures_request fun protectedAgain _ => ?_
  have copies : Copied _ 20 ds copied := second
  have whole : 20 * (ds.length + 1) < 2 ^ 32 := by
    have fits := copies.fits
    have room := fill.property
    have bound := (customDataSize [dll] + origIIDTblSize).toNat_lt
    rw [poke_length first] at fits
    omega
  have blocks : origIIDTblSize + UInt32.ofNat 1 * UInt32.ofNat sizeof_ImportDescriptor = UInt32.ofNat (20 * (ds.length + 1)) := by
    rw [sized, size_eq]
  have offset : (origIIDTblSize + UInt32.ofNat 1 * UInt32.ofNat sizeof_ImportDescriptor).toNat = 20 * (ds.length + 1) := by
    rw [blocks, UInt32.toNat_ofNat_of_lt' whole]
  have shape : tableAddress - ntHeaders.ImageBase + origIIDTblSize +
      UInt32.ofNat 1 * UInt32.ofNat sizeof_ImportDescriptor = tableAddress - ntHeaders.ImageBase +
        UInt32.ofNat (origIIDTblSize + UInt32.ofNat 1 * UInt32.ofNat sizeof_ImportDescriptor).toNat := by
    rw [UInt32.ofNat_toNat, UInt32.add_assoc]
  obtain ⟨imports, length⟩ := importTable_built offset (by rw [← shape]; rfl) first copies third fourth
  have atTheEnd : h <+: h₅ :=
    (List.prefix_append _ _).trans (longer₁.trans ((List.prefix_append _ _).trans (longer₂.trans (longer₃.trans
      (longer₄.trans ((List.prefix_append _ _).trans longer₅))))))
  refine ⟨{
    m
    imageBase
    set := setTo_extends (atTheEnd.trans ?_) set
    originals := ds
    descriptors
    ntHeaders := relinked ntHeaders entry_iat ⟨tableAddress - ntHeaders.ImageBase, customDataSize [dll] + origIIDTblSize⟩
    tableAddress
    table := _
    imports
    written := ?_
    points := ?_
    oldProtect
    protectedAgain
    before := h₅
    last := by rw [List.append_assoc, List.append_assoc]; rfl }⟩
  · rw [List.append_assoc, List.append_assoc]
    exact List.prefix_append _ _
  · have there := longer₅.subset (List.mem_append_right _ (List.mem_singleton.mpr rfl))
    exact List.mem_append_left _ (List.mem_append_left _ (List.mem_append_left _ there))
  · rw [length, fill.property, UInt32.ofNat_toNat]
    rfl

theorem setImageBase_ensures {admits : (op : Op) → op.Resp → Prop} (address : UInt32) (h : List (Event Op Op.Resp)) :
    Ensures admits (fun m h' => SetTo m address h') h (setImageBase address) := by
  unfold setImageBase
  refine ensures_request fun dosHeader _ => ?_
  by_cases dos : dosHeader.e_magic ≠ IMAGE_DOS_SIGNATURE
  · rw [if_pos dos]
    trivial
  rw [if_neg dos]
  refine ensures_request fun ntHeaders _ => ?_
  by_cases nt : ntHeaders.Signature ≠ IMAGE_NT_SIGNATURE
  · rw [if_pos nt]
    trivial
  rw [if_neg nt]
  by_cases library : ntHeaders.Characteristics &&& IMAGE_FILE_DLL ≠ 0
  · rw [if_pos library]
    trivial
  rw [if_neg library]
  by_cases missing : ntHeaders.entry_import.VirtualAddress = 0
  · rw [if_pos missing]
    trivial
  rw [if_neg missing]
  exact ⟨dosHeader, ntHeaders, by simp, Decidable.not_not.mp dos, rfl, by simp, Decidable.not_not.mp nt, rfl⟩

/-- When the injection returns, the DLL's path was converted and the image patched with it. -/
theorem inject_ensures (image : UInt32 → ImportDescriptor) (fuel : Nat) (processID : UInt32) (dll : Except Stop Bytes) :
    Ensures (Stable image) (fun _ h => ∃ path, dll = .ok path ∧ Patched image path h) [] (inject fuel processID dll) := by
  unfold inject
  refine ensures_any fun _ h₁ _ => ensures_any fun _ h₂ _ => ensures_any fun imageBase h₃ _ => ?_
  refine ensures_bind (ensures_mono (setImageBase_ensures imageBase h₃) fun m h₄ set => ?_)
  refine ensures_lift fun path converted => ?_
  cases dll with
  | error e => cases converted
  | ok name =>
    have same : name = path := Except.ok.inj converted
    exact ensures_mono (writeIAT_ensures image fuel set path) (fun _ _ patched => ⟨path, by rw [same], patched⟩)

end Sysintercept.Patching
