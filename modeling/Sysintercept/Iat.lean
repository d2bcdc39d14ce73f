import Sysintercept.Buffers
import Sysintercept.Effects
import Sysintercept.Rules

/-!
# The import table of the child

How `Process` and `IATModifier` make the child load the DLL: the remote reads,
allocations, protection changes and writes, each of which the system may fail.
-/
namespace Sysintercept.Iat
open Sysintercept.Units Sysintercept.Rules Sysintercept.Buffers Sysintercept.Effects

/-! ## The records of a portable executable -/

structure DosHeader where
  e_magic : UInt16
  e_lfanew : UInt32
  deriving DecidableEq, Repr

structure DataDirectory where
  VirtualAddress : UInt32
  Size : UInt32
  deriving DecidableEq, Repr

/-- `IMAGE_NT_HEADERS`, as far as it is read or changed. -/
structure NtHeaders where
  Signature : UInt32
  NumberOfSections : UInt16
  SizeOfOptionalHeader : UInt16
  Characteristics : UInt16
  ImageBase : UInt32
  entry_import : DataDirectory
  entry_bound_import : DataDirectory
  entry_iat : DataDirectory
  entry_com_descriptor : DataDirectory
  deriving DecidableEq, Repr

structure ImportDescriptor where
  OriginalFirstThunk : UInt32
  TimeDateStamp : UInt32
  ForwarderChain : UInt32
  Name : UInt32
  FirstThunk : UInt32
  deriving DecidableEq, Repr

structure SectionHeader where
  VirtualAddress : UInt32
  SizeOfRawData : UInt32
  deriving DecidableEq, Repr

structure Cor20Header where
  Flags : UInt32
  deriving DecidableEq, Repr

structure LdtEntry where
  BaseLow : UInt16
  BaseMid : UInt8
  BaseHi : UInt8
  deriving DecidableEq, Repr

structure MemoryBasicInformation where
  BaseAddress : UInt32
  RegionSize : UInt32
  State : UInt32
  deriving DecidableEq, Repr

def IMAGE_DOS_SIGNATURE : UInt16 := 0x5A4D
def IMAGE_NT_SIGNATURE : UInt32 := 0x4550
def IMAGE_FILE_DLL : UInt16 := 0x2000
def IMAGE_ORDINAL_FLAG : UInt32 := 0x80000000
def COMIMAGE_FLAGS_ILONLY : UInt32 := 1
def MEM_FREE : UInt32 := 0x10000
def PAGE_EXECUTE_READWRITE : UInt32 := 0x40
def sizeof_ImportDescriptor : Nat := 20
def sizeof_SectionHeader : UInt32 := 40
def sizeof_NtHeaders : UInt32 := 248
def sizeof_Cor20Header : UInt32 := 72

/-- A DWORD in memory. -/
def dword (v : UInt32) : Bytes := [v.toUInt8, (v >>> 8).toUInt8, (v >>> 16).toUInt8, (v >>> 24).toUInt8]

def ImportDescriptor.bytes (d : ImportDescriptor) : Bytes :=
  dword d.OriginalFirstThunk ++ dword d.TimeDateStamp ++ dword d.ForwarderChain ++ dword d.Name ++ dword d.FirstThunk

/-- The descriptor that ends a table. -/
def ImportDescriptor.Ends (d : ImportDescriptor) : Prop := d.FirstThunk = 0 ∧ d.OriginalFirstThunk = 0

instance (d : ImportDescriptor) : Decidable d.Ends := inferInstanceAs (Decidable (_ ∧ _))

/-! ## The system below -/

/-- The calls to the system; `ReadProcessMemory` and `WriteProcessMemory` by what
    they read or write. -/
inductive Op
  | OpenProcess (dwProcessId : UInt32)
  | DuplicateHandle
  | GetThreadContext
  | GetThreadSelectorEntry (dwSelector : UInt32)
  | ReadPointer (address : UInt32)
  | ReadDosHeader (address : UInt32)
  | ReadNtHeaders (address : UInt32)
  | ReadImportDescriptor (address : UInt32)
  | ReadSectionHeader (address : UInt32)
  | ReadCor20Header (address : UInt32)
  | new_char (size : UInt32)
  | VirtualQueryEx (address : UInt32)
  | VirtualAllocEx (address size : UInt32)
  | VirtualProtectEx (address size protect : UInt32)
  | WriteTable (address : UInt32) (table : Bytes)
  | WriteCor20Header (address : UInt32) (header : Cor20Header)
  | WriteNtHeaders (address : UInt32) (headers : NtHeaders)

def Op.Result : Op → Type
  | .GetThreadContext => UInt32
  | .GetThreadSelectorEntry _ => LdtEntry
  | .ReadPointer _ => UInt32
  | .ReadDosHeader _ => DosHeader
  | .ReadNtHeaders _ => NtHeaders
  | .ReadImportDescriptor _ => ImportDescriptor
  | .ReadSectionHeader _ => SectionHeader
  | .ReadCor20Header _ => Cor20Header
  | .new_char size => { fill : Bytes // fill.length = size.toNat }
  | .VirtualQueryEx _ => MemoryBasicInformation
  | .VirtualProtectEx .. => UInt32
  | _ => Unit

/-- A result, or the error code of a call that failed. -/
abbrev Op.Resp (op : Op) : Type := Except UInt32 op.Result

inductive Thrown
  | ProcessHandleException (what : String)
  | MemoryAccessException (what : String)
  | MemoryQueryException (what : String)
  | MemoryAllocationException (what : String)
  | MemoryProtectException (what : String) (address : UInt32)
  | IATModifierException (what : String)
  | runtime_error (what : String)
  | bad_alloc
  | stop (e : Stop)
  deriving DecidableEq, Repr

abbrev Remote := Prog Op Op.Resp Thrown

/-- A call whose failure throws. -/
def request (op : Op) (thrown : UInt32 → Thrown) : Remote op.Result :=
  .call op (fun
    | .ok result => .ret result
    | .error lastError => .raise (thrown lastError))

/-! ## Process -/

def Process.construct (processID : UInt32) : Remote Unit :=
  request (.OpenProcess processID) (fun lastErr => .ProcessHandleException
    ("Failed to get appropriate process access rights for process id: " ++ toString processID ++
      ", system error code: " ++ toString lastErr))

/-- The copy that `IATModifier` keeps; no thread handle is open. -/
def Process.copy : Remote Unit :=
  request .DuplicateHandle (fun _ => .ProcessHandleException "Failed to duplicate handle!")

def readMemory (op : Op) : Remote op.Result := request op (fun _ => .MemoryAccessException "Read memory failed!")
def writeMemory (op : Op) : Remote op.Result := request op (fun _ => .MemoryAccessException "Write memory failed!")

def queryMemory (address : UInt32) : Remote MemoryBasicInformation :=
  request (.VirtualQueryEx address) (fun _ => .MemoryQueryException "Unable to query memory")

def allocMem (size desiredAddress : UInt32) : Remote Unit :=
  request (.VirtualAllocEx desiredAddress size) (fun _ => .MemoryAllocationException "Failed to allocate memory")

def protectMemory (address size protect : UInt32) : Remote UInt32 :=
  request (.VirtualProtectEx address size protect)
    (fun _ => .MemoryProtectException "Unable to set memory protection" address)

def throwSysError (msg : String) (lastError : UInt32) : Thrown :=
  .runtime_error (msg ++ ", system error was: " ++ toString lastError)

def Process.getImageBase : Remote UInt32 := do
  let SegFs ← request .GetThreadContext (throwSysError "Error while retrieving thread context to determine IBA")
  let ldtEntry ← request (.GetThreadSelectorEntry SegFs)
    (throwSysError "Error while translating FS selector to virtual address")
  let fsVA : UInt32 := ldtEntry.BaseHi.toUInt32 <<< 24 ||| ldtEntry.BaseMid.toUInt32 <<< 16 ||| ldtEntry.BaseLow.toUInt32
  let failed := throwSysError "Error while reading process memory to retrieve image base address"
  let iba : UInt32 ← request (.ReadPointer (fsVA + 0x30)) failed
  request (.ReadPointer (iba + 8)) failed

/-! ## IATModifier -/

structure IATModifier where
  ntHeadersAddr_ : UInt32
  importDescrTblAddr_ : UInt32
  importDescrTblSize_ : UInt32
  deriving DecidableEq, Repr

def setImageBase (address : UInt32) : Remote IATModifier := do
  let dosHeader ← readMemory (.ReadDosHeader address)
  if dosHeader.e_magic ≠ IMAGE_DOS_SIGNATURE then
    .raise (.runtime_error "Error while setting image base address: no DOS signature found")
  else
    let ntHeadersAddr_ := address + dosHeader.e_lfanew
    let ntHeaders ← readMemory (.ReadNtHeaders ntHeadersAddr_)
    if ntHeaders.Signature ≠ IMAGE_NT_SIGNATURE then
      .raise (.runtime_error "Error while setting image base address: no NT signature found")
    else if ntHeaders.Characteristics &&& IMAGE_FILE_DLL ≠ 0 then
      .raise (.runtime_error "Error while setting image base address: not the image base of an executable")
    else if ntHeaders.entry_import.VirtualAddress = 0 then
      .raise (.runtime_error "Error while setting image base address: no import directory existing")
    else
      return {
        ntHeadersAddr_
        importDescrTblAddr_ := ntHeaders.entry_import.VirtualAddress + address
        importDescrTblSize_ := ntHeaders.entry_import.Size }

def pad (val amount : UInt32) : UInt32 := (val + amount) &&& ~~~amount
def padToDword (val : UInt32) : UInt32 := pad val 3

/-- The size of a DLL's path with its terminator, padded. -/
def paddedSize (dll : Bytes) : UInt32 := padToDword (UInt32.ofNat (dll.length + 1))

/-- The size of the table in the child's memory, up to the descriptor that ends it.
    The loops of the source have no bound, so here they get fuel. -/
def determineIIDSize : Nat → UInt32 → UInt32 → Remote UInt32
  | 0, _, _ => .spin
  | fuel + 1, address, count => do
    let iid : ImportDescriptor ← readMemory (.ReadImportDescriptor address)
    if iid.Ends then return (count + 1) * UInt32.ofNat sizeof_ImportDescriptor
    else determineIIDSize fuel (address + UInt32.ofNat sizeof_ImportDescriptor) (count + 1)

/-- Tries the addresses of one free region in allocation granularity steps. -/
def bruteForceRegion (size regionEnd : UInt32) : Nat → UInt32 → Remote (Option UInt32)
  | 0, _ => .spin
  | fuel + 1, bruteForce =>
    if bruteForce < regionEnd then do
      let found ← Prog.catch_
        (do
          let _ ← allocMem size bruteForce
          return some bruteForce)
        (fun
          | .MemoryAllocationException _ => .ret none
          | e => .raise e)
      match found with
      | some address => return some address
      | none => bruteForceRegion size regionEnd fuel (bruteForce + 0x10000)
    else return none

def walkRegions (size : UInt32) : Nat → UInt32 → Remote UInt32
  | 0, _ => .spin
  | fuel + 1, currentAddress => do
    let mbi ← queryMemory currentAddress
    let regionEnd := mbi.BaseAddress + mbi.RegionSize
    if mbi.State ≠ MEM_FREE then walkRegions size fuel regionEnd
    else
      let found ← bruteForceRegion size regionEnd fuel (pad currentAddress 0xFFFF)
      match found with
      | some address => return address
      | none => walkRegions size fuel regionEnd

/-- NULL where no address is free. -/
def allocateMemAboveBase (fuel : Nat) (baseAddress size : UInt32) : Remote UInt32 :=
  Prog.catch_ (walkRegions size fuel baseAddress) (fun
    | .MemoryQueryException _ => .ret 0
    | e => .raise e)

/-- A write into the new table; one behind its end is undefined. -/
def store (newDescrTbl : Bytes) (offset : Nat) (bytes : Bytes) : Remote Bytes :=
  if offset + bytes.length ≤ newDescrTbl.length then .ret (poke newDescrTbl offset bytes) else .raise (.stop .fault)

/-- Step 1: the descriptors of the DLLs. -/
def prependDescriptors : List Bytes → Nat → UInt32 → Bytes → Remote Bytes
  | [], _, _, newDescrTbl => .ret newDescrTbl
  | dll :: dlls, offset, currentRVA, newDescrTbl => do
    let currentIDD : ImportDescriptor := {
      OriginalFirstThunk := currentRVA
      TimeDateStamp := 0
      ForwarderChain := 0
      Name := currentRVA + 16
      FirstThunk := currentRVA }
    let newDescrTbl ← store newDescrTbl offset currentIDD.bytes
    prependDescriptors dlls (offset + sizeof_ImportDescriptor) (currentRVA + 16 + paddedSize dll) newDescrTbl

/-- Step 2: the old descriptors, the ending one included. -/
def copyDescriptors : Nat → UInt32 → Nat → Bytes → Remote Bytes
  | 0, _, _, _ => .spin
  | fuel + 1, descrAddr, offset, newDescrTbl => do
    let iid : ImportDescriptor ← readMemory (.ReadImportDescriptor descrAddr)
    let newDescrTbl ← store newDescrTbl offset iid.bytes
    if iid.Ends then return newDescrTbl
    else copyDescriptors fuel (descrAddr + UInt32.ofNat sizeof_ImportDescriptor) (offset + sizeof_ImportDescriptor) newDescrTbl

/-- The thunks that make a DLL export its ordinal 1. -/
def thunks : Bytes := dword (IMAGE_ORDINAL_FLAG ||| 1) ++ dword 0 ++ dword (IMAGE_ORDINAL_FLAG ||| 1) ++ dword 0

/-- Step 3: thunks and path of each DLL. -/
def buildBlocks : List Bytes → Nat → Bytes → Remote Bytes
  | [], _, newDescrTbl => .ret newDescrTbl
  | dll :: dlls, curBlock, newDescrTbl => do
    let newDescrTbl ← store newDescrTbl curBlock thunks
    let newDescrTbl ← store newDescrTbl (curBlock + 16) (narrow_c_str dll)
    buildBlocks dlls (curBlock + 16 + (paddedSize dll).toNat) newDescrTbl

/-- The IAT entry is set to the last section that holds the import directory. -/
def searchSections (ntHeaders : NtHeaders) : Nat → UInt32 → DataDirectory → Remote DataDirectory
  | 0, _, entry_iat => .ret entry_iat
  | n + 1, sectionHdrAddr, entry_iat => do
    let ish ← readMemory (.ReadSectionHeader sectionHdrAddr)
    let directory := ntHeaders.entry_import.VirtualAddress
    searchSections ntHeaders n (sectionHdrAddr + sizeof_SectionHeader)
      (if directory ≥ ish.VirtualAddress ∧ directory < ish.VirtualAddress + ish.SizeOfRawData then
        ⟨ish.VirtualAddress, ish.SizeOfRawData⟩
      else entry_iat)

/-- A missing IAT entry is filled in from the sections. -/
def fillIat (m : IATModifier) (ntHeaders : NtHeaders) : Remote DataDirectory :=
  if ntHeaders.entry_iat.VirtualAddress = 0 then
    searchSections ntHeaders ntHeaders.NumberOfSections.toNat
      (m.ntHeadersAddr_ + 24 + ntHeaders.SizeOfOptionalHeader.toUInt32) ntHeaders.entry_iat
  else .ret ntHeaders.entry_iat

/-- A bound import directory that is there is cleared. -/
def clearBound (entry_bound_import : DataDirectory) : DataDirectory :=
  if entry_bound_import.VirtualAddress ≠ 0xFFFFFFFF ∧ entry_bound_import.VirtualAddress ≠ 0 then ⟨0, 0⟩
  else entry_bound_import

/-- The headers as they are to be: they point to the new table. -/
def relinked (ntHeaders : NtHeaders) (entry_iat entry_import : DataDirectory) : NtHeaders :=
  { ntHeaders with
    entry_iat
    entry_import
    entry_bound_import := clearBound ntHeaders.entry_bound_import }

/-- The flag of pure IL images is taken away, as these are checked more strictly. -/
def clearILOnly (iba : UInt32) (ntHeaders : NtHeaders) : Remote Unit :=
  if ntHeaders.entry_com_descriptor.VirtualAddress ≠ 0 then do
    let comDescriptorAddr := ntHeaders.entry_com_descriptor.VirtualAddress + iba
    let cor20Header ← readMemory (.ReadCor20Header comDescriptorAddr)
    if cor20Header.Flags ||| COMIMAGE_FLAGS_ILONLY ≠ 0 then
      let oldProtect ← protectMemory comDescriptorAddr sizeof_Cor20Header PAGE_EXECUTE_READWRITE
      let _ ← writeMemory (.WriteCor20Header comDescriptorAddr ⟨cor20Header.Flags &&& ~~~COMIMAGE_FLAGS_ILONLY⟩)
      let _ ← protectMemory comDescriptorAddr sizeof_Cor20Header oldProtect
      return ()
    else return ()
  else .ret ()

/-- The size of everything in the new table but the old descriptors. -/
def customDataSize (dlls : List Bytes) : UInt32 :=
  dlls.foldl (fun size dll => size + paddedSize dll) (UInt32.ofNat dlls.length * UInt32.ofNat sizeof_ImportDescriptor) +
    4 * 4 * UInt32.ofNat dlls.length

def writeIAT (fuel : Nat) (m : IATModifier) (dlls : List Bytes) : Remote Unit :=
  if dlls = [] then .raise (.IATModifierException "DLL path list must not be empty")
  else if m.importDescrTblAddr_ = 0 then .raise (.IATModifierException "Import descriptor must not be NULL")
  else do
    let ntHeaders ← readMemory (.ReadNtHeaders m.ntHeadersAddr_)
    let origIIDTblSize ← determineIIDSize fuel m.importDescrTblAddr_ 0
    let newDescrTblSize := customDataSize dlls + origIIDTblSize
    let newDescrTbl ← request (.new_char newDescrTblSize) (fun _ => .bad_alloc)
    let iba := ntHeaders.ImageBase
    let newDescrTblAddress ← allocateMemAboveBase fuel iba newDescrTblSize
    let ownSize := UInt32.ofNat dlls.length * UInt32.ofNat sizeof_ImportDescriptor
    let newTblRVA := newDescrTblAddress - iba + origIIDTblSize + ownSize
    let newDescrTbl ← prependDescriptors dlls 0 newTblRVA newDescrTbl.val
    let newDescrTbl ← copyDescriptors fuel m.importDescrTblAddr_ (dlls.length * sizeof_ImportDescriptor) newDescrTbl
    let newDescrTbl ← buildBlocks dlls (origIIDTblSize + ownSize).toNat newDescrTbl
    let entry_iat ← fillIat m ntHeaders
    let _ ← writeMemory (.WriteTable newDescrTblAddress newDescrTbl)
    let newIIDRVA := newDescrTblAddress - iba
    let ntHeaders := relinked ntHeaders entry_iat ⟨newIIDRVA, newDescrTblSize⟩
    clearILOnly iba ntHeaders
    let oldProtect ← protectMemory m.ntHeadersAddr_ sizeof_NtHeaders PAGE_EXECUTE_READWRITE
    let _ ← writeMemory (.WriteNtHeaders m.ntHeadersAddr_ ntHeaders)
    let _ ← protectMemory m.ntHeadersAddr_ sizeof_NtHeaders oldProtect
    return ()

/-- From the process handle to the patched image. -/
def inject (fuel : Nat) (processID : UInt32) (dll : Except Stop Bytes) : Remote Unit := do
  Process.construct processID
  Process.copy
  let imageBase ← Process.getImageBase
  let iat_modifier ← setImageBase imageBase
  let dll ← Prog.lift (dll.mapError .stop)
  writeIAT fuel iat_modifier [dll]

end Sysintercept.Iat
