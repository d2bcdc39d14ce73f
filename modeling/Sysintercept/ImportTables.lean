import Mathlib.Data.List.Forall2
import Sysintercept.Patching
import Sysintercept.Searching

/-!
# Import tables

The table that `writeIAT` builds for any list of DLLs: the bytes that its three
steps put into the buffer, and the table that is found where these bytes are in
the memory of a process.
-/
namespace Sysintercept.ImportTables
open Sysintercept.Units Sysintercept.AddressSpace Sysintercept.Records Sysintercept.Buffers Sysintercept.Effects
open Sysintercept.Iat Sysintercept.Patching Sysintercept.Targets Sysintercept.Searching

/-! ## The layout -/

/-- The descriptors of DLLs whose blocks lie one behind the other from an address
    relative to the image on. -/
def ownDescriptors : List Bytes → UInt32 → List ImportDescriptor
  | [], _ => []
  | dll :: dlls, rva => ⟨rva, 0, 0, rva + 16, rva⟩ :: ownDescriptors dlls (rva + 16 + paddedSize dll)

/-- Descriptors one behind the other. -/
def tableBytes (ds : List ImportDescriptor) : Bytes := ds.flatMap ImportDescriptor.bytes

/-- The thunks of a DLL and its path, padded. -/
def blockSize (dll : Bytes) : Nat := 16 + (dll.length + 4) / 4 * 4

def blocksSize : List Bytes → Nat
  | [] => 0
  | dll :: dlls => blockSize dll + blocksSize dlls

/-- Thunks and path of each DLL, from an offset on. -/
def Blocks (tbl : Bytes) : Nat → List Bytes → Prop
  | _, [] => True
  | offset, dll :: dlls =>
    peek tbl offset 16 = thunks ∧ peek tbl (offset + 16) (dll.length + 1) = narrow_c_str dll ∧
      Blocks tbl (offset + blockSize dll) dlls

@[simp] theorem ownDescriptors_length (dlls : List Bytes) (rva : UInt32) : (ownDescriptors dlls rva).length = dlls.length := by
  induction dlls generalizing rva with
  | nil => rfl
  | cons dll dlls ih => simp [ownDescriptors, ih]

@[simp] theorem tableBytes_cons (d : ImportDescriptor) (ds : List ImportDescriptor) :
    tableBytes (d :: ds) = d.bytes ++ tableBytes ds := rfl

@[simp] theorem tableBytes_length (ds : List ImportDescriptor) : (tableBytes ds).length = 20 * ds.length := by
  induction ds with
  | nil => rfl
  | cons d ds ih =>
    rw [tableBytes_cons, List.length_append, ih, descriptor_length, List.length_cons]
    simp only [sizeof_ImportDescriptor]
    omega

theorem tableBytes_append (ds ds' : List ImportDescriptor) : tableBytes (ds ++ ds') = tableBytes ds ++ tableBytes ds' :=
  List.flatMap_append

/-- What the path of a DLL takes, as the code computes it. -/
theorem paddedSize_toNat {dll : Bytes} (fits : blockSize dll < 4294967296) :
    (paddedSize dll).toNat = (dll.length + 4) / 4 * 4 := by
  unfold blockSize at fits
  have length : (UInt32.ofNat (dll.length + 1)).toNat = dll.length + 1 := UInt32.toNat_ofNat_of_lt' (by
    show dll.length + 1 < 4294967296
    omega)
  unfold paddedSize
  rw [padToDword_toNat (by omega), length]

theorem paddedSize_block {dll : Bytes} (fits : blockSize dll < 4294967296) (n : Nat) :
    n + 16 + (paddedSize dll).toNat = n + blockSize dll := by
  rw [paddedSize_toNat fits, blockSize]
  omega

/-! ## The three steps -/

theorem store_bind {α : Type} {tbl bytes : Bytes} {offset : Nat} {f : Bytes → Remote α}
    (fits : offset + bytes.length ≤ tbl.length) : (store tbl offset bytes >>= f) = f (poke tbl offset bytes) := by
  unfold store
  rw [if_pos fits]
  rfl

/-- Step 1, where there is room. -/
theorem prependDescriptors_eq {dlls : List Bytes} {offset : Nat} {rva : UInt32} {tbl : Bytes}
    (fits : offset + 20 * dlls.length ≤ tbl.length) :
    prependDescriptors dlls offset rva tbl = .ret (poke tbl offset (tableBytes (ownDescriptors dlls rva))) := by
  induction dlls generalizing offset rva tbl with
  | nil =>
    show Prog.ret tbl = Prog.ret (poke tbl offset [])
    rw [poke_nil]
  | cons dll dlls ih =>
    rw [List.length_cons] at fits
    have size := descriptor_length ⟨rva, 0, 0, rva + 16, rva⟩
    simp only [sizeof_ImportDescriptor] at size
    unfold prependDescriptors
    dsimp only [sizeof_ImportDescriptor]
    rw [store_bind (by omega), ih (by rw [poke_length (by omega)]; omega)]
    have joined := poke_poke tbl offset (ImportDescriptor.bytes ⟨rva, 0, 0, rva + 16, rva⟩)
      (tableBytes (ownDescriptors dlls (rva + 16 + paddedSize dll))) (by simp; omega)
    rw [size] at joined
    rw [joined]
    rfl

/-- Step 3, where there is room; what lies before the blocks stays. -/
theorem buildBlocks_built (dlls : List Bytes) (curBlock : Nat) (tbl : Bytes)
    (fits : curBlock + blocksSize dlls ≤ tbl.length) (small : blocksSize dlls < 4294967296) :
    ∃ tbl', buildBlocks dlls curBlock tbl = .ret tbl' ∧ tbl'.length = tbl.length ∧ Blocks tbl' curBlock dlls ∧
      ∀ other n, other + n ≤ curBlock → peek tbl' other n = peek tbl other n := by
  induction dlls generalizing curBlock tbl with
  | nil => exact ⟨tbl, rfl, rfl, trivial, fun _ _ _ => rfl⟩
  | cons dll dlls ih =>
    unfold blocksSize at fits small
    have thunksSize := thunks_length
    have nameSize : (narrow_c_str dll).length = dll.length + 1 := by simp [narrow_c_str]
    have room : 16 + (dll.length + 1) ≤ blockSize dll := by
      unfold blockSize
      omega
    have first : curBlock + thunks.length ≤ tbl.length := by omega
    have second : curBlock + 16 + (narrow_c_str dll).length ≤ (poke tbl curBlock thunks).length := by
      rw [poke_length first]
      omega
    have whole : (poke (poke tbl curBlock thunks) (curBlock + 16) (narrow_c_str dll)).length = tbl.length := by
      rw [poke_length second, poke_length first]
    obtain ⟨tbl', built, length, blocks, before⟩ := ih (curBlock + blockSize dll)
      (poke (poke tbl curBlock thunks) (curBlock + 16) (narrow_c_str dll)) (by omega) (by omega)
    refine ⟨tbl', ?_, length.trans whole, ⟨?_, ?_, blocks⟩, fun other n apart => ?_⟩
    · unfold buildBlocks
      rw [store_bind first, store_bind second, paddedSize_block (by omega)]
      exact built
    · rw [before _ _ (by omega), peek_poke_apart second (.inl (Nat.le_refl _)), ← thunksSize, peek_poke_same first]
    · rw [before _ _ (by omega), ← nameSize, peek_poke_same second]
    · rw [before _ _ (by omega), peek_poke_apart second (.inl (by omega)), peek_poke_apart first (.inl apart)]

/-- The size that the code computes for everything but the old descriptors. -/
theorem customDataSize_eq {dlls : List Bytes} (small : blocksSize dlls < 4294967296) :
    customDataSize dlls = UInt32.ofNat (20 * dlls.length + blocksSize dlls) := by
  have sum : ∀ size : UInt32, dlls.foldl (fun size dll => size + paddedSize dll) size + 4 * 4 * UInt32.ofNat dlls.length =
      size + UInt32.ofNat (blocksSize dlls) := by
    induction dlls with
    | nil =>
      intro size
      rfl
    | cons dll dlls ih =>
      intro size
      unfold blocksSize at small ⊢
      have padded : paddedSize dll = UInt32.ofNat ((dll.length + 4) / 4 * 4) := by
        rw [← paddedSize_toNat (by omega), UInt32.ofNat_toNat]
      have step := ih (by omega) (size + paddedSize dll)
      rw [List.foldl_cons, List.length_cons, UInt32.ofNat_add, UInt32.mul_add, ← UInt32.add_assoc, step, padded, blockSize,
        UInt32.ofNat_add, UInt32.ofNat_add]
      have sixteen : (4 * 4 * UInt32.ofNat 1 : UInt32) = UInt32.ofNat 16 := rfl
      rw [sixteen]
      ac_rfl
  unfold customDataSize
  rw [sum, UInt32.ofNat_add, UInt32.ofNat_mul, UInt32.mul_comm (UInt32.ofNat 20)]
  rfl

/-! ## In memory -/

/-- A table that can be read from an address on, up to the first descriptor that ends it. -/
inductive Table (c : Target) : UInt32 → List ImportDescriptor → Prop
  | last {a : UInt32} (readable : c.Readable a 20) (ends : (descriptorAt c.memory a).Ends) :
    Table c a [descriptorAt c.memory a]
  | next {a : UInt32} {ds : List ImportDescriptor} (readable : c.Readable a 20) (goesOn : ¬ (descriptorAt c.memory a).Ends)
      (rest : Table c (a + UInt32.ofNat sizeof_ImportDescriptor) ds) : Table c a (descriptorAt c.memory a :: ds)

/-- The descriptors of a table: the last one, and it alone, ends it. -/
def Closed : List ImportDescriptor → Prop
  | [] => False
  | [d] => d.Ends
  | d :: ds => ¬ d.Ends ∧ Closed ds

/-- A descriptor by which a DLL is loaded and its ordinal 1 is imported. -/
structure Imports (m : Memory) (imageBase : UInt32) (d : ImportDescriptor) (dll : Bytes) : Prop where
  name : m.read (imageBase + d.Name) (dll.length + 1) = narrow_c_str dll
  lookup : m.read (imageBase + d.OriginalFirstThunk) 8 = dword (IMAGE_ORDINAL_FLAG ||| 1) ++ dword 0
  bound : m.read (imageBase + d.FirstThunk) 8 = dword (IMAGE_ORDINAL_FLAG ||| 1) ++ dword 0

/-- What the descriptor of a DLL refers to lies in a run of bytes. -/
structure Within (imageBase : UInt32) (d : ImportDescriptor) (dll : Bytes) (a : UInt32) (n : Nat) : Prop where
  name : a.toNat ≤ (imageBase + d.Name).toNat ∧ (imageBase + d.Name).toNat + (dll.length + 1) ≤ a.toNat + n
  lookup : a.toNat ≤ (imageBase + d.OriginalFirstThunk).toNat ∧ (imageBase + d.OriginalFirstThunk).toNat + 8 ≤ a.toNat + n
  bound : a.toNat ≤ (imageBase + d.FirstThunk).toNat ∧ (imageBase + d.FirstThunk).toNat + 8 ≤ a.toNat + n

/-- A descriptor imports its DLL as long as the bytes stay that it refers to. -/
theorem imports_congr {m m' : Memory} {imageBase : UInt32} {d : ImportDescriptor} {dll : Bytes} {a : UInt32} {n : Nat}
    (imports : Imports m imageBase d dll) (within : Within imageBase d dll a n) (fits : a.toNat + n ≤ 4294967296)
    (same : ∀ x, InRun a n x → m' x = m x) : Imports m' imageBase d dll := by
  have part : ∀ b k, a.toNat ≤ b.toNat ∧ b.toNat + k ≤ a.toNat + n → m'.read b k = m.read b k := by
    intro b k inside
    refine read_congr (by omega) fun x there => same x ?_
    unfold InRun at there ⊢
    omega
  exact ⟨(part _ _ within.name).trans imports.name, (part _ _ within.lookup).trans imports.lookup,
    (part _ _ within.bound).trans imports.bound⟩

section
variable {c c' : Target} {a : UInt32} {ds ds' : List ImportDescriptor}

theorem next_toNat (readable : c.Readable a 20) :
    (a + UInt32.ofNat sizeof_ImportDescriptor).toNat = a.toNat + 20 := by
  have user := Target.accessible_user readable (by decide)
  exact toNat_offset (by simp only [sizeof_ImportDescriptor]; omega)

theorem table_unique (first : Table c a ds) (second : Table c a ds') : ds = ds' := by
  induction first generalizing ds' with
  | last _ ends =>
    cases second with
    | last => rfl
    | next _ goesOn => exact absurd ends goesOn
  | next _ goesOn _ ih =>
    cases second with
    | last _ ends => exact absurd ends goesOn
    | next _ _ rest => rw [ih rest]

theorem table_closed (table : Table c a ds) : Closed ds := by
  induction table with
  | last _ ends => exact ends
  | next _ goesOn rest ih =>
    cases rest with
    | last => exact ⟨goesOn, ih⟩
    | next => exact ⟨goesOn, ih⟩

/-- A table that can be read does not wrap around. -/
theorem table_fits (table : Table c a ds) : 0 < ds.length ∧ 65536 ≤ a.toNat ∧ a.toNat + 20 * ds.length ≤ 4294901760 := by
  induction table with
  | last readable _ =>
    have user := Target.accessible_user readable (by decide)
    rw [List.length_singleton]
    omega
  | next readable _ _ ih =>
    have user := Target.accessible_user readable (by decide)
    rw [next_toNat readable] at ih
    rw [List.length_cons]
    omega

/-- A table stays as long as its bytes stay and can be read. -/
theorem table_congr (table : Table c a ds) (readable : ∀ b n, c.Readable b n → c'.Readable b n)
    (same : ∀ x, InRun a (20 * ds.length) x → c.memory x = c'.memory x) : Table c' a ds := by
  have fields : ∀ {b}, c.Readable b 20 → (∀ x, InRun b 20 x → c.memory x = c'.memory x) →
      descriptorAt c.memory b = descriptorAt c'.memory b := by
    intro b here same
    have user := Target.accessible_user here (by decide)
    exact descriptorAt_congr (by omega) same
  induction table with
  | last here ends =>
    have first := fields here fun x inside => same x inside
    rw [first] at ends ⊢
    exact .last (readable _ _ here) ends
  | next here goesOn _ ih =>
    have next := next_toNat here
    simp only [InRun, List.length_cons] at same ih ⊢
    have first := fields here fun x inside => same x ⟨inside.1, by have := inside.2; omega⟩
    rw [first] at goesOn ⊢
    exact .next (readable _ _ here) goesOn (ih fun x inside => same x ⟨by omega, by omega⟩)

/-- The bytes of a table are there. -/
theorem table_page (table : Table c a ds) {x : UInt32} (inside : InRun a (20 * ds.length) x) :
    c.page (x.toNat / 4096) ≠ .free := by
  induction table with
  | last here _ => exact Target.accessible_page here inside
  | @next b _ here _ _ ih =>
    have next := next_toNat here
    simp only [InRun, List.length_cons] at inside ih
    by_cases first : x.toNat < b.toNat + 20
    · exact Target.accessible_page here ⟨inside.1, first⟩
    · exact ih ⟨by omega, by omega⟩

theorem descriptorAt_bytes {m : Memory} {d : ImportDescriptor} (bytes : m.read a 20 = d.bytes) : descriptorAt m a = d := by
  have fields : ∀ offset, offset + 4 ≤ 20 → dwordAt m a offset = takeDword (peek d.bytes offset 4) := by
    intro offset within
    rw [← bytes, peek_read m a within]
    rfl
  unfold descriptorAt
  rw [fields 0 (by decide), fields 4 (by decide), fields 8 (by decide), fields 12 (by decide), fields 16 (by decide)]
  show ImportDescriptor.mk (takeDword (dword d.OriginalFirstThunk)) (takeDword (dword d.TimeDateStamp))
    (takeDword (dword d.ForwarderChain)) (takeDword (dword d.Name)) (takeDword (dword d.FirstThunk)) = d
  have whole : ∀ v, takeDword (dword v) = v := fun v => takeDword_dword v []
  rw [whole, whole, whole, whole, whole]

/-- Where the bytes of a table are and can be read, there is the table. -/
theorem table_of_bytes (closed : Closed ds) (readable : c.Readable a (20 * ds.length))
    (bytes : c.memory.read a (20 * ds.length) = tableBytes ds) : Table c a ds := by
  induction ds generalizing a with
  | nil => exact closed.elim
  | cons d ds ih =>
    rw [List.length_cons] at readable bytes
    have first : c.Readable a 20 := Target.accessible_part readable (Nat.le_refl _) (by omega)
    have size := descriptor_length d
    simp only [sizeof_ImportDescriptor] at size
    have front : c.memory.read a 20 = d.bytes := by
      rw [← read_take _ _ (show 20 ≤ 20 * (ds.length + 1) by omega), bytes, tableBytes_cons, List.take_left' size]
    obtain rfl : descriptorAt c.memory a = d := descriptorAt_bytes front
    cases ds with
    | nil => exact .last first closed
    | cons d' ds =>
      refine .next first closed.1 (ih closed.2 ?_ ?_)
      · exact Target.accessible_part readable (by rw [next_toNat first]; omega) (by rw [next_toNat first]; omega)
      · have rest : peek (c.memory.read a (20 * ((d' :: ds).length + 1))) 20 (20 * (d' :: ds).length) = _ :=
          peek_read c.memory a (by omega)
        rw [bytes] at rest
        show c.memory.read (a + UInt32.ofNat 20) _ = _
        rw [← rest, tableBytes_cons]
        unfold peek
        rw [List.drop_left' size, List.take_of_length_le (Nat.le_of_eq (tableBytes_length _))]

end

/-- The next block begins behind the one before. -/
theorem next_block {dll : Bytes} {rva : UInt32} (fits : rva.toNat + blockSize dll < 4294967296) :
    (rva + 16 + paddedSize dll).toNat = rva.toNat + blockSize dll := by
  have block : rva.toNat + 16 + (paddedSize dll).toNat = _ := paddedSize_block (by omega) _
  have sixteen : (16 : UInt32).toNat = 16 := rfl
  rw [UInt32.toNat_add, UInt32.toNat_add, sixteen]
  omega

/-- The new descriptors do not end the table: their thunks do not lie at the image base. -/
theorem own_goesOn {dlls : List Bytes} {rva : UInt32} (above : 0 < rva.toNat)
    (below : rva.toNat + blocksSize dlls < 4294967296) : ∀ d ∈ ownDescriptors dlls rva, ¬ d.Ends := by
  induction dlls generalizing rva with
  | nil => exact fun d member => nomatch member
  | cons dll dlls ih =>
    unfold blocksSize at below
    intro d member
    rcases List.mem_cons.mp member with rfl | later
    · rintro ⟨null, _⟩
      dsimp only at null
      rw [null] at above
      exact absurd above (by decide)
    · have next : (rva + 16 + paddedSize dll).toNat = _ := next_block (by omega)
      exact ih (by omega) (by omega) d later

/-- Each of the new descriptors imports its DLL, and refers to the new bytes only. -/
theorem own_imports {m : Memory} {imageBase a rva : UInt32} {tbl : Bytes} {offset : Nat} {dlls : List Bytes}
    (written : ∀ other n, other + n ≤ tbl.length → m.read (a + UInt32.ofNat other) n = peek tbl other n)
    (blocks : Blocks tbl offset dlls) (fits : offset + blocksSize dlls ≤ tbl.length)
    (small : a.toNat + tbl.length < 4294967296) (place : imageBase + rva = a + UInt32.ofNat offset) :
    List.Forall₂ (fun d dll => Imports m imageBase d dll ∧ Within imageBase d dll a tbl.length)
      (ownDescriptors dlls rva) dlls := by
  induction dlls generalizing offset rva with
  | nil => exact .nil
  | cons dll dlls ih =>
    unfold blocksSize at fits
    obtain ⟨thunk, name, rest⟩ := blocks
    have block : blockSize dll = 16 + (dll.length + 4) / 4 * 4 := rfl
    have sixteen : (16 : UInt32) = UInt32.ofNat 16 := rfl
    have padded : paddedSize dll = UInt32.ofNat ((dll.length + 4) / 4 * 4) := by
      rw [← paddedSize_toNat (by omega), UInt32.ofNat_toNat]
    have namePlace : imageBase + (rva + 16) = a + UInt32.ofNat (offset + 16) := by
      rw [← UInt32.add_assoc, place, sixteen, UInt32.add_assoc, ← UInt32.ofNat_add]
    have first : m.read (imageBase + rva) 8 = dword (IMAGE_ORDINAL_FLAG ||| 1) ++ dword 0 := by
      have front : peek tbl offset 8 = (peek tbl offset 16).take 8 := by
        unfold peek
        rw [List.take_take]
        rfl
      rw [place, written _ _ (by omega), front, thunk]
      rfl
    have thunkWithin : a.toNat ≤ (imageBase + rva).toNat ∧ (imageBase + rva).toNat + 8 ≤ a.toNat + tbl.length := by
      rw [place, toNat_offset (by omega)]
      omega
    refine .cons ⟨⟨?_, first, first⟩, ⟨?_, thunkWithin, thunkWithin⟩⟩ (ih rest (by omega) ?_)
    · show m.read (imageBase + (rva + 16)) _ = _
      rw [namePlace, written _ _ (by omega), name]
    · show a.toNat ≤ (imageBase + (rva + 16)).toNat ∧ (imageBase + (rva + 16)).toNat + _ ≤ _
      rw [namePlace, toNat_offset (by omega)]
      omega
    · rw [← UInt32.add_assoc, ← UInt32.add_assoc, place, block, padded, sixteen, UInt32.ofNat_add, UInt32.ofNat_add]
      ac_rfl

theorem closed_append {ds ds' : List ImportDescriptor} (goOn : ∀ d ∈ ds, ¬ d.Ends) (closed : Closed ds') :
    Closed (ds ++ ds') := by
  induction ds with
  | nil => exact closed
  | cons d ds ih =>
    have rest := ih fun d member => goOn d (List.mem_cons_of_mem _ member)
    have first := goOn d List.mem_cons_self
    rw [List.cons_append]
    cases whole : ds ++ ds' with
    | nil =>
      rw [whole] at rest
      exact rest.elim
    | cons d' ds'' =>
      rw [whole] at rest
      exact ⟨first, rest⟩

end Sysintercept.ImportTables
