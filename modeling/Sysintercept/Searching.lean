import Sysintercept.Targets

/-!
# The search for memory above the image

`allocateMemAboveBase` walks the regions of the address space from the image base
on and tries every address of a free one at which memory can be allocated: it
comes to an end, and takes the lowest address that the system gives it.
-/
namespace Sysintercept.Searching
open Sysintercept.AddressSpace Sysintercept.Records Sysintercept.Effects Sysintercept.Environments Sysintercept.Iat
open Sysintercept.Targets

/-! ## Padding -/

/-- The bits of a value under a mask and the others make it up. -/
theorem and_not_toNat (x mask : UInt32) : (x &&& mask).toNat + (x &&& ~~~mask).toNat = x.toNat := by
  have disjoint : (x.toBitVec &&& mask.toBitVec) &&& (x.toBitVec &&& ~~~mask.toBitVec) = 0#32 := by
    calc
      _ = x.toBitVec &&& x.toBitVec &&& (mask.toBitVec &&& ~~~mask.toBitVec) := by ac_rfl
      _ = 0#32 := by rw [BitVec.and_not_self]; exact BitVec.and_zero
  calc
    _ = ((x.toBitVec &&& mask.toBitVec) + (x.toBitVec &&& ~~~mask.toBitVec)).toNat :=
      (BitVec.toNat_add_of_and_eq_zero disjoint).symm
    _ = (x.toBitVec &&& (mask.toBitVec ||| ~~~mask.toBitVec)).toNat := by
      rw [BitVec.add_eq_or_of_and_eq_zero _ _ disjoint, BitVec.and_or_distrib_left]
    _ = x.toNat := by
      rw [BitVec.or_not_self, BitVec.and_allOnes]
      rfl

/-- Padding rounds up, where the mask keeps the rest of a division. -/
theorem pad_toNat {val amount : UInt32} {unit : Nat} (mask : ∀ x : UInt32, (x &&& amount).toNat = x.toNat % unit)
    (rest : amount.toNat + 1 = unit) (fits : val.toNat + amount.toNat < 4294967296) :
    (pad val amount).toNat = (val.toNat + (unit - 1)) / unit * unit := by
  have parts := and_not_toNat (val + amount) amount
  have whole : (val + amount).toNat = val.toNat + (unit - 1) := by
    rw [UInt32.toNat_add, Nat.mod_eq_of_lt fits]
    omega
  have division := Nat.div_add_mod (val.toNat + (unit - 1)) unit
  rw [mask, whole] at parts
  rw [Nat.mul_comm] at division
  unfold pad
  omega

/-- The lowest allocation address that is not below an address. -/
theorem pad_granularity (val : UInt32) (fits : val.toNat ≤ 4294901760) :
    (pad val 0xFFFF).toNat = (val.toNat + 65535) / 65536 * 65536 := by
  refine pad_toNat (fun x => ?_) rfl ?_
  · rw [UInt32.toNat_and]
    exact Nat.and_two_pow_sub_one_eq_mod _ 16
  · have bound : (0xFFFF : UInt32).toNat = 65535 := rfl
    omega

theorem padToDword_toNat {val : UInt32} (fits : val.toNat ≤ 4294967292) :
    (padToDword val).toNat = (val.toNat + 3) / 4 * 4 := by
  refine pad_toNat (fun x => ?_) rfl ?_
  · rw [UInt32.toNat_and]
    exact Nat.and_two_pow_sub_one_eq_mod _ 2
  · have bound : (3 : UInt32).toNat = 3 := rfl
    omega

/-! ## The search -/

/-- Nothing can be allocated at the addresses of a range. -/
def Exhausted (c : Target) (size : UInt32) (lower upper : Nat) : Prop :=
  ∀ a : UInt32, lower ≤ a.toNat → a.toNat < upper → ¬ c.Allocatable a size

/-- The memory that a search has got, from the range that it has gone over. -/
structure Found (mayFail : Prop) (c : Target) (size : UInt32) (lower : Nat) (address : UInt32) (c' : Target) : Prop where
  above : lower ≤ address.toNat
  allocatable : c.Allocatable address size
  allocated : c' = c.allocate address size
  lowest : ¬ mayFail → Exhausted c size lower address.toNat

section
variable {mayFail S : Prop} {c : Target} {size : UInt32}

theorem exhausted_append {lower middle upper : Nat} (first : Exhausted c size lower middle)
    (second : Exhausted c size middle upper) : Exhausted c size lower upper := by
  intro a above below
  by_cases before : a.toNat < middle
  · exact first a above before
  · exact second a (by omega) below

theorem found_extend {lower middle : Nat} {address : UInt32} {c' : Target} (before : lower ≤ middle)
    (first : ¬ mayFail → Exhausted c size lower middle) (found : Found mayFail c size middle address c') :
    Found mayFail c size lower address c' where
  above := Nat.le_trans before found.above
  allocatable := found.allocatable
  allocated := found.allocated
  lowest sound := exhausted_append (first sound) (found.lowest sound)

/-- Memory is allocated in free pages only, which lie below the end of the user address space. -/
theorem allocatable_page {a : UInt32} (allocatable : c.Allocatable a size) :
    c.page (a.toNat / 4096) = .free ∧ a.toNat / 4096 < c.pages := by
  obtain ⟨some, _, free⟩ := allocatable
  have first : c.page (a.toNat / 4096) = .free := free _ ⟨Nat.le_refl _, by omega⟩
  refine ⟨first, Nat.lt_of_not_le fun high => ?_⟩
  rw [c.outside_reserved _ high] at first
  cases first

theorem exhausted_step {a : UInt32} {upper : Nat} (aligned : a.toNat % 65536 = 0) (refused : ¬ c.Allocatable a size)
    (rest : Exhausted c size (a.toNat + 65536) upper) : Exhausted c size a.toNat upper := by
  intro b above below
  by_cases same : b = a
  · rw [same]
    exact refused
  · intro allocatable
    have distinct : b.toNat ≠ a.toNat := fun equal => same (UInt32.toNat_inj.mp equal)
    have granular := allocatable.2.1
    exact rest b (by omega) below allocatable

/-- One free region: its lowest address where memory is got, or it has been gone over. -/
theorem bruteForceRegion_leads {regionEnd : UInt32} (fuel : Nat) {bruteForce : UInt32}
    (aligned : bruteForce.toNat % 65536 = 0) (user : regionEnd.toNat ≤ 4294901760)
    (enough : ¬ S → regionEnd.toNat ≤ bruteForce.toNat + 65536 * (fuel - 1) ∧ 0 < fuel) :
    Leads (Answers mayFail) (fun found c' => match found with
        | some address => Found mayFail c size bruteForce.toNat address c'
        | none => c' = c ∧ (¬ mayFail → Exhausted c size bruteForce.toNat regionEnd.toNat))
      (fun _ _ => False) S (bruteForceRegion size regionEnd fuel bruteForce) c := by
  induction fuel generalizing bruteForce with
  | zero => exact Classical.byContradiction fun short => absurd (enough short).2 (by omega)
  | succ fuel ih =>
    unfold bruteForceRegion
    by_cases inside : bruteForce < regionEnd
    · rw [if_pos inside]
      have below : bruteForce.toNat < regionEnd.toNat := UInt32.lt_iff_toNat_lt.mp inside
      have next : (bruteForce + 0x10000).toNat = bruteForce.toNat + 65536 := by
        rw [UInt32.toNat_add]
        have step : (0x10000 : UInt32).toNat = 65536 := rfl
        omega
      refine leads_bind (leads_catch (leads_bind (leads_request ?_ ?_)))
      · rintro _ c' ⟨allocatable, rfl⟩
        exact ⟨Nat.le_refl _, allocatable, rfl, fun _ a above below => absurd below (by omega)⟩
      · intro _ cause
        show Leads _ _ _ _ (bruteForceRegion size regionEnd fuel (bruteForce + 0x10000)) c
        refine leads_mono (ih (by omega) ?_) ?_ (fun _ _ never => never) id
        · intro long
          have := enough long
          omega
        · have refused : ¬ mayFail → ¬ c.Allocatable bruteForce size := fun sound allocatable =>
            (cause.resolve_left sound) () _ ⟨allocatable, rfl⟩
          intro found c' rest
          cases found with
          | none =>
            refine ⟨rest.1, fun sound => exhausted_step aligned (refused sound) ?_⟩
            rw [← next]
            exact rest.2 sound
          | some address =>
            refine found_extend (by omega) (fun sound => exhausted_step aligned (refused sound) ?_) rest
            intro a above below
            omega
    · rw [if_neg inside]
      have behind : regionEnd.toNat ≤ bruteForce.toNat := Nat.le_of_not_lt fun below => inside (UInt32.lt_iff_toNat_lt.mpr below)
      exact ⟨rfl, fun _ a above below => absurd below (by omega)⟩

/-- The region that the system tells of lies below the end of the user address space. -/
theorem region_end {a : UInt32} {n : Nat} (within : a.toNat / 4096 + n ≤ c.pages) :
    (UInt32.ofNat (a.toNat / 4096 * 4096) + UInt32.ofNat (n * 4096)).toNat = (a.toNat / 4096 + n) * 4096 := by
  have bound := c.pages_le
  rw [UInt32.toNat_add, UInt32.toNat_ofNat', UInt32.toNat_ofNat']
  omega

/-- A region that is not free holds no address to allocate at. -/
theorem exhausted_region (size : UInt32) {a : UInt32} {n : Nat}
    (same : ∀ i < n, (c.page (a.toNat / 4096 + i)).State = (c.page (a.toNat / 4096)).State)
    (taken : (c.page (a.toNat / 4096)).State ≠ MEM_FREE) :
    Exhausted c size a.toNat ((a.toNat / 4096 + n) * 4096) := by
  intro b above below allocatable
  have free := (allocatable_page allocatable).1
  have here := same (b.toNat / 4096 - a.toNat / 4096) (by omega)
  rw [Nat.add_sub_cancel' (by omega), free] at here
  exact taken here.symm

/-- Where the system tells of no region, no address is left. -/
theorem exhausted_refused {a : UInt32} (refused : Refused (.VirtualQueryEx a) c) :
    Exhausted c size a.toNat 4294967296 := by
  intro b above _ allocatable
  have below := (allocatable_page allocatable).2
  refine refused _ c ⟨⟨1, Nat.zero_lt_one, by omega, fun i first => ?_, rfl⟩, rfl⟩
  rw [Nat.lt_one_iff.mp first, Nat.add_zero]

/-- The walk over the regions, of which each one leads further up. -/
theorem walkRegions_leads (fuel : Nat) (currentAddress : UInt32)
    (enough : ¬ S → 0 < fuel ∧ c.pages + 2 ≤ fuel + currentAddress.toNat / 4096) :
    Leads (Answers mayFail) (Found mayFail c size currentAddress.toNat)
      (fun e c' => (∃ what, e = .MemoryQueryException what) ∧ c' = c ∧
        (¬ mayFail → Exhausted c size currentAddress.toNat 4294967296))
      S (walkRegions size fuel currentAddress) c := by
  induction fuel generalizing currentAddress with
  | zero => exact Classical.byContradiction fun short => absurd (enough short).1 (by omega)
  | succ fuel ih =>
    unfold walkRegions
    refine leads_bind (leads_request ?_ fun _ cause => ⟨⟨_, rfl⟩, rfl, fun sound => exhausted_refused (cause.resolve_left sound)⟩)
    rintro _ c' ⟨⟨n, some, within, same, rfl⟩, rfl⟩
    dsimp only
    have regionEnd := region_end within
    have bound := c'.pages_le
    have further := ih (UInt32.ofNat (currentAddress.toNat / 4096 * 4096) + UInt32.ofNat (n * 4096)) (by
      intro long
      have := enough long
      omega)
    rw [regionEnd] at further
    by_cases taken : (c'.page (currentAddress.toNat / 4096)).State ≠ MEM_FREE
    · rw [if_pos taken]
      have region := exhausted_region size same taken
      refine leads_mono further (fun _ _ => found_extend (by omega) fun _ => region) ?_ id
      rintro e t ⟨query, kept, rest⟩
      exact ⟨query, kept, fun sound => exhausted_append region (rest sound)⟩
    · rw [if_neg taken]
      have padded := pad_granularity currentAddress (by omega)
      have front : Exhausted c' size currentAddress.toNat (pad currentAddress 0xFFFF).toNat := by
        intro a above below allocatable
        have granular := allocatable.2.1
        omega
      refine leads_bind (leads_mono (bruteForceRegion_leads fuel (by omega) (by omega) fun long => ?_) ?_
        (fun _ _ never => never.elim) id)
      · have := enough long
        omega
      intro found t searched
      cases found with
      | some address => exact found_extend (by omega) (fun _ => front) searched
      | none =>
        obtain ⟨rfl, gone⟩ := searched
        rw [regionEnd] at gone
        refine leads_mono further (fun _ _ => found_extend (by omega) fun sound => exhausted_append front (gone sound)) ?_ id
        rintro e t' ⟨query, kept, rest⟩
        exact ⟨query, kept, fun sound => exhausted_append front (exhausted_append (gone sound) (rest sound))⟩

theorem found_ne_null {lower : Nat} {address : UInt32} {c' : Target} (found : Found mayFail c size lower address c') :
    address ≠ 0 := by
  rintro rfl
  have free := (allocatable_page found.allocatable).1
  have reserved : c.page ((0 : UInt32).toNat / 4096) = .reserved := c.null_reserved 0 (by decide)
  rw [reserved] at free
  cases free

/-- Memory is got, or NULL comes back and nothing has changed. -/
theorem allocateMemAboveBase_leads {fuel : Nat} {baseAddress : UInt32} (enough : ¬ S → c.pages + 2 ≤ fuel) :
    Leads (Answers mayFail) (fun address c' =>
        Found mayFail c size baseAddress.toNat address c' ∨
        address = 0 ∧ c' = c ∧ (¬ mayFail → Exhausted c size baseAddress.toNat 4294967296))
      (fun _ _ => False) S (allocateMemAboveBase fuel baseAddress size) c := by
  refine leads_catch (leads_mono (walkRegions_leads fuel _ ?_) (fun _ _ found => .inl found) ?_ id)
  · intro long
    have := enough long
    omega
  · rintro _ c' ⟨⟨what, rfl⟩, rfl, gone⟩
    exact .inr ⟨rfl, rfl, gone⟩

/-- Whatever regions the system tells of and whichever calls it fails, the search
    comes to an end: with the memory of one allocation that is not below the base, or with NULL
    and an unchanged process. Where no call fails that can be done, it is the lowest
    address at which there is memory, and NULL only where there is none. -/
theorem lowest_address_taken (fuel : Nat) (baseAddress : UInt32) (enough : c.pages + 2 ≤ fuel) :
    Leads (Answers mayFail) (fun address c' =>
        if address = 0 then c' = c ∧ (mayFail ∨ ∀ a : UInt32, baseAddress ≤ a → ¬ c.Allocatable a size)
        else baseAddress ≤ address ∧ c.Allocatable address size ∧ c' = c.allocate address size ∧
          (mayFail ∨ ∀ a : UInt32, baseAddress ≤ a → c.Allocatable a size → address ≤ a))
      (fun _ _ => False) False (allocateMemAboveBase fuel baseAddress size) c := by
  refine leads_mono (allocateMemAboveBase_leads fun _ => enough) ?_ (fun _ _ never => never) id
  rintro address c' (found | ⟨rfl, kept, gone⟩)
  · rw [if_neg (found_ne_null found)]
    refine ⟨found.above, found.allocatable, found.allocated, (Classical.em mayFail).imp_right fun sound a above allocatable => ?_⟩
    exact Nat.le_of_not_lt fun below => found.lowest sound a above below allocatable
  · rw [if_pos rfl]
    exact ⟨kept, (Classical.em mayFail).imp_right fun sound a above => gone sound a above a.toNat_lt⟩

end

theorem lowest_address_taken_small :
    Leads (Answers False) (fun address c' =>
        if address = 0 then c' = smallProcess ∧ (False ∨ ∀ a : UInt32, 0x10000 ≤ a → ¬ smallProcess.Allocatable a 100)
        else 0x10000 ≤ address ∧ smallProcess.Allocatable address 100 ∧ c' = smallProcess.allocate address 100 ∧
          (False ∨ ∀ a : UInt32, 0x10000 ≤ a → smallProcess.Allocatable a 100 → address ≤ a))
      (fun _ _ => False) False (allocateMemAboveBase 66 0x10000 100) smallProcess :=
  lowest_address_taken 66 0x10000 (by decide)

end Sysintercept.Searching
