import Sysintercept.Buffers
import Sysintercept.Rules

/-!
# The hand-over of the configuration

The shared memory through which the launcher tells the DLL where the
configuration is: its name, the two strings in it, and how `load_config` reads
them.
-/
namespace Sysintercept.Ipc
open Sysintercept.Terminated Sysintercept.Units Sysintercept.Rules Sysintercept.Buffers

/-- The shared memory of a process, by its id. -/
def get_ipc_name (process_id : UInt32) : String := "sysintercept" ++ toString process_id.toNat

theorem get_ipc_name_injective {p q : UInt32} (same : get_ipc_name p = get_ipc_name q) : p = q := by
  have decimals : toString p.toNat = toString q.toNat := (String.append_right_inj _).mp same
  have digits : Nat.toDigits 10 p.toNat = Nat.toDigits 10 q.toNat := by simpa using congrArg String.toList decimals
  have values := congrArg (fun ds => Nat.ofDigitChars 10 ds 0) digits
  exact UInt32.toNat_inj.mp (by simpa using values)

/-- The name space of shared memory: which object each name stands for. -/
abbrev Names (Object : Type) := String → Option Object

section
variable {Object : Type}

def Names.create (names : Names Object) (name : String) (object : Object) : Names Object :=
  fun n => if n = name then some object else names n

def Names.remove (names : Names Object) (name : String) : Names Object :=
  fun n => if n = name then none else names n

@[simp] theorem create_self (names : Names Object) (name : String) (object : Object) :
    names.create name object name = some object := by
  simp [Names.create]

theorem create_other (names : Names Object) {name n : String} (object : Object) (other : n ≠ name) :
    names.create name object n = names n := by
  simp [Names.create, other]

@[simp] theorem remove_self (names : Names Object) (name : String) : names.remove name name = none := by
  simp [Names.remove]

theorem remove_other (names : Names Object) {name n : String} (other : n ≠ name) : names.remove name n = names n := by
  simp [Names.remove, other]

/-- Removing what was created under a free name leaves the name space as it was. -/
theorem remove_create {names : Names Object} {name : String} (object : Object) (free : names name = none) :
    (names.create name object).remove name = names := by
  funext n
  by_cases same : n = name
  · rw [same, remove_self, free]
  · rw [remove_other _ same, create_other _ object same]

end

/-- The units that the share is sized for. -/
def share_size (xml_config_path xsd_path : WString) : Nat := (xml_config_path.length + 1) + (xsd_path.length + 1)

/-- What the two calls of `wcsncpy` write into the share, in order. -/
def contents (xml_config_path xsd_path : WString) : WString :=
  padded 0 xml_config_path (xml_config_path.length + 1) ++ padded 0 xsd_path (xsd_path.length + 1)

/-- The writes fill exactly the units that the share is sized for. -/
theorem contents_length (xml_config_path xsd_path : WString) :
    (contents xml_config_path xsd_path).length = share_size xml_config_path xsd_path := by
  simp only [contents, List.length_append, padded_length, share_size]

/-! ## The constructor of `InterceptConfigShare` -/

/-- `wcsncpy(dest + offset, src.c_str(), n)`: unit by unit up to the first NUL, and
    zeros from there on, `n` units in all. -/
def wcsncpy : WString → Nat → WString → Nat → WString
  | dest, _, _, 0 => dest
  | dest, offset, [], n + 1 => wcsncpy (poke dest offset [0]) (offset + 1) [] n
  | dest, offset, c :: src, n + 1 =>
    if c = 0 then wcsncpy (poke dest offset [0]) (offset + 1) [] n
    else wcsncpy (poke dest offset [c]) (offset + 1) src n

/-- What the constructor leaves in the region that it has mapped. -/
def InterceptConfigShare.write (region xml_config_path xsd_path : WString) : WString :=
  let xml_path_size := xml_config_path.length + 1
  let xsd_path_size := xsd_path.length + 1
  wcsncpy (wcsncpy region 0 xml_config_path xml_path_size) xml_path_size xsd_path xsd_path_size

/-- The loop overwrites `n` units with the padded copy. -/
theorem wcsncpy_eq {dest : WString} {offset n : Nat} (fits : offset + n ≤ dest.length) (src : WString) :
    wcsncpy dest offset src n = poke dest offset (padded 0 src n) := by
  induction n generalizing dest offset src with
  | zero =>
    have nothing : padded 0 src 0 = [] := List.eq_nil_of_length_eq_zero (padded_length _ _)
    rw [nothing, poke_nil]
    cases src <;> rfl
  | succ n ih =>
    have within : offset < dest.length := by omega
    have next : ∀ u : WChar, offset + 1 + n ≤ (poke dest offset [u]).length := by
      intro u
      rw [poke_length (Nat.succ_le_of_lt within)]
      omega
    cases src with
    | nil =>
      rw [padded_nil_succ, ← poke_cons _ _ within]
      exact ih (next 0) []
    | cons c src =>
      by_cases nul : c = 0
      · subst nul
        rw [padded_terminated, padded_nil_succ, ← poke_cons _ _ within]
        exact ih (next 0) []
      · rw [padded_cons_succ nul, ← poke_cons _ _ within]
        simp only [wcsncpy, nul, ↓reduceIte]
        exact ih (next c) src

/-- The constructor writes the contents over the units that it sized the share
    for, and leaves every other unit alone. -/
theorem write_eq {region : WString} (xml_config_path xsd_path : WString)
    (sized : share_size xml_config_path xsd_path ≤ region.length) :
    InterceptConfigShare.write region xml_config_path xsd_path =
      contents xml_config_path xsd_path ++ region.drop (share_size xml_config_path xsd_path) := by
  unfold share_size at sized ⊢
  have first : (padded 0 xml_config_path (xml_config_path.length + 1)).length = xml_config_path.length + 1 :=
    padded_length _ _
  have laid : wcsncpy region 0 xml_config_path (xml_config_path.length + 1) =
      padded 0 xml_config_path (xml_config_path.length + 1) ++ region.drop (xml_config_path.length + 1) := by
    rw [wcsncpy_eq (by omega), poke_zero, first]
  have within : xml_config_path.length + 1 + (xsd_path.length + 1) ≤
      (padded 0 xml_config_path (xml_config_path.length + 1) ++ region.drop (xml_config_path.length + 1)).length := by
    rw [List.length_append, List.length_drop, first]
    omega
  show wcsncpy (wcsncpy region 0 xml_config_path (xml_config_path.length + 1)) (xml_config_path.length + 1) xsd_path
    (xsd_path.length + 1) = _
  rw [laid, wcsncpy_eq within, poke_append first, poke_zero, padded_length, List.drop_drop, contents, List.append_assoc]

/-- What `load_config` finds in the share: a string, and the one behind its end. -/
def read_paths (memory : WString) : Option (WString × WString) := do
  let xml_config_path ← scan 0 memory
  let xsd_path ← scan 0 (memory.drop (xml_config_path.length + 1))
  return (xml_config_path, xsd_path)

/-- Two strings without a NUL lie in the share each with its terminator. -/
theorem contents_clean {xml_config_path xsd_path : WString} (xmlClean : 0 ∉ xml_config_path) (xsdClean : 0 ∉ xsd_path)
    (rest : WString) : contents xml_config_path xsd_path ++ rest = xml_config_path ++ 0 :: (xsd_path ++ 0 :: rest) := by
  simp [contents, padded_clean xmlClean, padded_clean xsdClean]

/-- Two strings are read from a memory exactly if they have no NUL and are laid out at its beginning. -/
theorem read_paths_eq_some_iff (memory xml_config_path xsd_path : WString) :
    read_paths memory = some (xml_config_path, xsd_path) ↔
      0 ∉ xml_config_path ∧ 0 ∉ xsd_path ∧ ∃ rest, memory = contents xml_config_path xsd_path ++ rest := by
  -- Behind the first string and its terminator the second one begins.
  have behind : ∀ tail : WString, (xml_config_path ++ 0 :: tail).drop (xml_config_path.length + 1) = tail := by
    intro tail
    simp [← List.drop_drop]
  constructor
  · intro reads
    simp only [read_paths, bind, pure, Option.bind_eq_some_iff, Option.some.injEq, Prod.mk.injEq] at reads
    obtain ⟨_, first, _, second, rfl, rfl⟩ := reads
    obtain ⟨xmlClean, tail, rfl⟩ := (scan_eq_some_iff _ _).mp first
    rw [behind] at second
    obtain ⟨xsdClean, rest, rfl⟩ := (scan_eq_some_iff _ _).mp second
    exact ⟨xmlClean, xsdClean, rest, (contents_clean xmlClean xsdClean rest).symm⟩
  · rintro ⟨xmlClean, xsdClean, rest, rfl⟩
    have first : scan 0 (xml_config_path ++ 0 :: (xsd_path ++ 0 :: rest)) = some xml_config_path := scan_clean xmlClean _
    have second : scan 0 (xsd_path ++ 0 :: rest) = some xsd_path := scan_clean xsdClean rest
    simp [read_paths, contents_clean xmlClean xsdClean, first, behind, second]

/-- Strings without a NUL come back as they were stored, whatever follows them. -/
theorem read_paths_contents {xml_config_path xsd_path : WString} (xmlClean : 0 ∉ xml_config_path)
    (xsdClean : 0 ∉ xsd_path) (rest : WString) :
    read_paths (contents xml_config_path xsd_path ++ rest) = some (xml_config_path, xsd_path) :=
  (read_paths_eq_some_iff _ _ _).mpr ⟨xmlClean, xsdClean, rest, rfl⟩

/-- The hand-over: the constructor writes nothing but the units that it sized the
    share for, whatever was in the region and however long it is. Strings without
    a NUL come back from it, read out of these units alone; strings with one do not. -/
theorem handover_round_trips (region xml_config_path xsd_path : WString)
    (sized : share_size xml_config_path xsd_path ≤ region.length) :
    (InterceptConfigShare.write region xml_config_path xsd_path).length = region.length ∧
    (InterceptConfigShare.write region xml_config_path xsd_path).drop (share_size xml_config_path xsd_path) =
      region.drop (share_size xml_config_path xsd_path) ∧
    (0 ∉ xml_config_path → 0 ∉ xsd_path →
      read_paths (InterceptConfigShare.write region xml_config_path xsd_path) = some (xml_config_path, xsd_path) ∧
      read_paths ((InterceptConfigShare.write region xml_config_path xsd_path).take
        (share_size xml_config_path xsd_path)) = some (xml_config_path, xsd_path)) ∧
    (read_paths (InterceptConfigShare.write region xml_config_path xsd_path) = some (xml_config_path, xsd_path) ↔
      0 ∉ xml_config_path ∧ 0 ∉ xsd_path) := by
  have size := contents_length xml_config_path xsd_path
  rw [write_eq xml_config_path xsd_path sized]
  refine ⟨?_, ?_, fun xmlClean xsdClean => ⟨read_paths_contents xmlClean xsdClean _, ?_⟩, ?_⟩
  · rw [List.length_append, size, List.length_drop]
    omega
  · rw [← size, List.drop_left]
  · have alone := read_paths_contents xmlClean xsdClean []
    rw [List.append_nil] at alone
    rw [← size, List.take_left]
    exact alone
  · rw [read_paths_eq_some_iff]
    exact ⟨fun reads => ⟨reads.1, reads.2.1⟩, fun clean => ⟨clean.1, clean.2, _, rfl⟩⟩

/-- Two paths, one of them empty, in a longer region that had something else in it. -/
theorem handover_round_trips_empty_xsd :
    read_paths (InterceptConfigShare.write (List.replicate 32 0x41) (wide "C:\\config.xml") []) =
      some (wide "C:\\config.xml", []) :=
  ((handover_round_trips (List.replicate 32 0x41) (wide "C:\\config.xml") [] (by decide)).2.2.1
    (by decide) (by decide)).1

/-- The DLL's `load_config`, given the mapped share, if there is one, and the
    validating parser of the configuration file. -/
def load_config (boost : Boost) (ndebug : Bool) (sysintercept_config : WString → WString → Except Stop xml.Config)
    (share : Option WString) : Except Stop Config :=
  match share with
  | none => .error (.std "interprocess_exception")
  | some memory =>
    match read_paths memory with
    | none => .error .fault
    | some (xml_config_path, xsd_path) => do
      let xml_config ← sysintercept_config xml_config_path xsd_path
      Config.construct boost ndebug xml_config

/-- The configuration comes from the paths that the share reads as, and from nothing else. -/
theorem load_config_paths (boost : Boost) (ndebug : Bool) (sysintercept_config : WString → WString → Except Stop xml.Config)
    {memory xml_config_path xsd_path : WString} (reads : read_paths memory = some (xml_config_path, xsd_path)) :
    load_config boost ndebug sysintercept_config (some memory) =
      (sysintercept_config xml_config_path xsd_path >>= Config.construct boost ndebug) := by
  simp only [load_config, reads]

end Sysintercept.Ipc
