import Sysintercept.Charsets
import Sysintercept.FileNames

/-!
# Names that are not to change

A hook is transparent to a file name when it reads nothing behind the caller's
terminator and hands the real function the caller's name, unit for unit, and NULL
for NULL. Which names survive the way through the three file-name hooks when there
is nothing to rewrite, with conversions that drop what they cannot convert.
-/
namespace Sysintercept.Transparency
open Sysintercept.Terminated Sysintercept.Units Sysintercept.Rules Sysintercept.Exceptions Sysintercept.Hooks
open Sysintercept.Calls Sysintercept.Forwarding Sysintercept.FileNames Sysintercept.Charsets

/-- The library functions of a process whose locale has the given charset. -/
def locale (boost : Boost) (charset : Charset) : Runtime where
  boost := boost
  to_utf b := .ok (charset.to_utf b)
  from_utf w := .ok (charset.from_utf w)

/-- A call of a hooked function that takes a file name, but for the name. -/
inductive NameCall
  | OpenFile (lpReOpenBuff uStyle : UInt32)
  | CreateFileA (args : CreateFileArgs)
  | CreateFileW (args : CreateFileArgs)
  deriving DecidableEq, Repr

def NameCall.call (lpFileName : Pointer) : NameCall → ApiCall
  | .OpenFile lpReOpenBuff uStyle => .OpenFile lpFileName lpReOpenBuff uStyle
  | .CreateFileA args => .CreateFileA lpFileName args
  | .CreateFileW args => .CreateFileW lpFileName args

/-- The strings that a call passes, wide ones to `CreateFileW` and narrow ones to
    the other two, without the terminator that ends them in memory. -/
def NameCall.Name : NameCall → Type
  | .CreateFileW _ => { name : WString // 0 ∉ name }
  | _ => { name : Bytes // 0 ∉ name }

/-- The string in the caller's memory, with its terminator. -/
def NameCall.chars : (c : NameCall) → c.Name → Bytes
  | .OpenFile _ _, name => narrow_c_str name.val
  | .CreateFileA _, name => narrow_c_str name.val
  | .CreateFileW _, name => wide_c_str name.val

/-- The text that a name stands for, which is what the rules are about. -/
def NameCall.meaning (charset : Charset) : (c : NameCall) → c.Name → WString
  | .OpenFile _ _, name => charset.to_utf name.val
  | .CreateFileA _, name => charset.to_utf name.val
  | .CreateFileW _, name => name.val

section
variable {w : World} {boost : Boost} {charset : Charset} {init : CallSeq} {loaded : Except Stop Config}

/-- The name is not to change: `ensured_init` returns false to the call, or the
    rules in force leave what the name stands for as it is. -/
def NameStays (w : World) (boost : Boost) (charset : Charset) (loaded : Except Stop Config) (c : NameCall)
    (lpFileName : Option c.Name) : Prop :=
  (w.globals.initializing = true ∧ w.globals.initialized = false) ∨
    ∃ config, Serves w loaded config ∧ ∀ name, lpFileName = some name →
      config.transform_path boost (c.meaning charset name) = .ok (c.meaning charset name)

/-- The hook makes the real call with the caller's units up to the terminator, for
    any memory behind it, also for none that can be read; and with NULL for NULL. -/
def Transparent (w : World) (rt : Runtime) (init : CallSeq) (loaded : Except Stop Config) (c : NameCall) :
    Option c.Name → Prop
  | none => ForwardsOnce (fun real => hooked rt (initBody init loaded) real (c.call none)) w (c.call none)
  | some name => ∃ buffer, c.chars name <+: buffer ∧ ∀ rest,
      ForwardsOnce (fun real => hooked rt (initBody init loaded) real (c.call (some (c.chars name ++ rest)))) w
        (c.call (some buffer))

/-- The names that a hook passes on as they are: every wide string to
    `CreateFileW`, and to `OpenFile` the bytes of a text in the charset. -/
def Survives (charset : Charset) : (c : NameCall) → Option c.Name → Prop
  | _, none => False
  | .OpenFile _ _, some name => ∃ text, charset.from_utf text = name.val
  | .CreateFileA _, some _ => False
  | .CreateFileW _, some _ => True

/-- A name that is not to change goes through a hook with no configuration, or with
    one that leaves the name alone. -/
theorem due_of_nameStays {c : NameCall} {lpFileName : Option c.Name}
    (stays : NameStays w boost charset loaded c lpFileName) :
    ∃ config : Option Config,
      (∀ rules, config = some rules → ∀ name, lpFileName = some name →
        rules.transform_path boost (c.meaning charset name) = .ok (c.meaning charset name)) ∧
      ∀ rt call, due w rt call loaded = forwarded rt config call := by
  rcases stays with ⟨initializing, uninitialized⟩ | ⟨config, serves, unchanged⟩
  · refine ⟨none, by simp, fun rt call => ?_⟩
    unfold due
    simp [initializing, uninitialized]
  · refine ⟨some config, ?_, due_of_serves serves⟩
    rintro rules same
    obtain rfl := Option.some.inj same
    exact unchanged

/-- A name that the rules leave alone is handed over as it was read. -/
theorem forwarded_unchanged {rt : Runtime} {config : Option Config} {call : ApiCall} {name : WString}
    (read : readName rt call = .ok name)
    (unchanged : ∀ rules, config = some rules → rules.transform_path rt.boost name = .ok name) :
    forwarded rt config call = handOver rt call name := by
  unfold forwarded
  cases config with
  | none => simp only [read, bind, Except.bind, pure, Except.pure]
  | some rules =>
    have same := unchanged rules rfl
    by_cases named : HasName call
    · simp only [read, rewriteName, named, same, bind, Except.bind, ↓reduceIte]
    · simp only [read, rewriteName, named, bind, Except.bind, Bool.false_eq_true, ↓reduceIte]

/-- A name that cannot be read is not handed over at all. -/
theorem forwarded_unread {rt : Runtime} {config : Option Config} {call : ApiCall} {e : Stop}
    (read : readName rt call = .error e) : forwarded rt config call = .error e := by
  unfold forwarded
  simp only [read, bind, Except.bind]

/-- Nonzero bytes and one terminator hold no zero unit, wherever the pairs fall. -/
theorem zero_not_mem_units {name : Bytes} (clean : 0 ∉ name) : 0 ∉ units (narrow_c_str name) := by
  have unit_nonzero {low : UInt8} (high : UInt8) (nonzero : low ≠ 0) : 0 ≠ unit low high := by
    intro zero
    apply nonzero
    apply UInt8.toNat_inj.mp
    have value := congrArg UInt16.toNat zero
    have lowBound := low.toNat_lt
    have highBound := high.toNat_lt
    simp only [unit, UInt16.toNat_ofNat', UInt16.toNat_zero] at value
    simp only [UInt8.toNat_zero]
    omega
  unfold narrow_c_str
  fun_induction units name with
  | case1 low high rest ih =>
    simp only [List.mem_cons, not_or] at clean
    simp only [List.cons_append, units, List.mem_cons, not_or]
    exact ⟨unit_nonzero high (Ne.symm clean.1), ih clean.2.2⟩
  | case2 short noPair =>
    cases short with
    | nil => simp [units]
    | cons low behind =>
      cases behind with
      | nil =>
        simp only [List.mem_singleton] at clean
        simp only [List.singleton_append, units, List.mem_singleton]
        exact unit_nonzero 0 (Ne.symm clean)
      | cons high rest => exact absurd rfl (noPair low high rest)

/-- A narrow string alone does not end as a wide one. -/
theorem wideScan_narrow_c_str {name : Bytes} (clean : 0 ∉ name) : wideScan (narrow_c_str name) = none := by
  unfold wideScan
  cases found : scan 0 (units (narrow_c_str name)) with
  | none => rfl
  | some s =>
    obtain ⟨_, rest, same⟩ := (scan_eq_some_iff _ _).mp found
    exact absurd (by rw [same]; simp) (zero_not_mem_units clean)

/-- Every hook reads the string behind the pointer first, so NULL is a fault. -/
theorem readName_null (rt : Runtime) (c : NameCall) : readName rt (c.call none) = .error .fault := by
  cases c <;> rfl

theorem null_not_transparent (reached : Reached w) {c : NameCall} (stays : NameStays w boost charset loaded c none) :
    ¬ Transparent w (locale boost charset) init loaded c none := by
  intro forwards
  obtain ⟨config, _, expected⟩ := due_of_nameStays stays
  have real := (forwardsOnce_iff reached _ _ _ _ _).mp forwards
  rw [expected, forwarded_unread (readName_null _ c)] at real
  cases real

theorem openFile_transparent_iff (reached : Reached w) {lpReOpenBuff uStyle : UInt32}
    {name : (NameCall.OpenFile lpReOpenBuff uStyle).Name}
    (stays : NameStays w boost charset loaded (.OpenFile lpReOpenBuff uStyle) (some name)) :
    Transparent w (locale boost charset) init loaded (.OpenFile lpReOpenBuff uStyle) (some name) ↔
      ∃ text, charset.from_utf text = name.val := by
  obtain ⟨config, unchanged, expected⟩ := due_of_nameStays stays
  have clean : 0 ∉ name.val := name.property
  have real (rest : Bytes) : due w (locale boost charset)
      (.OpenFile (some (narrow_c_str name.val ++ rest)) lpReOpenBuff uStyle) loaded =
        .ok (.OpenFile (some (narrow_c_str (charset.from_utf (charset.to_utf name.val)))) lpReOpenBuff uStyle) := by
    have read : readName (locale boost charset)
        (.OpenFile (some (narrow_c_str name.val ++ rest)) lpReOpenBuff uStyle) = .ok (charset.to_utf name.val) := by
      simp only [readName, string, Option.bind_some, narrowScan_clean clean, Except.bind, locale]
    rw [expected, forwarded_unchanged read (fun rules same => unchanged rules same name rfl)]
    rfl
  rw [← charset.from_utf_to_utf_iff]
  constructor
  · rintro ⟨buffer, begins, forwards⟩
    have here := (forwardsOnce_iff reached _ _ _ _ _).mp (forwards [])
    have same : buffer = narrow_c_str (charset.from_utf (charset.to_utf name.val)) := by
      simpa [NameCall.call] using here.symm.trans (real [])
    subst same
    exact (terminated_prefix_unique clean (charset.from_utf_clean (charset.to_utf_clean _ clean)) begins).symm
  · intro survives
    refine ⟨narrow_c_str name.val, List.prefix_rfl, fun rest => ?_⟩
    have here := real rest
    rw [survives] at here
    exact (forwardsOnce_iff reached _ _ _ _ _).mpr here

/-- The bytes of a narrow name never end as a wide string, so `newCreateFileA`
    reads on behind them. -/
theorem createFileA_not_transparent (reached : Reached w) {args : CreateFileArgs} {name : (NameCall.CreateFileA args).Name}
    (stays : NameStays w boost charset loaded (.CreateFileA args) (some name)) :
    ¬ Transparent w (locale boost charset) init loaded (.CreateFileA args) (some name) := by
  rintro ⟨buffer, _, forwards⟩
  obtain ⟨config, _, expected⟩ := due_of_nameStays stays
  have real := (forwardsOnce_iff reached _ _ _ _ _).mp (forwards [])
  have faults : readName (locale boost charset) (.CreateFileA (some (narrow_c_str name.val)) args) = .error .fault := by
    simp only [readName, wstring, Option.bind_some, wideScan_narrow_c_str name.property]
  rw [List.append_nil, expected] at real
  cases (forwarded_unread faults).symm.trans real

theorem createFileW_transparent (reached : Reached w) {args : CreateFileArgs} {name : (NameCall.CreateFileW args).Name}
    (stays : NameStays w boost charset loaded (.CreateFileW args) (some name)) :
    Transparent w (locale boost charset) init loaded (.CreateFileW args) (some name) := by
  obtain ⟨config, unchanged, expected⟩ := due_of_nameStays stays
  refine ⟨wide_c_str name.val, List.prefix_rfl, fun rest => ?_⟩
  have read : readName (locale boost charset) (.CreateFileW (some (wide_c_str name.val ++ rest)) args) = .ok name.val := by
    simp only [readName, wstring, Option.bind_some, wideScan_clean name.property]
  refine (forwardsOnce_iff reached _ _ _ _ _).mpr ?_
  rw [expected]
  exact forwarded_unchanged read (fun rules same => unchanged rules same name rfl)

/-- Where a name is not to change, a hook is transparent to it exactly when the
    name survives: never to NULL, never to a narrow name of `CreateFileA`, to every
    name of `CreateFileW`, and to the valid names of `OpenFile`. -/
theorem transparent_iff (reached : Reached w) (c : NameCall) (lpFileName : Option c.Name)
    (stays : NameStays w boost charset loaded c lpFileName) :
    Transparent w (locale boost charset) init loaded c lpFileName ↔ Survives charset c lpFileName := by
  cases lpFileName with
  | none => exact iff_of_false (null_not_transparent reached stays) id
  | some name =>
    cases c with
    | OpenFile lpReOpenBuff uStyle => exact openFile_transparent_iff reached stays
    | CreateFileA args => exact iff_of_false (createFileA_not_transparent reached stays) id
    | CreateFileW args => exact iff_of_true (createFileW_transparent reached stays) trivial

end

/-- Without rules no name is to change. -/
theorem nameStays_without_rules (boost : Boost) (charset : Charset) (c : NameCall) (lpFileName : Option c.Name) :
    NameStays World.initial boost charset (.ok ⟨[]⟩) c lpFileName :=
  .inr ⟨⟨[]⟩, rfl, fun _ _ => rfl⟩

/-- `OpenFile("a")` without rules. -/
theorem transparent_iff_openFile_a :
    Transparent World.initial (locale literalBoost ascii) .done (.ok ⟨[]⟩) (.OpenFile 0 0) (some ⟨[97], by decide⟩) ↔
      Survives ascii (.OpenFile 0 0) (some ⟨[97], by decide⟩) :=
  transparent_iff .initial (.OpenFile 0 0) (some ⟨[97], by decide⟩)
    (.inr ⟨⟨[]⟩, rfl, fun _ _ => rfl⟩)

/-- Without rules, `CreateFileW(NULL)` faults, `CreateFileA("a")` reads behind its
    string, and `OpenFile` drops the byte 0xE9 of a name in a locale that lacks it. -/
theorem names_do_not_survive :
    ¬ Transparent World.initial (locale literalBoost ascii) .done (.ok ⟨[]⟩) (.CreateFileW ⟨0, 0, 0, 0, 0, 0⟩) none ∧
    ¬ Transparent World.initial (locale literalBoost ascii) .done (.ok ⟨[]⟩) (.CreateFileA ⟨0, 0, 0, 0, 0, 0⟩)
      (some ⟨[97], by decide⟩) ∧
    ¬ Transparent World.initial (locale literalBoost ascii) .done (.ok ⟨[]⟩) (.OpenFile 0 0)
      (some ⟨[0xE9], by decide⟩) := by
  refine ⟨null_not_transparent .initial (nameStays_without_rules ..),
    createFileA_not_transparent .initial (nameStays_without_rules ..), ?_⟩
  intro transparent
  have valid := (openFile_transparent_iff .initial (nameStays_without_rules ..)).mp transparent
  have survives : ascii.from_utf (ascii.to_utf [0xE9]) = [0xE9] := (ascii.from_utf_to_utf_iff _).mpr valid
  exact absurd survives (by decide)

end Sysintercept.Transparency
