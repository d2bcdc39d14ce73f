import Sysintercept.Forwarding

/-!
# File names across the entry points

What the three file-name hooks request for one name, at the level of the bytes in
memory, and which name reaches the unhooked body of `CreateFileW` when the real
`OpenFile` and `CreateFileA` are built on public entry points that are hooked too.
-/
namespace Sysintercept.FileNames
open Sysintercept.Terminated Sysintercept.Units Sysintercept.Rules Sysintercept.Exceptions Sysintercept.Hooks
open Sysintercept.Calls Sysintercept.Forwarding

/-- `ensured_init` returns true to a call that begins in this world, and the
    configuration is the one in force then. -/
def Serves (w : World) (loaded : Except Stop Config) (config : Config) : Prop :=
  if w.globals.initializing || w.globals.initialized then
    w.globals.initialized = true ∧ w.globals.config = some config
  else loaded = .ok config

/-- With a configuration in force, a hook forwards the rewritten call. -/
theorem due_of_serves {w : World} {loaded : Except Stop Config} {config : Config} (serves : Serves w loaded config)
    (rt : Runtime) (call : ApiCall) : due w rt call loaded = forwarded rt (some config) call := by
  unfold Serves at serves
  unfold due
  split
  · rename_i guard
    rw [if_pos guard] at serves
    rw [serves.1, serves.2]
    rfl
  · rename_i guard
    rw [if_neg guard] at serves
    cases read : readName rt call with
    | error e => simp [forwarded, read, bind, Except.bind]
    | ok name => simp [serves, bind, Except.bind]

/-- The file name that a call passes. -/
def fileName : ApiCall → Pointer
  | .OpenFile lpFileName _ _ => lpFileName
  | .CreateFileA lpFileName _ => lpFileName
  | .CreateFileW lpFileName _ => lpFileName
  | _ => none

/-- The hook makes its real call with a pointer to the given bytes, terminator included. -/
def Requests (w : World) (rt : Runtime) (init : CallSeq) (loaded : Except Stop Config) (call : ApiCall) (name : Bytes) :
    Prop :=
  ∃ real, ForwardsOnce (fun real => hooked rt (initBody init loaded) real call) w real ∧
    ∃ buffer, fileName real = some buffer ∧ name <+: buffer

/-- The name of each entry point for one file: wide for `CreateFileW`, narrow for
    the other two, with the memory that follows it. -/
structure Named where
  wideName : WString
  wideRest : Bytes
  narrowName : Bytes
  narrowRest : Bytes

def Named.wide (n : Named) : Pointer := some (wide_c_str n.wideName ++ n.wideRest)
def Named.narrow (n : Named) : Pointer := some (narrow_c_str n.narrowName ++ n.narrowRest)

/-- The three hooks request the one rewritten name, each in its own encoding. -/
def HooksAgree (w : World) (rt : Runtime) (init : CallSeq) (loaded : Except Stop Config) (config : Config) (n : Named)
    (args : CreateFileArgs) (lpReOpenBuff uStyle : UInt32) : Prop :=
  ∀ path narrowPath, config.transform_path rt.boost n.wideName = .ok path → rt.from_utf path = .ok narrowPath →
    Requests w rt init loaded (.CreateFileW n.wide args) (wide_c_str path) ∧
    Requests w rt init loaded (.OpenFile n.narrow lpReOpenBuff uStyle) (narrow_c_str narrowPath) ∧
    Requests w rt init loaded (.CreateFileA n.narrow args) (narrow_c_str narrowPath)

/-- The bytes of the narrow name, taken two by two up to the first zero unit,
    spell a text that the rules take to one whose own bytes begin with the given
    narrow name and its terminator. -/
def MisreadAgrees (rt : Runtime) (config : Config) (memory narrowPath : Bytes) : Prop :=
  ∃ misread rewritten, wideScan memory = some misread ∧ config.transform_path rt.boost misread = .ok rewritten ∧
    narrow_c_str narrowPath <+: wide_c_str rewritten

/-- The rules change nothing in the text that these bytes are misread as. -/
def LeavesMisread (rt : Runtime) (config : Config) (memory : Bytes) : Prop :=
  ∃ misread, wideScan memory = some misread ∧ config.transform_path rt.boost misread = .ok misread

/-- A misread text that the rules leave alone still spells the narrow name. -/
theorem misreadAgrees_left_iff {rt : Runtime} {config : Config} {narrowName rest narrowPath : Bytes}
    (left : LeavesMisread rt config (narrow_c_str narrowName ++ rest)) (clean : 0 ∉ narrowName)
    (pathClean : 0 ∉ narrowPath) :
    MisreadAgrees rt config (narrow_c_str narrowName ++ rest) narrowPath ↔ narrowPath = narrowName := by
  obtain ⟨misread, scanned, alone⟩ := left
  have spelled : cut 0 (toBytes misread) = narrowName :=
    Option.some.inj ((narrowScan_of_wideScan scanned).symm.trans (narrowScan_clean clean rest))
  have ended : wide_c_str misread = toBytes misread ++ 0 :: [0] := toBytes_append misread [0]
  have begins : narrow_c_str narrowPath <+: wide_c_str misread ↔ narrowPath = narrowName := by
    rw [ended, ← spelled]
    exact terminated_prefix_iff pathClean (toBytes misread) [0]
  constructor
  · rintro ⟨misread', rewritten, scanned', changed, same⟩
    cases scanned.symm.trans scanned'
    cases alone.symm.trans changed
    exact begins.mp same
  · intro kept
    exact ⟨misread, misread, scanned, alone, begins.mpr kept⟩

theorem readName_wide (rt : Runtime) {n : Named} (args : CreateFileArgs) (clean : 0 ∉ n.wideName) :
    readName rt (.CreateFileW n.wide args) = .ok n.wideName := by
  simp only [readName, wstring, Named.wide, Option.bind_some, wideScan_clean clean]

theorem readName_narrow {rt : Runtime} {n : Named} {lpReOpenBuff uStyle : UInt32} (clean : 0 ∉ n.narrowName)
    (decodes : rt.to_utf n.narrowName = .ok n.wideName) :
    readName rt (.OpenFile n.narrow lpReOpenBuff uStyle) = .ok n.wideName := by
  simp only [readName, string, Named.narrow, Option.bind_some, narrowScan_clean clean, Except.bind, decodes]

section
variable {w : World} {rt : Runtime} {init : CallSeq} {loaded : Except Stop Config} {config : Config}

theorem requests_iff (reached : Reached w) (serves : Serves w loaded config) (call : ApiCall) (name : Bytes) :
    Requests w rt init loaded call name ↔
      ∃ real, forwarded rt (some config) call = .ok real ∧ ∃ buffer, fileName real = some buffer ∧ name <+: buffer := by
  unfold Requests
  simp only [forwardsOnce_iff reached, due_of_serves serves]

theorem createFileW_requests (reached : Reached w) (serves : Serves w loaded config) {n : Named}
    (clean : 0 ∉ n.wideName) {path : WString} (rewritten : config.transform_path rt.boost n.wideName = .ok path)
    (args : CreateFileArgs) : Requests w rt init loaded (.CreateFileW n.wide args) (wide_c_str path) := by
  refine (requests_iff reached serves _ _).mpr ⟨.CreateFileW (some (wide_c_str path)) args, ?_, _, rfl, List.prefix_rfl⟩
  simp only [forwarded, readName_wide rt args clean, rewriteName, HasName, ↓reduceIte, rewritten, handOver, bind, Except.bind]

theorem openFile_requests (reached : Reached w) (serves : Serves w loaded config) {n : Named}
    (clean : 0 ∉ n.narrowName) (decodes : rt.to_utf n.narrowName = .ok n.wideName) {path : WString} {narrowPath : Bytes}
    (rewritten : config.transform_path rt.boost n.wideName = .ok path) (encodes : rt.from_utf path = .ok narrowPath)
    (lpReOpenBuff uStyle : UInt32) :
    Requests w rt init loaded (.OpenFile n.narrow lpReOpenBuff uStyle) (narrow_c_str narrowPath) := by
  refine (requests_iff reached serves _ _).mpr
    ⟨.OpenFile (some (narrow_c_str narrowPath)) lpReOpenBuff uStyle, ?_, _, rfl, List.prefix_rfl⟩
  simp only [forwarded, readName_narrow clean decodes, rewriteName, HasName, ↓reduceIte, rewritten, handOver, encodes,
    Except.map, bind, Except.bind]

/-- `newCreateFileA` works on the misread name, and requests what comes of it. -/
theorem createFileA_requests_iff (reached : Reached w) (serves : Serves w loaded config) (memory narrowPath : Bytes)
    (args : CreateFileArgs) :
    Requests w rt init loaded (.CreateFileA (some memory) args) (narrow_c_str narrowPath) ↔
      MisreadAgrees rt config memory narrowPath := by
  rw [requests_iff reached serves]
  unfold MisreadAgrees
  cases scanned : wideScan memory with
  | none => simp [forwarded, readName, wstring, scanned, bind, Except.bind]
  | some misread =>
    cases rewritten : config.transform_path rt.boost misread with
    | error e =>
      simp [forwarded, readName, wstring, scanned, rewriteName, HasName, rewritten, bind, Except.bind]
    | ok text =>
      simp [forwarded, readName, wstring, scanned, rewriteName, HasName, rewritten, handOver, fileName, bind,
        Except.bind]

/-- The hooks agree exactly when the misreading does: the other two always request
    the rewritten name. -/
theorem hooksAgree_iff_misreadAgrees (reached : Reached w) (serves : Serves w loaded config) {n : Named}
    (wideClean : 0 ∉ n.wideName) (narrowClean : 0 ∉ n.narrowName) (decodes : rt.to_utf n.narrowName = .ok n.wideName)
    (args : CreateFileArgs) (lpReOpenBuff uStyle : UInt32) :
    HooksAgree w rt init loaded config n args lpReOpenBuff uStyle ↔
      ∀ path narrowPath, config.transform_path rt.boost n.wideName = .ok path → rt.from_utf path = .ok narrowPath →
        MisreadAgrees rt config (narrow_c_str n.narrowName ++ n.narrowRest) narrowPath := by
  constructor
  · intro agree path narrowPath rewritten encodes
    exact (createFileA_requests_iff reached serves _ _ args).mp (agree path narrowPath rewritten encodes).2.2
  · intro misread path narrowPath rewritten encodes
    exact ⟨createFileW_requests reached serves wideClean rewritten args,
      openFile_requests reached serves narrowClean decodes rewritten encodes lpReOpenBuff uStyle,
      (createFileA_requests_iff reached serves _ _ args).mpr (misread path narrowPath rewritten encodes)⟩

/-- With a configuration in force, the three hooks request one and the same name
    exactly when the misreading of the narrow name in `newCreateFileA` comes out
    as the narrow encoding of the rewritten name. Where the rules leave the misread
    text alone, that is when the narrow encoding of the rewritten name is the
    narrow name itself. -/
theorem hooks_agree_iff (reached : Reached w) (serves : Serves w loaded config) (n : Named)
    (wideClean : 0 ∉ n.wideName) (narrowClean : 0 ∉ n.narrowName) (decodes : rt.to_utf n.narrowName = .ok n.wideName)
    (args : CreateFileArgs) (lpReOpenBuff uStyle : UInt32) :
    (HooksAgree w rt init loaded config n args lpReOpenBuff uStyle ↔
      ∀ path narrowPath, config.transform_path rt.boost n.wideName = .ok path → rt.from_utf path = .ok narrowPath →
        MisreadAgrees rt config (narrow_c_str n.narrowName ++ n.narrowRest) narrowPath) ∧
    ∀ path narrowPath, config.transform_path rt.boost n.wideName = .ok path → rt.from_utf path = .ok narrowPath →
      0 ∉ narrowPath → LeavesMisread rt config (narrow_c_str n.narrowName ++ n.narrowRest) →
        (HooksAgree w rt init loaded config n args lpReOpenBuff uStyle ↔ narrowPath = n.narrowName) := by
  have agree := @hooksAgree_iff_misreadAgrees w rt init loaded config reached serves n wideClean narrowClean decodes args
    lpReOpenBuff uStyle
  refine ⟨agree, fun path narrowPath rewritten encodes pathClean left => agree.trans ?_⟩
  have kept := misreadAgrees_left_iff left narrowClean pathClean
  constructor
  · intro misread
    exact kept.mp (misread path narrowPath rewritten encodes)
  · intro same path' narrowPath' rewritten' encodes'
    cases rewritten.symm.trans rewritten'
    cases encodes.symm.trans encodes'
    exact kept.mpr same

end

/-- A name as a program passes it in Latin-1, with zeros behind it. -/
def Named.ofText (name : String) : Named :=
  ⟨Rules.wide name, [], (Rules.wide name).map lowByte, [0, 0]⟩

/-- The rule of the repository's own test leaves the misreading of "a.txt" alone,
    so the hooks agree on that name exactly when b.txt is a.txt. -/
theorem hooks_agree_iff_haskell_pathrewrite :
    (HooksAgree World.initial (latin1 literalBoost) .done (.ok ⟨[ruleOf haskell_rule]⟩) ⟨[ruleOf haskell_rule]⟩
        (Named.ofText "a.txt") ⟨0, 0, 0, 0, 0, 0⟩ 0 0 ↔
      ∀ path narrowPath, Config.transform_path literalBoost ⟨[ruleOf haskell_rule]⟩ (wide "a.txt") = .ok path →
        (latin1 literalBoost).from_utf path = .ok narrowPath →
        MisreadAgrees (latin1 literalBoost) ⟨[ruleOf haskell_rule]⟩
          (narrow_c_str (Named.ofText "a.txt").narrowName ++ [0, 0]) narrowPath) ∧
    (HooksAgree World.initial (latin1 literalBoost) .done (.ok ⟨[ruleOf haskell_rule]⟩) ⟨[ruleOf haskell_rule]⟩
        (Named.ofText "a.txt") ⟨0, 0, 0, 0, 0, 0⟩ 0 0 ↔
      (wide "b.txt").map lowByte = (wide "a.txt").map lowByte) := by
  have agree := @hooks_agree_iff World.initial (latin1 literalBoost) .done (.ok ⟨[ruleOf haskell_rule]⟩)
    ⟨[ruleOf haskell_rule]⟩ .initial (by rfl) (Named.ofText "a.txt") (by decide) (by decide) (by rfl)
    ⟨0, 0, 0, 0, 0, 0⟩ 0 0
  exact ⟨agree.1, agree.2 (wide "b.txt") _ (by rfl) (by rfl) (by decide) ⟨[0x2e61, 0x7874, 0x0074], by rfl, by rfl⟩⟩

/-- Under the rule of the repository's own test, `CreateFileA("a.txt")` still
    requests a.txt, while the other two hooks request b.txt. -/
theorem createFileA_keeps_haskell_name :
    ¬ HooksAgree World.initial (latin1 literalBoost) .done (.ok ⟨[ruleOf haskell_rule]⟩) ⟨[ruleOf haskell_rule]⟩
        (Named.ofText "a.txt") ⟨0, 0, 0, 0, 0, 0⟩ 0 0 := by
  intro agree
  obtain ⟨_, _, narrow⟩ := agree (wide "b.txt") ((wide "b.txt").map lowByte) (by rfl) (by rfl)
  have misread := (createFileA_requests_iff .initial (by rfl) _ _ _).mp narrow
  obtain ⟨name, text, scanned, changed, same⟩ := misread
  have misreading : name = [0x2e61, 0x7874, 0x0074] := (Option.some.inj scanned).symm
  subst misreading
  have unchanged : text = [0x2e61, 0x7874, 0x0074] := (Except.ok.inj changed).symm
  subst unchanged
  exact absurd same (by decide)

/-! ## Hooks below hooks -/

/-- The public entry point that the real `OpenFile` is built on. -/
inductive Via
  | CreateFileA | CreateFileW
  deriving DecidableEq, Repr

/-- The part of kernel32 around the hooked functions: how `OpenFile` is built,
    what it passes to `CreateFile`, and the memory behind every buffer. -/
structure Kernel32 where
  via : Via
  args : CreateFileArgs
  heap : Bytes

/-- What can be read from a handed-on buffer. -/
def Kernel32.memory (k : Kernel32) (buffer : Pointer) : Pointer := buffer.map (· ++ k.heap)

section
variable (k : Kernel32) (rt : Runtime) (body : Dll Config) (unhooked : Pointer → CreateFileArgs → Dll Value)

/-- The trampoline into the unhooked body of `CreateFileW`. -/
def realCreateFileW : ApiCall → Dll Value
  | .CreateFileW lpFileName args => unhooked (k.memory lpFileName) args
  | _ => pure 0

/-- A narrow function converts the name and calls `CreateFileW`, which is hooked. -/
def callCreateFileW (lpFileName : Pointer) (args : CreateFileArgs) : Dll Value := do
  let name ← fromExcept ((string (k.memory lpFileName)).bind rt.to_utf)
  newCreateFileW rt body (realCreateFileW k unhooked) (some (wide_c_str name ++ k.heap)) args

def realCreateFileA : ApiCall → Dll Value
  | .CreateFileA lpFileName args => callCreateFileW k rt body unhooked lpFileName args
  | _ => pure 0

def realOpenFile : ApiCall → Dll Value
  | .OpenFile lpFileName _ _ =>
    match k.via with
    | .CreateFileA => newCreateFileA rt body (realCreateFileA k rt body unhooked) (k.memory lpFileName) k.args
    | .CreateFileW => callCreateFileW k rt body unhooked lpFileName k.args
  | _ => pure 0

/-- The hooked functions through which a program opens a file. -/
inductive Entry
  | OpenFile | CreateFileA | CreateFileW
  deriving DecidableEq, Repr

/-- A program opens the file through an entry point. -/
def enter (entry : Entry) (n : Named) : Dll Value :=
  match entry with
  | .OpenFile => newOpenFile rt body (realOpenFile k rt body unhooked) n.narrow 0 0
  | .CreateFileA => newCreateFileA rt body (realCreateFileA k rt body unhooked) n.narrow k.args
  | .CreateFileW => newCreateFileW rt body (realCreateFileW k unhooked) n.wide k.args

end

/-- The computation ends in the unhooked body of `CreateFileW`, with a pointer to
    the name up to its first NUL. -/
def ReachesBody (opened : (Pointer → CreateFileArgs → Dll Value) → Dll Value) (w : World) (name : WString) : Prop :=
  ∃ buffer args w', wideScan buffer = some (cut 0 name) ∧ ∀ unhooked, opened unhooked w = unhooked (some buffer) args w'

/-- A computation yields the path, up to its first NUL. -/
def Yields (result : Except Stop WString) (path : WString) : Prop :=
  ∃ path', result = .ok path' ∧ cut 0 path' = cut 0 path

/-- What the rules make of the name that comes out of `newCreateFileA`: it is
    misread and rewritten, read as a narrow name, and rewritten again. -/
def throughCreateFileA (rt : Runtime) (config : Config) (memory : Bytes) : Except Stop WString := do
  let misread ← wstring (some memory)
  let rewritten ← config.transform_path rt.boost misread
  let name ← rt.to_utf (cut 0 (toBytes rewritten))
  config.transform_path rt.boost (cut 0 name)

/-- The initialisation has ended well. -/
def Ready (w : World) (config : Config) : Prop := w.globals.initialized = true ∧ w.globals.config = some config

/-- A hook in a ready process: the globals stay, and the rewritten call is forwarded. -/
theorem prepare_ready {w : World} {config : Config} (ready : Ready w config) (rt : Runtime) (body : Dll Config)
    (call : ApiCall) :
    ∃ trace, prepare rt body call w = fromExcept (forwarded rt (some config) call) ⟨w.globals, trace⟩ := by
  unfold prepare
  cases read : readName rt call with
  | error e =>
    refine ⟨w.trace, ?_⟩
    simp only [forwarded, read, fromExcept, bind, Except.bind, EStateM.bind]
  | ok name =>
    rw [fromExcept_ok, pure_bind, bind_apply, ensured_init_guarded body (by simp [ready.1]), ready.1]
    simp only [bind_apply, Bool.true_and]
    cases named : HasName call with
    | false =>
      refine ⟨w.trace ++ [⟨.answer true, w.globals⟩], ?_⟩
      simp only [forwarded, read, rewriteName, named, bind, Except.bind, Bool.false_eq_true, ↓reduceIte]
      rfl
    | true =>
      have changed := transform_apply rt name (w := ⟨w.globals, w.trace ++ [⟨.answer true, w.globals⟩]⟩) ready.2
      refine ⟨w.trace ++ [⟨.answer true, w.globals⟩] ++ [⟨.deref (some config), w.globals⟩], ?_⟩
      simp only [rewrite, ↓reduceIte, changed, forwarded, read, rewriteName, named, bind, Except.bind]
      cases config.transform_path rt.boost name <;> rfl

theorem hooked_ready {w : World} {config : Config} (ready : Ready w config) (rt : Runtime) (body : Dll Config)
    (call : ApiCall) :
    ∃ trace, ∀ real, hooked rt body real call w =
      (fromExcept (forwarded rt (some config) call) >>= real) ⟨w.globals, trace⟩ := by
  obtain ⟨trace, prepared⟩ := prepare_ready ready rt body call
  refine ⟨trace, fun real => ?_⟩
  rw [hooked_eq, bind_apply, bind_apply, prepared]

/-- The computation hands a name to the unhooked body of `CreateFileW`, or throws
    where there is none. -/
def Delivers (k : Kernel32) (opened : (Pointer → CreateFileArgs → Dll Value) → Dll Value) (w : World)
    (result : Except Stop WString) : Prop :=
  ∃ args trace, ∀ unhooked, opened unhooked w =
    (fromExcept result >>= fun path => unhooked (some (wide_c_str path ++ k.heap)) args) ⟨w.globals, trace⟩

/-- The body gets what is delivered, and nothing else. -/
theorem reachesBody_iff {k : Kernel32} {opened : (Pointer → CreateFileArgs → Dll Value) → Dll Value} {w : World}
    {result : Except Stop WString} (delivers : Delivers k opened w result) (path : WString) :
    ReachesBody opened w path ↔ Yields result path := by
  obtain ⟨args, trace, delivered⟩ := delivers
  cases result with
  | error e =>
    constructor
    · rintro ⟨buffer, args', w', _, reaches⟩
      have impossible := (delivered fun _ _ => pure 0).symm.trans (reaches _)
      cases impossible
    · rintro ⟨path', impossible, _⟩
      cases impossible
  | ok path' =>
    simp only [fromExcept_ok, pure_bind] at delivered
    constructor
    · rintro ⟨buffer, args', w', scanned, reaches⟩
      refine ⟨path', rfl, ?_⟩
      -- A body that tells the two buffers apart.
      have told := (delivered fun b _ => if b = some buffer then pure 0 else pure 1).symm.trans (reaches _)
      by_cases same : some (wide_c_str path' ++ k.heap) = some buffer
      · cases same
        rw [wideScan_c_str] at scanned
        exact Option.some.inj scanned
      · simp only [same, ↓reduceIte] at told
        cases told
    · rintro ⟨path'', yielded, same⟩
      cases yielded
      exact ⟨_, args, _, by rw [wideScan_c_str, same], delivered⟩

/-- A computation that another one ends in delivers what that one delivers. -/
theorem delivers_through {k : Kernel32} {opened inner : (Pointer → CreateFileArgs → Dll Value) → Dll Value} {w : World}
    (trace : List Record) {result : Except Stop WString}
    (passes : ∀ unhooked, opened unhooked w = inner unhooked ⟨w.globals, trace⟩)
    (delivers : Delivers k inner ⟨w.globals, trace⟩ result) : Delivers k opened w result := by
  obtain ⟨args, trace', delivered⟩ := delivers
  exact ⟨args, trace', fun unhooked => (passes unhooked).trans (delivered unhooked)⟩

theorem delivers_error {k : Kernel32} {opened : (Pointer → CreateFileArgs → Dll Value) → Dll Value} {w : World}
    (trace : List Record) {e : Stop} (throws : ∀ unhooked, opened unhooked w = .error e ⟨w.globals, trace⟩) :
    Delivers k opened w (.error e) :=
  ⟨⟨0, 0, 0, 0, 0, 0⟩, trace, throws⟩

section
variable {k : Kernel32} {w : World} {config : Config} (ready : Ready w config) (rt : Runtime) (body : Dll Config)
include ready

theorem createFileW_delivers (memory : Bytes) (args : CreateFileArgs) :
    Delivers k (fun unhooked => newCreateFileW rt body (realCreateFileW k unhooked) (some memory) args) w
      (wstring (some memory) >>= config.transform_path rt.boost) := by
  obtain ⟨trace, ends⟩ := hooked_ready ready rt body (.CreateFileW (some memory) args)
  refine ⟨args, trace, fun unhooked => (ends _).trans ?_⟩
  simp only [forwarded, readName, rewriteName, HasName, ↓reduceIte, handOver]
  cases wstring (some memory) with
  | error e => rfl
  | ok name =>
    show (fromExcept (config.transform_path rt.boost name >>= _) >>= _) _ =
      (fromExcept (config.transform_path rt.boost name) >>= _) _
    cases config.transform_path rt.boost name <;> rfl

theorem callCreateFileW_delivers (buffer : Bytes) (args : CreateFileArgs) :
    Delivers k (fun unhooked => callCreateFileW k rt body unhooked (some buffer) args) w
      (do
        let name ← (string (some (buffer ++ k.heap))).bind rt.to_utf
        config.transform_path rt.boost (cut 0 name)) := by
  cases converted : (string (some (buffer ++ k.heap))).bind rt.to_utf with
  | error e =>
    refine delivers_error w.trace fun unhooked => ?_
    show (fromExcept ((string (some (buffer ++ k.heap))).bind rt.to_utf) >>= _) w = _
    rw [converted]
    rfl
  | ok name =>
    have delivers := createFileW_delivers (k := k) ready rt body (wide_c_str name ++ k.heap) args
    have read : wstring (some (wide_c_str name ++ k.heap)) = .ok (cut 0 name) := by
      simp only [wstring, Option.bind_some, wideScan_c_str]
    rw [read] at delivers
    refine delivers_through w.trace (fun unhooked => ?_) delivers
    show (fromExcept ((string (some (buffer ++ k.heap))).bind rt.to_utf) >>= _) w = _
    rw [converted]
    rfl

theorem createFileA_delivers (memory : Bytes) (args : CreateFileArgs) :
    Delivers k (fun unhooked => newCreateFileA rt body (realCreateFileA k rt body unhooked) (some memory) args) w
      (throughCreateFileA rt config memory) := by
  obtain ⟨trace, ends⟩ := hooked_ready ready rt body (.CreateFileA (some memory) args)
  unfold throughCreateFileA
  cases read : wstring (some memory) with
  | error e =>
    refine delivers_error trace fun unhooked => (ends _).trans ?_
    simp only [forwarded, readName, read]
    rfl
  | ok misread =>
    simp only [forwarded, readName, read, rewriteName, HasName, ↓reduceIte, handOver] at ends
    show Delivers k _ w (config.transform_path rt.boost misread >>= _)
    cases changed : config.transform_path rt.boost misread with
    | error e =>
      refine delivers_error trace fun unhooked => (ends _).trans ?_
      show (fromExcept (config.transform_path rt.boost misread >>= _) >>= _) _ = _
      rw [changed]
      rfl
    | ok rewritten =>
      have there : Ready ⟨w.globals, trace⟩ config := ready
      have delivers := callCreateFileW_delivers (k := k) there rt body (wide_c_str rewritten) args
      have reread : string (some (wide_c_str rewritten ++ k.heap)) = .ok (cut 0 (toBytes rewritten)) := by
        have ended : wide_c_str rewritten ++ k.heap = toBytes rewritten ++ 0 :: (0 :: k.heap) := by
          simp [wide_c_str, toBytes_append, toBytes, lowByte, highByte]
        simp only [string, Option.bind_some, narrowScan, ended, scan_terminated]
      rw [reread] at delivers
      refine delivers_through trace (fun unhooked => (ends _).trans ?_) delivers
      show (fromExcept (config.transform_path rt.boost misread >>= _) >>= _) _ = _
      rw [changed]
      rfl

/-- `OpenFile` hands the rewritten name to the entry point that it is built on. -/
theorem openFile_delivers {n : Named} (clean : 0 ∉ n.narrowName) (decodes : rt.to_utf n.narrowName = .ok n.wideName)
    {path : WString} {narrowPath : Bytes} (rewritten : config.transform_path rt.boost n.wideName = .ok path)
    (encodes : rt.from_utf path = .ok narrowPath) (lossless : rt.to_utf (cut 0 narrowPath) = .ok (cut 0 path)) :
    Delivers k (fun unhooked => newOpenFile rt body (realOpenFile k rt body unhooked) n.narrow 0 0) w
      (match k.via with
        | .CreateFileA => throughCreateFileA rt config (narrow_c_str narrowPath ++ k.heap)
        | .CreateFileW => config.transform_path rt.boost (cut 0 path)) := by
  obtain ⟨trace, ends⟩ := hooked_ready ready rt body (.OpenFile n.narrow 0 0)
  have there : Ready ⟨w.globals, trace⟩ config := ready
  have handed : forwarded rt (some config) (.OpenFile n.narrow 0 0) =
      .ok (.OpenFile (some (narrow_c_str narrowPath)) 0 0) := by
    simp only [forwarded, readName_narrow clean decodes, rewriteName, HasName, ↓reduceIte, rewritten, handOver, encodes,
      Except.map, bind, Except.bind]
  rw [handed] at ends
  simp only [fromExcept_ok, pure_bind] at ends
  cases via : k.via with
  | CreateFileA =>
    refine delivers_through trace (fun unhooked => (ends _).trans ?_) (createFileA_delivers there rt body _ k.args)
    simp only [realOpenFile, via, Kernel32.memory, Option.map_some]
  | CreateFileW =>
    have reread : string (some (narrow_c_str narrowPath ++ k.heap)) = .ok (cut 0 narrowPath) := by
      simp only [string, Option.bind_some, narrowScan_c_str]
    have delivers := callCreateFileW_delivers (k := k) there rt body (narrow_c_str narrowPath) k.args
    simp only [reread, Except.bind, lossless] at delivers
    have once : config.transform_path rt.boost (cut 0 path) = config.transform_path rt.boost (cut 0 (cut 0 path)) := by
      rw [cut_cut]
    rw [once]
    refine delivers_through trace (fun unhooked => (ends _).trans ?_) delivers
    simp only [realOpenFile, via]

end

/-- What the hooks on the way of a name from an entry point down make of it is the
    once rewritten name. `CreateFileW` rewrites it there and then. Below
    `CreateFileA` is `CreateFileW`: the name is misread and rewritten by the one,
    and rewritten as a narrow name by the other. `OpenFile` has rewritten the name
    already when it reaches one of the two. -/
def OnceThrough (k : Kernel32) (rt : Runtime) (config : Config) (entry : Entry) (n : Named) (path : WString)
    (narrowPath : Bytes) : Prop :=
  match entry, k.via with
  | .CreateFileW, _ => True
  | .CreateFileA, _ => Yields (throughCreateFileA rt config (narrow_c_str n.narrowName ++ n.narrowRest)) path
  | .OpenFile, .CreateFileW => Yields (config.transform_path rt.boost (cut 0 path)) path
  | .OpenFile, .CreateFileA => Yields (throughCreateFileA rt config (narrow_c_str narrowPath ++ k.heap)) path

/-- The rules change nothing in what `newCreateFileA` misreads on that way. -/
def LeavesMisreadings (k : Kernel32) (rt : Runtime) (config : Config) (entry : Entry) (n : Named) (narrowPath : Bytes) :
    Prop :=
  match entry, k.via with
  | .CreateFileA, _ => LeavesMisread rt config (narrow_c_str n.narrowName ++ n.narrowRest)
  | .OpenFile, .CreateFileA => LeavesMisread rt config (narrow_c_str narrowPath ++ k.heap)
  | .OpenFile, .CreateFileW => True
  | .CreateFileW, _ => True

/-- Where the rules leave the misread text alone, only `newCreateFileW` rewrites. -/
theorem throughCreateFileA_left {rt : Runtime} {config : Config} {memory : Bytes}
    (left : LeavesMisread rt config memory) {name : Bytes} (scanned : narrowScan memory = some name)
    {wideName : WString} (decodes : rt.to_utf name = .ok wideName) :
    throughCreateFileA rt config memory = config.transform_path rt.boost (cut 0 wideName) := by
  obtain ⟨misread, misreads, alone⟩ := left
  have spelled : cut 0 (toBytes misread) = name :=
    Option.some.inj ((narrowScan_of_wideScan misreads).symm.trans scanned)
  simp only [throughCreateFileA, wstring, Option.bind_some, misreads, alone, spelled, decodes, bind, Except.bind]

theorem onceThrough_left {k : Kernel32} {rt : Runtime} {config : Config} {entry : Entry} {n : Named} {path : WString}
    {narrowPath : Bytes} (left : LeavesMisreadings k rt config entry n narrowPath) (wideClean : 0 ∉ n.wideName)
    (narrowClean : 0 ∉ n.narrowName) (decodes : rt.to_utf n.narrowName = .ok n.wideName)
    (rewritten : config.transform_path rt.boost n.wideName = .ok path)
    (lossless : rt.to_utf (cut 0 narrowPath) = .ok (cut 0 path)) :
    OnceThrough k rt config entry n path narrowPath ↔
      (entry = .OpenFile → Yields (config.transform_path rt.boost (cut 0 path)) path) := by
  cases entry with
  | CreateFileW => exact iff_of_true trivial fun opened => by cases opened
  | CreateFileA =>
    have once := throughCreateFileA_left left (narrowScan_clean narrowClean n.narrowRest) decodes
    rw [cut_of_not_mem wideClean, rewritten] at once
    exact iff_of_true ⟨path, once, rfl⟩ fun opened => by cases opened
  | OpenFile =>
    simp only [forall_const]
    unfold OnceThrough
    unfold LeavesMisreadings at left
    cases via : k.via with
    | CreateFileW => rfl
    | CreateFileA =>
      rw [via] at left
      have again := throughCreateFileA_left left (narrowScan_c_str narrowPath k.heap) lossless
      rw [cut_cut] at again
      show Yields (throughCreateFileA rt config (narrow_c_str narrowPath ++ k.heap)) path ↔ _
      rw [again]

theorem reachesBody_iff_onceThrough {w : World} {config : Config} (ready : Ready w config) (k : Kernel32) (rt : Runtime)
    (body : Dll Config) (entry : Entry) {n : Named} (wideClean : 0 ∉ n.wideName) (narrowClean : 0 ∉ n.narrowName)
    (decodes : rt.to_utf n.narrowName = .ok n.wideName) {path : WString} {narrowPath : Bytes}
    (rewritten : config.transform_path rt.boost n.wideName = .ok path) (encodes : rt.from_utf path = .ok narrowPath)
    (lossless : rt.to_utf (cut 0 narrowPath) = .ok (cut 0 path)) :
    ReachesBody (fun unhooked => enter k rt body unhooked entry n) w path ↔
      OnceThrough k rt config entry n path narrowPath := by
  cases entry with
  | CreateFileW =>
    have read : wstring n.wide = .ok n.wideName := readName_wide rt k.args wideClean
    have delivers := createFileW_delivers (k := k) ready rt body (wide_c_str n.wideName ++ n.wideRest) k.args
    have reaches := (reachesBody_iff delivers path).mpr ⟨path, ?_, rfl⟩
    · exact iff_of_true reaches trivial
    · show wstring n.wide >>= config.transform_path rt.boost = .ok path
      rw [read]
      exact rewritten
  | CreateFileA => exact reachesBody_iff (createFileA_delivers ready rt body _ k.args) path
  | OpenFile =>
    have delivers := openFile_delivers (k := k) ready rt body narrowClean decodes rewritten encodes lossless
    refine (reachesBody_iff delivers path).trans ?_
    unfold OnceThrough
    cases k.via <;> rfl

/-- After a successful initialisation, the name that reaches the unhooked body of
    `CreateFileW` is the once rewritten one exactly when what the hooks on its way
    make of it is. Where the rules change nothing in what `newCreateFileA` misreads,
    it always is, except that the rules must leave a name that went through
    `OpenFile` as they made it. -/
theorem rewritten_once_iff {w : World} {config : Config} (ready : Ready w config) (k : Kernel32) (rt : Runtime)
    (body : Dll Config) (entry : Entry) (n : Named) (wideClean : 0 ∉ n.wideName) (narrowClean : 0 ∉ n.narrowName)
    (decodes : rt.to_utf n.narrowName = .ok n.wideName) {path : WString} {narrowPath : Bytes}
    (rewritten : config.transform_path rt.boost n.wideName = .ok path) (encodes : rt.from_utf path = .ok narrowPath)
    (lossless : rt.to_utf (cut 0 narrowPath) = .ok (cut 0 path)) :
    (ReachesBody (fun unhooked => enter k rt body unhooked entry n) w path ↔
      OnceThrough k rt config entry n path narrowPath) ∧
    (LeavesMisreadings k rt config entry n narrowPath →
      (ReachesBody (fun unhooked => enter k rt body unhooked entry n) w path ↔
        (entry = .OpenFile → Yields (config.transform_path rt.boost (cut 0 path)) path))) := by
  have through := reachesBody_iff_onceThrough ready k rt body entry wideClean narrowClean decodes rewritten encodes
    lossless
  exact ⟨through, fun left =>
    through.trans (onceThrough_left left wideClean narrowClean decodes rewritten lossless)⟩

/-- A process in which a configuration was loaded. -/
def served (config : Config) : World := final (run (.call (latin1 literalBoost) (.ExitProcess 0) .done (.ok config) .done
  (.ok 0) .done)) World.initial

/-- A kernel32 whose `OpenFile` is built on `CreateFileA`. -/
def narrowKernel32 : Kernel32 := ⟨.CreateFileA, ⟨0, 0, 0, 0, 0, 0⟩, [0, 0]⟩

/-- Under the rule of the repository's own test, "a.txt" passes all three hooks on
    its way through such an `OpenFile`, and comes out as b.txt. -/
theorem rewritten_once_iff_haskell_pathrewrite :
    (ReachesBody (fun unhooked => enter narrowKernel32 (latin1 literalBoost) (initBody .done (.error .other)) unhooked
        .OpenFile (Named.ofText "a.txt")) (served ⟨[ruleOf haskell_rule]⟩) (Rules.wide "b.txt") ↔
      OnceThrough narrowKernel32 (latin1 literalBoost) ⟨[ruleOf haskell_rule]⟩ .OpenFile (Named.ofText "a.txt")
        (Rules.wide "b.txt") ((Rules.wide "b.txt").map lowByte)) ∧
    ReachesBody (fun unhooked => enter narrowKernel32 (latin1 literalBoost) (initBody .done (.error .other)) unhooked
      .OpenFile (Named.ofText "a.txt")) (served ⟨[ruleOf haskell_rule]⟩) (Rules.wide "b.txt") := by
  have ready : Ready (served ⟨[ruleOf haskell_rule]⟩) ⟨[ruleOf haskell_rule]⟩ := ⟨rfl, rfl⟩
  have rewritten : Config.transform_path (latin1 literalBoost).boost ⟨[ruleOf haskell_rule]⟩
      (Named.ofText "a.txt").wideName = .ok (Rules.wide "b.txt") := rfl
  have encodes : (latin1 literalBoost).from_utf (Rules.wide "b.txt") = .ok ((Rules.wide "b.txt").map lowByte) := rfl
  have once := rewritten_once_iff ready narrowKernel32 (latin1 literalBoost) (initBody .done (.error .other)) .OpenFile
    (Named.ofText "a.txt") (by decide) (by decide) (by rfl) rewritten encodes (by rfl)
  have left : LeavesMisreadings narrowKernel32 (latin1 literalBoost) ⟨[ruleOf haskell_rule]⟩ .OpenFile
      (Named.ofText "a.txt") ((Rules.wide "b.txt").map lowByte) := ⟨[0x2e62, 0x7874, 0x0074], by rfl, by rfl⟩
  exact ⟨once.1, (once.2 left).mpr fun _ => ⟨Rules.wide "b.txt", by rfl, rfl⟩⟩

/-- A rule whose replacement contains its own pattern. -/
def doubling_rule : xml.Replacement := ⟨⟨Rules.wide "a", .literal⟩, ⟨Rules.wide "aa", .literal⟩⟩

/-- Under that rule the name "a" comes out of `OpenFile` rewritten twice: the
    rules make "aa" of it, and the body of `CreateFileW` gets "aaaa". -/
theorem openFile_rewrites_twice :
    Config.transform_path literalBoost ⟨[ruleOf doubling_rule]⟩ (Rules.wide "a") = .ok (Rules.wide "aa") ∧
    ReachesBody (fun unhooked => enter ⟨.CreateFileW, ⟨0, 0, 0, 0, 0, 0⟩, []⟩ (latin1 literalBoost)
      (initBody .done (.error .other)) unhooked .OpenFile (Named.ofText "a"))
      (served ⟨[ruleOf doubling_rule]⟩) (Rules.wide "aaaa") ∧
    ¬ ReachesBody (fun unhooked => enter ⟨.CreateFileW, ⟨0, 0, 0, 0, 0, 0⟩, []⟩ (latin1 literalBoost)
      (initBody .done (.error .other)) unhooked .OpenFile (Named.ofText "a"))
      (served ⟨[ruleOf doubling_rule]⟩) (Rules.wide "aa") := by
  have ready : Ready (served ⟨[ruleOf doubling_rule]⟩) ⟨[ruleOf doubling_rule]⟩ := ⟨rfl, rfl⟩
  have rewritten : Config.transform_path literalBoost ⟨[ruleOf doubling_rule]⟩ (Rules.wide "a") = .ok (Rules.wide "aa") :=
    rfl
  have encodes : (latin1 literalBoost).from_utf (Rules.wide "aa") = .ok ((Rules.wide "aa").map lowByte) := rfl
  have delivers := openFile_delivers (k := ⟨.CreateFileW, ⟨0, 0, 0, 0, 0, 0⟩, []⟩) ready (latin1 literalBoost)
    (initBody .done (.error .other)) (n := Named.ofText "a") (by decide) (by rfl) rewritten encodes (by rfl)
  refine ⟨rewritten, (reachesBody_iff delivers _).mpr ⟨Rules.wide "aaaa", by rfl, rfl⟩, fun once => ?_⟩
  obtain ⟨path, yielded, same⟩ := (reachesBody_iff delivers _).mp once
  have twice : path = Rules.wide "aaaa" := (Except.ok.inj yielded).symm
  subst twice
  exact absurd same (by decide)

end Sysintercept.FileNames
