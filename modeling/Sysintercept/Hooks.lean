import Sysintercept.Exceptions
import Sysintercept.Rules

/-!
# The hooks and their lazy initialisation

`ensured_init` and the five functions that the DLL puts in the place of
`ExitProcess`, `OpenFile`, `CreateFileA`, `CreateFileW` and `ReadFile`. File
names are memory: a hook gets a pointer to readable bytes and hands the real
function a pointer to the bytes that `c_str` lays out.
-/
namespace Sysintercept.Hooks
open Sysintercept.Units Sysintercept.Rules Sysintercept.Exceptions

/-- A `const char*` or `const wchar_t*`: NULL, or the bytes that can be read from there on. -/
abbrev Pointer := Option Bytes

/-- The parameters of `CreateFile` that the hooks pass through. -/
structure CreateFileArgs where
  dwDesiredAccess : UInt32
  dwShareMode : UInt32
  lpSecurityAttributes : UInt32
  dwCreationDisposition : UInt32
  dwFlagsAndAttributes : UInt32
  hTemplateFile : UInt32
  deriving DecidableEq, Repr

/-- A call of one of the five functions, hooked or real. -/
inductive ApiCall
  | ExitProcess (uExitCode : UInt32)
  | OpenFile (lpFileName : Pointer) (lpReOpenBuff uStyle : UInt32)
  | CreateFileA (lpFileName : Pointer) (args : CreateFileArgs)
  | CreateFileW (lpFileName : Pointer) (args : CreateFileArgs)
  | ReadFile (hFile lpBuffer nNumberOfBytesToRead lpNumberOfBytesRead lpOverlapped : UInt32)
  deriving DecidableEq, Repr

/-- The functions that the DLL redirects. -/
inductive ApiFunction
  | ExitProcess | OpenFile | CreateFileA | CreateFileW | ReadFile
  deriving DecidableEq, Repr

def ApiCall.function : ApiCall → ApiFunction
  | .ExitProcess _ => .ExitProcess
  | .OpenFile .. => .OpenFile
  | .CreateFileA .. => .CreateFileA
  | .CreateFileW .. => .CreateFileW
  | .ReadFile .. => .ReadFile

/-- The functions that `hook_everything` hooks, one after the other. -/
def hook_everything : List ApiFunction := [.ExitProcess, .OpenFile, .CreateFileA, .CreateFileW, .ReadFile]

/-- What a function returns; `ExitProcess` returns nothing of use. -/
abbrev Value := UInt32

/-- The library functions that a hook calls: Boost.Regex, and the conversions of
    charset.cpp. Any of them may throw. -/
structure Runtime where
  boost : Boost
  to_utf : Bytes → Except Stop WString
  from_utf : WString → Except Stop Bytes

/-- The conversions of a Latin-1 locale; characters that it lacks are dropped. -/
def latin1 (boost : Boost) : Runtime where
  boost := boost
  to_utf b := .ok (b.map (fun c => UInt16.ofNat c.toNat))
  from_utf w := .ok ((w.filter (· < 256)).map (fun u => UInt8.ofNat u.toNat))

/-- The static flags of `ensured_init` and the global `config`. -/
structure Globals where
  initialized : Bool
  initializing : Bool
  config : Option Config
  deriving DecidableEq, Repr

/-- What an observer of the DLL sees happen. -/
inductive Event
  | enter                                  -- the initialisation body is entered
  | fail (e : Stop) (cerr : Option String) -- an exception leaves the body, with what is printed
  | publish (config : Config)              -- config = load_config(..)
  | initialized                            -- initialized = true
  | settled                                -- initializing = false
  | answer (initialized : Bool)            -- ensured_init returns
  | deref (config : Option Config)         -- config-> is evaluated
  | real (rt : Runtime) (hooked call : ApiCall) -- new* calls real*

/-- An event with the globals right after it. -/
structure Record where
  event : Event
  globals : Globals

structure World where
  globals : Globals
  trace : List Record

/-- The process when the DLL has been loaded. -/
def World.initial : World := ⟨⟨false, false, none⟩, []⟩

abbrev Dll := EStateM Stop World

def log (e : Event) : Dll Unit := fun w => .ok () ⟨w.globals, w.trace ++ [⟨e, w.globals⟩]⟩

/-- An assignment to the globals, with the event that it is. -/
def assign (f : Globals → Globals) (e : Event) : Dll Unit := fun w =>
  .ok () ⟨f w.globals, w.trace ++ [⟨e, f w.globals⟩]⟩

/-- What the handlers of `ensured_init` print before they throw again; an
    assertion or a fault is no C++ exception. -/
def report : Stop → Option String
  | .xml what => some ("dll " ++ what)
  | .std what => some ("dll: " ++ what)
  | .other => some "whoops"
  | .assertion => none
  | .fault => none

/-- `ensured_init` behind its guard. -/
def initialise (body : Dll Config) : Dll Bool := do
  assign (fun g => { g with initializing := true }) .enter
  let config ← tryCatch body (fun e => do
    log (.fail e (report e))  -- initializing stays true
    throw e)
  assign (fun g => { g with config := some config }) (.publish config)
  assign (fun g => { g with initialized := true }) .initialized
  assign (fun g => { g with initializing := false }) .settled
  log (.answer true)
  return true

/-- `body` is `init_logging` followed by `load_config`. -/
def ensured_init (body : Dll Config) : Dll Bool := do
  let g := (← get).globals
  if g.initializing || g.initialized then
    log (.answer g.initialized)
    return g.initialized
  else initialise body

/-- `config->transform_path(file_name)`; a NULL `config` is an undefined value. -/
def transform (rt : Runtime) (file_name : WString) : Dll WString := do
  let config := (← get).globals.config
  log (.deref config)
  match config with
  | none => throw .fault
  | some config => fromExcept (config.transform_path rt.boost file_name)

/-- The file name is rewritten where `ensured_init` returned true. -/
def rewrite (rt : Runtime) (inited : Bool) (file_name : WString) : Dll WString :=
  if inited then transform rt file_name else pure file_name

/-- `wstring(lpFileName)`. -/
def wstring (lpFileName : Pointer) : Except Stop WString :=
  match lpFileName.bind wideScan with
  | none => .error .fault
  | some s => .ok s

/-- `std::string(lpFileName)`, the argument of `to_utf`. -/
def string (lpFileName : Pointer) : Except Stop Bytes :=
  match lpFileName.bind narrowScan with
  | none => .error .fault
  | some s => .ok s

/-- What the three file-name hooks share: read the name, rewrite it where the DLL
    is initialised, and call the real function with the name laid out again. -/
def fileNameHook (rt : Runtime) (body : Dll Config) (read : Except Stop WString) (c_str : WString → Except Stop Bytes)
    (real : Bytes → Dll Value) : Dll Value := do
  let file_name ← fromExcept read
  let inited ← ensured_init body
  let file_name ← rewrite rt inited file_name
  let buffer ← fromExcept (c_str file_name)
  real buffer

/-- What the two hooks without a file name share: they initialise, and pass the call on. -/
def passingHook (body : Dll Config) (real : Dll Value) : Dll Value := do
  let _ ← ensured_init body
  real

section
variable (rt : Runtime) (body : Dll Config) (real : ApiCall → Dll Value)

def newExitProcess (uExitCode : UInt32) : Dll Value :=
  passingHook body (real (.ExitProcess uExitCode))

/-- A narrow name is converted on the way in and on the way out. -/
def newOpenFile (lpFileName : Pointer) (lpReOpenBuff uStyle : UInt32) : Dll Value :=
  fileNameHook rt body ((string lpFileName).bind rt.to_utf) (fun s => (rt.from_utf s).map narrow_c_str)
    (fun buffer => real (.OpenFile (some buffer) lpReOpenBuff uStyle))

/-- `LPCTSTR` is a wide pointer in this build: the narrow name is read as wide units. -/
def newCreateFileA (lpFileName : Pointer) (args : CreateFileArgs) : Dll Value :=
  fileNameHook rt body (wstring lpFileName) (fun s => .ok (wide_c_str s))
    (fun buffer => real (.CreateFileA (some buffer) args))

def newCreateFileW (lpFileName : Pointer) (args : CreateFileArgs) : Dll Value :=
  fileNameHook rt body (wstring lpFileName) (fun s => .ok (wide_c_str s))
    (fun buffer => real (.CreateFileW (some buffer) args))

def newReadFile (hFile lpBuffer nNumberOfBytesToRead lpNumberOfBytesRead lpOverlapped : UInt32) : Dll Value :=
  passingHook body (real (.ReadFile hFile lpBuffer nNumberOfBytesToRead lpNumberOfBytesRead lpOverlapped))

/-- The redirection that `hook_everything` installs. -/
def hooked : ApiCall → Dll Value
  | .ExitProcess uExitCode => newExitProcess body real uExitCode
  | .OpenFile lpFileName lpReOpenBuff uStyle => newOpenFile rt body real lpFileName lpReOpenBuff uStyle
  | .CreateFileA lpFileName args => newCreateFileA rt body real lpFileName args
  | .CreateFileW lpFileName args => newCreateFileW rt body real lpFileName args
  | .ReadFile hFile lpBuffer n lpRead lpOverlapped => newReadFile body real hFile lpBuffer n lpRead lpOverlapped

end

/-- One of the flags is set: the guard answers, and nothing else happens. -/
theorem ensured_init_guarded (body : Dll Config) {w : World}
    (guarded : (w.globals.initializing || w.globals.initialized) = true) :
    ensured_init body w =
      .ok w.globals.initialized ⟨w.globals, w.trace ++ [⟨.answer w.globals.initialized, w.globals⟩]⟩ := by
  show (if w.globals.initializing || w.globals.initialized then _ else initialise body) w = _
  rw [if_pos guarded]
  rfl

/-- No flag is set: the call initialises. -/
theorem ensured_init_unguarded (body : Dll Config) {w : World}
    (unguarded : (w.globals.initializing || w.globals.initialized) = false) :
    ensured_init body w = initialise body w := by
  show (if w.globals.initializing || w.globals.initialized then _ else initialise body) w = _
  rw [if_neg (by rw [unguarded]; exact Bool.false_ne_true)]

/-- The body throws: so does the initialisation. -/
theorem initialise_throws (body : Dll Config) {w w' : World} {e : Stop}
    (thrown : body ⟨{ w.globals with initializing := true }, w.trace ++ [⟨.enter, { w.globals with initializing := true }⟩]⟩
      = .error e w') : outcome (initialise body) w = .error e := by
  have caught : (tryCatch body (fun e => do log (.fail e (report e)); throw e) : Dll Config)
      ⟨{ w.globals with initializing := true }, w.trace ++ [⟨.enter, { w.globals with initializing := true }⟩]⟩ =
        .error e ⟨w'.globals, w'.trace ++ [⟨.fail e (report e), w'.globals⟩]⟩ := by
    show EStateM.tryCatch body _ _ = _
    unfold EStateM.tryCatch
    rw [thrown]
    rfl
  unfold initialise
  simp only [outcome_bind, assign, caught]

/-- The body returns a configuration: it is in force, and the flags say so. -/
theorem initialise_returns (body : Dll Config) {w w' : World} {config : Config}
    (returned : body ⟨{ w.globals with initializing := true },
      w.trace ++ [⟨.enter, { w.globals with initializing := true }⟩]⟩ = .ok config w') :
    ∃ trace, initialise body w = .ok true ⟨⟨true, false, some config⟩, trace⟩ := by
  have caught : (tryCatch body (fun e => do log (.fail e (report e)); throw e) : Dll Config)
      ⟨{ w.globals with initializing := true }, w.trace ++ [⟨.enter, { w.globals with initializing := true }⟩]⟩ =
        .ok config w' := by
    show EStateM.tryCatch body _ _ = _
    unfold EStateM.tryCatch
    rw [returned]
  unfold initialise
  simp only [bind_apply, assign, caught, log]
  exact ⟨_, rfl⟩

/-! ## One description of all five hooks -/

/-- The name that a hook works on; hooks without a file name work on nothing. -/
def readName (rt : Runtime) : ApiCall → Except Stop WString
  | .OpenFile lpFileName _ _ => (string lpFileName).bind rt.to_utf
  | .CreateFileA lpFileName _ => wstring lpFileName
  | .CreateFileW lpFileName _ => wstring lpFileName
  | _ => .ok []

/-- Whether a call passes a file name. -/
def HasName : ApiCall → Bool
  | .OpenFile .. => true
  | .CreateFileA .. => true
  | .CreateFileW .. => true
  | _ => false

/-- The name after the rules of a configuration, for calls that pass one. -/
def rewriteName (rt : Runtime) (config : Config) (call : ApiCall) (name : WString) : Except Stop WString :=
  if HasName call then config.transform_path rt.boost name else .ok name

/-- The real call for a name: every other parameter is the caller's. -/
def handOver (rt : Runtime) : ApiCall → WString → Except Stop ApiCall
  | .OpenFile _ lpReOpenBuff uStyle, s =>
    ((rt.from_utf s).map narrow_c_str).map (fun buffer => .OpenFile (some buffer) lpReOpenBuff uStyle)
  | .CreateFileA _ args, s => .ok (.CreateFileA (some (wide_c_str s)) args)
  | .CreateFileW _ args, s => .ok (.CreateFileW (some (wide_c_str s)) args)
  | call, _ => .ok call

/-- The real call that a hook makes of a call when it rewrites names with a
    configuration, or leaves them as they are. -/
def forwarded (rt : Runtime) (config : Option Config) (call : ApiCall) : Except Stop ApiCall := do
  let name ← readName rt call
  let name ← match config with
    | none => pure name
    | some config => rewriteName rt config call name
  handOver rt call name

/-- Everything that a hook does before it calls the real function. -/
def prepare (rt : Runtime) (body : Dll Config) (call : ApiCall) : Dll ApiCall := do
  let name ← fromExcept (readName rt call)
  let inited ← ensured_init body
  let name ← rewrite rt (inited && HasName call) name
  fromExcept (handOver rt call name)

/-- Rewriting with the configuration that `config` holds. -/
theorem transform_apply (rt : Runtime) (name : WString) {w : World} {config : Config}
    (installed : w.globals.config = some config) :
    transform rt name w = fromExcept (config.transform_path rt.boost name)
      ⟨w.globals, w.trace ++ [⟨.deref (some config), w.globals⟩]⟩ := by
  show (match w.globals.config with
    | none => throw .fault
    | some config => fromExcept (config.transform_path rt.boost name) : Dll WString)
      ⟨w.globals, w.trace ++ [⟨.deref w.globals.config, w.globals⟩]⟩ = _
  rw [installed]

/-- How the steps of a hook behind `ensured_init` end, with the answer it got. -/
theorem rewrite_handOver_outcome {rt : Runtime} {call : ApiCall} {name : WString} (read : readName rt call = .ok name)
    {w : World} {inited : Bool} (installed : inited = true → w.globals.config.isSome) :
    outcome (rewrite rt (inited && HasName call) name >>= fun name => fromExcept (handOver rt call name)) w =
      forwarded rt (if inited then w.globals.config else none) call := by
  rw [outcome_bind]
  cases inited with
  | false =>
    show outcome (fromExcept (handOver rt call name)) w = _
    simp only [outcome_fromExcept, forwarded, read, bind, Except.bind, pure, Except.pure, Bool.false_eq_true, ↓reduceIte]
  | true =>
    obtain ⟨config, here⟩ := Option.isSome_iff_exists.mp (installed rfl)
    cases named : HasName call with
    | false =>
      show outcome (fromExcept (handOver rt call name)) w = _
      simp only [outcome_fromExcept, forwarded, read, here, rewriteName, named, bind, Except.bind, Bool.false_eq_true,
        ↓reduceIte]
    | true =>
      simp only [rewrite, Bool.and_self, ↓reduceIte, transform_apply rt name here, forwarded, read, here, rewriteName,
        named, bind, Except.bind]
      cases config.transform_path rt.boost name with
      | error e => rfl
      | ok name' => exact outcome_fromExcept _ _

/-- The steps of a hook behind `ensured_init` leave the globals alone. -/
theorem rewrite_handOver_globals (rt : Runtime) (call : ApiCall) (name : WString) (b : Bool) (w : World) :
    (final (rewrite rt b name >>= fun name => fromExcept (handOver rt call name)) w).globals = w.globals := by
  rw [final_bind]
  cases b with
  | false =>
    show (final (fromExcept (handOver rt call name)) w).globals = w.globals
    rw [final_fromExcept]
  | true =>
    cases here : w.globals.config with
    | none =>
      have faults : rewrite rt true name w = .error .fault ⟨w.globals, w.trace ++ [⟨.deref none, w.globals⟩]⟩ := by
        show (match w.globals.config with
          | none => throw .fault
          | some config => fromExcept (config.transform_path rt.boost name) : Dll WString)
            ⟨w.globals, w.trace ++ [⟨.deref w.globals.config, w.globals⟩]⟩ = _
        rw [here]
        rfl
      rw [faults]
    | some config =>
      have changed : rewrite rt true name w = _ := transform_apply rt name here
      rw [changed]
      cases config.transform_path rt.boost name with
      | error e => rfl
      | ok name' =>
        show World.globals (final (fromExcept (handOver rt call name')) _) = w.globals
        rw [final_fromExcept]

/-- The hook calls the real function last, and returns what it returns. -/
theorem hooked_eq (rt : Runtime) (body : Dll Config) (real : ApiCall → Dll Value) (call : ApiCall) :
    hooked rt body real call = prepare rt body call >>= real := by
  cases call with
  | ExitProcess uExitCode =>
    simp only [hooked, newExitProcess, passingHook, prepare, readName, HasName, handOver, fromExcept_ok, rewrite,
      Bool.and_false, Bool.false_eq_true, ↓reduceIte, bind_assoc, pure_bind]
  | OpenFile lpFileName lpReOpenBuff uStyle =>
    simp only [hooked, newOpenFile, fileNameHook, prepare, readName, HasName, handOver, Bool.and_true, bind_assoc,
      fromExcept_map]
  | CreateFileA lpFileName args =>
    simp only [hooked, newCreateFileA, fileNameHook, prepare, readName, HasName, handOver, Bool.and_true, fromExcept_ok,
      bind_assoc, pure_bind]
  | CreateFileW lpFileName args =>
    simp only [hooked, newCreateFileW, fileNameHook, prepare, readName, HasName, handOver, Bool.and_true, fromExcept_ok,
      bind_assoc, pure_bind]
  | ReadFile hFile lpBuffer n lpRead lpOverlapped =>
    simp only [hooked, newReadFile, passingHook, prepare, readName, HasName, handOver, fromExcept_ok, rewrite,
      Bool.and_false, Bool.false_eq_true, ↓reduceIte, bind_assoc, pure_bind]

end Sysintercept.Hooks
