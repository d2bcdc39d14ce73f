import Sysintercept.Automaton
import Sysintercept.Ipc
import Sysintercept.Patching

/-!
# One launch

`_tmain` step by step: creating the suspended child, the constructor and the
destructor of `InterceptConfigShare`, patching the import table, resuming and
waiting. Every step may throw; unwinding destroys the share object only once its
constructor has run to the end.
-/
namespace Sysintercept.Launcher
open Sysintercept.Terminated Sysintercept.Units Sysintercept.Rules Sysintercept.Buffers Sysintercept.Effects
open Sysintercept.Ipc Sysintercept.Iat Sysintercept.Patching Sysintercept.Automaton

/-! ## The arguments -/

/-- An argument string: what comes before its terminator. -/
abbrev CString := { w : WString // 0 ∉ w }

/-- What a launch is given: its arguments, the conversion of the locale, and what
    the image it is to start has for import descriptors. `fuel` bounds the loops
    over the child's memory. -/
structure Job where
  argv0 : CString
  argv1 : CString
  argv2 : CString
  from_utf : WString → Except Stop Bytes
  image : UInt32 → ImportDescriptor
  fuel : Nat

/-- The position of the last occurrence; none is `npos`. -/
def find_last_of (c : WChar) : WString → Option Nat
  | [] => none
  | u :: rest =>
    match find_last_of c rest with
    | some i => some (i + 1)
    | none => if u = c then some 0 else none

/-- `exe_path.substr(0, exe_path.find_last_of('\\'))`; up to `npos` is the whole string. -/
def Job.basename (job : Job) : WString :=
  match find_last_of 0x5C job.argv0.val with
  | some i => job.argv0.val.take i
  | none => job.argv0.val

def Job.dll (job : Job) : WString := job.basename ++ wide "\\sysintercept.dll"
def Job.xsd_path (job : Job) : WString := job.basename ++ wide "\\sysintercept_config.xsd"
def Job.xml_config_path (job : Job) : WString := job.argv1.val
def Job.exe (job : Job) : WString := job.argv2.val

/-- What the launch is to put into its share. -/
def Job.contents (job : Job) : WString := Ipc.contents job.xml_config_path job.xsd_path

theorem xsd_path_clean (job : Job) : 0 ∉ job.xsd_path := by
  have base : 0 ∉ job.basename := by
    unfold Job.basename
    split
    · exact fun member => job.argv0.property (List.mem_of_mem_take member)
    · exact job.argv0.property
  have tail : 0 ∉ wide "\\sysintercept_config.xsd" := by decide
  intro member
  rcases List.mem_append.mp member with front | back
  · exact base front
  · exact tail back

/-- A share with all of its contents reads as the two strings of the launch. -/
theorem read_paths_job (job : Job) (rest : WString) :
    read_paths (job.contents ++ rest) = some (job.xml_config_path, job.xsd_path) :=
  read_paths_contents job.argv1.property (xsd_path_clean job) rest

/-! ## The steps -/

/-- A child process; `opened` is the share that its DLL has mapped. -/
structure Child (Id : Type) where
  pid : UInt32
  exe : WString
  resumed : Bool
  exited : Bool
  remote : List (Event Op Op.Resp)
  opened : Option Id

/-- Where `_tmain` stands; the step that is named is the next one. -/
inductive Pc
  | start                          -- everything up to CreateProcess
  | created                        -- building the message of the first throw_if
  | share_create
  | share_truncate
  | share_map
  | share_copy (n : Nat)           -- n units are copied
  | inject (rest : Remote Unit)    -- Process and IATModifier
  | resume
  | resumed                        -- building the message of the second throw_if
  | wait
  | exit_code
  | leave                          -- the destructor of share is due
  | ended

/-- A launch; `region` is the memory of the share that it created. -/
structure Launch (Id : Type) where
  pc : Pc
  region : WString
  child : Option (Child Id)

inductive Action
  | throws
  | create_process (pid : UInt32)
  | proceed
  | share_create
  | share_truncate
  | share_map
  | share_copy
  | constructor_throws
  | constructed
  | remote (event : Event Op Op.Resp)
  | injected
  | resume_thread
  | wait (signalled : Bool)
  | exit_code
  | remove
  | exits

section
variable {Id : Type}

def Launch.initial : Launch Id := ⟨.start, [], none⟩

/-- No share object is in scope yet, or the exception comes before it exists. -/
def Pc.early : Pc → Bool
  | .start => true
  | .created => true
  | .share_create => true
  | _ => false

/-- Inside the constructor, after `create_only` has succeeded. -/
def Pc.constructing : Pc → Bool
  | .share_truncate => true
  | .share_map => true
  | .share_copy _ => true
  | _ => false

/-- In the scope of the constructed share, at a step that may throw. -/
def Pc.scoped : Pc → Bool
  | .inject _ => true
  | .resume => true
  | .resumed => true
  | .exit_code => true
  | _ => false

/-- The steps of `_tmain`, in the name space of shared memory. The removal of a share is taken to
    succeed, as nothing looks at the `bool` that it returns. -/
inductive Move (job : Job) (me : Id) : Names Id → Launch Id → Action → Names Id → Launch Id → Prop
  | throws_early {names l} (here : l.pc.early = true) : Move job me names l .throws names { l with pc := .ended }
  | create_process {names l} (here : l.pc = .start) (pid : UInt32) :
      Move job me names l (.create_process pid) names
        { l with pc := .created, child := some ⟨pid, job.exe, false, false, [], none⟩ }
  | created {names l} (here : l.pc = .created) : Move job me names l .proceed names { l with pc := .share_create }
  | share_create {names l child} (here : l.pc = .share_create) (is : l.child = some child)
      (free : names (get_ipc_name child.pid) = none) :
      Move job me names l .share_create (names.create (get_ipc_name child.pid) me) { l with pc := .share_truncate }
  | share_truncate {names l} (here : l.pc = .share_truncate) (memory : WString)
      (sized : memory.length = share_size job.xml_config_path job.xsd_path) :
      Move job me names l .share_truncate names { l with pc := .share_map, region := memory }
  | share_map {names l} (here : l.pc = .share_map) : Move job me names l .share_map names { l with pc := .share_copy 0 }
  | share_copy {names l n u} (here : l.pc = .share_copy n) (next : job.contents[n]? = some u) :
      Move job me names l .share_copy names { l with pc := .share_copy (n + 1), region := poke l.region n [u] }
  | constructed {names l child} (here : l.pc = .share_copy job.contents.length) (is : l.child = some child) :
      Move job me names l .constructed names
        { l with pc := .inject (inject job.fuel child.pid (job.from_utf job.dll)) }
  | constructor_throws {names l} (here : l.pc.constructing = true) :
      Move job me names l .constructor_throws names { l with pc := .ended }
  | remote {names l op k child} (here : l.pc = .inject (.call op k)) (is : l.child = some child) (r : op.Resp)
      (stable : Stable job.image op r) :
      Move job me names l (.remote ⟨op, r⟩) names
        { l with pc := .inject (k r), child := some { child with remote := child.remote ++ [⟨op, r⟩] } }
  | injected {names l} (here : l.pc = .inject (.ret ())) : Move job me names l .injected names { l with pc := .resume }
  | throws_scoped {names l} (here : l.pc.scoped = true) : Move job me names l .throws names { l with pc := .leave }
  | resume_thread {names l child} (here : l.pc = .resume) (is : l.child = some child) :
      Move job me names l .resume_thread names
        { l with pc := .resumed, child := some { child with resumed := true } }
  | resumed {names l} (here : l.pc = .resumed) : Move job me names l .proceed names { l with pc := .wait }
  | wait {names l child} (here : l.pc = .wait) (is : l.child = some child) (signalled : Bool)
      (honest : signalled = true → child.exited = true) :
      Move job me names l (.wait signalled) names { l with pc := .exit_code }
  | exit_code {names l} (here : l.pc = .exit_code) : Move job me names l .exit_code names { l with pc := .leave }
  | remove {names l child} (here : l.pc = .leave) (is : l.child = some child) :
      Move job me names l .remove (names.remove (get_ipc_name child.pid)) { l with pc := .ended }

/-! ## What a launch has done by each of its steps -/

/-- The share holds all of its contents, and the image is patched with the DLL. -/
def Complete (job : Job) (region : WString) (remote : List (Event Op Op.Resp)) : Prop :=
  region = job.contents ∧ ∃ path, job.from_utf job.dll = .ok path ∧ Patched job.image path remote

/-- The child was created, and nothing more. -/
def Blank (l : Launch Id) : Prop := ∃ child, l.child = some child ∧ child.resumed = false ∧ child.remote = []

/-- The child was created and not resumed. -/
def Suspended (l : Launch Id) : Prop := ∃ child, l.child = some child ∧ child.resumed = false

/-- The child was resumed, and nothing was missing. -/
def Started (job : Job) (l : Launch Id) : Prop :=
  ∃ child, l.child = some child ∧ child.resumed = true ∧ Complete job l.region child.remote

/-- What holds of a launch where it stands. -/
def Valid (job : Job) (l : Launch Id) : Prop :=
  match l.pc with
  | .start => l.child = none
  | .created => Blank l
  | .share_create => Blank l
  | .share_truncate => Blank l
  | .share_map => Blank l ∧ l.region.length = job.contents.length
  | .share_copy n => Blank l ∧ l.region.length = job.contents.length ∧ l.region.take n = job.contents.take n
  | .inject rest => ∃ child, l.child = some child ∧ child.resumed = false ∧ l.region = job.contents ∧
      Ensures (Stable job.image)
        (fun _ h => ∃ path, job.from_utf job.dll = .ok path ∧ Patched job.image path h) child.remote rest
  | .resume => ∃ child, l.child = some child ∧ child.resumed = false ∧ Complete job l.region child.remote
  | .resumed => Started job l
  | .wait => Started job l
  | .exit_code => Started job l
  | .leave => Suspended l ∨ Started job l
  | .ended => l.child = none ∨ Suspended l ∨ Started job l

theorem suspended_of_blank {l : Launch Id} (blank : Blank l) : Suspended l := by
  obtain ⟨child, is, unresumed, _⟩ := blank
  exact ⟨child, is, unresumed⟩

theorem valid_early {job : Job} {l : Launch Id} (here : l.pc.early = true) (valid : Valid job l) :
    l.child = none ∨ Suspended l := by
  unfold Valid at valid
  cases at_ : l.pc with
  | start =>
    rw [at_] at valid
    exact .inl valid
  | created | share_create =>
    rw [at_] at valid
    exact .inr (suspended_of_blank valid)
  | _ =>
    rw [at_] at here
    cases here

theorem valid_constructing {job : Job} {l : Launch Id} (here : l.pc.constructing = true) (valid : Valid job l) :
    Suspended l := by
  unfold Valid at valid
  cases at_ : l.pc with
  | share_truncate =>
    rw [at_] at valid
    exact suspended_of_blank valid
  | share_map | share_copy =>
    rw [at_] at valid
    exact suspended_of_blank valid.1
  | _ =>
    rw [at_] at here
    cases here

theorem valid_scoped {job : Job} {l : Launch Id} (here : l.pc.scoped = true) (valid : Valid job l) :
    Suspended l ∨ Started job l := by
  unfold Valid at valid
  cases at_ : l.pc with
  | inject rest =>
    rw [at_] at valid
    obtain ⟨child, is, unresumed, _⟩ := valid
    exact .inl ⟨child, is, unresumed⟩
  | resume =>
    rw [at_] at valid
    obtain ⟨child, is, unresumed, _⟩ := valid
    exact .inl ⟨child, is, unresumed⟩
  | resumed | exit_code =>
    rw [at_] at valid
    exact .inr valid
  | _ =>
    rw [at_] at here
    cases here

/-- A child that was resumed was resumed with nothing missing. -/
theorem started_of_resumed {job : Job} {l : Launch Id} (valid : Valid job l) {child : Child Id} (is : l.child = some child)
    (resumed : child.resumed = true) : Started job l := by
  have awake : ¬ Suspended l := by
    rintro ⟨child', is', unresumed⟩
    obtain rfl := Option.some.inj (is.symm.trans is')
    rw [resumed] at unresumed
    cases unresumed
  unfold Valid at valid
  cases here : l.pc with
  | start =>
    rw [here] at valid
    rw [is] at valid
    cases valid
  | created | share_create | share_truncate =>
    rw [here] at valid
    exact absurd (suspended_of_blank valid) awake
  | share_map | share_copy =>
    rw [here] at valid
    exact absurd (suspended_of_blank valid.1) awake
  | inject | resume =>
    rw [here] at valid
    obtain ⟨child', is', unresumed, _⟩ := valid
    exact absurd ⟨child', is', unresumed⟩ awake
  | resumed | wait | exit_code =>
    rw [here] at valid
    exact valid
  | leave =>
    rw [here] at valid
    exact valid.resolve_left awake
  | ended =>
    rw [here] at valid
    rcases valid with none | valid
    · rw [is] at none
      cases none
    · exact valid.resolve_left awake

/-- A whole prefix is the whole. -/
theorem contents_of_take {region : WString} {job : Job} (sized : region.length = job.contents.length)
    (copied : region.take job.contents.length = job.contents.take job.contents.length) : region = job.contents := by
  rwa [List.take_length, ← sized, List.take_length] at copied

/-- Each step of a launch keeps what holds where it stands. -/
theorem valid_move {job : Job} {me : Id} {names names' : Names Id} {l l' : Launch Id} {a : Action}
    (moved : Move job me names l a names' l') (valid : Valid job l) : Valid job l' := by
  cases moved with
  | throws_early here =>
    rcases valid_early here valid with none | suspended
    · exact .inl none
    · exact .inr (.inl suspended)
  | create_process here pid => exact ⟨_, rfl, rfl, rfl⟩
  | constructor_throws here =>
    have suspended : Suspended l := valid_constructing here valid
    exact .inr (.inl suspended)
  | throws_scoped here =>
    have either : Suspended l ∨ Started job l := valid_scoped here valid
    exact either
  | created here | share_create here =>
    simp only [Valid, here] at valid ⊢
    exact valid
  | share_truncate here memory sized =>
    simp only [Valid, here] at valid ⊢
    exact ⟨valid, by rw [sized, Job.contents, contents_length]⟩
  | share_map here =>
    simp only [Valid, here] at valid ⊢
    exact ⟨valid.1, valid.2, rfl⟩
  | @share_copy n u here next =>
    simp only [Valid, here] at valid ⊢
    obtain ⟨blank, sized, copied⟩ := valid
    have within : n < l.region.length := by
      rw [sized]
      exact (List.getElem?_eq_some_iff.mp next).1
    refine ⟨blank, (poke_length (Nat.succ_le_of_lt within)).trans sized, ?_⟩
    rw [take_poke_succ u within, copied, List.take_add_one, next]
    rfl
  | constructed here is =>
    simp only [Valid, here] at valid ⊢
    obtain ⟨⟨child, is', unresumed, untouched⟩, sized, copied⟩ := valid
    obtain rfl := Option.some.inj (is.symm.trans is')
    refine ⟨_, is', unresumed, contents_of_take sized copied, ?_⟩
    rw [untouched]
    exact inject_ensures job.image job.fuel _ (job.from_utf job.dll)
  | remote here is r stable =>
    simp only [Valid, here] at valid ⊢
    obtain ⟨child, is', unresumed, written, ensures⟩ := valid
    obtain rfl := Option.some.inj (is.symm.trans is')
    exact ⟨_, rfl, unresumed, written, ensures r stable⟩
  | injected here =>
    simp only [Valid, here] at valid ⊢
    obtain ⟨child, is, unresumed, written, patched⟩ := valid
    exact ⟨child, is, unresumed, written, patched⟩
  | resume_thread here is =>
    simp only [Valid, here] at valid ⊢
    obtain ⟨child, is', _, complete⟩ := valid
    obtain rfl := Option.some.inj (is.symm.trans is')
    exact ⟨_, rfl, rfl, complete⟩
  | resumed here | wait here =>
    simp only [Valid, here] at valid ⊢
    exact valid
  | exit_code here =>
    simp only [Valid, here] at valid ⊢
    exact .inr valid
  | remove here =>
    simp only [Valid, here] at valid ⊢
    exact .inr valid

/-- Once all units are copied, the share is what the constructor's loops make of
    any memory of its size. -/
theorem written_of_copied {job : Job} {l : Launch Id} (valid : Valid job l) (here : l.pc = .share_copy job.contents.length)
    {memory : WString} (sized : memory.length = share_size job.xml_config_path job.xsd_path) :
    l.region = InterceptConfigShare.write memory job.xml_config_path job.xsd_path := by
  simp only [Valid, here] at valid
  rw [contents_of_take valid.2.1 valid.2.2, write_eq _ _ (Nat.le_of_eq sized.symm), ← sized, List.drop_length,
    List.append_nil]
  rfl

/-- A launch writes into its share only before it resumes its child. -/
theorem region_move {job : Job} {me : Id} {names names' : Names Id} {l l' : Launch Id} {a : Action}
    (moved : Move job me names l a names' l') (valid : Valid job l) (changed : l'.region ≠ l.region) : Suspended l := by
  cases moved with
  | share_truncate here =>
    simp only [Valid, here] at valid
    exact suspended_of_blank valid
  | share_copy here =>
    simp only [Valid, here] at valid
    exact suspended_of_blank valid.1
  | _ => exact absurd rfl changed

/-! ## A launch and its child -/

structure State (Id : Type) where
  names : Names Id
  launch : Launch Id

/-- The launcher moves, or its running child exits. -/
inductive Step (job : Job) (me : Id) : State Id → Action → State Id → Prop
  | launcher {s a names launch} (moved : Move job me s.names s.launch a names launch) : Step job me s a ⟨names, launch⟩
  | exits {s child} (is : s.launch.child = some child) (running : child.resumed = true ∧ child.exited = false) :
      Step job me s .exits { s with launch := { s.launch with child := some { child with exited := true } } }

/-- The beginning of a launch in a name space. -/
def State.initial (names : Names Id) : State Id := ⟨names, .initial⟩

/-- What the child itself does changes nothing about what holds. -/
theorem valid_child {job : Job} {l : Launch Id} {child : Child Id} (is : l.child = some child) (exited : Bool)
    (opened : Option Id) (valid : Valid job l) :
    Valid job { l with child := some { child with exited, opened } } := by
  have blank : Blank l → Blank { l with child := some { child with exited, opened } } := by
    rintro ⟨child', is', unresumed, untouched⟩
    obtain rfl := Option.some.inj (is.symm.trans is')
    exact ⟨_, rfl, unresumed, untouched⟩
  have suspended : Suspended l → Suspended { l with child := some { child with exited, opened } } := by
    rintro ⟨child', is', unresumed⟩
    obtain rfl := Option.some.inj (is.symm.trans is')
    exact ⟨_, rfl, unresumed⟩
  have started : Started job l → Started job { l with child := some { child with exited, opened } } := by
    rintro ⟨child', is', resumed, complete⟩
    obtain rfl := Option.some.inj (is.symm.trans is')
    exact ⟨_, rfl, resumed, complete⟩
  unfold Valid at valid ⊢
  cases here : l.pc with
  | start =>
    rw [here] at valid
    rw [is] at valid
    cases valid
  | created | share_create | share_truncate =>
    rw [here] at valid
    exact blank valid
  | share_map | share_copy =>
    rw [here] at valid
    exact ⟨blank valid.1, valid.2⟩
  | inject | resume =>
    rw [here] at valid
    obtain ⟨child', is', rest⟩ := valid
    obtain rfl := Option.some.inj (is.symm.trans is')
    exact ⟨_, rfl, rest⟩
  | resumed | wait | exit_code =>
    rw [here] at valid
    exact started valid
  | leave =>
    rw [here] at valid
    exact valid.imp suspended started
  | ended =>
    rw [here] at valid
    rcases valid with none | valid
    · rw [is] at none
      cases none
    · exact .inr (valid.imp suspended started)

/-- In the scope of the name that the launch has created, or before the
    constructor that created it has failed. -/
def Pc.owns : Pc → Bool
  | .share_truncate => true
  | .share_map => true
  | .share_copy _ => true
  | .inject _ => true
  | .resume => true
  | .resumed => true
  | .wait => true
  | .exit_code => true
  | .leave => true
  | _ => false

/-- The share of the launch is under its name. -/
def Held (names : Names Id) (me : Id) (l : Launch Id) : Prop :=
  l.pc.owns = true → ∃ child, l.child = some child ∧ names (get_ipc_name child.pid) = some me

theorem held_move {job : Job} {me : Id} {names names' : Names Id} {l l' : Launch Id} {a : Action}
    (moved : Move job me names l a names' l') (held : Held names me l) : Held names' me l' := by
  cases moved with
  | throws_early | create_process | created | constructor_throws | remove =>
    intro owns
    cases owns
  | share_create here is free => exact fun _ => ⟨_, is, create_self _ _ _⟩
  | remote here is =>
    intro _
    obtain ⟨child, is', named⟩ := held (by rw [here]; rfl)
    obtain rfl := Option.some.inj (is.symm.trans is')
    exact ⟨_, rfl, named⟩
  | resume_thread here is =>
    intro _
    obtain ⟨child, is', named⟩ := held (by rw [here]; rfl)
    obtain rfl := Option.some.inj (is.symm.trans is')
    exact ⟨_, rfl, named⟩
  | throws_scoped here =>
    intro _
    refine held ?_
    cases at_ : l.pc with
    | inject | resume | resumed | exit_code => rfl
    | _ =>
      rw [at_] at here
      cases here
  | _ here => exact fun _ => held (by rw [here]; rfl)

/-- What the child itself does changes nothing about the name. -/
theorem held_child {names : Names Id} {me : Id} {l : Launch Id} {child : Child Id} (is : l.child = some child)
    (exited : Bool) (opened : Option Id) (held : Held names me l) :
    Held names me { l with child := some { child with exited, opened } } := by
  intro owns
  obtain ⟨child', is', named⟩ := held owns
  obtain rfl := Option.some.inj (is.symm.trans is')
  exact ⟨_, rfl, named⟩

/-- A launch that owns its name takes no other launch's share from under its name. -/
theorem names_other {job : Job} {me k : Id} {names names' : Names Id} {l l' : Launch Id} {a : Action}
    (moved : Move job me names l a names' l') (held : Held names me l) {name : String} (there : names name = some k)
    (other : k ≠ me) : names' name = some k := by
  cases moved with
  | @share_create child here is free =>
    by_cases same : name = get_ipc_name child.pid
    · rw [same, free] at there
      cases there
    · rw [create_other _ _ same]
      exact there
  | @remove child here is =>
    by_cases same : name = get_ipc_name child.pid
    · obtain ⟨child', is', named⟩ := held (by rw [here]; rfl)
      obtain rfl := Option.some.inj (is.symm.trans is')
      rw [same, named] at there
      exact absurd (Option.some.inj there).symm other
    · rw [remove_other _ same]
      exact there
  | _ => exact there

/-- A launch that has ended does not move. -/
theorem move_running {job : Job} {me : Id} {names names' : Names Id} {l l' : Launch Id} {a : Action}
    (moved : Move job me names l a names' l') : l.pc ≠ .ended := by
  intro ended
  cases moved with
  | _ here =>
    rw [ended] at here
    cases here

/-- What every state of a launch satisfies. -/
structure Sound (job : Job) (me : Id) (s : State Id) : Prop where
  valid : Valid job s.launch
  held : Held s.names me s.launch

theorem sound_step {job : Job} {me : Id} {s s' : State Id} {a : Action} (sound : Sound job me s) (step : Step job me s a s') :
    Sound job me s' := by
  cases step with
  | launcher moved => exact ⟨valid_move moved sound.valid, held_move moved sound.held⟩
  | exits is running => exact ⟨valid_child is true _ sound.valid, held_child is true _ sound.held⟩

theorem sound_of_run {job : Job} {me : Id} {names : Names Id} {ls : List Action} {s : State Id}
    (run : Run (Step job me) (State.initial names) ls s) : Sound job me s := by
  refine run_invariant (I := Sound job me) (fun _ _ _ sound step => sound_step sound step) run ⟨rfl, nofun⟩

/-- What a step makes of the child: it is created, resumed, worked on, or left alone. -/
theorem child_move {job : Job} {me : Id} {names names' : Names Id} {l l' : Launch Id} {a : Action}
    (moved : Move job me names l a names' l') :
    (∃ pid, a = .create_process pid ∧ l.pc = .start ∧ l'.child = some ⟨pid, job.exe, false, false, [], none⟩) ∨
      (∃ child, a = .resume_thread ∧ l.child = some child ∧ l'.child = some { child with resumed := true }) ∨
      (∃ child remote, a ≠ .resume_thread ∧ l.child = some child ∧ l'.child = some { child with remote }) ∨
      (a ≠ .resume_thread ∧ l'.child = l.child) := by
  cases moved with
  | create_process here pid => exact .inl ⟨pid, rfl, here, rfl⟩
  | resume_thread here is => exact .inr (.inl ⟨_, rfl, is, rfl⟩)
  | remote here is => exact .inr (.inr (.inl ⟨_, _, nofun, is, rfl⟩))
  | _ => exact .inr (.inr (.inr ⟨nofun, rfl⟩))

end

end Sysintercept.Launcher
