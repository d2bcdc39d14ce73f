import Sysintercept.Configured
import Sysintercept.Threads

/-!
# Launches and the threads of their children

Any number of launches, and in each of their children any number of threads whose
hooked calls are interleaved step by step. A `load_config` returns what comes of
the share as its child reads it at that moment.
-/
namespace Sysintercept.Sessions
open Sysintercept.Units Sysintercept.Rules Sysintercept.Exceptions Sysintercept.Hooks Sysintercept.Automaton
open Sysintercept.Ipc Sysintercept.Configured
open Sysintercept.Launcher (Job)
open Sysintercept.Served (Running)
open Sysintercept.Threads (Pc Frame Move put_self put_other)

section
variable {Thread : Type} [DecidableEq Thread] {rt : Runtime} {P : Config → Prop}

/-! ## The configurations that the threads of one process hold -/

/-- What a call that stands there holds: a configuration that meets a condition, or
    the certainty that one is installed. -/
def Backed (P : Config → Prop) (g : Globals) : Pc → Prop
  | .loaded config => P config
  | .assigned => g.config.isSome
  | .marked => g.config.isSome
  | .answered inited => inited = true → g.config.isSome
  | .named config => ∀ c, config = some c → P c
  | _ => True

/-- Every configuration in the process meets a condition, and none is missing where
    a call is to use it. -/
structure Coherent (P : Config → Prop) (s : Threads.State Thread) : Prop where
  published : ∀ config, s.globals.config = some config → P config
  installed : s.globals.initialized = true → s.globals.config.isSome
  backed : ∀ t, ∀ f ∈ s.stack t, Backed P s.globals f.pc

omit [DecidableEq Thread] in
theorem coherent_initial : Coherent P (Threads.State.initial : Threads.State Thread) where
  published config impossible := by cases impossible
  installed impossible := by cases impossible
  backed t f impossible := by cases impossible

/-- Calls keep what they hold while the configuration is replaced, but not taken away. -/
theorem backed_mono {g g' : Globals} (stays : g.config.isSome → g'.config.isSome) {p : Pc} (held : Backed P g p) :
    Backed P g' p := by
  cases p with
  | assigned | marked => exact stays held
  | answered inited => exact fun answered => stays (held answered)
  | _ => exact held

/-- What a step of one call keeps. -/
structure Kept (P : Config → Prop) (g g' : Globals) (pc : Option Pc) : Prop where
  published : ∀ config, g'.config = some config → P config
  installed : g'.initialized = true → g'.config.isSome
  stays : g.config.isSome → g'.config.isSome
  backed : ∀ p, pc = some p → Backed P g' p

/-- One step of a call, given what `load_config` returns. -/
theorem move_backed {g g' : Globals} {f : Frame} {a : Threads.Action} {pc : Option Pc} (moved : Move rt g f a g' pc)
    (published : ∀ config, g.config = some config → P config) (installed : g.initialized = true → g.config.isSome)
    (held : Backed P g f.pc) (loads : ∀ config, pc = some (.loaded config) → P config) : Kept P g g' pc := by
  cases moved with
  | pass | store | enter => exact ⟨published, installed, id, fun p is => by cases is; trivial⟩
  | answer here guarded => exact ⟨published, installed, id, fun p is => by cases is; exact installed⟩
  | load here config => exact ⟨published, installed, id, fun p is => by cases is; exact loads config rfl⟩
  | publish here =>
    rw [here] at held
    refine ⟨?_, fun _ => rfl, fun _ => rfl, fun p is => by cases is; rfl⟩
    intro config is
    obtain rfl := Option.some.inj is
    exact held
  | mark here =>
    rw [here] at held
    exact ⟨published, fun _ => held, id, fun p is => by cases is; exact held⟩
  | settle here =>
    rw [here] at held
    exact ⟨published, installed, id, fun p is => by cases is; exact fun _ => held⟩
  | rewrite here named is =>
    refine ⟨published, installed, id, fun p at_ => ?_⟩
    cases at_
    intro c same
    obtain rfl := Option.some.inj same
    exact published _ is
  | keep =>
    refine ⟨published, installed, id, fun p at_ => ?_⟩
    cases at_
    intro c impossible
    cases impossible
  | fail | fault | forward | escape => exact ⟨published, installed, id, fun p impossible => by cases impossible⟩

/-- Only a `load` leads to a loaded configuration. -/
theorem load_of_loaded {g g' : Globals} {f : Frame} {a : Threads.Action} {config : Config}
    (moved : Move rt g f a g' (some (.loaded config))) : a = .load := by
  cases moved with
  | load => rfl

/-- A call on a stack was there before, is new, or has moved. -/
theorem frame_origin {s s' : Threads.State Thread} {l : Threads.Label Thread} (step : Threads.Step rt s l s') {u : Thread}
    {f : Frame} (member : f ∈ s'.stack u) :
    f ∈ s.stack u ∨ f.pc = .called ∨
      (u = l.thread ∧ ∃ f₀ ∈ s.stack u, ∃ p, f = { f₀ with pc := p } ∧ Move rt s.globals f₀ l.action s'.globals (some p) ∧
        ∃ rest, s'.stack u = f :: rest) := by
  by_cases other : u ≠ l.thread
  · rw [Threads.stack_other step other] at member
    exact .inl member
  obtain rfl : u = l.thread := Classical.not_not.mp other
  cases step with
  | call idle read =>
    rw [put_self, List.mem_singleton] at member
    exact .inr (.inl (by rw [member]))
  | nest here body read =>
    rw [put_self, List.mem_cons] at member
    rcases member with rfl | below
    · exact .inr (.inl rfl)
    · exact .inl (by rw [here]; exact below)
  | @move t f₀ rest here a g pc moved =>
    rw [put_self] at member
    cases pc with
    | none => exact .inl (by rw [here]; exact List.mem_cons_of_mem _ member)
    | some p =>
      rcases List.mem_cons.mp member with rfl | below
      · exact .inr (.inr ⟨rfl, f₀, by rw [here]; simp, p, rfl, moved, rest, by rw [put_self]; rfl⟩)
      · exact .inl (by rw [here]; exact List.mem_cons_of_mem _ below)

/-- The globals change only where a call moves. -/
theorem globals_origin {s s' : Threads.State Thread} {l : Threads.Label Thread} (step : Threads.Step rt s l s') :
    (s'.globals = s.globals ∧ l.action ≠ .mark) ∨
      ∃ f ∈ s.stack l.thread, ∃ pc, Move rt s.globals f l.action s'.globals pc ∧
        ∃ rest, s'.stack l.thread = Threads.resume f pc rest := by
  cases step with
  | call | nest => exact .inl ⟨rfl, by simp⟩
  | @move t f rest here a g pc moved =>
    exact .inr ⟨f, by rw [here]; simp, pc, moved, rest, by rw [put_self]⟩

/-- The thread has just returned from `load_config` with the configuration. -/
def Returned (s : Threads.State Thread) (t : Thread) (config : Config) : Prop :=
  ∃ f rest, s.stack t = f :: rest ∧ f.pc = .loaded config

theorem coherent_step {s s' : Threads.State Thread} {l : Threads.Label Thread} (coherent : Coherent P s)
    (step : Threads.Step rt s l s') (loads : l.action = .load → ∀ config, Returned s' l.thread config → P config) :
    Coherent P s' := by
  have moves : ∀ f ∈ s.stack l.thread, ∀ pc, Move rt s.globals f l.action s'.globals pc →
      (∃ rest, s'.stack l.thread = Threads.resume f pc rest) → Kept P s.globals s'.globals pc := by
    rintro f member pc moved ⟨rest, top⟩
    refine move_backed (P := P) moved coherent.published coherent.installed (coherent.backed _ f member) ?_
    rintro config rfl
    exact loads (load_of_loaded moved) config ⟨_, _, top, rfl⟩
  have stays : s.globals.config.isSome → s'.globals.config.isSome := by
    rcases globals_origin step with ⟨same, _⟩ | ⟨f, member, pc, moved, top⟩
    · rw [same]
      exact id
    · exact (moves f member pc moved top).stays
  refine ⟨?_, ?_, ?_⟩
  · rcases globals_origin step with ⟨same, _⟩ | ⟨f, member, pc, moved, top⟩
    · rw [same]
      exact coherent.published
    · exact (moves f member pc moved top).published
  · rcases globals_origin step with ⟨same, _⟩ | ⟨f, member, pc, moved, top⟩
    · rw [same]
      exact coherent.installed
    · exact (moves f member pc moved top).installed
  · intro u f member
    rcases frame_origin step member with old | new | ⟨rfl, f₀, before, p, rfl, moved, rest, top⟩
    · exact backed_mono stays (coherent.backed u f old)
    · rw [new]
      trivial
    · exact (moves f₀ before (some p) moved ⟨rest, top⟩).backed p rfl

end

/-! ## The system -/

section
variable {Id Thread : Type}

/-- The launches with their children, and the hooked calls of each child's threads. -/
structure System (Id Thread : Type) where
  launches : Launches.System Id
  threads : Id → Threads.State Thread

def System.initial : System Id Thread := ⟨Launches.System.initial, fun _ => Threads.State.initial⟩

inductive Label (Id Thread : Type)
  | launch (e : Launches.Event Id)
  | thread (i : Id) (l : Threads.Label Thread)

variable [DecidableEq Id]

/-- The threads of one child replaced. -/
def System.put (s : System Id Thread) (i : Id) (threads : Threads.State Thread) : System Id Thread :=
  { s with threads := fun j => if j = i then threads else s.threads j }

@[simp] theorem threads_self (s : System Id Thread) (i : Id) (threads : Threads.State Thread) :
    (s.put i threads).threads i = threads := by
  simp [System.put]

theorem threads_other (s : System Id Thread) {i j : Id} (other : j ≠ i) (threads : Threads.State Thread) :
    (s.put i threads).threads j = s.threads j := by
  simp [System.put, other]

theorem put_put (s : System Id Thread) (i : Id) (threads threads' : Threads.State Thread) :
    (s.put i threads).put i threads' = s.put i threads' := by
  simp only [System.put, System.mk.injEq, true_and]
  funext j
  by_cases same : j = i <;> simp [same]

variable [DecidableEq Thread]

section
variable (jobs : Id → Job) (rt : Id → Runtime) (ndebug : Bool)
variable (sysintercept_config : WString → WString → Except Stop xml.Config)

/-- `load_config` builds the configuration out of the share as the child reads it now. -/
def LoadedNow (s : Launches.System Id) (i : Id) (config : Config) : Prop :=
  ∃ memory t, Launches.Step jobs s (.reads i memory) t ∧
    load_config (rt i).boost ndebug sysintercept_config (some memory) = .ok config

/-- The launches take their steps, and in a child that runs so do its threads. -/
inductive Step : System Id Thread → Label Id Thread → System Id Thread → Prop
  | launch {s e launches} (step : Launches.Step jobs s.launches e launches) :
      Step s (.launch e) { s with launches }
  | thread {s i child l threads} (is : (s.launches.launch i).child = some child) (running : Running child)
      (step : Threads.Step (rt i) (s.threads i) l threads)
      (loads : l.action = .load → ∀ config, Returned threads l.thread config →
        LoadedNow jobs rt ndebug sysintercept_config s.launches i config) :
      Step s (.thread i l) (s.put i threads)

/-- The configuration that the rules of the child's own launch make. -/
def Configures (i : Id) (config : Config) : Prop :=
  ∃ xml_config, sysintercept_config (jobs i).xml_config_path (jobs i).xsd_path = .ok xml_config ∧
    Config.construct (rt i).boost ndebug xml_config = .ok config

end

variable {jobs : Id → Job} {rt : Id → Runtime} {ndebug : Bool}
variable {sysintercept_config : WString → WString → Except Stop xml.Config} {s t : System Id Thread}

/-- No thread of a child has made the assignment `initialized = true` yet. -/
def Unmarked (i : Id) (ls : List (Label Id Thread)) : Prop := ∀ t, .thread i ⟨t, .mark⟩ ∉ ls

/-- The thread evaluated its last guard before any thread of its process had marked it initialized. -/
def Early (i : Id) (t : Thread) (ls : List (Label Id Thread)) : Prop :=
  ∃ before after, ls = before ++ .thread i ⟨t, .guard⟩ :: after ∧ Unmarked i before ∧
    .thread i ⟨t, .guard⟩ ∉ after

omit [DecidableEq Id] [DecidableEq Thread] in
theorem early_append {i : Id} {t : Thread} {ls : List (Label Id Thread)} (early : Early i t ls) {l : Label Id Thread}
    (other : l ≠ .thread i ⟨t, .guard⟩) : Early i t (ls ++ [l]) := by
  obtain ⟨before, after, cutting, unmarked, last⟩ := early
  refine ⟨before, after ++ [l], by simp [cutting], unmarked, fun member => ?_⟩
  rcases List.mem_append.mp member with earlier | new
  · exact last earlier
  · exact other (List.mem_singleton.mp new).symm

omit [DecidableEq Id] [DecidableEq Thread] in
theorem unmarked_append {i : Id} {ls : List (Label Id Thread)} (unmarked : Unmarked i ls) {l : Label Id Thread}
    (other : ∀ t, l ≠ .thread i ⟨t, .mark⟩) : Unmarked i (ls ++ [l]) := by
  intro t member
  rcases List.mem_append.mp member with earlier | last
  · exact unmarked t earlier
  · exact other t (List.mem_singleton.mp last).symm

/-- What a run keeps: the launches are as they are without threads, each child's
    threads hold configurations of its own launch only, and whoever was refused was early. -/
structure Tracked (jobs : Id → Job) (rt : Id → Runtime) (ndebug : Bool)
    (sysintercept_config : WString → WString → Except Stop xml.Config) (ls : List (Label Id Thread))
    (s : System Id Thread) : Prop where
  reached : Reachable (Launches.Step jobs) (· = Launches.System.initial) s.launches
  coherent : ∀ i, Coherent (Configures jobs rt ndebug sysintercept_config i) (s.threads i)
  shaped : ∀ i, Threads.Shaped (s.threads i)
  unmarked : ∀ i, (s.threads i).globals.initialized = false → Unmarked i ls
  refused : ∀ i t, ∀ f ∈ (s.threads i).stack t, f.pc.refused f.call = true → Early i t ls

theorem configures_of_loaded {s : Launches.System Id}
    (reached : Reachable (Launches.Step jobs) (· = Launches.System.initial) s) {i : Id} {config : Config} (loaded : LoadedNow jobs rt ndebug sysintercept_config s i config) :
    Configures jobs rt ndebug sysintercept_config i config := by
  obtain ⟨memory, t, reads, built⟩ := loaded
  rw [Launches.loads_own_configuration reached reads] at built
  cases parsed : sysintercept_config (jobs i).xml_config_path (jobs i).xsd_path with
  | error e => simp [parsed, bind, Except.bind] at built
  | ok xml_config => exact ⟨xml_config, parsed, by simpa [parsed, bind, Except.bind] using built⟩

omit [DecidableEq Thread] in
/-- `initialized` is set by a `mark` and never reset. -/
theorem unset_of_move {rt : Runtime} {g g' : Globals} {f : Frame} {a : Threads.Action} {pc : Option Pc}
    (moved : Move rt g f a g' pc) (unset : g'.initialized = false) : g.initialized = false ∧ a ≠ .mark := by
  cases moved with
  | mark => cases unset
  | _ => exact ⟨unset, by simp⟩

omit [DecidableEq Id] in
/-- A thread evaluates no guard while one of its calls is refused. -/
theorem refused_waits {rt : Runtime} {s s' : Threads.State Thread} {l : Threads.Label Thread} (shaped : Threads.Shaped s)
    (step : Threads.Step rt s l s') {f : Frame} (member : f ∈ s.stack l.thread) (refused : f.pc.refused f.call = true) :
    l.action ≠ .guard := by
  intro guards
  cases step with
  | call | nest => cases guards
  | @move t top rest here a g pc moved =>
    have shape := shaped t
    rw [here] at member shape
    rcases List.mem_cons.mp member with rfl | below
    · obtain rfl : a = .guard := guards
      cases moved with
      | pass called | answer called =>
        rw [called] at refused
        cases refused
    · -- Only calls inside the initialisation body have others above them.
      have inside := ((List.pairwise_cons.mp shape).1 f below).2
      rw [inside] at refused
      cases refused

theorem tracked_step {ls : List (Label Id Thread)} {l : Label Id Thread}
    (tracked : Tracked jobs rt ndebug sysintercept_config ls s) (step : Step jobs rt ndebug sysintercept_config s l t) :
    Tracked jobs rt ndebug sysintercept_config (ls ++ [l]) t := by
  cases step with
  | launch step =>
    refine ⟨reachable_step tracked.reached step, tracked.coherent, tracked.shaped, ?_, ?_⟩
    · exact fun i unset => unmarked_append (tracked.unmarked i unset) (by simp)
    · exact fun i u f member refused => early_append (tracked.refused i u f member refused) (by simp)
  | @thread i child l threads is running step loads =>
    have loads' : l.action = .load → ∀ config, Returned threads l.thread config →
        Configures jobs rt ndebug sysintercept_config i config :=
      fun load config returned => configures_of_loaded tracked.reached (loads load config returned)
    have coherent := coherent_step (tracked.coherent i) step loads'
    refine ⟨tracked.reached, ?_, ?_, ?_, ?_⟩
    · intro j
      by_cases same : j = i
      · subst same
        rw [threads_self]
        exact coherent
      · rw [threads_other s same]
        exact tracked.coherent j
    · intro j
      by_cases same : j = i
      · subst same
        rw [threads_self]
        exact Threads.shaped_step (tracked.shaped j) step
      · rw [threads_other s same]
        exact tracked.shaped j
    · intro j unset
      by_cases same : j = i
      · subst same
        rw [threads_self] at unset
        have before : (s.threads j).globals.initialized = false ∧ l.action ≠ .mark := by
          rcases globals_origin step with ⟨kept, unmarking⟩ | ⟨f, _, pc, moved, _⟩
          · rw [kept] at unset
            exact ⟨unset, unmarking⟩
          · exact unset_of_move moved unset
        refine unmarked_append (tracked.unmarked j before.1) ?_
        intro t impossible
        cases impossible
        exact before.2 rfl
      · rw [threads_other s same] at unset
        refine unmarked_append (tracked.unmarked j unset) ?_
        intro t impossible
        cases impossible
        exact same rfl
    · intro j u f member refused
      by_cases same : j = i
      · subst same
        rw [threads_self] at member
        rcases frame_origin step member with old | new | ⟨rfl, f₀, before, p, rfl, moved, _⟩
        · refine early_append (tracked.refused j u f old refused) ?_
          intro guards
          cases guards
          exact refused_waits (tracked.shaped j) step old refused rfl
        · rw [new] at refused
          cases refused
        · rcases Threads.move_refused moved refused with ⟨guards, _, _, unset⟩ | ⟨earlier, _⟩
          · refine ⟨ls, [], ?_, tracked.unmarked j unset, by simp⟩
            rw [← guards]
          · refine early_append (tracked.refused j _ f₀ before earlier) ?_
            intro guards
            have guards := congrArg Threads.Label.action (Label.thread.inj guards).2
            exact refused_waits (tracked.shaped j) step before earlier guards
      · rw [threads_other s same] at member
        refine early_append (tracked.refused j u f member refused) ?_
        intro impossible
        cases impossible
        exact same rfl

theorem tracked_of_run {ls : List (Label Id Thread)}
    (run : Run (Step jobs rt ndebug sysintercept_config) System.initial ls s) :
    Tracked jobs rt ndebug sysintercept_config ls s := by
  refine run_history (I := Tracked jobs rt ndebug sysintercept_config) ⟨?_, ?_, ?_, ?_, ?_⟩ (fun _ _ _ _ => tracked_step) run
  · exact ⟨Launches.System.initial, [], rfl, .refl _⟩
  · exact fun i => coherent_initial
  · exact fun i t => .nil
  · intro i _ t impossible
    cases impossible
  · intro i t f impossible
    cases impossible

omit [DecidableEq Id] in
/-- A file that parses makes one configuration. -/
theorem configures_unique {i : Id} {config config' : Config} (one : Configures jobs rt ndebug sysintercept_config i config)
    (other : Configures jobs rt ndebug sysintercept_config i config') : config = config' := by
  obtain ⟨xml_config, parsed, built⟩ := one
  obtain ⟨xml_config', parsed', built'⟩ := other
  obtain rfl := Except.ok.inj (parsed.symm.trans parsed')
  exact Except.ok.inj (built.symm.trans built')

/-- The step of a run that one of its labels stands for, with what the run has kept by then. -/
theorem tracked_at {ls before after : List (Label Id Thread)} {i : Id} {l : Threads.Label Thread}
    (run : Run (Step jobs rt ndebug sysintercept_config) System.initial ls s) (cutting : ls = before ++ .thread i l :: after) :
    ∃ m threads, Tracked jobs rt ndebug sysintercept_config before m ∧
      Threads.Step (rt i) (m.threads i) l threads := by
  subst cutting
  obtain ⟨m, n, earlier, step, _⟩ := run_at run
  have tracked := tracked_of_run earlier
  cases step with
  | thread is running step loads => exact ⟨m, _, tracked, step⟩

/-- Whatever a call of a child forwards: as it came, or rewritten with the rules of its launch. -/
theorem forwarded_as_configured {ls before after : List (Label Id Thread)} {i : Id} {l : Threads.Label Thread}
    (run : Run (Step jobs rt ndebug sysintercept_config) System.initial ls s) (cutting : ls = before ++ .thread i l :: after)
    {call real : ApiCall} {nested : Bool} {config : Option Config} (forwards : l.action = .forward call nested config real) :
    forwarded (rt i) config call = .ok real ∧
      (config = none → HasName call = true → Early i l.thread before) ∧
      ∀ c, config = some c → Configures jobs rt ndebug sysintercept_config i c := by
  obtain ⟨m, threads, tracked, step⟩ := tracked_at run cutting
  cases step with
  | call | nest => cases forwards
  | @move t f rest here a g pc moved =>
    obtain rfl : a = .forward call nested config real := forwards
    generalize isAction : Threads.Action.forward call nested config real = a at moved
    cases moved with
    | @forward config' real' at_ due =>
      obtain ⟨rfl, rfl, rfl, rfl⟩ := Threads.Action.forward.inj isAction
      have there : f ∈ (m.threads i).stack t := by rw [here]; simp
      refine ⟨due, ?_, ?_⟩
      · rintro rfl named
        refine tracked.refused i t f there ?_
        rw [at_]
        exact named
      · have held := (tracked.coherent i).backed t f there
        rw [at_] at held
        exact held
    | _ => cases isAction

/-- Whatever a thread of a child assigns to `config` are the rules of its launch. -/
theorem published_as_configured {ls : List (Label Id Thread)} {i : Id} {u : Thread} {config : Config}
    (run : Run (Step jobs rt ndebug sysintercept_config) System.initial ls s)
    (member : .thread i ⟨u, .publish config⟩ ∈ ls) : Configures jobs rt ndebug sysintercept_config i config := by
  obtain ⟨before, after, cutting⟩ := List.append_of_mem member
  obtain ⟨m, threads, tracked, step⟩ := tracked_at run cutting
  generalize isLabel : (⟨u, .publish config⟩ : Threads.Label Thread) = l at step
  cases step with
  | call | nest => cases isLabel
  | @move t f rest here a g pc moved =>
    obtain ⟨rfl, isAction⟩ := Threads.Label.mk.inj isLabel
    cases moved with
    | publish at_ =>
      obtain rfl := Threads.Action.publish.inj isAction
      have held := (tracked.coherent i).backed u f (by rw [here]; simp)
      rw [at_] at held
      exact held
    | _ => cases isAction

/-- Any number of launches and any number of threads in their children, in any
    interleaving, wherever initialisations overlap, repeat or fail. All assignments
    to the `config` of a child assign the same rules, those in the file that its
    own launcher was given, and a call that is to rewrite a name finds them there.
    A name is handed to the system as these rules are documented, or as it came
    where its guard, the last one of its thread, was evaluated before any thread had
    marked the process initialized. -/
theorem threads_rewrite_as_configured {ls : List (Label Id Thread)}
    (run : Run (Step jobs rt ndebug sysintercept_config) System.initial ls s) (i : Id) :
    (∀ t t' config config', .thread i ⟨t, .publish config⟩ ∈ ls → .thread i ⟨t', .publish config'⟩ ∈ ls →
      config = config') ∧
    (∀ t, ∀ f ∈ (s.threads i).stack t, f.pc = .answered true →
      ∃ config, (s.threads i).globals.config = some config ∧ Configures jobs rt ndebug sysintercept_config i config) ∧
    ∀ before l after, ls = before ++ .thread i l :: after → ∀ call nested config real,
      l.action = .forward call nested config real →
      (config = none → forwarded (rt i) none call = .ok real ∧ (HasName call = true → Early i l.thread before)) ∧
      (config ≠ none →
        ∃ xml_config, sysintercept_config (jobs i).xml_config_path (jobs i).xsd_path = .ok xml_config ∧
          (∀ rule ∈ xml_config.filesystem.path.replacement, WellFormed (rt i).boost rule) ∧
          (HasName call = true → ∀ rule ∈ xml_config.filesystem.path.replacement, rule.to_.format ≠ .boost_extended) ∧
          documented (rt i) xml_config.filesystem.path.replacement call = .ok real) := by
  refine ⟨?_, ?_, ?_⟩
  · intro t t' config config' one other
    exact configures_unique (published_as_configured run one) (published_as_configured run other)
  · intro t f member answered
    have coherent := (tracked_of_run run).coherent i
    have held := coherent.backed t f member
    rw [answered] at held
    obtain ⟨config, here⟩ := Option.isSome_iff_exists.mp (held rfl)
    exact ⟨config, here, coherent.published config here⟩
  · intro before l after cutting call nested config real forwards
    obtain ⟨goes, early, configured⟩ := forwarded_as_configured run cutting forwards
    constructor
    · rintro rfl
      exact ⟨goes, early rfl⟩
    · intro rewritten
      obtain ⟨c, rfl⟩ := Option.ne_none_iff_exists'.mp rewritten
      obtain ⟨xml_config, parsed, built⟩ := configured c rfl
      exact ⟨xml_config, parsed, wellFormed_of_loaded built, documented_of_forwarded built goes⟩

/-- Launches run as they do while no child does anything. -/
theorem launches_run {launches launches' : Launches.System Id} {ls : List (Launches.Event Id)}
    (threads : Id → Threads.State Thread) (run : Run (Launches.Step jobs) launches ls launches') :
    Run (Step jobs rt ndebug sysintercept_config) ⟨launches, threads⟩ (ls.map .launch) ⟨launches', threads⟩ := by
  induction run with
  | refl => exact .refl _
  | tail _ last ih =>
    rw [List.map_append]
    exact .tail ih (.launch last)

/-- The threads of a child that runs take their steps while the launches stand still. -/
theorem threads_run {i : Id} {child : Launcher.Child Id} (is : (s.launches.launch i).child = some child)
    (running : Running child) {a b : Threads.State Thread} {ls : List (Threads.Label Thread)}
    (run : Run (fun m l n => Threads.Step (rt i) m l n ∧ (l.action = .load → ∀ config, Returned n l.thread config →
      LoadedNow jobs rt ndebug sysintercept_config s.launches i config)) a ls b) :
    Run (Step jobs rt ndebug sysintercept_config) (s.put i a) (ls.map (.thread i)) (s.put i b) := by
  induction run with
  | refl => exact .refl _
  | @tail m n ls l _ last ih =>
    rw [List.map_append]
    refine .tail ih ?_
    have moved : Step jobs rt ndebug sysintercept_config (s.put i m) (.thread i l) ((s.put i m).put i n) :=
      .thread is running (by rw [threads_self]; exact last.1) last.2
    rw [put_put] at moved
    exact moved

end

/-- Two threads pass the guard before either stores a flag, and both assign the rules. -/
def samplePublished : List (Threads.Label Bool) :=
  [⟨false, .call (opening (wide "a.txt")) false⟩, ⟨true, .call (opening (wide "a.txt")) false⟩, ⟨false, .guard⟩,
    ⟨true, .guard⟩, ⟨false, .store⟩, ⟨true, .store⟩, ⟨false, .enter⟩, ⟨true, .enter⟩, ⟨false, .load⟩,
    ⟨false, .publish ⟨[ruleOf haskell_rule]⟩⟩, ⟨true, .load⟩, ⟨true, .publish ⟨[ruleOf haskell_rule]⟩⟩, ⟨false, .mark⟩,
    ⟨false, .settle⟩, ⟨false, .name⟩]

/-- The first of them opens its file. -/
def sampleForward : Threads.Label Bool :=
  ⟨false, .forward (opening (wide "a.txt")) false (some ⟨[ruleOf haskell_rule]⟩) (opening (wide "b.txt"))⟩

theorem returned_put {Thread : Type} [DecidableEq Thread] {s : Threads.State Thread} {t : Thread} {call : ApiCall}
    {nested : Bool} {c config : Config} {rest : List Frame}
    (returned : Returned (s.put t (⟨call, nested, .loaded c⟩ :: rest)) t config) : config = c := by
  obtain ⟨f, rest', top, here⟩ := returned
  rw [put_self] at top
  obtain ⟨rfl, rfl⟩ := List.cons.inj top
  cases here
  rfl

theorem sample_threads {P : Config → Prop} (loads : P ⟨[ruleOf haskell_rule]⟩) :
    ∃ s, Run (fun m l n => Threads.Step (latin1 literalBoost) m l n ∧
        (l.action = .load → ∀ config, Returned n l.thread config → P config))
      Threads.State.initial (samplePublished ++ [sampleForward]) s := by
  have quiet : ∀ {a : Threads.Action} {n : Threads.State Bool} {t : Bool}, a ≠ .load →
      (a = .load → ∀ config, Returned n t config → P config) := fun other is => absurd is other
  refine run_starts ⟨.call rfl rfl, quiet (by simp)⟩ (run_starts ⟨.call rfl rfl, quiet (by simp)⟩ ?_)
  refine run_starts ⟨.move rfl (.pass rfl rfl), quiet (by simp)⟩ (run_starts ⟨.move rfl (.pass rfl rfl), quiet (by simp)⟩ ?_)
  refine run_starts ⟨.move rfl (.store rfl), quiet (by simp)⟩ (run_starts ⟨.move rfl (.store rfl), quiet (by simp)⟩ ?_)
  refine run_starts ⟨.move rfl (.enter rfl), quiet (by simp)⟩ (run_starts ⟨.move rfl (.enter rfl), quiet (by simp)⟩ ?_)
  refine run_starts ⟨.move rfl (.load rfl ⟨[ruleOf haskell_rule]⟩), fun _ config returned => ?_⟩ ?_
  · rw [returned_put returned]
    exact loads
  refine run_starts ⟨.move rfl (.publish rfl), quiet (by simp)⟩ ?_
  refine run_starts ⟨.move rfl (.load rfl ⟨[ruleOf haskell_rule]⟩), fun _ config returned => ?_⟩ ?_
  · rw [returned_put returned]
    exact loads
  refine run_starts ⟨.move rfl (.publish rfl), quiet (by simp)⟩ (run_starts ⟨.move rfl (.mark rfl), quiet (by simp)⟩ ?_)
  refine run_starts ⟨.move rfl (.settle rfl), quiet (by simp)⟩ ?_
  refine run_starts ⟨.move rfl (.rewrite rfl rfl rfl), quiet (by simp)⟩ ?_
  exact run_starts ⟨.move rfl (.forward rfl rfl), quiet (by simp [sampleForward])⟩ ⟨_, .refl _⟩

/-- The sample launch, whose file has the one rule. -/
abbrev SampleStep : System Unit Bool → Label Unit Bool → System Unit Bool → Prop :=
  Step (fun _ => Served.sampleJob) (fun _ => latin1 literalBoost) false (fun _ _ => .ok ⟨⟨⟨[haskell_rule]⟩⟩⟩)

/-- The child of a launch with two threads that race to initialise. -/
theorem threads_rewrite_as_configured_sample :
    ∃ ls s, Run SampleStep System.initial (ls ++ samplePublished.map (.thread ()) ++ [.thread () sampleForward]) s ∧
      documented (latin1 literalBoost) [haskell_rule] (opening (wide "a.txt")) = .ok (opening (wide "b.txt")) := by
  obtain ⟨t, memory, reached, reads, paths⟩ := Launches.sample_reads
  obtain ⟨_, ls, rfl, run⟩ := reached
  have loads : LoadedNow (fun _ : Unit => Served.sampleJob) (fun _ => latin1 literalBoost) false
      (fun _ _ => .ok ⟨⟨⟨[haskell_rule]⟩⟩⟩) t () ⟨[ruleOf haskell_rule]⟩ := by
    refine ⟨memory, t, reads, ?_⟩
    rw [load_config_paths _ false _ paths]
    rfl
  obtain ⟨last, threads⟩ := sample_threads loads
  have is : ∃ child, (t.launch ()).child = some child ∧ Running child := by
    cases reads with
    | reads is running mapped rest => exact ⟨_, is, running⟩
  obtain ⟨child, is, running⟩ := is
  have idle : (⟨t, fun _ => Threads.State.initial⟩ : System Unit Bool) =
      System.put ⟨t, fun _ => Threads.State.initial⟩ () Threads.State.initial := by
    simp [System.put]
  have later : Run SampleStep (System.put ⟨t, fun _ => Threads.State.initial⟩ () Threads.State.initial)
      ((samplePublished ++ [sampleForward]).map (.thread ())) _ := threads_run is running threads
  rw [← idle] at later
  have whole := run_trans (launches_run (fun _ => Threads.State.initial) run) later
  have cutting : ls.map Label.launch ++ (samplePublished ++ [sampleForward]).map (Label.thread ()) =
      (ls.map Label.launch ++ samplePublished.map (Label.thread ())) ++ Label.thread () sampleForward :: [] := by
    simp
  obtain ⟨xml_config, parsed, _, _, rewritten⟩ := ((threads_rewrite_as_configured whole ()).2.2 _ _ _ cutting _ _ _ _ rfl).2
    (by simp)
  obtain rfl := Except.ok.inj parsed
  rw [cutting] at whole
  exact ⟨ls.map .launch, _, whole, rewritten⟩

end Sysintercept.Sessions
