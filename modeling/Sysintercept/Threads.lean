import Sysintercept.Automaton
import Sysintercept.Hooks

/-!
# Hooked calls of many threads

The steps of the hooks interleaved: each evaluation of the guard of
`ensured_init`, each assignment to its flags and to `config`, and each real call
is one step of one thread. The source leaves thread safety open; shown here is
what the flags give without it.
-/
namespace Sysintercept.Threads
open Sysintercept.Units Sysintercept.Rules Sysintercept.Exceptions Sysintercept.Hooks Sysintercept.Automaton

/-- Where a hooked call stands; the program counter is between two steps. -/
inductive Pc
  | called                           -- the name is read
  | passed                           -- no flag was set
  | stored                           -- initializing = true is done
  | inside                           -- in init_logging or load_config
  | loaded (config : Config)         -- load_config returned
  | assigned                         -- config = is done
  | marked                           -- initialized = true is done
  | answered (inited : Bool)         -- ensured_init returned
  | named (config : Option Config)   -- the name is rewritten, or is to stay

/-- A hooked call on the stack of a thread, made by the program or from inside
    the initialisation body. -/
structure Frame where
  call : ApiCall
  nested : Bool
  pc : Pc

/-- What a thread does in one step. -/
inductive Action
  | call (call : ApiCall) (nested : Bool)
  | guard
  | store
  | enter
  | load
  | fail (e : Stop)
  | publish (config : Config)
  | mark
  | settle
  | name
  | forward (call : ApiCall) (nested : Bool) (config : Option Config) (real : ApiCall)
  | escape (e : Stop)

/-- One step of the call on top of a stack: the globals after it, and the program
    counter after it unless the call is over. -/
inductive Move (rt : Runtime) : Globals → Frame → Action → Globals → Option Pc → Prop
  | pass {g f} (here : f.pc = .called) (unguarded : (g.initializing || g.initialized) = false) :
      Move rt g f .guard g (some .passed)
  | answer {g f} (here : f.pc = .called) (guarded : (g.initializing || g.initialized) = true) :
      Move rt g f .guard g (some (.answered g.initialized))
  | store {g f} (here : f.pc = .passed) : Move rt g f .store { g with initializing := true } (some .stored)
  | enter {g f} (here : f.pc = .stored) : Move rt g f .enter g (some .inside)
  | load {g f} (here : f.pc = .inside) (config : Config) : Move rt g f .load g (some (.loaded config))
  | fail {g f} (here : f.pc = .inside) (e : Stop) : Move rt g f (.fail e) g none
  | publish {g f config} (here : f.pc = .loaded config) :
      Move rt g f (.publish config) { g with config := some config } (some .assigned)
  | mark {g f} (here : f.pc = .assigned) : Move rt g f .mark { g with initialized := true } (some .marked)
  | settle {g f} (here : f.pc = .marked) :
      Move rt g f .settle { g with initializing := false } (some (.answered true))
  | rewrite {g f config} (here : f.pc = .answered true) (named : HasName f.call = true)
      (installed : g.config = some config) : Move rt g f .name g (some (.named (some config)))
  | fault {g f} (here : f.pc = .answered true) (named : HasName f.call = true) (missing : g.config = none) :
      Move rt g f (.escape .fault) g none
  | keep {g f inited} (here : f.pc = .answered inited) (kept : (inited && HasName f.call) = false) :
      Move rt g f .name g (some (.named none))
  | forward {g f config real} (here : f.pc = .named config) (due : forwarded rt config f.call = .ok real) :
      Move rt g f (.forward f.call f.nested config real) g none
  | escape {g f config e} (here : f.pc = .named config) (due : forwarded rt config f.call = .error e) :
      Move rt g f (.escape e) g none

/-- The assignments of `ensured_init` leave a flag set, as `initialized` is before
    `initializing` is taken back. -/
theorem move_flagged {rt : Runtime} {g g' : Globals} {f : Frame} {a : Action} {pc : Option Pc} (moved : Move rt g f a g' pc)
    (marked : f.pc = .marked → g.initialized = true) (flagged : (g.initializing || g.initialized) = true) :
    (g'.initializing || g'.initialized) = true := by
  cases moved with
  | store | mark => simp
  | settle here => simp [marked here]
  | _ => exact flagged

section
variable {Thread : Type} [DecidableEq Thread]

/-- The globals that all threads share, and the hooked calls in progress, innermost first. -/
structure State (Thread : Type) where
  globals : Globals
  stack : Thread → List Frame

def State.initial : State Thread := ⟨World.initial.globals, fun _ => []⟩

def State.put (s : State Thread) (t : Thread) (frames : List Frame) : State Thread :=
  { s with stack := fun u => if u = t then frames else s.stack u }

/-- The stack after the call on its top moved. -/
def resume (f : Frame) (pc : Option Pc) (rest : List Frame) : List Frame :=
  match pc with
  | some pc => { f with pc } :: rest
  | none => rest

structure Label (Thread : Type) where
  thread : Thread
  action : Action

inductive Step (rt : Runtime) : State Thread → Label Thread → State Thread → Prop
  | call {s t} (idle : s.stack t = []) {call name} (read : readName rt call = .ok name) :
      Step rt s ⟨t, .call call false⟩ (s.put t [⟨call, false, .called⟩])
  | nest {s t f rest} (here : s.stack t = f :: rest) (body : f.pc = .inside) {call name}
      (read : readName rt call = .ok name) :
      Step rt s ⟨t, .call call true⟩ (s.put t (⟨call, true, .called⟩ :: f :: rest))
  | move {s t f rest} (here : s.stack t = f :: rest) {a g pc} (moved : Move rt s.globals f a g pc) :
      Step rt s ⟨t, a⟩ ({ s with globals := g }.put t (resume f pc rest))

@[simp] theorem put_self (s : State Thread) (t : Thread) (frames : List Frame) : (s.put t frames).stack t = frames := by
  simp [State.put]

theorem put_other (s : State Thread) {t u : Thread} (other : u ≠ t) (frames : List Frame) :
    (s.put t frames).stack u = s.stack u := by
  simp [State.put, other]

/-- A step changes the calls of its own thread only. -/
theorem stack_other {rt : Runtime} {s s' : State Thread} {l : Label Thread} (step : Step rt s l s') {u : Thread}
    (other : u ≠ l.thread) : s'.stack u = s.stack u := by
  cases step with
  | _ => exact put_other _ other _

/-! ## One thread alone -/

/-- The state with other globals and another stack of one thread. -/
def State.at_ (s : State Thread) (t : Thread) (g : Globals) (frames : List Frame) : State Thread :=
  { s with globals := g }.put t frames

theorem at_move {rt : Runtime} (s : State Thread) (t : Thread) {g g' : Globals} {f : Frame} {rest : List Frame}
    {a : Action} {pc : Option Pc} (moved : Move rt g f a g' pc) :
    Step rt (s.at_ t g (f :: rest)) ⟨t, a⟩ (s.at_ t g' (resume f pc rest)) := by
  have same : s.at_ t g' (resume f pc rest) =
      ({ s.at_ t g (f :: rest) with globals := g' }.put t (resume f pc rest)) := by
    simp only [State.at_, State.put, State.mk.injEq, true_and]
    funext u
    by_cases same : u = t <;> simp [same]
  rw [same]
  exact .move (put_self _ t _) moved

/-- The last action says how the sequential hook ends. -/
def EndsAs (actions : List Action) (call : ApiCall) : Except Stop ApiCall → Prop
  | .ok real => ∃ config, actions.getLast? = some (.forward call false config real)
  | .error e => actions.getLast? = some (.fail e) ∨ actions.getLast? = some (.escape e)

/-- Actions of one thread that lead from one stack of it to another. -/
def Alone (rt : Runtime) (s : State Thread) (t : Thread) (g : Globals) (frames : List Frame) (actions : List Action)
    (g' : Globals) (frames' : List Frame) : Prop :=
  Run (Step rt) (s.at_ t g frames) (actions.map (⟨t, ·⟩)) (s.at_ t g' frames')

theorem alone_cons {rt : Runtime} {s : State Thread} {t : Thread} {g g₁ g₂ : Globals} {f : Frame} {rest end_ : List Frame}
    {a : Action} {pc : Option Pc} {actions : List Action} (moved : Move rt g f a g₁ pc)
    (later : Alone rt s t g₁ (resume f pc rest) actions g₂ end_) : Alone rt s t g (f :: rest) (a :: actions) g₂ end_ :=
  run_cons (at_move s t moved) later

theorem endsAs_cons {a b : Action} {actions : List Action} {call : ApiCall} {r : Except Stop ApiCall}
    (ends : EndsAs (b :: actions) call r) : EndsAs (a :: b :: actions) call r := by
  cases r <;> simpa [EndsAs, List.getLast?_cons_cons] using ends

/-- From the answer of `ensured_init` on, a call takes its last two steps. -/
theorem alone_answered (rt : Runtime) (s : State Thread) (t : Thread) (call : ApiCall) {g : Globals} (inited : Bool)
    (sound : inited = true → g.config.isSome) :
    ∃ a b, Alone rt s t g [⟨call, false, .answered inited⟩] [a, b] g [] ∧
      EndsAs [a, b] call (forwarded rt (if inited then g.config else none) call) := by
  have last : ∀ config, ∃ b, Alone rt s t g [⟨call, false, .named config⟩] [b] g [] ∧
      EndsAs [b] call (forwarded rt config call) := by
    intro config
    cases due : forwarded rt config call with
    | ok real => exact ⟨_, alone_cons (.forward rfl due) (.refl _), config, rfl⟩
    | error e => exact ⟨_, alone_cons (.escape rfl due) (.refl _), .inr rfl⟩
  cases rewrites : (inited && HasName call) with
  | false =>
    obtain ⟨b, run, ends⟩ := last none
    refine ⟨.name, b, alone_cons (.keep rfl rewrites) run, endsAs_cons ?_⟩
    have unnamed : forwarded rt (if inited then g.config else none) call = forwarded rt none call := by
      cases inited with
      | false => rfl
      | true =>
        obtain ⟨config, here⟩ := Option.isSome_iff_exists.mp (sound rfl)
        simp only [Bool.true_and] at rewrites
        simp only [forwarded, here, ↓reduceIte, rewriteName, rewrites, Bool.false_eq_true]
        rfl
    rw [unnamed]
    exact ends
  | true =>
    obtain ⟨rfl, named⟩ := Bool.and_eq_true_iff.mp rewrites
    obtain ⟨config, here⟩ := Option.isSome_iff_exists.mp (sound rfl)
    obtain ⟨b, run, ends⟩ := last (some config)
    refine ⟨.name, b, alone_cons (.rewrite rfl named here) run, endsAs_cons ?_⟩
    rw [here]
    exact ends

/-- A call alone takes the steps of the sequential hook: it leaves the same
    globals, and forwards the same call or ends in the same exception. -/
theorem alone_refines (rt : Runtime) (s : State Thread) (t : Thread) {call : ApiCall} {name : WString}
    (read : readName rt call = .ok name) (loaded : Except Stop Config) {w : World}
    (sound : w.globals.initialized = true → w.globals.config.isSome) :
    ∃ actions, Alone rt s t w.globals [⟨call, false, .called⟩] actions
        (final (prepare rt (fromExcept loaded) call) w).globals [] ∧
      EndsAs actions call (outcome (prepare rt (fromExcept loaded) call) w) := by
  unfold prepare
  rw [read, fromExcept_ok, pure_bind, outcome_bind, final_bind]
  cases guard : (w.globals.initializing || w.globals.initialized) with
  | true =>
    obtain ⟨a, b, run, ends⟩ := alone_answered rt s t call _ sound
    rw [ensured_init_guarded _ guard]
    refine ⟨[.guard, a, b], ?_, ?_⟩
    · show Alone rt s t w.globals _ _ (final (rewrite rt (w.globals.initialized && HasName call) name >>= _) _).globals []
      rw [rewrite_handOver_globals]
      exact alone_cons (.answer rfl guard) run
    · show EndsAs _ call (outcome (rewrite rt (w.globals.initialized && HasName call) name >>= _) _)
      have answered := fun trace => rewrite_handOver_outcome (w := ⟨w.globals, trace⟩) read sound
      rw [answered]
      exact endsAs_cons ends
  | false =>
    rw [ensured_init_unguarded _ guard]
    cases loaded with
    | error e =>
      refine ⟨[.guard, .store, .enter, .fail e], ?_, .inl rfl⟩
      exact alone_cons (.pass rfl guard) (alone_cons (.store rfl) (alone_cons (.enter rfl)
        (alone_cons (.fail rfl e) (.refl _))))
    | ok config =>
      obtain ⟨trace, entered⟩ := initialise_returns (fromExcept (.ok config)) (w := w) rfl
      obtain ⟨a, b, run, ends⟩ := alone_answered rt s t call (g := ⟨true, false, some config⟩) true (fun _ => rfl)
      rw [entered]
      refine ⟨[.guard, .store, .enter, .load, .publish config, .mark, .settle, a, b], ?_, ?_⟩
      · show Alone rt s t w.globals _ _ (final (rewrite rt (true && HasName call) name >>= _) _).globals []
        rw [rewrite_handOver_globals]
        exact alone_cons (.pass rfl guard) (alone_cons (.store rfl) (alone_cons (.enter rfl) (alone_cons (.load rfl config)
          (alone_cons (.publish rfl) (alone_cons (.mark rfl) (alone_cons (.settle rfl) run))))))
      · show EndsAs _ call (outcome (rewrite rt (true && HasName call) name >>= _) _)
        rw [rewrite_handOver_outcome (w := ⟨⟨true, false, some config⟩, trace⟩) read (fun _ => rfl)]
        simpa [EndsAs, List.getLast?_cons_cons] using ends

/-! ## Calls that the guard refuses -/

/-- In between the guard and the last flag assignment of `ensured_init`. -/
def Pc.initialising : Pc → Bool
  | .passed => true
  | .stored => true
  | .inside => true
  | .loaded _ => true
  | .assigned => true
  | .marked => true
  | _ => false

/-- `initializing` is stored, and `initialized` is not. -/
def Pc.busy : Pc → Bool
  | .stored => true
  | .inside => true
  | .loaded _ => true
  | .assigned => true
  | _ => false

/-- The call is on its way to the real function with the name that it came with. -/
def Pc.refused (call : ApiCall) : Pc → Bool
  | .answered inited => !inited
  | .named config => config.isNone && HasName call
  | _ => false

def Action.isFail : Action → Bool
  | .fail _ => true
  | _ => false

def Action.isEnter : Action → Bool
  | .enter => true
  | _ => false

def Action.isPublish : Action → Bool
  | .publish _ => true
  | _ => false

/-- The initialisation does not fail. -/
def Succeeds (_ : State Thread) (l : Label Thread) : Prop := l.action.isFail = false

/-- Only nested calls stand above another one, and only on one that is inside the
    initialisation body. -/
def Shaped (s : State Thread) : Prop :=
  ∀ t, (s.stack t).Pairwise (fun above below => above.nested = true ∧ below.pc = .inside)

/-- While the flags refuse, some call is busy. -/
def Held (s : State Thread) : Prop :=
  s.globals.initializing = true → s.globals.initialized = false → ∃ t, ∃ f ∈ s.stack t, f.pc.busy

theorem shaped_step {rt : Runtime} {s s' : State Thread} {l : Label Thread} (shaped : Shaped s) (step : Step rt s l s') :
    Shaped s' := by
  intro u
  by_cases other : u ≠ l.thread
  · rw [stack_other step other]
    exact shaped u
  obtain rfl : u = l.thread := Classical.not_not.mp other
  have below := shaped l.thread
  cases step with
  | @call t idle call name read => simp
  | @nest t f rest here body call name read =>
    rw [here] at below
    rw [put_self, List.pairwise_cons]
    refine ⟨fun g member => ⟨rfl, ?_⟩, below⟩
    rcases List.mem_cons.mp member with rfl | deeper
    · exact body
    · exact ((List.pairwise_cons.mp below).1 g deeper).2
  | @move t f rest here a g pc moved =>
    rw [here] at below
    rw [put_self]
    cases pc with
    | none => exact below.of_cons
    | some pc => exact List.pairwise_cons.mpr ⟨(List.pairwise_cons.mp below).1, below.of_cons⟩

/-- The flags refuse only after the store of a call that is still busy. -/
theorem move_held {rt : Runtime} {g g' : Globals} {f : Frame} {a : Action} {pc : Option Pc} (moved : Move rt g f a g' pc)
    (succeeds : a.isFail = false) (initializing : g'.initializing = true) (uninitialized : g'.initialized = false) :
    (∃ pc', pc = some pc' ∧ pc'.busy) ∨ (g.initializing = true ∧ g.initialized = false ∧ f.pc.busy = false) := by
  cases moved with
  | store | enter | load | publish => exact .inl ⟨_, rfl, rfl⟩
  | fail => cases succeeds
  | mark => cases uninitialized
  | settle => cases initializing
  | _ here => exact .inr ⟨initializing, uninitialized, by rw [here]; rfl⟩

theorem held_step {rt : Runtime} {s s' : State Thread} {l : Label Thread} (held : Held s) (step : Step rt s l s')
    (succeeds : Succeeds s l) : Held s' := by
  intro initializing uninitialized
  cases step with
  | @call t idle call name read =>
    obtain ⟨u, g, member, busy⟩ := held initializing uninitialized
    have other : u ≠ t := by
      rintro rfl
      rw [idle] at member
      cases member
    exact ⟨u, g, by rw [put_other s other]; exact member, busy⟩
  | @nest t f rest here body call name read =>
    obtain ⟨u, g, member, busy⟩ := held initializing uninitialized
    refine ⟨u, g, ?_, busy⟩
    by_cases same : u = t
    · subst same
      rw [put_self, ← here]
      exact List.mem_cons_of_mem _ member
    · rw [put_other s same]
      exact member
  | @move t f rest here a g pc moved =>
    rcases move_held moved succeeds initializing uninitialized with ⟨pc', rfl, busy⟩ | ⟨before, stillBefore, idle⟩
    · exact ⟨t, { f with pc := pc' }, by simp [resume], busy⟩
    · obtain ⟨u, h, member, busy⟩ := held before stillBefore
      refine ⟨u, h, ?_, busy⟩
      by_cases same : u = t
      · subst same
        rw [here] at member
        have below : h ∈ rest := by
          rcases List.mem_cons.mp member with rfl | below
          · rw [idle] at busy
            cases busy
          · exact below
        rw [put_self]
        cases pc with
        | none => exact below
        | some pc => exact List.mem_cons_of_mem _ below
      · rw [put_other _ same]
        exact member

/-- A call is refused by its guard, or was before. -/
theorem move_refused {rt : Runtime} {g g' : Globals} {f : Frame} {a : Action} {pc : Pc}
    (moved : Move rt g f a g' (some pc)) (refused : pc.refused f.call = true) :
    (a = .guard ∧ f.pc = .called ∧ g.initializing = true ∧ g.initialized = false) ∨
      (f.pc.refused f.call = true ∧ a ≠ .guard) := by
  cases moved with
  | answer here guarded =>
    have uninitialized : g.initialized = false := by simpa [Pc.refused] using refused
    exact .inl ⟨rfl, here, by simpa [uninitialized] using guarded, uninitialized⟩
  | @keep inited here kept =>
    have named : HasName f.call = true := by simpa [Pc.refused] using refused
    refine .inr ⟨?_, by intro impossible; cases impossible⟩
    rw [here]
    simpa [Pc.refused, named] using kept
  | _ => simp [Pc.refused] at refused

/-- The last guard that the thread has evaluated in the run to this state refused,
    as another thread was busy with the initialisation then. -/
def RefusedAt (rt : Runtime) (ls : List (Label Thread)) (s : State Thread) (t : Thread) : Prop :=
  ∃ before after m n, ls = before ++ ⟨t, .guard⟩ :: after ∧
    Run (Restrict (Step rt) Succeeds) State.initial before m ∧ Step rt m ⟨t, .guard⟩ n ∧
    Run (Restrict (Step rt) Succeeds) n after s ∧
    m.globals.initializing = true ∧ m.globals.initialized = false ∧
    (∃ u, u ≠ t ∧ ∃ f ∈ m.stack u, f.pc.busy) ∧ ∀ l ∈ after, l ≠ ⟨t, .guard⟩

theorem refusedAt_append {rt : Runtime} {ls : List (Label Thread)} {s s' : State Thread} {t : Thread} {l : Label Thread}
    (refused : RefusedAt rt ls s t) (step : Restrict (Step rt) Succeeds s l s') (other : l ≠ ⟨t, .guard⟩) :
    RefusedAt rt (ls ++ [l]) s' t := by
  obtain ⟨before, after, m, n, cutting, run, guard, since, initializing, uninitialized, busy, last⟩ := refused
  refine ⟨before, after ++ [l], m, n, by simp [cutting], run, guard, .tail since step, initializing, uninitialized, busy, ?_⟩
  intro l' member
  rcases List.mem_append.mp member with earlier | new
  · exact last l' earlier
  · rw [List.mem_singleton.mp new]
    exact other

/-- What a run without failure keeps. -/
structure Tracked (rt : Runtime) (ls : List (Label Thread)) (s : State Thread) : Prop where
  run : Run (Restrict (Step rt) Succeeds) State.initial ls s
  shaped : Shaped s
  held : Held s
  refused : ∀ t f rest, s.stack t = f :: rest → f.nested = false → f.pc.refused f.call = true → RefusedAt rt ls s t

theorem refused_step {rt : Runtime} {ls : List (Label Thread)} {s s' : State Thread} {l : Label Thread}
    (tracked : Tracked rt ls s) (step : Step rt s l s') (succeeds : Succeeds s l) {u : Thread} {h : Frame}
    {below : List Frame} (top : s'.stack u = h :: below) (program : h.nested = false)
    (refused : h.pc.refused h.call = true) : RefusedAt rt (ls ++ [l]) s' u := by
  have moves : Restrict (Step rt) Succeeds s l s' := ⟨step, succeeds⟩
  by_cases elsewhere : u ≠ l.thread
  · rw [stack_other step elsewhere] at top
    exact refusedAt_append (tracked.refused u h below top program refused) moves
      (fun impossible => elsewhere (congrArg Label.thread impossible).symm)
  obtain rfl : u = l.thread := Classical.not_not.mp elsewhere
  cases step with
  | call | nest =>
    simp only [put_self, List.cons.injEq] at top
    rw [← top.1] at refused
    cases refused
  | @move t f rest here a g pc moved =>
    rw [put_self] at top
    have shape := tracked.shaped t
    rw [here] at shape
    cases pc with
    | none =>
      -- The call below is inside the initialisation body.
      have inside := ((List.pairwise_cons.mp shape).1 h (by rw [show rest = h :: below from top]; simp)).2
      rw [inside] at refused
      cases refused
    | some pc =>
      simp only [resume, List.cons.injEq] at top
      obtain ⟨rfl, rfl⟩ := top
      rcases move_refused moved refused with ⟨rfl, called, initializing, uninitialized⟩ | ⟨before, other⟩
      · refine ⟨ls, [], s, _, rfl, tracked.run, moves.1, .refl _, initializing, uninitialized, ?_, by simp⟩
        obtain ⟨v, k, member, busy⟩ := tracked.held initializing uninitialized
        refine ⟨v, ?_, k, member, busy⟩
        -- The refused call is alone on its thread, and it is not busy.
        rintro rfl
        rw [here] at member
        rcases List.mem_cons.mp member with rfl | deeper
        · rw [called] at busy
          cases busy
        · have nested := ((List.pairwise_cons.mp shape).1 k deeper).1
          rw [show f.nested = false from program] at nested
          cases nested
      · refine refusedAt_append (tracked.refused t f rest here program before) moves ?_
        exact fun impossible => other (congrArg Label.action impossible)

theorem tracked_of_run {rt : Runtime} {ls : List (Label Thread)} {s : State Thread}
    (run : Run (Restrict (Step rt) Succeeds) State.initial ls s) : Tracked rt ls s := by
  refine run_history (I := Tracked rt) ⟨.refl _, fun _ => .nil, ?_, ?_⟩ ?_ run
  · intro impossible
    cases impossible
  · intro t f rest impossible
    cases impossible
  · intro ls m l t tracked step
    exact ⟨.tail tracked.run step, shaped_step tracked.shaped step.1, held_step tracked.held step.1 step.2,
      fun _ _ _ top program refused => refused_step tracked step.1 step.2 top program refused⟩

/-! ## Runs in which guards do not race -/

/-- How often the initialisation body was entered. -/
def entries (ls : List (Label Thread)) : Nat := ls.countP (fun l => l.action.isEnter)

/-- How often `config` was assigned. -/
def assignments (ls : List (Label Thread)) : Nat := ls.countP (fun l => l.action.isPublish)

/-- No guard is evaluated while another call stands between its own guard and its
    first flag assignment. -/
def Serial (s : State Thread) (l : Label Thread) : Prop :=
  l.action = .guard → ∀ t, ∀ f ∈ s.stack t, f.pc ≠ .passed

omit [DecidableEq Thread] in
theorem entries_append (ls : List (Label Thread)) (l : Label Thread) :
    entries (ls ++ [l]) = entries ls + if l.action.isEnter then 1 else 0 := by
  simp [entries, List.countP_append, List.countP_cons]

omit [DecidableEq Thread] in
theorem assignments_append (ls : List (Label Thread)) (l : Label Thread) :
    assignments (ls ++ [l]) = assignments ls + if l.action.isPublish then 1 else 0 := by
  simp [assignments, List.countP_append, List.countP_cons]

/-- What the flags are, and what has happened, while one call initialises. -/
def Ledger (entered assigned : Nat) (g : Globals) : Pc → Prop
  | .passed => g.initializing = false ∧ g.initialized = false ∧ entered = 0 ∧ assigned = 0
  | .stored => g.initializing = true ∧ g.initialized = false ∧ entered = 0 ∧ assigned = 0
  | .inside => g.initializing = true ∧ g.initialized = false ∧ entered = 1 ∧ assigned = 0
  | .loaded _ => g.initializing = true ∧ g.initialized = false ∧ entered = 1 ∧ assigned = 0
  | .assigned => g.initializing = true ∧ g.initialized = false ∧ entered = 1 ∧ assigned = 1
  | .marked => g.initializing = true ∧ g.initialized = true ∧ entered = 1 ∧ assigned = 1
  | _ => False

/-- No call of a stack is initialising. -/
def Quiet (frames : List Frame) : Prop := ∀ f ∈ frames, f.pc.initialising = false

/-- The one call that initialises is the outermost of its thread. -/
structure Owned (s : State Thread) (t : Thread) (p : Pc) : Prop where
  owner : ∃ above f, s.stack t = above ++ [f] ∧ f.pc = p ∧ Quiet above
  others : ∀ u, u ≠ t → Quiet (s.stack u)

/-- How far the one initialisation of a serial run has come. -/
inductive Progress (entered assigned : Nat) (s : State Thread) : Prop
  | fresh (quiet : ∀ t, Quiet (s.stack t)) (initializing : s.globals.initializing = false)
      (uninitialized : s.globals.initialized = false) (unentered : entered = 0) (unassigned : assigned = 0)
  | owned (t : Thread) (p : Pc) (owned : Owned s t p) (ledger : Ledger entered assigned s.globals p)
  | settled (quiet : ∀ t, Quiet (s.stack t)) (initializing : s.globals.initializing = false)
      (initialized : s.globals.initialized = true) (once : entered = 1) (assignedOnce : assigned = 1)

omit [DecidableEq Thread] in
theorem progress_bound {entered assigned : Nat} {s : State Thread} (progress : Progress entered assigned s) :
    entered ≤ 1 ∧ assigned ≤ 1 := by
  cases progress with
  | fresh _ _ _ unentered unassigned => omega
  | owned t p owned ledger =>
    cases p with
    | called | answered | named => cases ledger
    | _ =>
      obtain ⟨_, _, entered, assigned⟩ := ledger
      omega
  | settled _ _ _ once assignedOnce => omega

/-- A call that does not initialise begins to by its guard, or leaves the globals alone. -/
theorem move_quiet {rt : Runtime} {g g' : Globals} {f : Frame} {a : Action} {pc : Option Pc}
    (moved : Move rt g f a g' pc) (quiet : f.pc.initialising = false) :
    (a = .guard ∧ g.initializing = false ∧ g.initialized = false ∧ g' = g ∧ pc = some .passed) ∨
      (a.isEnter = false ∧ a.isPublish = false ∧ g' = g ∧ Quiet (resume f pc [])) := by
  cases moved with
  | pass here unguarded =>
    simp only [Bool.or_eq_false_iff] at unguarded
    exact .inl ⟨rfl, unguarded.1, unguarded.2, rfl, rfl⟩
  | answer | rewrite | keep =>
    refine .inr ⟨rfl, rfl, rfl, fun h member => ?_⟩
    obtain rfl := List.mem_singleton.mp member
    rfl
  | fault | forward | escape => exact .inr ⟨rfl, rfl, rfl, fun h impossible => by cases impossible⟩
  | _ here =>
    rw [here] at quiet
    cases quiet

/-- The call that initialises goes on to, or is done. -/
theorem move_owner {rt : Runtime} {g g' : Globals} {f : Frame} {a : Action} {pc : Option Pc} {entered assigned : Nat}
    (moved : Move rt g f a g' pc) (succeeds : a.isFail = false) (ledger : Ledger entered assigned g f.pc) :
    let entered' := entered + if a.isEnter then 1 else 0
    let assigned' := assigned + if a.isPublish then 1 else 0
    (∃ p, pc = some p ∧ Ledger entered' assigned' g' p) ∨
      (pc = some (.answered true) ∧ g'.initializing = false ∧ g'.initialized = true ∧ entered' = 1 ∧ assigned' = 1) := by
  cases moved with
  | fail => cases succeeds
  | store here | enter here | load here | publish here | mark here =>
    rw [here] at ledger
    obtain ⟨initializing, initialized, one, two⟩ := ledger
    exact .inl ⟨_, rfl, by simp [Ledger, Action.isEnter, Action.isPublish, initializing, initialized, one, two]⟩
  | settle here =>
    rw [here] at ledger
    obtain ⟨initializing, initialized, one, two⟩ := ledger
    exact .inr ⟨rfl, rfl, initialized, by simp [Action.isEnter, one], by simp [Action.isPublish, two]⟩
  | _ here =>
    rw [here] at ledger
    cases ledger

theorem initialising_of_ledger {entered assigned : Nat} {g : Globals} {p : Pc} (ledger : Ledger entered assigned g p) :
    p.initialising = true := by
  cases p with
  | called | answered | named => cases ledger
  | _ => rfl

/-- A change of a stack that neither begins nor ends an initialisation. -/
structure Harmless (old new : List Frame) : Prop where
  quiet : Quiet old → Quiet new
  owner : ∀ above f, old = above ++ [f] → f.pc.initialising = true → Quiet above →
    ∃ above', new = above' ++ [f] ∧ Quiet above'

theorem quiet_append {above below : List Frame} (first : Quiet above) (second : Quiet below) : Quiet (above ++ below) := by
  intro f member
  rcases List.mem_append.mp member with high | low
  · exact first f high
  · exact second f low

theorem harmless_push {frames old : List Frame} (quiet : Quiet frames) : Harmless old (frames ++ old) where
  quiet := quiet_append quiet
  owner above f split _ before := ⟨frames ++ above, by simp [split], quiet_append quiet before⟩

theorem resume_append (f : Frame) (pc : Option Pc) (rest : List Frame) : resume f pc rest = resume f pc [] ++ rest := by
  cases pc <;> rfl

/-- The top may move as long as neither it nor what becomes of it initialises. -/
theorem harmless_move {f : Frame} {pc : Option Pc} (rest : List Frame) (top : f.pc.initialising = false)
    (moved : Quiet (resume f pc [])) : Harmless (f :: rest) (resume f pc rest) := by
  rw [resume_append]
  refine ⟨fun quiet => quiet_append moved (fun g member => quiet g (List.mem_cons_of_mem _ member)), ?_⟩
  intro above f₀ split initialising quiet
  cases above with
  | nil =>
    simp only [List.nil_append, List.cons.injEq] at split
    rw [← split.1, top] at initialising
    cases initialising
  | cons g above' =>
    simp only [List.cons_append, List.cons.injEq] at split
    obtain ⟨rfl, rfl⟩ := split
    exact ⟨resume f pc [] ++ above', by simp, quiet_append moved (fun h member => quiet h (by simp [member]))⟩

theorem progress_harmless {entered assigned : Nat} {s : State Thread} {t : Thread} {new : List Frame}
    (progress : Progress entered assigned s) (harmless : Harmless (s.stack t) new) :
    Progress entered assigned (s.put t new) := by
  have quietly : (∀ u, Quiet (s.stack u)) → ∀ u, Quiet ((s.put t new).stack u) := by
    intro quiet u
    by_cases same : u = t
    · subst same
      rw [put_self]
      exact harmless.quiet (quiet u)
    · rw [put_other s same]
      exact quiet u
  cases progress with
  | fresh quiet initializing uninitialized unentered unassigned =>
    exact .fresh (quietly quiet) initializing uninitialized unentered unassigned
  | settled quiet initializing initialized once assignedOnce =>
    exact .settled (quietly quiet) initializing initialized once assignedOnce
  | owned v p owned ledger =>
    obtain ⟨above, f, split, at_, quiet⟩ := owned.owner
    refine .owned v p ⟨?_, fun u other => ?_⟩ ledger
    · by_cases same : v = t
      · subst same
        have initialising : f.pc.initialising = true := by rw [at_]; exact initialising_of_ledger ledger
        obtain ⟨above', split', quiet'⟩ := harmless.owner above f split initialising quiet
        exact ⟨above', f, by rw [put_self, split'], at_, quiet'⟩
      · exact ⟨above, f, by rw [put_other s same, split], at_, quiet⟩
    · by_cases same : u = t
      · subst same
        rw [put_self]
        exact harmless.quiet (owned.others u other)
      · rw [put_other s same]
        exact owned.others u other

/-- A move of a call that does not initialise. -/
theorem progress_quiet {rt : Runtime} {entered assigned : Nat} {s : State Thread} {t : Thread} {f : Frame}
    {rest : List Frame} {a : Action} {g : Globals} {pc : Option Pc} (progress : Progress entered assigned s)
    (shaped : Shaped s) (serial : Serial s ⟨t, a⟩) (here : s.stack t = f :: rest) (moved : Move rt s.globals f a g pc)
    (quiet : f.pc.initialising = false) :
    Progress (entered + if a.isEnter then 1 else 0) (assigned + if a.isPublish then 1 else 0)
      ({ s with globals := g }.put t (resume f pc rest)) := by
  rcases move_quiet moved quiet with ⟨rfl, initializing, uninitialized, rfl, rfl⟩ | ⟨noEnter, noPublish, rfl, after⟩
  · -- The guard opens, so the flags are those of a fresh process, and the call is alone on its thread.
    cases progress with
    | settled _ _ initialized =>
      rw [initialized] at uninitialized
      cases uninitialized
    | owned v p owned ledger =>
      obtain ⟨above, f₀, split, at_, _⟩ := owned.owner
      have there : f₀ ∈ s.stack v := by simp [split]
      cases p with
      | passed => exact absurd at_ (serial rfl v f₀ there)
      | stored | inside | loaded | assigned | marked =>
        rw [ledger.1] at initializing
        cases initializing
      | called | answered | named => cases ledger
    | fresh allQuiet _ _ unentered unassigned =>
      have alone : rest = [] := by
        cases rest with
        | nil => rfl
        | cons below deeper =>
          have shape := shaped t
          rw [here] at shape
          have inside := ((List.pairwise_cons.mp shape).1 below (by simp)).2
          have belowQuiet := allQuiet t below (by simp [here])
          rw [inside] at belowQuiet
          cases belowQuiet
      subst alone
      refine .owned t .passed ⟨⟨[], { f with pc := .passed }, by rw [put_self]; rfl, rfl, by simp [Quiet]⟩, ?_⟩ ?_
      · intro u other
        rw [put_other _ other]
        exact allQuiet u
      · exact ⟨initializing, uninitialized, by simp [Action.isEnter, unentered], by simp [Action.isPublish, unassigned]⟩
  · rw [noEnter, noPublish]
    refine progress_harmless progress ?_
    rw [here]
    exact harmless_move rest quiet after

/-- A move of the call that initialises. -/
theorem progress_owner {rt : Runtime} {entered assigned : Nat} {s : State Thread} {t : Thread} {f : Frame}
    {rest : List Frame} {a : Action} {g : Globals} {pc : Option Pc} (progress : Progress entered assigned s)
    (succeeds : a.isFail = false) (here : s.stack t = f :: rest) (moved : Move rt s.globals f a g pc)
    (initialising : f.pc.initialising = true) :
    Progress (entered + if a.isEnter then 1 else 0) (assigned + if a.isPublish then 1 else 0)
      ({ s with globals := g }.put t (resume f pc rest)) := by
  have there : f ∈ s.stack t := by simp [here]
  have loud : ¬ Quiet (s.stack t) := fun quiet => by
    have idle := quiet f there
    rw [initialising] at idle
    cases idle
  cases progress with
  | fresh quiet => exact absurd (quiet t) loud
  | settled quiet => exact absurd (quiet t) loud
  | owned v p owned ledger =>
    have same : t = v := by
      by_cases same : t = v
      · exact same
      · exact absurd (owned.others t same) loud
    subst same
    obtain ⟨above, f₀, split, at_, quiet⟩ := owned.owner
    have top : above = [] ∧ f = f₀ ∧ rest = [] := by
      rw [here] at split
      cases above with
      | nil =>
        simp only [List.nil_append, List.cons.injEq] at split
        exact ⟨rfl, split.1, split.2⟩
      | cons g above' =>
        simp only [List.cons_append, List.cons.injEq] at split
        have idle := quiet g (by simp)
        rw [← split.1, initialising] at idle
        cases idle
    obtain ⟨rfl, rfl, rfl⟩ := top
    rw [← at_] at ledger
    rcases move_owner moved succeeds ledger with ⟨p', rfl, next⟩ | ⟨rfl, initializing, initialized, once, assignedOnce⟩
    · refine .owned t p' ⟨⟨[], { f with pc := p' }, by rw [put_self]; rfl, rfl, by simp [Quiet]⟩, ?_⟩ next
      intro u other
      rw [put_other _ other]
      exact owned.others u other
    · refine .settled ?_ initializing initialized once assignedOnce
      intro u
      by_cases same : u = t
      · subst same
        rw [put_self]
        intro h member
        obtain rfl := List.mem_singleton.mp member
        rfl
      · rw [put_other _ same]
        exact owned.others u same

theorem progress_step {rt : Runtime} {ls : List (Label Thread)} {s s' : State Thread} {l : Label Thread}
    (progress : Progress (entries ls) (assignments ls) s) (shaped : Shaped s) (step : Step rt s l s')
    (succeeds : Succeeds s l) (serial : Serial s l) : Progress (entries (ls ++ [l])) (assignments (ls ++ [l])) s' := by
  rw [entries_append, assignments_append]
  have fresh : ∀ call nested, Quiet [⟨call, nested, .called⟩] := by
    intro call nested h member
    obtain rfl := List.mem_singleton.mp member
    rfl
  cases step with
  | @call t idle call name read =>
    refine progress_harmless progress ?_
    rw [idle]
    exact harmless_push (fresh call false)
  | @nest t f rest here body call name read =>
    refine progress_harmless progress ?_
    rw [here]
    exact harmless_push (fresh call true)
  | @move t f rest here a g pc moved =>
    cases initialising : f.pc.initialising with
    | false => exact progress_quiet progress shaped serial here moved initialising
    | true => exact progress_owner progress succeeds here moved initialising

theorem progress_of_run {rt : Runtime} {ls : List (Label Thread)} {s : State Thread}
    (run : Run (Restrict (Step rt) (fun s l => Succeeds s l ∧ Serial s l)) State.initial ls s) :
    Shaped s ∧ Progress (entries ls) (assignments ls) s := by
  refine run_history (I := fun ls s => Shaped s ∧ Progress (entries ls) (assignments ls) s) ⟨fun _ => .nil, ?_⟩ ?_ run
  · exact .fresh (fun t f impossible => by cases impossible) rfl rfl rfl rfl
  · rintro ls m l t ⟨shaped, progress⟩ ⟨step, succeeds, serial⟩
    exact ⟨shaped_step shaped step, progress_step progress shaped step succeeds serial⟩

/-- A file-name call of the program was forwarded with the name it came with. -/
def Unrewritten (l : Label Thread) : Prop :=
  ∃ call real, l.action = .forward call false none real ∧ HasName call = true

theorem unrewritten_refused {rt : Runtime} {before after : List (Label Thread)} {s : State Thread} {l : Label Thread}
    (run : Run (Restrict (Step rt) Succeeds) State.initial (before ++ l :: after) s) (unrewritten : Unrewritten l) :
    ∃ m n, RefusedAt rt before m l.thread ∧ Step rt m l n ∧ Run (Restrict (Step rt) Succeeds) n after s := by
  obtain ⟨call, real, action, named⟩ := unrewritten
  obtain ⟨m, n, earlier, ⟨step, succeeds⟩, later⟩ := run_at run
  refine ⟨m, n, ?_, step, later⟩
  have tracked := tracked_of_run earlier
  cases step with
  | call | nest => cases action
  | @move t f rest here a g pc moved =>
    obtain rfl : a = .forward call false none real := action
    generalize isAction : Action.forward call false none real = a at moved
    cases moved with
    | @forward config real' at_ due =>
      obtain ⟨rfl, program, rfl, rfl⟩ := Action.forward.inj isAction
      refine tracked.refused t f rest here program.symm ?_
      rw [at_]
      exact named
    | _ => cases isAction

/-- In every run whose initialisation does not fail: as long as no guard is
    evaluated between another call's guard and its first flag assignment, the body
    is entered and `config` assigned at most once; and a file-name call of the
    program is forwarded unrewritten only where its guard, the last one of its
    thread before that in the run, was evaluated while another thread was busy
    initialising. -/
theorem initialisation_of_threads (rt : Runtime) :
    (∀ ls (s : State Thread), Run (Restrict (Step rt) (fun s l => Succeeds s l ∧ Serial s l)) State.initial ls s →
      entries ls ≤ 1 ∧ assignments ls ≤ 1) ∧
    (∀ ls (s : State Thread), Run (Restrict (Step rt) Succeeds) State.initial ls s →
      ∀ before l after, ls = before ++ l :: after → Unrewritten l →
        ∃ m n, RefusedAt rt before m l.thread ∧ Step rt m l n ∧ Run (Restrict (Step rt) Succeeds) n after s) := by
  refine ⟨fun _ _ run => progress_bound (progress_of_run run).2, ?_⟩
  intro ls s run before l after cutting unrewritten
  subst cutting
  exact unrewritten_refused run unrewritten

end

/-- A call of `CreateFileW` with the name "a". -/
def openA : ApiCall := .CreateFileW (some (wide_c_str (wide "a"))) ⟨0, 0, 0, 0, 0, 0⟩

/-- Both threads pass the guard before either stores a flag. -/
def race : List (Label Nat) :=
  [⟨1, .call openA false⟩, ⟨2, .call openA false⟩, ⟨1, .guard⟩, ⟨2, .guard⟩, ⟨1, .store⟩, ⟨2, .store⟩, ⟨1, .enter⟩,
    ⟨2, .enter⟩, ⟨1, .load⟩, ⟨2, .load⟩, ⟨1, .publish ⟨[]⟩⟩, ⟨2, .publish ⟨[]⟩⟩]

/-- The second thread calls while the first one is in the initialisation body. -/
def bypass : List (Label Nat) :=
  [⟨1, .call openA false⟩, ⟨1, .guard⟩, ⟨1, .store⟩, ⟨1, .enter⟩, ⟨2, .call openA false⟩, ⟨2, .guard⟩, ⟨2, .name⟩,
    ⟨2, .forward openA false none openA⟩]

theorem openA_read : readName (latin1 literalBoost) openA = .ok (wide "a") := rfl

theorem race_runs : ∃ s, Run (Restrict (Step (latin1 literalBoost)) Succeeds) State.initial race s := by
  refine run_starts ⟨.call rfl openA_read, rfl⟩ (run_starts ⟨.call rfl openA_read, rfl⟩ ?_)
  refine run_starts ⟨.move rfl (.pass rfl rfl), rfl⟩ (run_starts ⟨.move rfl (.pass rfl rfl), rfl⟩ ?_)
  refine run_starts ⟨.move rfl (.store rfl), rfl⟩ (run_starts ⟨.move rfl (.store rfl), rfl⟩ ?_)
  refine run_starts ⟨.move rfl (.enter rfl), rfl⟩ (run_starts ⟨.move rfl (.enter rfl), rfl⟩ ?_)
  refine run_starts ⟨.move rfl (.load rfl ⟨[]⟩), rfl⟩ (run_starts ⟨.move rfl (.load rfl ⟨[]⟩), rfl⟩ ?_)
  exact run_starts ⟨.move rfl (.publish rfl), rfl⟩ (run_starts ⟨.move rfl (.publish rfl), rfl⟩ ⟨_, .refl _⟩)

theorem bypass_runs : ∃ s, Run (Restrict (Step (latin1 literalBoost)) Succeeds) State.initial bypass s := by
  refine run_starts ⟨.call rfl openA_read, rfl⟩ (run_starts ⟨.move rfl (.pass rfl rfl), rfl⟩ ?_)
  refine run_starts ⟨.move rfl (.store rfl), rfl⟩ (run_starts ⟨.move rfl (.enter rfl), rfl⟩ ?_)
  refine run_starts ⟨.call rfl openA_read, rfl⟩ (run_starts ⟨.move rfl (.answer rfl rfl), rfl⟩ ?_)
  exact run_starts ⟨.move rfl (.keep rfl rfl), rfl⟩ (run_starts ⟨.move rfl (.forward rfl rfl), rfl⟩ ⟨_, .refl _⟩)

/-- Two threads that race for the guard enter the body and assign `config` twice;
    and a thread whose call meets the initialisation of another one opens the file
    under its old name. -/
theorem race_between_threads :
    ((∃ s, Run (Restrict (Step (latin1 literalBoost)) Succeeds) State.initial race s) ∧
      entries race = 2 ∧ assignments race = 2) ∧
    (∃ s, Run (Restrict (Step (latin1 literalBoost)) Succeeds) State.initial bypass s) ∧ ∃ l ∈ bypass, Unrewritten l :=
  ⟨⟨race_runs, rfl, rfl⟩, bypass_runs, ⟨2, .forward openA false none openA⟩, by simp [bypass], openA, openA, rfl, rfl⟩

end Sysintercept.Threads
