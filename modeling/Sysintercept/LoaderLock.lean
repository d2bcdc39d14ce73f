import Sysintercept.Threads

/-!
# Hooked calls under the loader lock

The threads of the injected process with the entry points of its modules: the
loader notifies one thread at a time, `DllMain` functions run above whatever the
thread was doing, and those of other modules may call any hooked function, which
the DLL redirects from its own attach on. When the initialisation body runs above
a `DllMain`.
-/
namespace Sysintercept.LoaderLock
open Sysintercept.Rules Sysintercept.Hooks Sysintercept.Automaton Sysintercept.Threads

/-- `ul_reason_for_call`. -/
inductive Reason
  | DLL_PROCESS_ATTACH | DLL_THREAD_ATTACH | DLL_THREAD_DETACH | DLL_PROCESS_DETACH
  deriving DecidableEq, Repr

/-- The hooks that the DLL's own entry point places. -/
def DllMain : Reason → List ApiFunction
  | .DLL_PROCESS_ATTACH => hook_everything
  | .DLL_THREAD_ATTACH | .DLL_THREAD_DETACH | .DLL_PROCESS_DETACH => []

section
variable {Thread Module : Type} [DecidableEq Thread] [DecidableEq Module]

/-- What is active on a thread: the `DllMain` of a module, with the hooks that it
    has yet to place, or a hooked call. -/
inductive Active (Module : Type)
  | dllMain (module : Module) (todo : List ApiFunction)
  | hooked (frame : Frame)

def Active.isDllMain : Active Module → Bool
  | .dllMain _ _ => true
  | .hooked _ => false

/-- Some module's `DllMain` is active. -/
def InDllMain (stack : List (Active Module)) : Prop := ∃ a ∈ stack, a.isDllMain = true

/-- The globals of the DLL, the functions that are redirected, and what is active
    on each thread, innermost first. -/
structure State (Thread Module : Type) where
  globals : Globals
  placed : ApiFunction → Bool
  stack : Thread → List (Active Module)

def State.initial : State Thread Module := ⟨World.initial.globals, fun _ => false, fun _ => []⟩

def State.put (s : State Thread Module) (t : Thread) (stack : List (Active Module)) : State Thread Module :=
  { s with stack := fun u => if u = t then stack else s.stack u }

def State.place (s : State Thread Module) (f : ApiFunction) (placed : Bool) : State Thread Module :=
  { s with placed := fun h => if h = f then placed else s.placed h }

/-- Code that is not the hooks' own runs on the thread: the program, a `DllMain`,
    or the libraries below the initialisation body. -/
def Foreign : List (Active Module) → Prop
  | [] => True
  | .dllMain _ _ :: _ => True
  | .hooked f :: _ => f.pc = .inside

/-- Whether a call made now is made from inside the initialisation body. -/
def nested : List (Active Module) → Bool
  | .hooked _ :: _ => true
  | _ => false

/-- The DLL's own `DllMain` runs, which calls none of the hooked functions. -/
def Own (dll : Module) : List (Active Module) → Prop
  | .dllMain module _ :: _ => module = dll
  | _ => False

inductive Event (Module : Type)
  | notify (module : Module) (reason : Reason)
  | place (function : ApiFunction) (placed : Bool)
  | returns
  | call (call : ApiCall)
  | hooked (action : Action)

structure Label (Thread Module : Type) where
  thread : Thread
  event : Event Module

/-- The call on top of a stack after a move. -/
def resumed (f : Frame) (pc : Option Pc) (rest : List (Active Module)) : List (Active Module) :=
  (resume f pc []).map .hooked ++ rest

/-- A hook is placed or not, `DllMain` functions call and return, and the hooked
    calls take the steps that they take without a loader. -/
inductive Step (rt : Runtime) (dll : Module) : State Thread Module → Label Thread Module → State Thread Module → Prop
  | notify {s t} (foreign : Foreign (s.stack t)) (serialized : ∀ u, u ≠ t → ¬ InDllMain (s.stack u)) (module : Module)
      (reason : Reason) :
      Step rt dll s ⟨t, .notify module reason⟩
        (s.put t (.dllMain module (if module = dll then DllMain reason else []) :: s.stack t))
  | place {s t module f todo rest} (here : s.stack t = .dllMain module (f :: todo) :: rest) (placed : Bool) :
      Step rt dll s ⟨t, .place f placed⟩ ((s.place f placed).put t (.dllMain module todo :: rest))
  | returns {s t module rest} (here : s.stack t = .dllMain module [] :: rest) :
      Step rt dll s ⟨t, .returns⟩ (s.put t rest)
  | call {s t} (foreign : Foreign (s.stack t)) (other : ¬ Own dll (s.stack t)) {call name}
      (placed : s.placed call.function = true) (read : readName rt call = .ok name) :
      Step rt dll s ⟨t, .call call⟩ (s.put t (.hooked ⟨call, nested (s.stack t), .called⟩ :: s.stack t))
  | move {s t f rest} (here : s.stack t = .hooked f :: rest) {a g pc} (moved : Move rt s.globals f a g pc) :
      Step rt dll s ⟨t, .hooked a⟩ ({ s with globals := g }.put t (resumed f pc rest))

omit [DecidableEq Module] in
@[simp] theorem put_self (s : State Thread Module) (t : Thread) (stack : List (Active Module)) :
    (s.put t stack).stack t = stack := by
  simp [State.put]

omit [DecidableEq Module] in
theorem put_other (s : State Thread Module) {t u : Thread} (other : u ≠ t) (stack : List (Active Module)) :
    (s.put t stack).stack u = s.stack u := by
  simp [State.put, other]

omit [DecidableEq Thread] [DecidableEq Module] in
@[simp] theorem place_stack (s : State Thread Module) (f : ApiFunction) (placed : Bool) :
    (s.place f placed).stack = s.stack := rfl

/-- The initialisation body runs on the thread, called while a `DllMain` was active there. -/
def BodyUnderDllMain (s : State Thread Module) (t : Thread) : Prop :=
  ∃ above f below, s.stack t = above ++ .hooked f :: below ∧ f.pc = .inside ∧ InDllMain below

/-- A guard that finds both flags unset is evaluated with no `DllMain` active on its thread. -/
def Clear (s : State Thread Module) (l : Label Thread Module) : Prop :=
  l.event = .hooked .guard → (s.globals.initializing || s.globals.initialized) = false → ¬ InDllMain (s.stack l.thread)

/-- A call that initialises stands above no `DllMain`. -/
def Apart (above below : Active Module) : Prop :=
  ∀ f, above = .hooked f → f.pc.initialising = true → below.isDllMain = false

/-- On no thread does a call initialise above a `DllMain`. -/
def Unlocked (s : State Thread Module) : Prop := ∀ t, (s.stack t).Pairwise Apart

/-- A step changes the stack of its own thread only. -/
theorem step_other {rt : Runtime} {dll : Module} {s s' : State Thread Module} {l : Label Thread Module}
    (step : Step rt dll s l s') {u : Thread} (other : u ≠ l.thread) : s'.stack u = s.stack u := by
  cases step with
  | _ => exact put_other _ other _

/-- A relation between what is active and everything below it is kept by a step if
    it does not restrict a `DllMain`, and holds of a call that begins and of one that
    moves. -/
theorem pairwise_step {rt : Runtime} {dll : Module} {s s' : State Thread Module} {l : Label Thread Module}
    {R : Active Module → Active Module → Prop} (step : Step rt dll s l s')
    (dllMain : ∀ module todo below, R (.dllMain module todo) below)
    (begins : ∀ call, l.event = .call call → ∀ f, f.pc = .called → ∀ below ∈ s.stack l.thread, R (.hooked f) below)
    (moves : ∀ f rest a g pc, l.event = .hooked a → s.stack l.thread = .hooked f :: rest →
      Move rt s.globals f a g (some pc) → (∀ below ∈ rest, R (.hooked f) below) →
      ∀ below ∈ rest, R (.hooked { f with pc }) below)
    (before : ∀ t, (s.stack t).Pairwise R) (u : Thread) : (s'.stack u).Pairwise R := by
  by_cases other : u ≠ l.thread
  · rw [step_other step other]
    exact before u
  obtain rfl : u = l.thread := Classical.not_not.mp other
  have old := before l.thread
  cases step with
  | @notify t foreign serialized module reason =>
    rw [put_self]
    exact List.pairwise_cons.mpr ⟨fun below _ => dllMain _ _ below, old⟩
  | @place t module f todo rest here placed =>
    rw [put_self]
    rw [here] at old
    exact List.pairwise_cons.mpr ⟨fun below _ => dllMain _ _ below, old.of_cons⟩
  | @returns t module rest here =>
    rw [put_self]
    rw [here] at old
    exact old.of_cons
  | @call t foreign notOwn call name placed read =>
    rw [put_self]
    exact List.pairwise_cons.mpr ⟨begins call rfl _ rfl, old⟩
  | @move t f rest here a g pc moved =>
    rw [put_self]
    rw [here] at old
    obtain ⟨top, rest_⟩ := List.pairwise_cons.mp old
    cases pc with
    | none => exact rest_
    | some pc => exact List.pairwise_cons.mpr ⟨moves f rest a g pc rfl here moved top, rest_⟩

/-- A call that initialises did so before, or begins to by a guard that was clear. -/
theorem unlocked_step {rt : Runtime} {dll : Module} {s s' : State Thread Module} {l : Label Thread Module}
    (unlocked : Unlocked s) (step : Step rt dll s l s') (clear : Clear s l) : Unlocked s' := by
  refine pairwise_step step (fun _ _ _ _ impossible => by cases impossible) ?_ ?_ unlocked
  · intro call _ f called below _ h same initialising
    rw [← Active.hooked.inj same, called] at initialising
    cases initialising
  · intro f rest a g pc event here moved top below member h same initialising
    rw [← Active.hooked.inj same] at initialising
    cases before : f.pc.initialising with
    | true => exact top below member f rfl before
    | false =>
      rcases move_quiet moved before with ⟨rfl, unset, uninitialized, _, _⟩ | ⟨_, _, _, quiet⟩
      · have noDllMain := clear event (by simp [unset, uninitialized])
        rw [here] at noDllMain
        cases entry : below.isDllMain with
        | false => rfl
        | true => exact absurd ⟨below, List.mem_cons_of_mem _ member, entry⟩ noDllMain
      · rw [show pc.initialising = false from quiet { f with pc } (by simp [resume])] at initialising
        cases initialising

theorem unlocked_of_run {rt : Runtime} {dll : Module} {ls : List (Label Thread Module)} {s : State Thread Module}
    (run : Run (Restrict (Step rt dll) Clear) State.initial ls s) : Unlocked s :=
  run_invariant (I := Unlocked) (fun _ _ _ unlocked step => unlocked_step unlocked step.1 step.2) run (fun _ => .nil)

omit [DecidableEq Thread] [DecidableEq Module] in
theorem not_bodyUnderDllMain {s : State Thread Module} (unlocked : Unlocked s) (t : Thread) : ¬ BodyUnderDllMain s t := by
  rintro ⟨above, f, below, split, inside, entry, member, isEntry⟩
  have apart := unlocked t
  rw [split] at apart
  have stands := (List.pairwise_cons.mp (List.pairwise_append.mp apart).2.1).1 entry member f rfl (by rw [inside]; rfl)
  rw [isEntry] at stands
  cases stands

/-- A guard that opens under a `DllMain` lets the thread run the body there in its next two steps. -/
theorem body_of_not_clear {rt : Runtime} {dll : Module} {s s' : State Thread Module} {l : Label Thread Module}
    (step : Step rt dll s l s') (unclear : ¬ Clear s l) :
    ∃ s₁ s₂, Step rt dll s' ⟨l.thread, .hooked .store⟩ s₁ ∧ Step rt dll s₁ ⟨l.thread, .hooked .enter⟩ s₂ ∧
      BodyUnderDllMain s₂ l.thread := by
  unfold Clear at unclear
  simp only [Classical.not_imp, Classical.not_not] at unclear
  obtain ⟨guard, unguarded, entry, member, isEntry⟩ := unclear
  cases step with
  | notify | place | returns | call => cases guard
  | @move t f rest here a g pc moved =>
    obtain rfl : a = .guard := Event.hooked.inj guard
    have below : entry ∈ rest := by
      rw [here] at member
      rcases List.mem_cons.mp member with rfl | below
      · cases isEntry
      · exact below
    cases moved with
    | answer _ guarded =>
      rw [unguarded] at guarded
      cases guarded
    | pass _ _ =>
      refine ⟨_, _, .move (put_self _ t _) (.store rfl), .move (put_self _ t _) (.enter rfl), ?_⟩
      exact ⟨[], { f with pc := .inside }, rest, put_self _ t _, rfl, entry, below, isEntry⟩

/-! ## Calls that come late enough -/

/-- A flag is set, so every guard refuses. -/
def Flagged (g : Globals) : Prop := (g.initializing || g.initialized) = true

/-- A hooked call made under a `DllMain` is made with a flag set already. -/
def Late (s : State Thread Module) (l : Label Thread Module) : Prop :=
  ∀ call, l.event = .call call → InDllMain (s.stack l.thread) → Flagged s.globals

/-- A call that is marked set `initialized`, and so did one that stays marked. -/
theorem move_marked {rt : Runtime} {g g' : Globals} {f : Frame} {a : Action} {pc : Option Pc} (moved : Move rt g f a g' pc) :
    (g.initialized = true → g'.initialized = true) ∧ (pc = some .marked → g'.initialized = true) := by
  cases moved with
  | mark => exact ⟨fun _ => rfl, fun _ => rfl⟩
  | _ => exact ⟨id, fun impossible => by cases impossible⟩

/-- A call whose guard is due stands above no `DllMain`. -/
def Ahead (above below : Active Module) : Prop := ∀ f, above = .hooked f → f.pc = .called → below.isDllMain = false

/-- What holds as long as the calls under a `DllMain` are late. -/
structure Begun (s : State Thread Module) : Prop where
  marked : ∀ t f, .hooked f ∈ s.stack t → f.pc = .marked → s.globals.initialized = true
  ahead : Flagged s.globals ∨ ∀ t, (s.stack t).Pairwise Ahead

/-- Under the calls of a begun state every guard is clear. -/
theorem clear_of_begun {rt : Runtime} {dll : Module} {s s' : State Thread Module} {l : Label Thread Module}
    (begun : Begun s) (step : Step rt dll s l s') : Clear s l := by
  intro guard unguarded
  have unflagged : ¬ Flagged s.globals := by
    unfold Flagged
    rw [unguarded]
    exact Bool.false_ne_true
  have ahead := begun.ahead.resolve_left unflagged
  cases step with
  | notify | place | returns | call => cases guard
  | @move t f rest here a g pc moved =>
    obtain rfl : a = .guard := Event.hooked.inj guard
    have called : f.pc = .called := by
      cases moved with
      | pass here | answer here => exact here
    have top := ahead t
    rw [here] at top
    rintro ⟨entry, member, isEntry⟩
    rw [here] at member
    rcases List.mem_cons.mp member with rfl | below
    · cases isEntry
    · have apart := (List.pairwise_cons.mp top).1 entry below f rfl called
      rw [isEntry] at apart
      cases apart

/-- `initialized` is never taken back, and a marked call has set it. -/
theorem marked_step {rt : Runtime} {dll : Module} {s s' : State Thread Module} {l : Label Thread Module}
    (marked : ∀ t f, .hooked f ∈ s.stack t → f.pc = .marked → s.globals.initialized = true) (step : Step rt dll s l s')
    {u : Thread} {h : Frame} (member : .hooked h ∈ s'.stack u) (at_ : h.pc = .marked) : s'.globals.initialized = true := by
  by_cases other : u ≠ l.thread
  · rw [step_other step other] at member
    have before := marked u h member at_
    cases step with
    | move here moved => exact (move_marked moved).1 before
    | _ => exact before
  obtain rfl : u = l.thread := Classical.not_not.mp other
  cases step with
  | @notify t foreign serialized module reason =>
    rw [put_self] at member
    exact marked t h (by simpa using member) at_
  | @place t module f todo rest here placed =>
    rw [put_self] at member
    exact marked t h (by rw [here]; simpa using member) at_
  | @returns t module rest here =>
    rw [put_self] at member
    exact marked t h (by rw [here]; simpa using member) at_
  | @call t foreign notOwn call name placed read =>
    rw [put_self] at member
    rcases List.mem_cons.mp member with same | old
    · rw [Active.hooked.inj same] at at_
      cases at_
    · exact marked t h old at_
  | @move t f rest here a g pc moved =>
    rw [put_self] at member
    rcases List.mem_append.mp member with new | old
    · cases pc with
      | none => cases new
      | some pc =>
        obtain rfl : h = { f with pc } := by simpa [resume] using new
        exact (move_marked moved).2 (congrArg some at_)
    · exact (move_marked moved).1 (marked t h (by rw [here]; exact List.mem_cons_of_mem _ old) at_)

theorem begun_step {rt : Runtime} {dll : Module} {s s' : State Thread Module} {l : Label Thread Module}
    (begun : Begun s) (step : Step rt dll s l s') (late : Late s l) : Begun s' := by
  refine ⟨fun u h member at_ => marked_step begun.marked step member at_, ?_⟩
  by_cases flagged : Flagged s.globals
  · refine .inl ?_
    cases step with
    | @move t f rest here a g pc moved =>
      exact move_flagged moved (begun.marked t f (by rw [here]; exact List.mem_cons_self)) flagged
    | _ => exact flagged
  · refine .inr (pairwise_step step (fun _ _ _ _ impossible => by cases impossible) ?_ ?_ (begun.ahead.resolve_left flagged))
    · intro call event f _ below member h _ _
      cases entry : below.isDllMain with
      | false => rfl
      | true => exact absurd (late call event ⟨below, member, entry⟩) flagged
    · intro f rest a g pc _ _ moved _ below _ h same called
      rw [← Active.hooked.inj same] at called
      obtain rfl : pc = .called := called
      cases moved

/-- Calls under a `DllMain` that come late never initialise there. -/
theorem unlocked_of_late {rt : Runtime} {dll : Module} {ls : List (Label Thread Module)} {s : State Thread Module}
    (run : Run (Restrict (Step rt dll) Late) State.initial ls s) : Unlocked s := by
  have initial : Begun (State.initial : State Thread Module) ∧ Unlocked (State.initial : State Thread Module) :=
    ⟨⟨fun _ _ impossible => (by cases impossible), .inr fun _ => .nil⟩, fun _ => .nil⟩
  refine (run_invariant (I := fun s => Begun s ∧ Unlocked s) ?_ run initial).2
  rintro s l s' ⟨begun, unlocked⟩ ⟨step, late⟩
  exact ⟨begun_step begun step late, unlocked_step unlocked step (clear_of_begun begun step)⟩

/-- In every run in which no guard finds the flags unset while a `DllMain` is
    active on its thread, the initialisation body never runs above a `DllMain`, and
    so in every run whose calls under a `DllMain` are all made with a flag set. A
    guard that does find them unset there lets its thread run the body two steps later. -/
theorem initialisation_outside_loader_lock (rt : Runtime) (dll : Module) :
    (∀ ls (s : State Thread Module), Run (Restrict (Step rt dll) Clear) State.initial ls s →
      ∀ t, ¬ BodyUnderDllMain s t) ∧
    (∀ ls (s : State Thread Module), Run (Restrict (Step rt dll) Late) State.initial ls s →
      ∀ t, ¬ BodyUnderDllMain s t) ∧
    (∀ (s : State Thread Module) l s', Step rt dll s l s' → ¬ Clear s l →
      ∃ s₁ s₂, Step rt dll s' ⟨l.thread, .hooked .store⟩ s₁ ∧ Step rt dll s₁ ⟨l.thread, .hooked .enter⟩ s₂ ∧
        BodyUnderDllMain s₂ l.thread) := by
  refine ⟨?_, ?_, ?_⟩
  · intro ls s run
    exact not_bodyUnderDllMain (unlocked_of_run run)
  · intro ls s run
    exact not_bodyUnderDllMain (unlocked_of_late run)
  · intro s l s' step unclear
    exact body_of_not_clear step unclear

end

/-- The DLL attaches and places its hooks; then another module attaches, whose
    `DllMain` opens a file. -/
def otherAttaches : List (Label Nat String) :=
  ([.notify "sysintercept.dll" .DLL_PROCESS_ATTACH, .place .ExitProcess true, .place .OpenFile true,
    .place .CreateFileA true, .place .CreateFileW true, .place .ReadFile true, .returns,
    .notify "other.dll" .DLL_PROCESS_ATTACH, .call openA, .hooked .guard, .hooked .store, .hooked .enter] :
    List (Event String)).map (⟨1, ·⟩)

/-- The first hooked call comes from the `DllMain` of another module, and
    initialises there. -/
theorem initialises_in_dllMain :
    ∃ s, Run (Step (latin1 literalBoost) "sysintercept.dll") State.initial otherAttaches s ∧ BodyUnderDllMain s 1 := by
  have idle {s : State Nat String} (rest : ∀ u, u ≠ 1 → s.stack u = []) : ∀ u, u ≠ 1 → ¬ InDllMain (s.stack u) := by
    rintro u other ⟨entry, member, _⟩
    rw [rest u other] at member
    cases member
  unfold otherAttaches
  simp only [List.map_cons, List.map_nil]
  refine run_ends (.notify (by trivial) (idle fun _ _ => rfl) _ _) ?_
  refine run_ends (.place rfl true) (run_ends (.place rfl true) (run_ends (.place rfl true) ?_))
  refine run_ends (.place rfl true) (run_ends (.place rfl true) (run_ends (.returns rfl) ?_))
  refine run_ends (.notify (by trivial) (idle fun u other => ?_) _ _) ?_
  · simp only [place_stack, put_other _ other]
    rfl
  refine run_ends (.call (by trivial) ?_ rfl openA_read) (run_ends (.move rfl (.pass rfl rfl)) ?_)
  · show ¬ "other.dll" = "sysintercept.dll"
    decide
  refine run_ends (.move rfl (.store rfl)) (run_ends (.move rfl (.enter rfl)) ⟨_, .refl _, ?_⟩)
  exact ⟨[], _, _, rfl, rfl, _, List.mem_cons_self, rfl⟩

end Sysintercept.LoaderLock
