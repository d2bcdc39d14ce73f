import Sysintercept.Threads

/-!
# The Config objects behind the threads

`config` is an `auto_ptr`: an assignment deletes the object that it points to and
then stores the new pointer, while calls of other threads may be reading the old
one in `transform_path`. The calls of many threads again, with their objects.
-/
namespace Sysintercept.Objects
open Sysintercept.Units Sysintercept.Rules Sysintercept.Hooks Sysintercept.Automaton
open Sysintercept.Threads hiding State Label Step Action

section
variable {Thread : Type} [DecidableEq Thread] {rt : Runtime}

/-! ## Runs in which guards do not race, also where the initialisation fails -/

/-- After a failure: `initializing` stays set and no call initialises. -/
structure Stuck (s : Threads.State Thread) : Prop where
  quiet : ∀ t, Quiet (s.stack t)
  initializing : s.globals.initializing = true

omit [DecidableEq Thread] in
/-- The call that initialises is the only one, and alone on its thread but for nested calls. -/
theorem owner_unique {s : Threads.State Thread} {v t : Thread} {p : Pc} (owned : Owned s v p) {f : Frame}
    (member : f ∈ s.stack t) (initialising : f.pc.initialising = true) :
    t = v ∧ f.pc = p ∧ ∃ above, s.stack t = above ++ [f] ∧ Quiet above := by
  have same : t = v := by
    by_cases same : t = v
    · exact same
    · have idle := owned.others t same f member
      rw [initialising] at idle
      cases idle
  subst same
  obtain ⟨above, f₀, split, at_, quiet⟩ := owned.owner
  rw [split] at member
  rcases List.mem_append.mp member with high | low
  · have idle := quiet f high
    rw [initialising] at idle
    cases idle
  · obtain rfl := List.mem_singleton.mp low
    exact ⟨rfl, at_, above, split, quiet⟩

omit [DecidableEq Thread] in
/-- A call that initialises is the one that the run has counted. -/
theorem owner_of_progress {s : Threads.State Thread} {entered assigned : Nat} (progress : Progress entered assigned s)
    {t : Thread} {f : Frame} (member : f ∈ s.stack t) (initialising : f.pc.initialising = true) :
    Owned s t f.pc ∧ Ledger entered assigned s.globals f.pc ∧ ∃ above, s.stack t = above ++ [f] ∧ Quiet above := by
  have loud : ¬ ∀ u, Quiet (s.stack u) := by
    intro quiet
    have idle := quiet t f member
    rw [initialising] at idle
    cases idle
  cases progress with
  | fresh quiet => exact absurd quiet loud
  | settled quiet => exact absurd quiet loud
  | owned v p owned ledger =>
    obtain ⟨rfl, rfl, split⟩ := owner_unique owned member initialising
    exact ⟨owned, ledger, split⟩

omit [DecidableEq Thread] in
/-- A call on top of a stack that initialises is the only one there, and the run has
    counted it. -/
theorem owner_alone {s : Threads.State Thread} {entered assigned : Nat} (progress : Progress entered assigned s)
    {t : Thread} {f : Frame} {rest : List Frame} (here : s.stack t = f :: rest) (initialising : f.pc.initialising = true) :
    Owned s t f.pc ∧ Ledger entered assigned s.globals f.pc ∧ rest = [] := by
  obtain ⟨owned, ledger, above, split, quiet⟩ := owner_of_progress progress (t := t) (by rw [here]; simp) initialising
  refine ⟨owned, ledger, ?_⟩
  rw [here] at split
  cases above with
  | nil => simpa using split
  | cons h above' =>
    simp only [List.cons_append, List.cons.injEq] at split
    have idle := quiet h (by simp)
    rw [← split.1, initialising] at idle
    cases idle

/-- Nothing initialises once an initialisation has failed. -/
theorem stuck_step {s s' : Threads.State Thread} {l : Threads.Label Thread} (stuck : Stuck s)
    (step : Threads.Step rt s l s') : Stuck s' := by
  have put : ∀ t new, Quiet new → ∀ u, Quiet ((s.put t new).stack u) := by
    intro t new quiet u
    by_cases same : u = t
    · subst same
      rw [put_self]
      exact quiet
    · rw [put_other s same]
      exact stuck.quiet u
  cases step with
  | @call t idle call name read =>
    refine ⟨put t _ ?_, stuck.initializing⟩
    intro f member
    obtain rfl := List.mem_singleton.mp member
    rfl
  | @nest t f rest here body call name read =>
    have quiet := stuck.quiet t f (by rw [here]; simp)
    rw [body] at quiet
    cases quiet
  | @move t f rest here a g pc moved =>
    have quiet : Quiet (f :: rest) := here ▸ stuck.quiet t
    rcases move_quiet moved (quiet f (by simp)) with ⟨_, unset, _⟩ | ⟨_, _, rfl, after⟩
    · rw [stuck.initializing] at unset
      cases unset
    · refine ⟨put t _ ?_, stuck.initializing⟩
      rw [resume_append]
      exact quiet_append after fun h member => quiet h (List.mem_cons_of_mem _ member)

/-- A failure of the one initialisation leaves it stuck. -/
theorem stuck_of_fail {s s' : Threads.State Thread} {l : Threads.Label Thread} {entered assigned : Nat}
    (progress : Progress entered assigned s) (step : Threads.Step rt s l s') (fails : l.action.isFail = true) : Stuck s' := by
  cases step with
  | call | nest => cases fails
  | @move t f rest here a g pc moved =>
    cases moved with
    | @fail inside e =>
      have initialising : f.pc.initialising = true := by rw [inside]; rfl
      obtain ⟨owned, ledger, alone⟩ := owner_alone progress here initialising
      subst alone
      rw [inside] at ledger
      refine ⟨fun u => ?_, ledger.1⟩
      by_cases same : u = t
      · subst same
        rw [put_self]
        intro h impossible
        cases impossible
      · rw [put_other _ same]
        exact owned.others u same
    | _ => cases fails

/-- What is kept where no guard races with another call's first assignment. -/
structure Once (ls : List (Threads.Label Thread)) (s : Threads.State Thread) : Prop where
  shaped : Shaped s
  unassigned : assignments ls = 0 → s.globals.config = none
  progress : Progress (entries ls) (assignments ls) s ∨ Stuck s

/-- `config` changes by an assignment only. -/
theorem config_step {s s' : Threads.State Thread} {l : Threads.Label Thread} (step : Threads.Step rt s l s')
    (unpublished : l.action.isPublish = false) : s'.globals.config = s.globals.config := by
  cases step with
  | call | nest => rfl
  | @move t f rest here a g pc moved =>
    cases moved with
    | publish => cases unpublished
    | _ => rfl

theorem once_step {ls : List (Threads.Label Thread)} {s s' : Threads.State Thread} {l : Threads.Label Thread}
    (once : Once ls s) (step : Threads.Step rt s l s') (serial : Serial s l) : Once (ls ++ [l]) s' := by
  refine ⟨shaped_step once.shaped step, ?_, ?_⟩
  · intro none
    rw [assignments_append] at none
    cases published : l.action.isPublish with
    | true => simp [published] at none
    | false =>
      rw [config_step step published]
      exact once.unassigned (by omega)
  · rcases once.progress with progress | stuck
    · cases fails : l.action.isFail with
      | true => exact .inr (stuck_of_fail progress step fails)
      | false => exact .inl (progress_step progress once.shaped step fails serial)
    · exact .inr (stuck_step stuck step)

omit [DecidableEq Thread] in
/-- Where a call has loaded a configuration, none was assigned before. -/
theorem unassigned_of_loaded {ls : List (Threads.Label Thread)} {s : Threads.State Thread} (once : Once ls s) {t : Thread}
    {f : Frame} {config : Config} (member : f ∈ s.stack t) (loaded : f.pc = .loaded config) : s.globals.config = none := by
  have initialising : f.pc.initialising = true := by rw [loaded]; rfl
  rcases once.progress with progress | stuck
  · obtain ⟨_, ledger, _⟩ := owner_of_progress progress member initialising
    rw [loaded] at ledger
    exact once.unassigned ledger.2.2.2
  · have idle := stuck.quiet t f member
    rw [initialising] at idle
    cases idle

/-- In between the guard and the return of `load_config`. -/
def unloaded : Pc → Bool
  | .passed => true
  | .stored => true
  | .inside => true
  | _ => false

theorem unloaded_of_idle {p : Pc} (idle : p.initialising = false) : unloaded p = false := by
  cases p with
  | passed | stored | inside => cases idle
  | _ => rfl

/-- `load_config` has returned, and no call is on its way there any more. -/
structure Past (s : Threads.State Thread) : Prop where
  guarded : (s.globals.initializing || s.globals.initialized) = true
  loaded : ∀ t, ∀ f ∈ s.stack t, unloaded f.pc = false

/-- The guard lets nobody in while a flag is set. -/
theorem move_past {g g' : Globals} {f : Frame} {a : Threads.Action} {pc : Option Pc} (moved : Move rt g f a g' pc)
    (guarded : (g.initializing || g.initialized) = true) (loaded : unloaded f.pc = false) {p : Pc} (next : pc = some p) :
    unloaded p = false := by
  cases moved with
  | pass here unguarded =>
    rw [unguarded] at guarded
    cases guarded
  | store here | enter here | load here =>
    rw [here] at loaded
    cases loaded
  | fail | fault | forward | escape => cases next
  | _ =>
    cases next
    rfl

theorem past_put {s : Threads.State Thread} {t : Thread} {new : List Frame}
    (guarded : (s.globals.initializing || s.globals.initialized) = true)
    (others : ∀ u, u ≠ t → ∀ f ∈ s.stack u, unloaded f.pc = false) (own : ∀ f ∈ new, unloaded f.pc = false) :
    Past (s.put t new) := by
  refine ⟨guarded, fun u => ?_⟩
  by_cases same : u = t
  · subst same
    rw [put_self]
    exact own
  · rw [put_other s same]
    exact others u same

theorem past_step {s s' : Threads.State Thread} {l : Threads.Label Thread} {entered assigned : Nat} (past : Past s)
    (known : Progress entered assigned s ∨ Stuck s) (step : Threads.Step rt s l s') : Past s' := by
  cases step with
  | @call t idle call name read =>
    refine past_put past.guarded (fun u _ => past.loaded u) fun f member => ?_
    obtain rfl := List.mem_singleton.mp member
    rfl
  | @nest t f rest here body call name read =>
    have loaded := past.loaded t f (by rw [here]; simp)
    rw [body] at loaded
    cases loaded
  | @move t f rest here a g pc moved =>
    have there : ∀ h ∈ f :: rest, unloaded h.pc = false := here ▸ past.loaded t
    have marked : f.pc = .marked → s.globals.initialized = true := by
      intro at_
      have initialising : f.pc.initialising = true := by rw [at_]; rfl
      rcases known with progress | stuck
      · have ledger := (owner_alone progress here initialising).2.1
        rw [at_] at ledger
        exact ledger.2.1
      · have idle := stuck.quiet t f (by rw [here]; simp)
        rw [initialising] at idle
        cases idle
    refine past_put (move_flagged moved marked past.guarded) (fun u _ => past.loaded u) fun h member => ?_
    cases pc with
    | none => exact there h (List.mem_cons_of_mem _ member)
    | some p =>
      rcases List.mem_cons.mp member with rfl | below
      · exact move_past moved past.guarded (there f (by simp)) rfl
      · exact there h (List.mem_cons_of_mem _ below)

/-- Where `load_config` returns, it has not returned before; from there on it has. -/
theorem past_of_load {s s' : Threads.State Thread} {l : Threads.Label Thread} {entered assigned : Nat}
    (known : Progress entered assigned s ∨ Stuck s) (step : Threads.Step rt s l s') (loads : l.action = .load) :
    ¬ Past s ∧ Past s' := by
  cases step with
  | call | nest => cases loads
  | @move t f rest here a g pc moved =>
    cases moved with
    | load inside config =>
      have initialising : f.pc.initialising = true := by rw [inside]; rfl
      refine ⟨fun past => ?_, ?_⟩
      · have loaded := past.loaded t f (by rw [here]; simp)
        rw [inside] at loaded
        cases loaded
      · rcases known with progress | stuck
        · obtain ⟨owned, ledger, alone⟩ := owner_alone progress here initialising
          rw [inside] at ledger
          subst alone
          refine past_put (by simp [ledger.1]) (fun u other h member => ?_) fun h member => ?_
          · exact unloaded_of_idle (owned.others u other h member)
          · obtain rfl := List.mem_singleton.mp member
            rfl
        · have idle := stuck.quiet t f (by rw [here]; simp)
          rw [initialising] at idle
          cases idle
    | _ => cases loads

/-! ## The objects -/

/-- The calls of all threads, and the objects that `load_config` made, numbered in
    the order of their making. -/
structure State (Thread : Type) where
  threads : Threads.State Thread
  made : Nat
  returned : Thread → Option Nat   -- the object that load_config returned, not yet assigned
  pointer : Option Nat             -- config
  deleted : List Nat
  dropped : Thread → Bool          -- has deleted the old object, and is to store the new pointer
  held : Thread → Option Nat       -- the object that its transform_path reads

def State.initial : State Thread := ⟨Threads.State.initial, 0, fun _ => none, none, [], fun _ => false, fun _ => none⟩

inductive Label (Thread : Type)
  | act (l : Threads.Label Thread)
  | drop (t : Thread)
  | fetch (t : Thread)

/-- The steps of the calls; `load_config` makes an object, `config =` deletes the old
    one and then stores the new one, and the name is rewritten with the object that
    the pointer had when `config->` was evaluated. -/
inductive Step (rt : Runtime) : State Thread → Label Thread → State Thread → Prop
  | act {s l threads} (step : Threads.Step rt s.threads l threads) (unloading : l.action ≠ .load)
      (unpublished : l.action.isPublish = false) (unnamed : l.action ≠ .name) : Step rt s (.act l) { s with threads }
  | load {s l threads} (step : Threads.Step rt s.threads l threads) (loads : l.action = .load) :
      Step rt s (.act l) { s with
        threads, made := s.made + 1
        returned := fun u => if u = l.thread then some s.made else s.returned u }
  | drop {s t f rest config} (here : s.threads.stack t = f :: rest) (loaded : f.pc = .loaded config)
      (first : s.dropped t = false) :
      Step rt s (.drop t) { s with
        deleted := s.pointer.toList ++ s.deleted
        dropped := fun u => if u = t then true else s.dropped u }
  | store {s l threads} (step : Threads.Step rt s.threads l threads) (publishes : l.action.isPublish = true)
      (dropped : s.dropped l.thread = true) :
      Step rt s (.act l) { s with
        threads, pointer := s.returned l.thread
        returned := fun u => if u = l.thread then none else s.returned u
        dropped := fun u => if u = l.thread then false else s.dropped u }
  | fetch {s t f rest object} (here : s.threads.stack t = f :: rest) (answered : f.pc = .answered true)
      (named : HasName f.call = true) (points : s.pointer = some object) (first : s.held t = none) :
      Step rt s (.fetch t) { s with held := fun u => if u = t then some object else s.held u }
  | name {s l f rest threads} (here : s.threads.stack l.thread = f :: rest)
      (step : Threads.Step rt s.threads l threads) (names : l.action = .name)
      (fetched : (s.held l.thread).isSome ↔ f.pc = .answered true ∧ HasName f.call = true) :
      Step rt s (.act l) { s with threads, held := fun u => if u = l.thread then none else s.held u }

/-- Neither `config` nor a call that reads an object has one that is deleted. -/
def Safe (s : State Thread) : Prop :=
  (∀ object, s.pointer = some object → object ∉ s.deleted) ∧ ∀ t object, s.held t = some object → object ∉ s.deleted

/-- No guard is evaluated between another call's guard and its first assignment. -/
def Unraced (s : State Thread) : Label Thread → Prop
  | .act l => Serial s.threads l
  | _ => True

/-- The steps that the calls themselves take. -/
def acts (ls : List (Label Thread)) : List (Threads.Label Thread) :=
  ls.filterMap fun l => match l with
    | .act l => some l
    | _ => none

/-- What a run without races keeps. -/
structure Kept (ls : List (Label Thread)) (s : State Thread) : Prop where
  once : Once (acts ls) s.threads
  unassigned : s.threads.globals.config = none → s.pointer = none
  single : s.made = 0 ∨ s.made = 1 ∧ Past s.threads
  alive : s.deleted = []

omit [DecidableEq Thread] in
theorem acts_append (ls : List (Label Thread)) (l : Label Thread) : acts (ls ++ [l]) = acts ls ++ acts [l] := by
  simp [acts]

theorem config_of_publish {s s' : Threads.State Thread} {l : Threads.Label Thread} (step : Threads.Step rt s l s')
    (publishes : l.action.isPublish = true) : s'.globals.config.isSome := by
  cases step with
  | call | nest => cases publishes
  | @move t f rest here a g pc moved =>
    cases moved with
    | publish loaded => rfl
    | _ => cases publishes

theorem kept_step {ls : List (Label Thread)} {s s' : State Thread} {l : Label Thread} (kept : Kept ls s)
    (step : Step rt s l s') (unraced : Unraced s l) : Kept (ls ++ [l]) s' := by
  have acted : ∀ {l threads}, Threads.Step rt s.threads l threads → Serial s.threads l →
      Once (acts (ls ++ [.act l])) threads := by
    intro l threads step serial
    rw [acts_append]
    exact once_step kept.once step serial
  have idle : ∀ {l}, acts [l] = [] → Once (acts (ls ++ [l])) s.threads := by
    intro l none
    rw [acts_append, none, List.append_nil]
    exact kept.once
  have counted : ∀ {l threads}, Threads.Step rt s.threads l threads → s.made = 0 ∨ s.made = 1 ∧ Past threads := by
    intro l threads step
    rcases kept.single with none | ⟨one, past⟩
    · exact .inl none
    · exact .inr ⟨one, past_step past kept.once.progress step⟩
  cases step with
  | act step unloading unpublished unnamed =>
    refine ⟨acted step unraced, fun none => ?_, counted step, kept.alive⟩
    rw [config_step step unpublished] at none
    exact kept.unassigned none
  | load step loads =>
    obtain ⟨before, after⟩ := past_of_load kept.once.progress step loads
    refine ⟨acted step unraced, fun none => ?_, .inr ⟨?_, after⟩, kept.alive⟩
    · rw [config_step step (by rw [loads]; rfl)] at none
      exact kept.unassigned none
    · rcases kept.single with none | ⟨_, past⟩
      · simp [none]
      · exact absurd past before
  | @drop t f rest config here loaded first =>
    have pointless := kept.unassigned (unassigned_of_loaded kept.once (t := t) (by rw [here]; simp) loaded)
    exact ⟨idle rfl, kept.unassigned, kept.single, by simp [pointless, kept.alive]⟩
  | store step publishes dropped =>
    have installed := config_of_publish step publishes
    refine ⟨acted step unraced, fun none => ?_, counted step, kept.alive⟩
    rw [none] at installed
    cases installed
  | fetch here answered named points first =>
    exact ⟨idle rfl, kept.unassigned, kept.single, kept.alive⟩
  | name here step names fetched =>
    refine ⟨acted step unraced, fun none => ?_, counted step, kept.alive⟩
    rw [config_step step (by rw [names]; rfl)] at none
    exact kept.unassigned none

theorem kept_of_run {ls : List (Label Thread)} {s : State Thread} (run : Run (Restrict (Step rt) Unraced) State.initial ls s) :
    Kept ls s := by
  have fresh : Once (acts []) (State.initial : State Thread).threads := by
    refine ⟨fun _ => .nil, fun _ => rfl, .inl ?_⟩
    exact .fresh (fun t f impossible => by cases impossible) rfl rfl rfl rfl
  refine run_history (I := Kept) ⟨fresh, fun _ => rfl, .inl rfl, rfl⟩ ?_ run
  intro ls m l t kept step
  exact kept_step kept step.1 step.2

end

/-- A thread initialises and a second one calls then; both read the object that the
    first one made. -/
def shared : List (Label Bool) :=
  [.act ⟨false, .call openA false⟩, .act ⟨false, .guard⟩, .act ⟨false, .store⟩, .act ⟨false, .enter⟩, .act ⟨false, .load⟩,
    .drop false, .act ⟨false, .publish ⟨[]⟩⟩, .act ⟨false, .mark⟩, .act ⟨false, .settle⟩, .act ⟨true, .call openA false⟩,
    .act ⟨true, .guard⟩, .fetch false, .fetch true]

theorem shared_runs (rt : Runtime) :
    ∃ s, Run (Restrict (Step rt) Unraced) State.initial shared s ∧
      s.made = 1 ∧ s.pointer = some 0 ∧ s.held false = some 0 ∧ s.held true = some 0 := by
  have unraced : ∀ {s : State Bool} {t a}, a ≠ .guard → Unraced s (.act ⟨t, a⟩) := fun other guard => absurd guard other
  refine run_ends ⟨.act (.call rfl rfl) (by simp) rfl (by simp), unraced (by simp)⟩ ?_
  refine run_ends ⟨.act (.move rfl (.pass rfl rfl)) (by simp) rfl (by simp), ?_⟩ ?_
  · rintro _ (_ | _) f member
    · obtain rfl := List.mem_singleton.mp member
      simp
    · cases member
  refine run_ends ⟨.act (.move rfl (.store rfl)) (by simp) rfl (by simp), unraced (by simp)⟩ ?_
  refine run_ends ⟨.act (.move rfl (.enter rfl)) (by simp) rfl (by simp), unraced (by simp)⟩ ?_
  refine run_ends ⟨.load (.move rfl (.load rfl ⟨[]⟩)) rfl, unraced (by simp)⟩ (run_ends ⟨.drop rfl rfl rfl, trivial⟩ ?_)
  refine run_ends ⟨.store (.move rfl (.publish rfl)) rfl rfl, unraced (by simp)⟩ ?_
  refine run_ends ⟨.act (.move rfl (.mark rfl)) (by simp) rfl (by simp), unraced (by simp)⟩ ?_
  refine run_ends ⟨.act (.move rfl (.settle rfl)) (by simp) rfl (by simp), unraced (by simp)⟩ ?_
  refine run_ends ⟨.act (.call rfl rfl) (by simp) rfl (by simp), unraced (by simp)⟩ ?_
  refine run_ends ⟨.act (.move rfl (.answer rfl rfl)) (by simp) rfl (by simp), ?_⟩ ?_
  · rintro _ (_ | _) f member
    · obtain rfl := List.mem_singleton.mp member
      simp
    · obtain rfl := List.mem_singleton.mp member
      simp
  refine run_ends ⟨.fetch rfl rfl rfl rfl rfl, trivial⟩ (run_ends ⟨.fetch rfl rfl rfl rfl rfl, trivial⟩ ?_)
  exact ⟨_, .refl _, rfl, rfl, rfl, rfl⟩

/-- Both threads pass the guard before either stores a flag; one of them reads the
    object that it has assigned when the other one deletes it. -/
def overlap : List (Label Bool) :=
  [.act ⟨false, .call openA false⟩, .act ⟨true, .call openA false⟩, .act ⟨false, .guard⟩, .act ⟨true, .guard⟩,
    .act ⟨false, .store⟩, .act ⟨true, .store⟩, .act ⟨false, .enter⟩, .act ⟨true, .enter⟩, .act ⟨false, .load⟩, .drop false,
    .act ⟨false, .publish ⟨[]⟩⟩, .act ⟨false, .mark⟩, .act ⟨false, .settle⟩, .fetch false, .act ⟨true, .load⟩, .drop true]

theorem overlap_runs (rt : Runtime) :
    ∃ s, Run (Step rt) State.initial overlap s ∧ s.pointer = some 0 ∧ s.held false = some 0 ∧ s.deleted = [0] := by
  refine run_ends (.act (.call rfl rfl) (by simp) rfl (by simp)) ?_
  refine run_ends (.act (.call rfl rfl) (by simp) rfl (by simp)) ?_
  refine run_ends (.act (.move rfl (.pass rfl rfl)) (by simp) rfl (by simp)) ?_
  refine run_ends (.act (.move rfl (.pass rfl rfl)) (by simp) rfl (by simp)) ?_
  refine run_ends (.act (.move rfl (.store rfl)) (by simp) rfl (by simp)) ?_
  refine run_ends (.act (.move rfl (.store rfl)) (by simp) rfl (by simp)) ?_
  refine run_ends (.act (.move rfl (.enter rfl)) (by simp) rfl (by simp)) ?_
  refine run_ends (.act (.move rfl (.enter rfl)) (by simp) rfl (by simp)) ?_
  refine run_ends (.load (.move rfl (.load rfl ⟨[]⟩)) rfl) (run_ends (.drop rfl rfl rfl) ?_)
  refine run_ends (.store (.move rfl (.publish rfl)) rfl rfl) ?_
  refine run_ends (.act (.move rfl (.mark rfl)) (by simp) rfl (by simp)) ?_
  refine run_ends (.act (.move rfl (.settle rfl)) (by simp) rfl (by simp)) (run_ends (.fetch rfl rfl rfl rfl rfl) ?_)
  refine run_ends (.load (.move rfl (.load rfl ⟨[]⟩)) rfl) (run_ends (.drop rfl rfl rfl) ?_)
  exact ⟨_, .refl _, rfl, rfl, rfl⟩

/-- In every run in which no guard is evaluated between another call's guard and
    its first assignment, whether or not initialisations fail: `load_config` makes
    one object at most, and it is never deleted, so no call reads a deleted one;
    there are such runs in which two threads read it. Two threads whose guards race
    may come to where one reads the object that the other deletes. -/
theorem config_outlives_uses {Thread : Type} [DecidableEq Thread] (rt : Runtime) :
    (∀ ls (s : State Thread), Run (Restrict (Step rt) Unraced) State.initial ls s →
      s.made ≤ 1 ∧ s.deleted = [] ∧ Safe s) ∧
    (∃ ls, ∃ s : State Bool, Run (Restrict (Step rt) Unraced) State.initial ls s ∧
      s.made = 1 ∧ s.pointer = some 0 ∧ s.held false = some 0 ∧ s.held true = some 0) ∧
    ∃ ls, ∃ s : State Bool, Run (Step rt) State.initial ls s ∧ ¬ Safe s := by
  refine ⟨fun ls s run => ?_, ⟨shared, shared_runs rt⟩, ?_⟩
  · have kept := kept_of_run run
    refine ⟨?_, kept.alive, ?_, ?_⟩
    · rcases kept.single with none | ⟨one, _⟩ <;> omega
    · simp [kept.alive]
    · simp [kept.alive]
  · obtain ⟨s, run, _, reads, deleted⟩ := overlap_runs rt
    refine ⟨overlap, s, run, fun safe => ?_⟩
    exact safe.2 false 0 reads (by simp [deleted])

end Sysintercept.Objects
