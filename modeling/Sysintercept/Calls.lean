import Sysintercept.Automaton
import Sysintercept.Hooks

/-!
# Runs of hooked calls

A single-threaded run is a sequence of trees of hooked calls: the initialisation
body of a call may itself make hooked calls, and so may the real function that a
call ends in. The two static flags and `config` are shown to follow a machine
with four stable phases, whatever the trees are and wherever something throws.
-/
namespace Sysintercept.Calls
open Sysintercept.Units Sysintercept.Rules Sysintercept.Exceptions Sysintercept.Hooks Sysintercept.Automaton

/-- A sequence of hooked calls. Each comes with the calls that the
    initialisation body makes and how it ends, should this call run it, and with
    the calls that the real function makes and what it returns. -/
inductive CallSeq
  | done
  | call (rt : Runtime) (call : ApiCall) (init : CallSeq) (loaded : Except Stop Config) (inner : CallSeq)
      (returned : Except Stop Value) (next : CallSeq)

/-- The program may go on after an exception, so the next call follows in any case. -/
def run : CallSeq → Dll PUnit
  | .done => pure ⟨⟩
  | .call rt call init loaded inner returned next => do
    attempt (hooked rt
      (do
        run init
        fromExcept loaded)
      (fun real => do
        log (.real rt call real)
        run inner
        fromExcept returned)
      call)
    run next

/-- The trace of a run in a process that has just loaded the DLL. -/
def trace (calls : CallSeq) : List Record := (final (run calls) World.initial).trace

/-! ## The phases of the initialisation -/

/-- `fresh`, `running`, `failed` and `ready` last; the other two stand between
    the assignments that follow the body. -/
inductive Phase
  | fresh
  | running
  | failed
  | published (config : Config)
  | marked (config : Config)
  | ready (config : Config)

/-- How the phases are encoded: running and failed look the same. -/
def Phase.globals : Phase → Globals
  | .fresh => ⟨false, false, none⟩
  | .running => ⟨false, true, none⟩
  | .failed => ⟨false, true, none⟩
  | .published config => ⟨false, true, some config⟩
  | .marked config => ⟨true, true, some config⟩
  | .ready config => ⟨true, false, some config⟩

/-- The phases in which hooked calls pass through. -/
def Closed (p : Phase) : Prop := p = .running ∨ p = .failed

/-- The phases in which a hooked call can begin. -/
def Stable (p : Phase) : Prop := p = .fresh ∨ Closed p ∨ ∃ config, p = .ready config

/-- What may happen in each phase. -/
inductive Phase.Step : Phase → Record → Phase → Prop
  | enter : Step .fresh ⟨.enter, Phase.running.globals⟩ .running
  | fail (e : Stop) : Step .running ⟨.fail e (report e), Phase.failed.globals⟩ .failed
  | publish (config : Config) :
      Step .running ⟨.publish config, (Phase.published config).globals⟩ (.published config)
  | initialized (config : Config) :
      Step (.published config) ⟨.initialized, (Phase.marked config).globals⟩ (.marked config)
  | settled (config : Config) : Step (.marked config) ⟨.settled, (Phase.ready config).globals⟩ (.ready config)
  | refuse {p : Phase} (closed : Closed p) : Step p ⟨.answer false, p.globals⟩ p
  | grant (config : Config) : Step (.ready config) ⟨.answer true, (Phase.ready config).globals⟩ (.ready config)
  | deref (config : Config) :
      Step (.ready config) ⟨.deref (some config), (Phase.ready config).globals⟩ (.ready config)
  | bare {p : Phase} (closed : Closed p) {rt : Runtime} {call real : ApiCall}
      (unchanged : forwarded rt none call = .ok real) : Step p ⟨.real rt call real, p.globals⟩ p
  | rewritten (config : Config) {rt : Runtime} {call real : ApiCall}
      (changed : forwarded rt (some config) call = .ok real) :
      Step (.ready config) ⟨.real rt call real, (Phase.ready config).globals⟩ (.ready config)

/-- The globals encode the phase, and the trace is a run of the phases up to it. -/
def At (p : Phase) (w : World) : Prop := w.globals = p.globals ∧ Run Phase.Step .fresh w.trace p

/-- How a phase changes over a whole hooked call. -/
inductive Later : Phase → Phase → Prop
  | same (p : Phase) : Later p p
  | failed : Later .fresh .failed
  | ready (config : Config) : Later .fresh (.ready config)

/-- The world is in a phase that a phase can have led to. -/
def After (p : Phase) (w : World) : Prop := ∃ p', Later p p' ∧ At p' w

theorem later_trans {p q r : Phase} (first : Later p q) (second : Later q r) : Later p r := by
  cases first with
  | same => exact second
  | failed => cases second; exact .failed
  | ready config => cases second; exact .ready config

theorem later_stable {p q : Phase} (later : Later p q) (stable : Stable p) : Stable q := by
  cases later with
  | same => exact stable
  | failed => exact .inr (.inl (.inr rfl))
  | ready config => exact .inr (.inr ⟨config, rfl⟩)

/-- Only a fresh phase is ever left. -/
theorem later_closed {p q : Phase} (later : Later p q) (closed : Closed p) : q = p := by
  cases later with
  | same => rfl
  | failed => rcases closed with impossible | impossible <;> cases impossible
  | ready => rcases closed with impossible | impossible <;> cases impossible

theorem after_trans {p q : Phase} {w : World} (later : Later p q) (after : After q w) : After p w := by
  obtain ⟨r, rest, here⟩ := after
  exact ⟨r, later_trans later rest, here⟩

/-! ## Each computation keeps to the phases -/

theorem log_triple {p q : Phase} {e : Event} {E : Stop → World → Prop} (step : Phase.Step p ⟨e, p.globals⟩ q)
    (same : p.globals = q.globals) : Triple (At p) (log e) (fun _ => At q) E := by
  rintro w ⟨encoded, run⟩
  refine ⟨encoded.trans same, ?_⟩
  show Run Phase.Step .fresh (w.trace ++ [⟨e, w.globals⟩]) q
  rw [encoded]
  exact .tail run step

theorem assign_triple {p q : Phase} {f : Globals → Globals} {e : Event} {E : Stop → World → Prop}
    (encoded : f p.globals = q.globals) (step : Phase.Step p ⟨e, q.globals⟩ q) :
    Triple (At p) (assign f e) (fun _ => At q) E := by
  rintro w ⟨now, run⟩
  have next : f w.globals = q.globals := by rw [now, encoded]
  refine ⟨next, ?_⟩
  show Run Phase.Step .fresh (w.trace ++ [⟨e, f w.globals⟩]) q
  rw [next]
  exact .tail run step

/-- From a fresh process the initialisation ends ready or failed. -/
theorem initialise_triple {body : Dll Config}
    (bodyKeeps : Triple (At .running) body (fun _ => At .running) (fun _ => At .running)) :
    Triple (At .fresh) (initialise body) (fun b w => b = true ∧ ∃ config, At (.ready config) w)
      (fun _ => At .failed) := by
  apply triple_bind (assign_triple rfl .enter)
  intro _
  apply triple_bind (triple_rethrow bodyKeeps (fun e =>
    triple_bind (log_triple (.fail e) rfl) (fun _ => triple_throw (fun _ here => here))))
  intro config
  apply triple_bind (assign_triple rfl (.publish config))
  intro _
  apply triple_bind (assign_triple rfl (.initialized config))
  intro _
  apply triple_bind (assign_triple rfl (.settled config))
  intro _
  apply triple_bind (log_triple (.grant config) rfl)
  intro _
  exact triple_pure (fun w here => ⟨rfl, config, here⟩)

/-- What `ensured_init` returns in a phase that it leaves behind. -/
def Answers (p : Phase) (inited : Bool) : Prop :=
  (Closed p ∧ inited = false) ∨ ∃ config, p = .ready config ∧ inited = true

theorem ensured_init_triple {body : Dll Config} {p : Phase} (stable : Stable p)
    (bodyKeeps : Triple (At .running) body (fun _ => At .running) (fun _ => At .running)) :
    Triple (At p) (ensured_init body) (fun b w => ∃ q, Later p q ∧ At q w ∧ Answers q b) (fun _ => After p) := by
  intro w here
  rcases stable with rfl | closed | ⟨config, rfl⟩
  · rw [ensured_init_unguarded body (by rw [here.1]; rfl)]
    refine triple_weaken (initialise_triple bodyKeeps) (fun _ pre => pre) ?_ ?_ w here
    · rintro b w' ⟨granted, config, ready⟩
      exact ⟨.ready config, .ready config, ready, .inr ⟨config, rfl, granted⟩⟩
    · exact fun _ w' failed => ⟨.failed, .failed, failed⟩
  · have busy : w.globals.initializing = true ∧ w.globals.initialized = false := by
      rw [here.1]
      rcases closed with rfl | rfl <;> exact ⟨rfl, rfl⟩
    rw [ensured_init_guarded body (by simp [busy.1])]
    refine ⟨p, .same p, ?_, .inl ⟨closed, busy.2⟩⟩
    rw [busy.2]
    exact log_triple (E := fun _ _ => True) (.refuse closed) rfl w here
  · have inited : w.globals.initialized = true := by rw [here.1]; rfl
    rw [ensured_init_guarded body (by simp [inited])]
    refine ⟨.ready config, .same _, ?_, .inr ⟨config, rfl, inited⟩⟩
    rw [inited]
    exact log_triple (E := fun _ _ => True) (.grant config) rfl w here

/-- How the phase that a hook works in treats the name that it has read. -/
def Renamed (p : Phase) (rt : Runtime) (call : ApiCall) (name name' : WString) : Prop :=
  (Closed p ∧ name' = name) ∨ ∃ config, p = .ready config ∧ rewriteName rt config call name = .ok name'

theorem rewrite_triple {p q : Phase} (later : Later p q) {rt : Runtime} {call : ApiCall} {name : WString} {inited : Bool}
    (answers : Answers q inited) :
    Triple (At q) (rewrite rt (inited && HasName call) name) (fun name' w => At q w ∧ Renamed q rt call name name')
      (fun _ => After p) := by
  rcases answers with ⟨closed, rfl⟩ | ⟨config, rfl, rfl⟩
  · exact triple_pure (fun w here => ⟨here, .inl ⟨closed, rfl⟩⟩)
  · by_cases named : HasName call
    · intro w here
      have installed : w.globals.config = some config := by rw [here.1]; rfl
      have logged := log_triple (E := fun _ _ => True) (.deref config) rfl w here
      have transformed : rewrite rt (true && HasName call) name w = transform rt name w := by
        rw [named]
        rfl
      rw [transformed, transform_apply rt name installed]
      refine triple_fromExcept (P := At (.ready config)) ?_ ?_ _ logged
      · exact fun name' changed w' ready => ⟨ready, .inr ⟨config, rfl, by rw [rewriteName, if_pos named]; exact changed⟩⟩
      · exact fun e _ w' ready => ⟨.ready config, later, ready⟩
    · have skipped : rewrite rt (true && HasName call) name = pure name := by simp [rewrite, named]
      rw [skipped]
      exact triple_pure (fun w here => ⟨here, .inr ⟨config, rfl, by rw [rewriteName, if_neg named]⟩⟩)

/-- The real call that a hook makes in a phase. -/
def Forwards (p : Phase) (rt : Runtime) (call real : ApiCall) : Prop :=
  (Closed p ∧ forwarded rt none call = .ok real) ∨ ∃ config, p = .ready config ∧ forwarded rt (some config) call = .ok real

theorem forwards_of_renamed {p : Phase} {rt : Runtime} {call real : ApiCall} {name name' : WString}
    (read : readName rt call = .ok name) (renamed : Renamed p rt call name name')
    (handed : handOver rt call name' = .ok real) : Forwards p rt call real := by
  rcases renamed with ⟨closed, rfl⟩ | ⟨config, phase, changed⟩
  · refine .inl ⟨closed, ?_⟩
    simp only [forwarded, read, bind, Except.bind, pure, Except.pure, handed]
  · refine .inr ⟨config, phase, ?_⟩
    simp only [forwarded, read, bind, Except.bind, changed, handed]

theorem prepare_triple {body : Dll Config} {p : Phase} (stable : Stable p)
    (bodyKeeps : Triple (At .running) body (fun _ => At .running) (fun _ => At .running)) (rt : Runtime) (call : ApiCall) :
    Triple (At p) (prepare rt body call) (fun real w => ∃ q, Later p q ∧ At q w ∧ Forwards q rt call real)
      (fun _ => After p) := by
  unfold prepare
  refine triple_bind (Q := fun name w => At p w ∧ readName rt call = .ok name)
    (triple_fromExcept (fun name read w here => ⟨here, read⟩) (fun _ _ w here => ⟨p, .same p, here⟩)) ?_
  rintro name w ⟨here, read⟩
  refine triple_bind (ensured_init_triple stable bodyKeeps) ?_ w here
  rintro inited w' ⟨q, later, there, answers⟩
  refine triple_bind (rewrite_triple later answers) ?_ w' there
  rintro name' w'' ⟨there', renamed⟩
  refine triple_fromExcept (P := At q) ?_ (fun _ _ _ at_ => ⟨q, later, at_⟩) w'' there'
  exact fun real handed w₃ at_ => ⟨q, later, at_, forwards_of_renamed read renamed handed⟩

theorem real_step {p : Phase} {rt : Runtime} {call real : ApiCall} (forwards : Forwards p rt call real) :
    Phase.Step p ⟨.real rt call real, p.globals⟩ p := by
  rcases forwards with ⟨closed, unchanged⟩ | ⟨config, rfl, changed⟩
  · exact .bare closed unchanged
  · exact .rewritten config changed

/-- The initialisation body stays in its phase, also where it throws, if the calls
    made from inside it do. -/
theorem body_triple {calls : CallSeq} (loaded : Except Stop Config)
    (runs : Triple (At .running) (run calls) (fun _ => After .running) (fun _ => At .running)) :
    Triple (At .running) (run calls >>= fun _ => fromExcept loaded) (fun _ => At .running) (fun _ => At .running) := by
  refine triple_bind runs ?_
  rintro _ w ⟨q, later, here⟩
  obtain rfl := later_closed later (.inl rfl)
  exact triple_fromExcept (P := At .running) (fun _ _ _ at_ => at_) (fun _ _ _ at_ => at_) w here

/-- By induction over the trees: a run leaves its phase behind or changes it as
    one hooked call may. -/
theorem run_triple (calls : CallSeq) : ∀ (p : Phase) (E : Stop → World → Prop), Stable p →
    Triple (At p) (run calls) (fun _ => After p) E := by
  induction calls with
  | done => exact fun p E _ => triple_pure (fun w here => ⟨p, .same p, here⟩)
  | call rt call init loaded inner returned next ihInit ihInner ihNext =>
    intro p E stable
    have bodyKeeps : Triple (At .running) (run init >>= fun _ => fromExcept loaded) (fun _ => At .running)
        (fun _ => At .running) := body_triple loaded (ihInit .running _ (.inr (.inl (.inl rfl))))
    have wholeCall : Triple (At p) (hooked rt (run init >>= fun _ => fromExcept loaded)
        (fun real => log (.real rt call real) >>= fun _ => run inner >>= fun _ => fromExcept returned) call)
        (fun _ => After p) (fun _ => After p) := by
      rw [hooked_eq]
      refine triple_bind (prepare_triple stable bodyKeeps rt call) ?_
      rintro real w ⟨q, later, here, forwards⟩
      refine triple_bind (log_triple (real_step forwards) rfl) ?_ w here
      intro _
      refine triple_bind (ihInner q _ (later_stable later stable)) ?_
      rintro _ w' after
      have settled := after_trans later after
      exact triple_fromExcept (P := After p) (fun _ _ _ at_ => at_) (fun _ _ _ at_ => at_) w' settled
    refine triple_bind (triple_attempt wholeCall) ?_
    rintro _ w ⟨q, later, here⟩
    exact triple_weaken (ihNext q E (later_stable later stable)) (fun _ at_ => at_)
      (fun _ _ after => after_trans later after) (fun _ _ thrown => thrown) w here

/-- The world after a run is in a stable phase, and its trace is a run of the phases. -/
theorem run_phase (calls : CallSeq) : ∃ p, Stable p ∧ At p (final (run calls) World.initial) := by
  have here : At .fresh World.initial := ⟨rfl, .refl _⟩
  have stable : Stable .fresh := .inl rfl
  obtain ⟨p, later, after⟩ := final_of_triple (run_triple calls .fresh (fun _ => After .fresh) stable) here
  exact ⟨p, later_stable later stable, after⟩

/-! ## What a trace of the phases looks like -/

def isEnter : Event → Bool
  | .enter => true
  | _ => false

def isFail : Event → Bool
  | .fail _ _ => true
  | _ => false

def isSettled : Event → Bool
  | .settled => true
  | _ => false

def publishes : Event → Option Config
  | .publish config => some config
  | _ => none

/-- How often the initialisation body was entered. -/
def entries (trace : List Record) : Nat := trace.countP (fun r => isEnter r.event)

/-- What was assigned to `config`, in order. -/
def publications (trace : List Record) : List Config := trace.filterMap (fun r => publishes r.event)

/-- The initialisation body ended in an exception. -/
def HasFailed (trace : List Record) : Prop := ∃ r ∈ trace, isFail r.event

/-- The initialisation ended well: its last flag assignment is done. -/
def HasSettled (trace : List Record) : Prop := ∃ r ∈ trace, isSettled r.event

/-- The trace that leads to each phase. -/
def History (trace : List Record) : Phase → Prop
  | .fresh => entries trace = 0 ∧ publications trace = [] ∧ ¬ HasFailed trace ∧ ¬ HasSettled trace
  | .running => entries trace = 1 ∧ publications trace = [] ∧ ¬ HasFailed trace ∧ ¬ HasSettled trace
  | .failed => entries trace = 1 ∧ publications trace = [] ∧ HasFailed trace ∧ ¬ HasSettled trace
  | .published config => entries trace = 1 ∧ publications trace = [config] ∧ ¬ HasFailed trace ∧ ¬ HasSettled trace
  | .marked config => entries trace = 1 ∧ publications trace = [config] ∧ ¬ HasFailed trace ∧ ¬ HasSettled trace
  | .ready config => entries trace = 1 ∧ publications trace = [config] ∧ ¬ HasFailed trace ∧ HasSettled trace

theorem entries_append (trace : List Record) (r : Record) :
    entries (trace ++ [r]) = entries trace + if isEnter r.event then 1 else 0 := by
  simp [entries, List.countP_append, List.countP_cons]

theorem publications_append (trace : List Record) (r : Record) :
    publications (trace ++ [r]) = publications trace ++ (publishes r.event).toList := by
  cases published : publishes r.event <;> simp [publications, List.filterMap_append, published]

theorem hasFailed_append (trace : List Record) (r : Record) :
    HasFailed (trace ++ [r]) ↔ HasFailed trace ∨ isFail r.event := by
  simp [HasFailed, or_and_right, exists_or]

theorem hasSettled_append (trace : List Record) (r : Record) :
    HasSettled (trace ++ [r]) ↔ HasSettled trace ∨ isSettled r.event := by
  simp [HasSettled, or_and_right, exists_or]

/-- An event that is none of those that count leaves every phase's history as it is. -/
theorem history_quiet {trace : List Record} {p : Phase} {r : Record} (known : History trace p)
    (noEnter : isEnter r.event = false) (noPublish : publishes r.event = none) (noFail : isFail r.event = false)
    (notSettled : isSettled r.event = false) : History (trace ++ [r]) p := by
  cases p with
  | _ =>
    obtain ⟨entered, published, failed, settled⟩ := known
    simp [History, entries_append, publications_append, hasFailed_append, hasSettled_append, noEnter, noPublish, noFail,
      notSettled, entered, published, failed, settled]

theorem history_step (trace : List Record) (p : Phase) (r : Record) (q : Phase) (known : History trace p)
    (step : Phase.Step p r q) : History (trace ++ [r]) q := by
  cases step with
  | refuse closed => exact history_quiet known rfl rfl rfl rfl
  | bare closed unchanged => exact history_quiet known rfl rfl rfl rfl
  | _ =>
    obtain ⟨entered, published, failed, settled⟩ := known
    simp [History, entries_append, publications_append, hasFailed_append, hasSettled_append, isEnter, isFail, isSettled,
      publishes, entered, published, failed, settled]

theorem history_of_run {trace : List Record} {p : Phase} (run : Run Phase.Step .fresh trace p) : History trace p := by
  have initial : History [] .fresh := ⟨rfl, rfl, by simp [HasFailed], by simp [HasSettled]⟩
  exact run_history initial history_step run

theorem step_globals {p q : Phase} {r : Record} (step : Phase.Step p r q) : r.globals = q.globals := by
  cases step <;> rfl

/-- What may be seen of hooked calls while names are not to be rewritten. -/
def PassesThrough (r : Record) : Prop :=
  match r.event with
  | .answer inited => inited = false
  | .deref _ => False
  | .real rt call real => forwarded rt none call = .ok real
  | _ => True

/-- What may be seen of hooked calls once a configuration is in force. -/
def RewritesWith (config : Config) (r : Record) : Prop :=
  r.globals.initialized = true ∧ r.globals.config = some config ∧
    match r.event with
    | .answer inited => inited = true
    | .deref installed => installed = some config
    | .real rt call real => forwarded rt (some config) call = .ok real
    | _ => True

theorem closed_step {p q : Phase} {r : Record} (closed : Closed p) (step : Phase.Step p r q) : PassesThrough r := by
  rcases closed with rfl | rfl
  · cases step with
    | bare _ unchanged => exact unchanged
    | refuse => rfl
    | fail | publish => trivial
  · cases step with
    | bare _ unchanged => exact unchanged
    | refuse => rfl

/-- A ready phase is never left. -/
theorem ready_run {config : Config} {records : List Record} {q : Phase}
    (run : Run Phase.Step (.ready config) records q) :
    q = .ready config ∧ ∀ r ∈ records, RewritesWith config r := by
  refine run_history (I := fun records q => q = Phase.ready config ∧ ∀ r ∈ records, RewritesWith config r)
    ⟨rfl, by simp⟩ ?_ run
  rintro records _ r q ⟨rfl, all⟩ step
  have next : q = .ready config ∧ RewritesWith config r := by
    cases step with
    | refuse closed => rcases closed with impossible | impossible <;> cases impossible
    | bare closed => rcases closed with impossible | impossible <;> cases impossible
    | grant => exact ⟨rfl, rfl, rfl, rfl⟩
    | deref => exact ⟨rfl, rfl, rfl, rfl⟩
    | rewritten _ changed => exact ⟨rfl, rfl, rfl, changed⟩
  refine ⟨next.1, fun r' member => ?_⟩
  rcases List.mem_append.mp member with earlier | last
  · exact all r' earlier
  · rw [List.mem_singleton.mp last]
    exact next.2

/-- The phase in which the body was entered and neither ended well nor threw, or
    in which it has thrown. -/
theorem closed_of_history {trace : List Record} {p : Phase} (known : History trace p)
    (unfinished : (entries trace = 1 ∧ publications trace = [] ∧ ¬ HasFailed trace) ∨ HasFailed trace) : Closed p := by
  cases p with
  | running => exact .inl rfl
  | failed => exact .inr rfl
  | _ =>
    obtain ⟨entered, published, failed, _⟩ := known
    rcases unfinished with ⟨once, none, _⟩ | thrown
    · simp_all
    · exact absurd thrown failed

theorem ready_of_history {trace : List Record} {p : Phase} (known : History trace p) (settled : HasSettled trace) :
    ∃ config, p = .ready config ∧ publications trace = [config] := by
  cases p with
  | ready config => exact ⟨config, rfl, known.2.1⟩
  | _ => exact absurd settled known.2.2.2

theorem entries_of_history {trace : List Record} {p : Phase} (known : History trace p) : entries trace ≤ 1 := by
  cases p <;> simp [known.1]

/-- Every state with `initialized` set has a configuration, the published one. -/
theorem initialized_of_history {trace : List Record} {p : Phase} (known : History trace p)
    (inited : p.globals.initialized = true) : ∃ config, p.globals.config = some config ∧ publications trace = [config] := by
  cases p with
  | marked config => exact ⟨config, rfl, known.2.1⟩
  | ready config => exact ⟨config, rfl, known.2.1⟩
  | _ => simp [Phase.globals] at inited

/-- What the trace of a run shows: the body is entered at most once; `initialized`
    is set and `config` dereferenced only with the one published configuration; what
    happens inside the body or after its failure passes through; what happens after
    a successful initialisation is rewritten with that configuration, for good. -/
theorem trace_follows_phases (calls : CallSeq) :
    entries (trace calls) ≤ 1 ∧
    (∀ before r after, trace calls = before ++ r :: after →
      (r.globals.initialized = true →
        ∃ config, r.globals.config = some config ∧ publications (before ++ [r]) = [config]) ∧
      (∀ installed, r.event = .deref installed →
        ∃ config, installed = some config ∧ publications before = [config])) ∧
    (∀ before r after, trace calls = before ++ r :: after →
      ((entries before = 1 ∧ publications before = [] ∧ ¬ HasFailed before) ∨ HasFailed before) → PassesThrough r) ∧
    (∀ before after, trace calls = before ++ after → HasSettled before →
      ∃ config, publications before = [config] ∧ ∀ r ∈ after, RewritesWith config r) := by
  obtain ⟨p, _, _, run⟩ := run_phase calls
  have whole : Run Phase.Step .fresh (trace calls) p := run
  refine ⟨entries_of_history (history_of_run whole), ?_, ?_, ?_⟩
  · intro before r after cutting
    obtain ⟨m, n, left, step, _⟩ := run_at (cutting ▸ whole)
    have known := history_of_run left
    refine ⟨fun inited => ?_, fun installed deref => ?_⟩
    · rw [step_globals step] at inited ⊢
      exact initialized_of_history (history_step _ _ _ _ known step) inited
    · cases step with
      | deref config => exact ⟨config, (Event.deref.inj deref).symm, known.2.1⟩
      | _ => cases deref
  · intro before r after cutting unfinished
    obtain ⟨m, n, left, step, _⟩ := run_at (cutting ▸ whole)
    exact closed_step (closed_of_history (history_of_run left) unfinished) step
  · intro before after cutting settled
    obtain ⟨m, left, right⟩ := run_split (cutting ▸ whole)
    obtain ⟨config, rfl, published⟩ := ready_of_history (history_of_run left) settled
    exact ⟨config, published, (ready_run right).2⟩

end Sysintercept.Calls
