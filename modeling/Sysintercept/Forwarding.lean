import Sysintercept.Calls

/-!
# What a hooked call forwards

Each call of a hook either calls its real function once, as its last step, or
ends in the exception of the first of its own steps that fails. Which of the two
happens, and with which real call, is a function of the flags and of the outcomes
of those steps.
-/
namespace Sysintercept.Forwarding
open Sysintercept.Units Sysintercept.Rules Sysintercept.Exceptions Sysintercept.Hooks Sysintercept.Automaton
open Sysintercept.Calls

/-- An initialisation body that makes hooked calls and then ends as given. -/
def initBody (init : CallSeq) (loaded : Except Stop Config) : Dll Config := run init >>= fun _ => fromExcept loaded

/-- The worlds in which a hooked call can begin: in the program after any calls,
    inside the initialisation body, and inside a real function. -/
inductive Reached : World → Prop
  | initial : Reached World.initial
  | after {w : World} (rt : Runtime) (call : ApiCall) (init : CallSeq) (loaded : Except Stop Config) (inner : CallSeq)
      (returned : Except Stop Value) (reached : Reached w) :
      Reached (final (run (.call rt call init loaded inner returned .done)) w)
  | inBody {w : World} (reached : Reached w) (unguarded : (w.globals.initializing || w.globals.initialized) = false) :
      Reached ⟨{ w.globals with initializing := true },
        w.trace ++ [⟨.enter, { w.globals with initializing := true }⟩]⟩
  | inReal {w w' : World} {rt : Runtime} {call real : ApiCall} {init : CallSeq} {loaded : Except Stop Config}
      (reached : Reached w) (prepared : prepare rt (initBody init loaded) call w = .ok real w') :
      Reached ⟨w'.globals, w'.trace ++ [⟨.real rt call real, w'.globals⟩]⟩

/-- The computation calls the real function once, last, and returns what it returns. -/
def ForwardsOnce (hook : (ApiCall → Dll Value) → Dll Value) (w : World) (call : ApiCall) : Prop :=
  ∃ w', ∀ real, hook real w = real call w'

/-- The computation throws, and never calls the real function. -/
def Escapes (hook : (ApiCall → Dll Value) → Dll Value) (w : World) (e : Stop) : Prop :=
  ∃ w', ∀ real, hook real w = .error e w'

/-- The real call that is due, or the failure of the first step that fails: the
    name cannot be read or converted, this call's own initialisation throws, a
    rule throws, or the result cannot be converted. -/
def due (w : World) (rt : Runtime) (call : ApiCall) (loaded : Except Stop Config) : Except Stop ApiCall :=
  if w.globals.initializing || w.globals.initialized then
    forwarded rt (if w.globals.initialized then w.globals.config else none) call
  else do
    let _ ← readName rt call
    let config ← loaded
    forwarded rt (some config) call

theorem body_keeps (init : CallSeq) (loaded : Except Stop Config) :
    Triple (At .running) (initBody init loaded) (fun _ => At .running) (fun _ => At .running) :=
  body_triple loaded (run_triple init .running _ (.inr (.inl (.inl rfl))))

theorem reached_phase {w : World} (reached : Reached w) : ∃ p, Stable p ∧ At p w := by
  induction reached with
  | initial => exact ⟨.fresh, .inl rfl, rfl, .refl _⟩
  | after rt call init loaded inner returned _ ih =>
    obtain ⟨p, stable, here⟩ := ih
    obtain ⟨q, later, there⟩ := final_of_triple (run_triple (.call rt call init loaded inner returned .done) p
      (fun _ => After p) stable) here
    exact ⟨q, later_stable later stable, there⟩
  | @inBody w _ unguarded ih =>
    obtain ⟨p, stable, here⟩ := ih
    have fresh : p = .fresh := by
      rw [here.1] at unguarded
      rcases stable with rfl | (rfl | rfl) | ⟨config, rfl⟩
      · rfl
      all_goals simp [Phase.globals] at unguarded
    subst fresh
    refine ⟨.running, .inr (.inl (.inl rfl)), ?_⟩
    exact assign_triple (E := fun _ _ => True) (f := fun g => { g with initializing := true }) rfl .enter w here
  | @inReal w w' rt call real init loaded _ prepared ih =>
    obtain ⟨p, stable, here⟩ := ih
    have outcome := prepare_triple stable (body_keeps init loaded) rt call w here
    rw [prepared] at outcome
    obtain ⟨q, later, there, forwards⟩ := outcome
    exact ⟨q, later_stable later stable, log_triple (E := fun _ _ => True) (real_step forwards) rfl w' there⟩

/-- A run itself never throws: every exception ends in the caller of a hook. -/
theorem run_returns (calls : CallSeq) (w : World) : ∃ w', run calls w = .ok ⟨⟩ w' := by
  induction calls generalizing w with
  | done => exact ⟨w, rfl⟩
  | call rt call init loaded inner returned next _ _ ihNext =>
    show ∃ w', (attempt _ >>= fun _ => run next) w = .ok ⟨⟩ w'
    rw [bind_apply]
    exact ihNext _

theorem initBody_apply (init : CallSeq) (loaded : Except Stop Config) (w : World) :
    ∃ w', initBody init loaded w = fromExcept loaded w' := by
  obtain ⟨w', ran⟩ := run_returns init w
  refine ⟨w', ?_⟩
  unfold initBody
  rw [bind_apply, ran]

/-- A stable phase holds a configuration where `initialized` is set. -/
theorem installed_of_stable {p : Phase} {w : World} (stable : Stable p) (here : At p w)
    (inited : w.globals.initialized = true) : w.globals.config.isSome := by
  rw [here.1] at inited ⊢
  rcases stable with rfl | (rfl | rfl) | ⟨config, rfl⟩
  · simp [Phase.globals] at inited
  · simp [Phase.globals] at inited
  · simp [Phase.globals] at inited
  · rfl

/-- Up to the real call, a hook ends as its own steps say. -/
theorem prepare_outcome {w : World} (reached : Reached w) (rt : Runtime) (call : ApiCall) (init : CallSeq)
    (loaded : Except Stop Config) :
    outcome (prepare rt (initBody init loaded) call) w = due w rt call loaded := by
  obtain ⟨p, stable, here⟩ := reached_phase reached
  unfold prepare due
  cases read : readName rt call with
  | error e =>
    rw [outcome_bind_error (outcome_fromExcept _ w)]
    split
    · simp only [forwarded, read, bind, Except.bind]
    · rfl
  | ok name =>
    rw [fromExcept_ok, pure_bind]
    cases guard : (w.globals.initializing || w.globals.initialized) with
    | true =>
      rw [outcome_bind, ensured_init_guarded _ guard]
      exact rewrite_handOver_outcome read (installed_of_stable stable here)
    | false =>
      obtain ⟨w', body⟩ := initBody_apply init loaded
        ⟨{ w.globals with initializing := true }, w.trace ++ [⟨.enter, { w.globals with initializing := true }⟩]⟩
      cases loaded with
      | error e =>
        have thrown : outcome (ensured_init (initBody init (.error e))) w = .error e := by
          unfold outcome
          rw [ensured_init_unguarded _ guard]
          exact initialise_throws _ body
        rw [outcome_bind_error thrown]
        rfl
      | ok config =>
        obtain ⟨trace, entered⟩ := initialise_returns _ body
        rw [outcome_bind, ensured_init_unguarded _ guard, entered]
        exact rewrite_handOver_outcome read (fun _ => rfl)

theorem hook_forwards {rt : Runtime} {body : Dll Config} {call real : ApiCall} {w : World}
    (prepared : outcome (prepare rt body call) w = .ok real) :
    ForwardsOnce (fun real => hooked rt body real call) w real := by
  unfold outcome at prepared
  cases ended : prepare rt body call w with
  | error e w' => simp [ended] at prepared
  | ok real' w' =>
    have same : real' = real := by simpa [ended] using prepared
    refine ⟨w', fun realFunction => ?_⟩
    show hooked rt body realFunction call w = realFunction real w'
    rw [hooked_eq, bind_apply, ended, same]

theorem hook_escapes {rt : Runtime} {body : Dll Config} {call : ApiCall} {w : World} {e : Stop}
    (prepared : outcome (prepare rt body call) w = .error e) : Escapes (fun real => hooked rt body real call) w e := by
  unfold outcome at prepared
  cases ended : prepare rt body call w with
  | ok real w' => simp [ended] at prepared
  | error e' w' =>
    have same : e' = e := by simpa [ended] using prepared
    refine ⟨w', fun realFunction => ?_⟩
    show hooked rt body realFunction call w = .error e w'
    rw [hooked_eq, bind_apply, ended, same]

/-- A computation that forwards a call does not also escape, and forwards no other call. -/
theorem forwardsOnce_unique {hook : (ApiCall → Dll Value) → Dll Value} {w : World} {call call' : ApiCall}
    (first : ForwardsOnce hook w call) (second : ForwardsOnce hook w call') : call = call' := by
  obtain ⟨w₁, one⟩ := first
  obtain ⟨w₂, two⟩ := second
  by_cases same : call = call'
  · exact same
  · -- A real function that tells the two calls apart.
    have apart := (one (fun c => if c = call then pure 0 else pure 1)).symm.trans (two _)
    rw [if_pos rfl, if_neg (Ne.symm same)] at apart
    cases apart

theorem forwardsOnce_not_escapes {hook : (ApiCall → Dll Value) → Dll Value} {w : World} {call : ApiCall} {e : Stop}
    (forwards : ForwardsOnce hook w call) : ¬ Escapes hook w e := by
  rintro ⟨w₂, throws⟩
  obtain ⟨w₁, once⟩ := forwards
  have impossible := (once (fun _ => pure 0)).symm.trans (throws _)
  cases impossible

theorem escapes_unique {hook : (ApiCall → Dll Value) → Dll Value} {w : World} {e e' : Stop}
    (first : Escapes hook w e) (second : Escapes hook w e') : e = e' := by
  obtain ⟨w₁, one⟩ := first
  obtain ⟨w₂, two⟩ := second
  have same := (one (fun _ => pure 0)).symm.trans (two _)
  cases same
  rfl

theorem forwardsOnce_iff {w : World} (reached : Reached w) (rt : Runtime) (call : ApiCall) (init : CallSeq)
    (loaded : Except Stop Config) (real : ApiCall) :
    ForwardsOnce (fun real => hooked rt (initBody init loaded) real call) w real ↔ due w rt call loaded = .ok real := by
  have ends := prepare_outcome reached rt call init loaded
  constructor
  · intro forwards
    cases expected : due w rt call loaded with
    | ok real' => rw [forwardsOnce_unique forwards (hook_forwards (ends.trans expected))]
    | error e => exact absurd (hook_escapes (ends.trans expected)) (forwardsOnce_not_escapes forwards)
  · intro expected
    exact hook_forwards (ends.trans expected)

theorem escapes_iff {w : World} (reached : Reached w) (rt : Runtime) (call : ApiCall) (init : CallSeq)
    (loaded : Except Stop Config) (e : Stop) :
    Escapes (fun real => hooked rt (initBody init loaded) real call) w e ↔ due w rt call loaded = .error e := by
  have ends := prepare_outcome reached rt call init loaded
  constructor
  · intro escapes
    cases expected : due w rt call loaded with
    | ok real => exact absurd escapes (forwardsOnce_not_escapes (hook_forwards (ends.trans expected)))
    | error e' => rw [escapes_unique escapes (hook_escapes (ends.trans expected))]
  · intro expected
    exact hook_escapes (ends.trans expected)

/-- The real call is of the same function, with the caller's other parameters. -/
def Corresponds : ApiCall → ApiCall → Prop
  | .ExitProcess uExitCode, real => real = .ExitProcess uExitCode
  | .OpenFile _ lpReOpenBuff uStyle, real => ∃ buffer, real = .OpenFile (some buffer) lpReOpenBuff uStyle
  | .CreateFileA _ args, real => ∃ buffer, real = .CreateFileA (some buffer) args
  | .CreateFileW _ args, real => ∃ buffer, real = .CreateFileW (some buffer) args
  | .ReadFile hFile lpBuffer n lpRead lpOverlapped, real => real = .ReadFile hFile lpBuffer n lpRead lpOverlapped

theorem handOver_corresponds {rt : Runtime} {call real : ApiCall} {name : WString}
    (handed : handOver rt call name = .ok real) : Corresponds call real := by
  cases call with
  | OpenFile lpFileName lpReOpenBuff uStyle =>
    cases converted : rt.from_utf name with
    | error e => simp [handOver, converted, Except.map] at handed
    | ok b =>
      simp only [handOver, converted, Except.map, Except.ok.injEq] at handed
      exact ⟨_, handed.symm⟩
  | CreateFileA | CreateFileW => exact ⟨_, (Except.ok.inj handed).symm⟩
  | ExitProcess | ReadFile => exact (Except.ok.inj handed).symm

theorem forwarded_corresponds {rt : Runtime} {config : Option Config} {call real : ApiCall}
    (forwards : forwarded rt config call = .ok real) : Corresponds call real := by
  unfold forwarded at forwards
  cases read : readName rt call with
  | error e => simp [read, bind, Except.bind] at forwards
  | ok name =>
    cases config with
    | none => exact handOver_corresponds (by simpa [read, bind, Except.bind, pure, Except.pure] using forwards)
    | some config =>
      cases changed : rewriteName rt config call name with
      | error e => simp [read, changed, bind, Except.bind] at forwards
      | ok name' => exact handOver_corresponds (by simpa [read, changed, bind, Except.bind] using forwards)

theorem due_corresponds {w : World} {rt : Runtime} {call real : ApiCall} {loaded : Except Stop Config}
    (expected : due w rt call loaded = .ok real) : Corresponds call real := by
  unfold due at expected
  split at expected
  · exact forwarded_corresponds expected
  · cases read : readName rt call with
    | error e => simp [read, bind, Except.bind] at expected
    | ok name =>
      cases loaded with
      | error e => simp [read, bind, Except.bind] at expected
      | ok config => exact forwarded_corresponds (by simpa [read, bind, Except.bind] using expected)

/-- Wherever a hooked call begins, it either forwards the call that is due to the
    corresponding real function, once, and returns what that returns, or makes no
    real call and passes the failure of one of its own steps to its caller. -/
theorem forwards_once_or_escapes {w : World} (reached : Reached w) (rt : Runtime) (call : ApiCall) (init : CallSeq)
    (loaded : Except Stop Config) :
    (∀ real, ForwardsOnce (fun real => hooked rt (initBody init loaded) real call) w real ↔
      due w rt call loaded = .ok real) ∧
    (∀ e, Escapes (fun real => hooked rt (initBody init loaded) real call) w e ↔ due w rt call loaded = .error e) ∧
    (∀ real, due w rt call loaded = .ok real → Corresponds call real) :=
  ⟨forwardsOnce_iff reached rt call init loaded, escapes_iff reached rt call init loaded, fun _ => due_corresponds⟩

/-- On a first call without a share the program gets the exception of the
    initialisation instead of its call. -/
theorem missing_share_escapes :
    Escapes (fun real => hooked (latin1 literalBoost) (initBody .done (.error (.std "no share"))) real (.ExitProcess 0))
      World.initial (.std "no share") :=
  ((forwards_once_or_escapes .initial (latin1 literalBoost) (.ExitProcess 0) .done (.error (.std "no share"))).2.1 _).mpr
    rfl

/-- So there is a call that is not forwarded at all, and an exception that reaches the program. -/
theorem first_call_lost :
    (∀ real, ¬ ForwardsOnce (fun real => hooked (latin1 literalBoost) (initBody .done (.error (.std "no share"))) real
      (.ExitProcess 0)) World.initial real) ∧
    ∃ e, Escapes (fun real => hooked (latin1 literalBoost) (initBody .done (.error (.std "no share"))) real
      (.ExitProcess 0)) World.initial e := by
  have escapes := (escapes_iff .initial (latin1 literalBoost) (.ExitProcess 0) .done (.error (.std "no share")) _).mpr rfl
  exact ⟨fun _ forwards => forwardsOnce_not_escapes forwards escapes, _, escapes⟩

/-! ## The trace so far and the real call -/

/-- The world after any further calls is one in which a call can begin. -/
theorem reached_run (calls : CallSeq) {w : World} (reached : Reached w) : Reached (final (run calls) w) := by
  induction calls generalizing w with
  | done => exact reached
  | call rt call init loaded inner returned next _ _ ihNext =>
    have after := Reached.after rt call init loaded inner returned reached
    have split : final (run (.call rt call init loaded inner returned next)) w =
        final (run next) (final (run (.call rt call init loaded inner returned .done)) w) := rfl
    rw [split]
    exact ihNext after

/-- Inside the body and after its failure, a call is due as it came. -/
theorem due_unfinished {w : World} (reached : Reached w)
    (unfinished : (entries w.trace = 1 ∧ publications w.trace = [] ∧ ¬ HasFailed w.trace) ∨ HasFailed w.trace)
    (rt : Runtime) (call : ApiCall) (loaded : Except Stop Config) : due w rt call loaded = forwarded rt none call := by
  obtain ⟨p, _, encoded, run⟩ := reached_phase reached
  unfold due
  rw [encoded]
  rcases closed_of_history (history_of_run run) unfinished with rfl | rfl
  · rfl
  · rfl

/-- After a successful initialisation, a call is due with the published configuration. -/
theorem due_settled {w : World} (reached : Reached w) (settled : HasSettled w.trace) :
    ∃ config, publications w.trace = [config] ∧
      ∀ rt call loaded, due w rt call loaded = forwarded rt (some config) call := by
  obtain ⟨p, _, encoded, run⟩ := reached_phase reached
  obtain ⟨config, rfl, published⟩ := ready_of_history (history_of_run run) settled
  refine ⟨config, published, fun rt call loaded => ?_⟩
  unfold due
  rw [encoded]
  rfl

/-- In every run, whatever calls nest in the initialisation and wherever it
    throws: the body is entered at most once; `initialized` is set and `config`
    dereferenced only with the one published configuration; calls made inside the
    body or after its failure pass through; calls after a successful
    initialisation are rewritten with that configuration, for good. A call that
    begins then makes the real call that this says, and no other. -/
theorem lazy_initialisation_correct :
    (∀ calls : CallSeq,
      entries (trace calls) ≤ 1 ∧
      (∀ before r after, trace calls = before ++ r :: after →
        (r.globals.initialized = true →
          ∃ config, r.globals.config = some config ∧ publications (before ++ [r]) = [config]) ∧
        (∀ installed, r.event = .deref installed →
          ∃ config, installed = some config ∧ publications before = [config])) ∧
      (∀ before r after, trace calls = before ++ r :: after →
        ((entries before = 1 ∧ publications before = [] ∧ ¬ HasFailed before) ∨ HasFailed before) → PassesThrough r) ∧
      (∀ before after, trace calls = before ++ after → HasSettled before →
        ∃ config, publications before = [config] ∧ ∀ r ∈ after, RewritesWith config r)) ∧
    (∀ w, Reached w → ∀ rt call init loaded,
      (((entries w.trace = 1 ∧ publications w.trace = [] ∧ ¬ HasFailed w.trace) ∨ HasFailed w.trace) →
        ∀ real, ForwardsOnce (fun real => hooked rt (initBody init loaded) real call) w real ↔
          forwarded rt none call = .ok real) ∧
      (HasSettled w.trace → ∃ config, publications w.trace = [config] ∧
        ∀ real, ForwardsOnce (fun real => hooked rt (initBody init loaded) real call) w real ↔
          forwarded rt (some config) call = .ok real)) := by
  refine ⟨trace_follows_phases, fun w reached rt call init loaded => ⟨fun unfinished real => ?_, fun settled => ?_⟩⟩
  · rw [forwardsOnce_iff reached, due_unfinished reached unfinished]
  · obtain ⟨config, published, expected⟩ := due_settled reached settled
    exact ⟨config, published, fun real => by rw [forwardsOnce_iff reached, expected]⟩

/-- A call of `CreateFileW` with this name. -/
def openName (name : String) : ApiCall := .CreateFileW (some (wide_c_str (wide name))) ⟨0, 0, 0, 0, 0, 0⟩

/-- The program opens a file; the initialisation opens a.txt, whose real function
    reads from it, before it comes to a configuration that rewrites a.txt. -/
def nestedCalls : CallSeq :=
  .call (latin1 literalBoost) (openName "in")
    (.call (latin1 literalBoost) (openName "a.txt") .done (.error .other)
      (.call (latin1 literalBoost) (.ReadFile 3 0 16 0 0) .done (.error .other) .done (.ok 1) .done) (.ok 3) .done)
    (.ok ⟨[ruleOf haskell_rule]⟩) .done (.ok 4) .done

/-- The nested call opened a.txt itself; after the initialisation, a.txt is b.txt. -/
theorem lazy_initialisation_nested :
    HasSettled (trace nestedCalls) ∧
    (∃ before r after, trace nestedCalls = before ++ r :: after ∧
      r.event = .real (latin1 literalBoost) (openName "a.txt") (openName "a.txt") ∧ PassesThrough r) ∧
    ForwardsOnce (fun real => hooked (latin1 literalBoost) (initBody .done (.error .other)) real (openName "a.txt"))
      (final (run nestedCalls) World.initial) (openName "b.txt") := by
  have settled : HasSettled (trace nestedCalls) := by
    have found : (trace nestedCalls).any (fun r => isSettled r.event) = true := rfl
    exact List.any_eq_true.mp found
  have cutting : trace nestedCalls = (trace nestedCalls).take 2 ++
      ⟨.real (latin1 literalBoost) (openName "a.txt") (openName "a.txt"), Phase.running.globals⟩ ::
        (trace nestedCalls).drop 3 := rfl
  have unfailed : ¬ HasFailed ((trace nestedCalls).take 2) := by
    have none : ((trace nestedCalls).take 2).any (fun r => isFail r.event) = false := rfl
    intro failed
    exact absurd (List.any_eq_true.mpr failed) (by rw [none]; exact Bool.false_ne_true)
  refine ⟨settled, ⟨_, _, _, cutting, rfl, ?_⟩, ?_⟩
  · exact (lazy_initialisation_correct.1 nestedCalls).2.2.1 _ _ _ cutting (.inl ⟨rfl, rfl, unfailed⟩)
  · obtain ⟨config, published, forwards⟩ := (lazy_initialisation_correct.2 _ (reached_run nestedCalls .initial)
      (latin1 literalBoost) (openName "a.txt") .done (.error .other)).2 settled
    have same : config = ⟨[ruleOf haskell_rule]⟩ := (List.cons.inj (published : [_] = [config])).1.symm
    subst same
    exact (forwards _).mpr rfl

end Sysintercept.Forwarding
