import Sysintercept.Calls
import Sysintercept.Launches

/-!
# From the launch to the opened file

The configuration of a launch, followed from the files that the launcher names
to the names that its child hands to the system: the share carries the paths,
`load_config` builds the rules, the initialisation publishes them, and the hooks
rewrite with what was published.
-/
namespace Sysintercept.Configured
open Sysintercept.Units Sysintercept.Rules Sysintercept.Exceptions Sysintercept.Hooks Sysintercept.Calls
open Sysintercept.Automaton Sysintercept.Ipc Sysintercept.Launcher Sysintercept.Launches

/-! ## What is published is what was loaded -/

section
variable {P : Config → Prop}

/-- Whatever the initialisation bodies of the calls end with, a configuration that
    they load meets a condition. -/
def Loads (P : Config → Prop) : CallSeq → Prop
  | .done => True
  | .call _ _ init loaded inner _ next =>
    Loads P init ∧ (∀ config, loaded = .ok config → P config) ∧ Loads P inner ∧ Loads P next

/-- Every configuration that was assigned to `config` meets a condition. -/
def Published (P : Config → Prop) (w : World) : Prop := ∀ config ∈ publications w.trace, P config

theorem published_initial : Published P World.initial := by
  intro config member
  simp [publications, World.initial] at member

/-- One more event in the trace; the globals may change with it. -/
theorem published_append {w : World} (before : Published P w) {r : Record} (g : Globals)
    (met : ∀ config, publishes r.event = some config → P config) : Published P ⟨g, w.trace ++ [r]⟩ := by
  intro config member
  simp only [publications_append, List.mem_append, Option.mem_toList] at member
  rcases member with earlier | last
  · exact before config earlier
  · exact met config last

theorem log_published {e : Event} (quiet : publishes e = none) {E : Stop → World → Prop} :
    Triple (Published P) (log e) (fun _ => Published P) E := by
  intro w before
  exact published_append before w.globals (by simp [quiet])

theorem assign_published {f : Globals → Globals} {e : Event} (met : ∀ config, publishes e = some config → P config)
    {E : Stop → World → Prop} : Triple (Published P) (assign f e) (fun _ => Published P) E := by
  intro w before
  exact published_append before (f w.globals) met

theorem initialise_published {body : Dll Config}
    (loads : Triple (Published P) body (fun config w => Published P w ∧ P config) (fun _ => Published P)) :
    Triple (Published P) (initialise body) (fun _ => Published P) (fun _ => Published P) := by
  apply triple_bind (assign_published (by simp [publishes]))
  intro _
  refine triple_bind (triple_rethrow loads fun e => ?_) ?_
  · exact triple_bind (log_published rfl) fun _ => triple_throw fun _ here => here
  · intro config
    refine triple_given fun met => ?_
    have publish : Triple (Published P) (assign (fun g => { g with config := some config }) (.publish config))
        (fun _ => Published P) (fun _ => Published P) := by
      apply assign_published
      intro config' published
      rwa [← Option.some.inj published]
    apply triple_bind publish
    intro _
    apply triple_bind (assign_published (by simp [publishes]))
    intro _
    apply triple_bind (assign_published (by simp [publishes]))
    intro _
    exact triple_bind (log_published rfl) fun _ => triple_pure fun _ here => here

theorem ensured_init_published {body : Dll Config}
    (loads : Triple (Published P) body (fun config w => Published P w ∧ P config) (fun _ => Published P)) :
    Triple (Published P) (ensured_init body) (fun _ => Published P) (fun _ => Published P) := by
  intro w here
  by_cases guarded : (w.globals.initializing || w.globals.initialized) = true
  · rw [ensured_init_guarded body guarded]
    exact published_append here w.globals (by simp [publishes])
  · rw [ensured_init_unguarded body (by simpa using guarded)]
    exact initialise_published loads w here

/-- A NULL `config` faults where it is dereferenced. -/
theorem transform_fault (rt : Runtime) (name : WString) {w : World} (missing : w.globals.config = none) :
    transform rt name w = .error .fault ⟨w.globals, w.trace ++ [⟨.deref none, w.globals⟩]⟩ := by
  obtain ⟨⟨initialized, initializing, config⟩, trace⟩ := w
  obtain rfl : config = none := missing
  rfl

theorem transform_published (rt : Runtime) (name : WString) :
    Triple (Published P) (transform rt name) (fun _ => Published P) (fun _ => Published P) := by
  intro w here
  have seen : Published P ⟨w.globals, w.trace ++ [⟨.deref w.globals.config, w.globals⟩]⟩ :=
    published_append here w.globals (by simp [publishes])
  cases installed : w.globals.config with
  | none =>
    rw [installed] at seen
    rw [transform_fault rt name installed]
    exact seen
  | some config =>
    rw [transform_apply rt name installed]
    rw [installed] at seen
    exact triple_fromExcept (fun _ _ _ kept => kept) (fun _ _ _ kept => kept) _ seen

theorem prepare_published {body : Dll Config}
    (loads : Triple (Published P) body (fun config w => Published P w ∧ P config) (fun _ => Published P)) (rt : Runtime)
    (call : ApiCall) : Triple (Published P) (prepare rt body call) (fun _ => Published P) (fun _ => Published P) := by
  apply triple_bind (Q := fun _ => Published P) (triple_fromExcept (fun _ _ _ kept => kept) (fun _ _ _ kept => kept))
  intro name
  apply triple_bind (ensured_init_published loads)
  intro inited
  refine triple_bind (Q := fun _ => Published P) ?_ fun name' =>
    triple_fromExcept (fun _ _ _ kept => kept) (fun _ _ _ kept => kept)
  unfold rewrite
  by_cases rewritten : (inited && HasName call) = true
  · rw [if_pos rewritten]
    exact transform_published rt name
  · rw [if_neg rewritten]
    exact triple_pure fun _ kept => kept

/-- By induction over the trees, wherever calls nest and whatever throws. -/
theorem run_published {calls : CallSeq} (loads : Loads P calls) :
    Triple (Published P) (run calls) (fun _ => Published P) (fun _ => Published P) := by
  induction calls with
  | done => exact triple_pure fun _ kept => kept
  | call rt call init loaded inner returned next ihInit ihInner ihNext =>
    obtain ⟨inInit, here, inInner, inNext⟩ := loads
    have body : Triple (Published P) (run init >>= fun _ => fromExcept loaded)
        (fun config w => Published P w ∧ P config) (fun _ => Published P) :=
      triple_bind (ihInit inInit) fun _ =>
        triple_fromExcept (fun config is _ kept => ⟨kept, here config is⟩) fun _ _ _ kept => kept
    refine triple_bind (triple_attempt ?_) fun _ => ihNext inNext
    rw [hooked_eq]
    apply triple_bind (prepare_published body rt call)
    intro real
    apply triple_bind (log_published rfl)
    intro _
    apply triple_bind (ihInner inInner)
    intro _
    exact triple_fromExcept (fun _ _ _ kept => kept) fun _ _ _ kept => kept

theorem published_of_loads {calls : CallSeq} (loads : Loads P calls) {config : Config}
    (published : config ∈ publications (trace calls)) : P config :=
  final_of_triple (run_published loads) published_initial config published

end

/-! ## What is in force when a call reaches the system -/

/-- A call that reaches the system goes out unchanged until the initialisation has
    settled, and rewritten with a configuration published by then. -/
theorem real_at {calls : CallSeq} {before after : List Record} {r : Record}
    (cutting : trace calls = before ++ r :: after) {rt : Runtime} {call real : ApiCall}
    (happens : r.event = .real rt call real) :
    (¬ HasSettled before ∧ forwarded rt none call = .ok real) ∨
      (HasSettled before ∧ ∃ config ∈ publications before, forwarded rt (some config) call = .ok real) := by
  obtain ⟨last, _, _, whole⟩ := run_phase calls
  have run : Run Phase.Step .fresh (before ++ r :: after) last := cutting ▸ whole
  obtain ⟨p, q, left, step, _⟩ := run_at run
  have known := history_of_run left
  cases step with
  | bare closed unchanged =>
    cases happens
    refine .inl ⟨?_, unchanged⟩
    rcases closed with rfl | rfl
    · exact known.2.2.2
    · exact known.2.2.2
  | rewritten config changed =>
    cases happens
    exact .inr ⟨known.2.2.2, config, by simp [known.2.1], changed⟩
  | _ => simp at happens

/-! ## Loaded rules -/

/-- Every rule of a configuration that loads has a well-formed expression. -/
theorem wellFormed_of_construct {boost : Boost} {ndebug : Bool} {r : xml.Replacement} {rule : Replacement}
    (built : Replacement.construct boost ndebug r = .ok rule) : WellFormed boost r := by
  unfold Replacement.construct at built
  rw [from_type_total_correct] at built
  cases compiled : boost.compile r.from_.text (syntaxOf r.from_.format) with
  | error e => simp [wregex, compiled, bind, Except.bind] at built
  | ok done => exact compiled

/-- A rule that loads applies as documented wherever it applies at all. -/
theorem apply_documented {boost : Boost} {ndebug : Bool} {r : xml.Replacement} {rule : Replacement}
    (built : Replacement.construct boost ndebug r = .ok rule) {b : Boost} {text text' : WString}
    (applied : rule.apply_to b text = .ok text') :
    r.to_.format ≠ .boost_extended ∧
      b.regex_replace text r.from_.text (syntaxOf r.from_.format) r.to_.text (flagOf r.to_.format) = .ok text' := by
  have supported : r.to_.format ≠ .boost_extended := by
    intro unsupported
    have unset := construct_unsupported boost ndebug unsupported built
    simp [Replacement.apply_to, unset] at applied
  have ruled := construct_supported boost ndebug (wellFormed_of_construct built) supported
  obtain rfl := Except.ok.inj (ruled.symm.trans built)
  exact ⟨supported, applied⟩

/-- So do all of them, one after the other. -/
theorem foldlM_documented {boost : Boost} {ndebug : Bool} {rules : List xml.Replacement} {built : List Replacement}
    (loaded : rules.mapM (Replacement.construct boost ndebug) = .ok built) {b : Boost} {path path' : WString}
    (transformed : built.foldlM (fun retval r => r.apply_to b retval) path = .ok path') :
    (∀ r ∈ rules, r.to_.format ≠ .boost_extended) ∧ reference b rules path = .ok path' := by
  induction rules generalizing built path with
  | nil =>
    obtain rfl := Except.ok.inj loaded
    exact ⟨by simp, transformed⟩
  | cons r rest ih =>
    rw [List.mapM_cons] at loaded
    cases head : Replacement.construct boost ndebug r with
    | error e => simp [head, bind, Except.bind] at loaded
    | ok rule =>
      cases tail : rest.mapM (Replacement.construct boost ndebug) with
      | error e => simp [head, tail, bind, Except.bind] at loaded
      | ok more =>
        simp only [head, tail, bind, Except.bind, pure, Except.pure, Except.ok.injEq] at loaded
        subst loaded
        rw [List.foldlM_cons] at transformed
        cases first : rule.apply_to b path with
        | error e => simp [first, bind, Except.bind] at transformed
        | ok middle =>
          have applied := apply_documented head first
          rw [first] at transformed
          obtain ⟨others, later⟩ := ih tail transformed
          constructor
          · intro r' member
            rcases List.mem_cons.mp member with rfl | among
            · exact applied.1
            · exact others r' among
          · unfold reference at later ⊢
            rw [List.foldlM_cons, applied.2]
            exact later

/-! ## What the configuration of a launch does to names -/

/-- The call that reaches the system where names are rewritten as the rules are documented. -/
def documented (rt : Runtime) (rules : List xml.Replacement) (call : ApiCall) : Except Stop ApiCall := do
  let name ← readName rt call
  let name ← if HasName call then reference rt.boost rules name else pure name
  handOver rt call name

/-- The rules of a configuration that loads are well formed. -/
theorem wellFormed_of_loaded {boost : Boost} {ndebug : Bool} {xml_config : xml.Config} {config : Config}
    (built : Config.construct boost ndebug xml_config = .ok config) :
    ∀ r ∈ xml_config.filesystem.path.replacement, WellFormed boost r := by
  intro r member
  unfold Config.construct at built
  cases loaded : xml_config.filesystem.path.replacement.mapM (Replacement.construct boost ndebug) with
  | error e => simp [loaded, bind, Except.bind] at built
  | ok rules =>
    obtain ⟨rule, _, constructed⟩ := mapM_construct_mem boost ndebug loaded member
    exact wellFormed_of_construct constructed

/-- What a loaded configuration rewrites is rewritten as its rules are documented,
    and a name gets through only where each rule has a branch of its own. -/
theorem documented_of_forwarded {boost : Boost} {ndebug : Bool} {xml_config : xml.Config} {config : Config}
    (built : Config.construct boost ndebug xml_config = .ok config) {rt : Runtime} {call real : ApiCall}
    (goes : forwarded rt (some config) call = .ok real) :
    (HasName call → ∀ r ∈ xml_config.filesystem.path.replacement, r.to_.format ≠ .boost_extended) ∧
      documented rt xml_config.filesystem.path.replacement call = .ok real := by
  unfold Config.construct at built
  cases loaded : xml_config.filesystem.path.replacement.mapM (Replacement.construct boost ndebug) with
  | error e => simp [loaded, bind, Except.bind] at built
  | ok rules =>
    simp only [loaded, bind, Except.bind, pure, Except.pure, Except.ok.injEq] at built
    subst built
    cases read : readName rt call with
    | error e => simp [forwarded, read, bind, Except.bind] at goes
    | ok name =>
      by_cases named : HasName call
      · cases changed : Config.transform_path rt.boost ⟨rules⟩ name with
        | error e => simp [forwarded, read, rewriteName, named, changed, bind, Except.bind] at goes
        | ok name' =>
          obtain ⟨supported, meant⟩ := foldlM_documented loaded changed
          simp only [forwarded, read, rewriteName, named, changed, bind, Except.bind, ↓reduceIte] at goes
          refine ⟨fun _ => supported, ?_⟩
          simp only [documented, read, named, meant, bind, Except.bind, ↓reduceIte]
          exact goes
      · simp only [forwarded, read, rewriteName, named, bind, Except.bind, Bool.false_eq_true, ↓reduceIte] at goes
        refine ⟨fun impossible => absurd impossible named, ?_⟩
        simp only [documented, read, named, bind, Except.bind, pure, Except.pure, Bool.false_eq_true, ↓reduceIte]
        exact goes

section
variable {Id : Type} [DecidableEq Id]

/-- A configuration that `load_config` builds in the child of a launch, out of the
    share as the child reads it at some point of some interleaving of the launches. -/
def LoadedBy (jobs : Id → Job) (i : Id) (boost : Boost) (ndebug : Bool)
    (sysintercept_config : WString → WString → Except Stop xml.Config) (config : Config) : Prop :=
  ∃ s t memory, Reachable (Launches.Step jobs) (· = System.initial) s ∧ Launches.Step jobs s (.reads i memory) t ∧
    load_config boost ndebug sysintercept_config (some memory) = .ok config

/-- Any number of launches in any order, and in the child of one of them any tree
    of hooked calls: until its initialisation has settled, every call reaches the
    system as it was made; after that, every call reaches it with its name
    rewritten as the schema documents the rules in the file that the child's own
    launcher was given. These are well formed, and where a call with a name gets
    through none of them has the format that the library has no branch for. -/
theorem names_rewritten_as_configured {jobs : Id → Job} {i : Id} {boost : Boost} {ndebug : Bool}
    {sysintercept_config : WString → WString → Except Stop xml.Config} {calls : CallSeq}
    (loads : Loads (LoadedBy jobs i boost ndebug sysintercept_config) calls) {before after : List Record} {r : Record}
    (cutting : trace calls = before ++ r :: after) {rt : Runtime} {call real : ApiCall}
    (happens : r.event = .real rt call real) :
    (¬ HasSettled before → forwarded rt none call = .ok real) ∧
    (HasSettled before → ∃ xml_config, sysintercept_config (jobs i).xml_config_path (jobs i).xsd_path = .ok xml_config ∧
      (∀ rule ∈ xml_config.filesystem.path.replacement, WellFormed boost rule) ∧
      (HasName call → ∀ rule ∈ xml_config.filesystem.path.replacement, rule.to_.format ≠ .boost_extended) ∧
      documented rt xml_config.filesystem.path.replacement call = .ok real) := by
  rcases real_at cutting happens with ⟨unsettled, unchanged⟩ | ⟨settled, config, published, changed⟩
  · exact ⟨fun _ => unchanged, fun settled => absurd settled unsettled⟩
  · refine ⟨fun unsettled => absurd settled unsettled, fun _ => ?_⟩
    have published' : config ∈ publications (trace calls) := by
      simp only [publications] at published
      simp [cutting, publications, published]
    obtain ⟨s, t, memory, reached, reads, loaded⟩ := published_of_loads loads published'
    rw [loads_own_configuration reached reads] at loaded
    cases parsed : sysintercept_config (jobs i).xml_config_path (jobs i).xsd_path with
    | error e => simp [parsed, bind, Except.bind] at loaded
    | ok xml_config =>
      have built : Config.construct boost ndebug xml_config = .ok config := by simpa [parsed, bind, Except.bind] using loaded
      exact ⟨xml_config, rfl, wellFormed_of_loaded built, documented_of_forwarded built changed⟩

end

/-- A call that opens a file for reading. -/
def opening (name : WString) : ApiCall := .CreateFileW (some (wide_c_str name)) ⟨0x80000000, 1, 0, 3, 0, 0⟩

/-- A child that opens the file of the rule's from text, with the rule loaded. -/
def sampleOpening : CallSeq :=
  .call (latin1 literalBoost) (opening (wide "a.txt")) .done (.ok ⟨[ruleOf haskell_rule]⟩) .done (.ok 3) .done

/-- What happens before the call reaches the system. -/
def sampleBefore : List Record :=
  [⟨.enter, Phase.running.globals⟩, ⟨.publish ⟨[ruleOf haskell_rule]⟩, (Phase.published ⟨[ruleOf haskell_rule]⟩).globals⟩,
    ⟨.initialized, (Phase.marked ⟨[ruleOf haskell_rule]⟩).globals⟩, ⟨.settled, (Phase.ready ⟨[ruleOf haskell_rule]⟩).globals⟩,
    ⟨.answer true, (Phase.ready ⟨[ruleOf haskell_rule]⟩).globals⟩,
    ⟨.deref (some ⟨[ruleOf haskell_rule]⟩), (Phase.ready ⟨[ruleOf haskell_rule]⟩).globals⟩]

theorem names_rewritten_as_configured_sample :
    trace sampleOpening = sampleBefore ++
      ⟨.real (latin1 literalBoost) (opening (wide "a.txt")) (opening (wide "b.txt")),
        (Phase.ready ⟨[ruleOf haskell_rule]⟩).globals⟩ :: [] ∧
    documented (latin1 literalBoost) [haskell_rule] (opening (wide "a.txt")) = .ok (opening (wide "b.txt")) := by
  obtain ⟨s, memory, reached, reads, paths⟩ := sample_reads
  have loads : Loads (LoadedBy (fun _ : Unit => Served.sampleJob) () literalBoost false
      (fun _ _ => .ok ⟨⟨⟨[haskell_rule]⟩⟩⟩)) sampleOpening := by
    refine ⟨trivial, fun config is => ?_, trivial, trivial⟩
    obtain rfl := Except.ok.inj is
    refine ⟨s, _, memory, reached, reads, ?_⟩
    rw [load_config_paths literalBoost false _ paths]
    rfl
  have cutting : trace sampleOpening = sampleBefore ++
      ⟨.real (latin1 literalBoost) (opening (wide "a.txt")) (opening (wide "b.txt")),
        (Phase.ready ⟨[ruleOf haskell_rule]⟩).globals⟩ :: [] := rfl
  have settled : HasSettled sampleBefore := by simp [HasSettled, sampleBefore, isSettled]
  obtain ⟨xml_config, parsed, _, _, rewritten⟩ := (names_rewritten_as_configured loads cutting rfl).2 settled
  obtain rfl := Except.ok.inj parsed
  exact ⟨cutting, rewritten⟩

end Sysintercept.Configured
