import Sysintercept.Outcomes

/-!
# Many launches

Any number of launches with their children, interleaved step by step. Launchers
may be killed, children may exit at any moment, and process ids are reused once
no process and no handle has them any more; shares persist until they are
removed by name.
-/
namespace Sysintercept.Launches
open Sysintercept.Terminated Sysintercept.Units Sysintercept.Rules Sysintercept.Ipc Sysintercept.Automaton
open Sysintercept.Launcher Sysintercept.Served Sysintercept.Outcomes

section
variable {Id : Type}

structure System (Id : Type) where
  names : Names Id
  launch : Id → Launch Id
  killed : Id → Bool

def System.initial : System Id := ⟨fun _ => none, fun _ => .initial, fun _ => false⟩

/-- The launcher has returned or was killed, so its handles are closed. -/
def Over (s : System Id) (i : Id) : Prop := s.killed i = true ∨ (s.launch i).pc = .ended

/-- The id of the child is in use: the child is alive, or its launcher has a handle on it. -/
def Occupies (s : System Id) (i : Id) (child : Child Id) : Prop :=
  (s.launch i).child = some child ∧ (child.exited = false ∨ ¬ Over s i)

inductive Event (Id : Type)
  | launcher (i : Id) (action : Action)
  | kill (i : Id)
  | exits (i : Id)
  | opens (i share : Id)
  | reads (i : Id) (memory : WString)

section
variable [DecidableEq Id]

/-- The launch replaced; `killed` and the name space as they are. -/
def System.put (s : System Id) (i : Id) (l : Launch Id) : System Id :=
  { s with launch := fun j => if j = i then l else s.launch j }

@[simp] theorem put_self (s : System Id) (i : Id) (l : Launch Id) : (s.put i l).launch i = l := by
  simp [System.put]

theorem put_other (s : System Id) {i j : Id} (l : Launch Id) (other : j ≠ i) : (s.put i l).launch j = s.launch j := by
  simp [System.put, other]

/-- What holds of a launch that is put into place, and of the others where they are, holds of each. -/
theorem put_all {P : Id → Launch Id → Prop} {s : System Id} {i : Id} {l : Launch Id} (here : P i l)
    (elsewhere : ∀ j, j ≠ i → P j (s.launch j)) (j : Id) : P j ((s.put i l).launch j) := by
  by_cases same : j = i
  · rw [same, put_self]
    exact here
  · rw [put_other s l same]
    exact elsewhere j same

inductive Step (jobs : Id → Job) : System Id → Event Id → System Id → Prop
  | launcher {s i a names l} (alive : s.killed i = false) (moved : Move (jobs i) i s.names (s.launch i) a names l)
      (fresh : ∀ pid, a = .create_process pid → ∀ j child, Occupies s j child → child.pid ≠ pid) :
      Step jobs s (.launcher i a) ({ s with names }.put i l)
  | kill {s} (i : Id) : Step jobs s (.kill i) { s with killed := fun j => if j = i then true else s.killed j }
  | exits {s i child} (is : (s.launch i).child = some child) :
      Step jobs s (.exits i) (s.put i { s.launch i with child := some { child with exited := true } })
  | opens {s i child share} (is : (s.launch i).child = some child) (running : Running child)
      (found : s.names (get_ipc_name child.pid) = some share) :
      Step jobs s (.opens i share) (s.put i { s.launch i with child := some { child with opened := some share } })
  | reads {s i child share} (is : (s.launch i).child = some child) (running : Running child)
      (mapped : child.opened = some share) (rest : WString) :
      Step jobs s (.reads i ((s.launch share).region ++ rest)) s

end

/-! ## The invariant -/

/-- A child that runs finds nothing or its own launch under its name. -/
def OwnName (names : Names Id) (i : Id) (child : Child Id) : Prop :=
  names (get_ipc_name child.pid) = none ∨ names (get_ipc_name child.pid) = some i

structure Isolated (jobs : Id → Job) (s : System Id) : Prop where
  valid : ∀ i, Valid (jobs i) (s.launch i)
  held : ∀ i, Held s.names i (s.launch i)
  unique : ∀ i j child child', Occupies s i child → Occupies s j child' → child.pid = child'.pid → i = j
  found : ∀ i child, (s.launch i).child = some child → Running child → OwnName s.names i child
  opened : ∀ i child share, (s.launch i).child = some child → child.opened = some share → share = i

theorem isolated_initial (jobs : Id → Job) : Isolated jobs System.initial where
  valid _ := rfl
  held _ := nofun
  unique _ _ _ _ occupies := by
    obtain ⟨impossible, _⟩ := occupies
    cases impossible
  found _ _ impossible := by cases impossible
  opened _ _ _ impossible := by cases impossible

/-- A child is where it was, or its launch has just created or resumed it. -/
inductive Origin (s : System Id) (i : Id) (a : Action) (child' : Child Id) : Prop
  | created (pid : UInt32) (creates : a = .create_process pid) (same : child'.pid = pid) (asleep : child'.resumed = false)
      (unopened : child'.opened = none)
  | resumed (child : Child Id) (is : (s.launch i).child = some child) (pid : child.pid = child'.pid)
      (opened : child.opened = child'.opened) (here : a = .resume_thread)
  | kept (child : Child Id) (is : (s.launch i).child = some child) (pid : child.pid = child'.pid)
      (opened : child.opened = child'.opened) (running : Running child' → Running child)

theorem origin_of_move {job : Job} {s : System Id} {i : Id} {names : Names Id} {l : Launch Id} {a : Action}
    (moved : Move job i s.names (s.launch i) a names l) {child' : Child Id} (is' : l.child = some child') :
    Origin s i a child' := by
  rcases child_move moved with ⟨pid, rfl, _, new⟩ | ⟨child, rfl, is, new⟩ | ⟨child, remote, _, is, new⟩ | ⟨_, same⟩
  · obtain rfl := Option.some.inj (new.symm.trans is')
    exact .created pid rfl rfl rfl rfl
  · obtain rfl := Option.some.inj (new.symm.trans is')
    exact .resumed child is rfl rfl rfl
  · obtain rfl := Option.some.inj (new.symm.trans is')
    exact .kept child is rfl rfl id
  · exact .kept child' (same.symm.trans is') rfl rfl id

section
variable {jobs : Id → Job} {s : System Id}

/-- While its launcher is not over, a child occupies its id. -/
theorem occupies_of_move {i : Id} {names : Names Id} {l : Launch Id} {a : Action} (alive : s.killed i = false)
    (moved : Move (jobs i) i s.names (s.launch i) a names l) {child : Child Id} (is : (s.launch i).child = some child) :
    Occupies s i child := by
  refine ⟨is, .inr ?_⟩
  rintro (killed | ended)
  · rw [alive] at killed
    cases killed
  · exact move_running moved ended

/-- A child that runs still finds nothing or its own launch, whichever launch moves. -/
theorem ownName_move {i : Id} {names : Names Id} {l : Launch Id} {a : Action} (isolated : Isolated jobs s)
    (alive : s.killed i = false) (moved : Move (jobs i) i s.names (s.launch i) a names l) {j : Id} {child : Child Id}
    (is : (s.launch j).child = some child) (running : Running child) : OwnName names j child := by
  have own := isolated.found j child is running
  have occupied := fun {creator : Child Id} (there : (s.launch i).child = some creator) =>
    occupies_of_move alive moved there
  have valid := isolated.valid i
  cases moved with
  | @share_create creator here there free =>
    by_cases same : child.pid = creator.pid
    · -- The name is being created for this very child, which does not run yet.
      obtain rfl := isolated.unique j i child creator ⟨is, .inl running.2⟩ (occupied there) same
      simp only [Valid, here] at valid
      obtain ⟨child', is', asleep, _⟩ := valid
      obtain rfl := Option.some.inj (is.symm.trans is')
      rw [running.1] at asleep
      cases asleep
    · have apart : get_ipc_name child.pid ≠ get_ipc_name creator.pid := fun eq => same (get_ipc_name_injective eq)
      unfold OwnName
      rw [create_other _ _ apart]
      exact own
  | @remove remover here there =>
    unfold OwnName
    by_cases same : get_ipc_name child.pid = get_ipc_name remover.pid
    · rw [same]
      exact .inl (remove_self _ _)
    · rw [remove_other _ same]
      exact own
  | _ => exact own

/-- Where no id comes into use, those in use stay apart. -/
theorem unique_of_fewer {t : System Id} (isolated : Isolated jobs s)
    (fewer : ∀ i child, Occupies t i child → ∃ before, Occupies s i before ∧ before.pid = child.pid) (j k : Id)
    (child child' : Child Id) (first : Occupies t j child) (second : Occupies t k child')
    (same : child.pid = child'.pid) : j = k := by
  obtain ⟨before, occupied, kept⟩ := fewer j child first
  obtain ⟨before', occupied', kept'⟩ := fewer k child' second
  exact isolated.unique j k before before' occupied occupied' (kept.trans (same.trans kept'.symm))

/-- What a running child finds under its name is the share of its own launch. -/
theorem found_own {i share : Id} {child : Child Id} (isolated : Isolated jobs s) (is : (s.launch i).child = some child)
    (running : Running child) (found : s.names (get_ipc_name child.pid) = some share) : share = i := by
  rcases isolated.found i child is running with none | own
  · rw [found] at none
    cases none
  · exact Option.some.inj (found.symm.trans own)

/-- The share of a running child is complete, whatever memory lies behind it. -/
theorem reads_own {i : Id} {child : Child Id} (isolated : Isolated jobs s) (is : (s.launch i).child = some child)
    (running : Running child) (rest : WString) :
    read_paths ((s.launch i).region ++ rest) = some ((jobs i).xml_config_path, (jobs i).xsd_path) := by
  obtain ⟨_, _, _, written, _⟩ := started_of_resumed (isolated.valid i) is running.1
  rw [written]
  exact read_paths_job (jobs i) rest

/-- A child that has mapped a share reads its own launch's paths out of it. -/
theorem mapped_own {i share : Id} {child : Child Id} (isolated : Isolated jobs s) (is : (s.launch i).child = some child)
    (running : Running child) (mapped : child.opened = some share) (rest : WString) :
    read_paths ((s.launch share).region ++ rest) = some ((jobs i).xml_config_path, (jobs i).xsd_path) := by
  obtain rfl := isolated.opened i child share is mapped
  exact reads_own isolated is running rest

end

/-! ## Each step keeps it -/

section
variable [DecidableEq Id] {jobs : Id → Job} {s : System Id}

/-- Where a launch moves, the ids in use are those of before, or a fresh one. -/
theorem unique_move {i : Id} {names : Names Id} {l : Launch Id} {a : Action} (isolated : Isolated jobs s)
    (alive : s.killed i = false) (moved : Move (jobs i) i s.names (s.launch i) a names l)
    (fresh : ∀ pid, a = .create_process pid → ∀ j child, Occupies s j child → child.pid ≠ pid) (j k : Id)
    (child child' : Child Id) (first : Occupies ({ s with names }.put i l) j child)
    (second : Occupies ({ s with names }.put i l) k child') (same : child.pid = child'.pid) : j = k := by
  -- Other launches occupy what they did.
  have others : ∀ j child, j ≠ i → Occupies ({ s with names }.put i l) j child → Occupies s j child := by
    rintro j child other ⟨is, there⟩
    rw [put_other _ l other] at is
    refine ⟨is, there.imp_right fun notOver isOver => notOver ?_⟩
    rcases isOver with killed | ended
    · exact .inl killed
    · exact .inr (by rw [put_other _ l other]; exact ended)
  -- The moving launch has what it had, or the fresh id.
  have mover : ∀ child, Occupies ({ s with names }.put i l) i child →
      (∃ pid, a = .create_process pid ∧ child.pid = pid) ∨ ∃ before, Occupies s i before ∧ before.pid = child.pid := by
    rintro child ⟨is, _⟩
    rw [put_self] at is
    cases origin_of_move moved is with
    | created pid creates same => exact .inl ⟨pid, creates, same⟩
    | resumed before is pid => exact .inr ⟨before, occupies_of_move alive moved is, pid⟩
    | kept before is pid => exact .inr ⟨before, occupies_of_move alive moved is, pid⟩
  by_cases atFirst : j = i
  · by_cases atSecond : k = i
    · rw [atFirst, atSecond]
    · subst atFirst
      have there := others k child' atSecond second
      rcases mover child first with ⟨pid, creates, new⟩ | ⟨before, occupied, kept⟩
      · exact absurd (same.symm.trans new) (fresh pid creates k child' there)
      · exact isolated.unique j k before child' occupied there (kept.trans same)
  · have here := others j child atFirst first
    by_cases atSecond : k = i
    · subst atSecond
      rcases mover child' second with ⟨pid, creates, new⟩ | ⟨before, occupied, kept⟩
      · exact absurd (same.trans new) (fresh pid creates j child here)
      · exact isolated.unique j k child before here occupied (same.trans kept.symm)
    · exact isolated.unique j k child child' here (others k child' atSecond second) same

theorem isolated_move {i : Id} {names : Names Id} {l : Launch Id} {a : Action} (isolated : Isolated jobs s)
    (alive : s.killed i = false) (moved : Move (jobs i) i s.names (s.launch i) a names l)
    (fresh : ∀ pid, a = .create_process pid → ∀ j child, Occupies s j child → child.pid ≠ pid) :
    Isolated jobs ({ s with names }.put i l) where
  valid := put_all (P := fun j l => Valid (jobs j) l) (valid_move moved (isolated.valid i)) fun j _ => isolated.valid j
  held := put_all (P := fun j l => Held names j l) (held_move moved (isolated.held i)) fun j other owns => by
    obtain ⟨child, is, named⟩ := isolated.held j owns
    exact ⟨child, is, names_other moved (isolated.held i) named other⟩
  unique := unique_move isolated alive moved fresh
  found := by
    refine put_all (P := fun j l => ∀ child, l.child = some child → Running child → OwnName names j child) ?_
      fun j _ child is running => ownName_move isolated alive moved is running
    intro child is running
    cases origin_of_move moved is with
    | created _ _ _ asleep =>
      rw [running.1] at asleep
      cases asleep
    | resumed before is' pid opened here =>
      subst here
      cases moved with
      | resume_thread at_ there =>
        obtain ⟨child', is'', named⟩ := isolated.held i (by rw [at_]; rfl)
        obtain rfl := Option.some.inj (is'.symm.trans is'')
        rw [pid] at named
        exact .inr named
    | kept before is' pid opened ran =>
      have own := ownName_move isolated alive moved is' (ran running)
      unfold OwnName at own ⊢
      rw [pid] at own
      exact own
  opened := by
    refine put_all (P := fun j l => ∀ child share, l.child = some child → child.opened = some share → share = j) ?_
      fun j _ => isolated.opened j
    intro child share is opened
    cases origin_of_move moved is with
    | created _ _ _ _ unopened =>
      rw [opened] at unopened
      cases unopened
    | resumed before is' _ samely => exact isolated.opened i before share is' (samely.trans opened)
    | kept before is' _ samely => exact isolated.opened i before share is' (samely.trans opened)

theorem isolated_kill (isolated : Isolated jobs s) (i : Id) :
    Isolated jobs { s with killed := fun j => if j = i then true else s.killed j } where
  valid := isolated.valid
  held := isolated.held
  unique := by
    refine unique_of_fewer isolated ?_
    rintro j child ⟨is, there⟩
    refine ⟨child, ⟨is, there.imp_right fun notOver isOver => notOver ?_⟩, rfl⟩
    rcases isOver with killed | ended
    · exact .inl (by simp [killed])
    · exact .inr ended
  found := isolated.found
  opened := isolated.opened

/-- A child that exits, or that maps a share of its own launch. -/
theorem isolated_child {i : Id} {child : Child Id} (isolated : Isolated jobs s) (is : (s.launch i).child = some child)
    (exited : Bool) (gone : exited = false → child.exited = false) (opened : Option Id)
    (own : ∀ share, opened = some share → share = i) :
    Isolated jobs (s.put i { s.launch i with child := some { child with exited, opened } }) where
  valid := put_all (P := fun j l => Valid (jobs j) l) (valid_child is exited opened (isolated.valid i))
    fun j _ => isolated.valid j
  held := put_all (P := fun j l => Held s.names j l) (held_child is exited opened (isolated.held i))
    fun j _ => isolated.held j
  unique := by
    refine unique_of_fewer isolated ?_
    rintro j child' ⟨is', there⟩
    by_cases same : j = i
    · subst same
      rw [put_self] at is'
      obtain rfl := Option.some.inj is'
      refine ⟨child, ⟨is, there.imp gone fun notOver isOver => notOver (isOver.imp_right fun ended => ?_)⟩, rfl⟩
      rw [put_self]
      exact ended
    · rw [put_other _ _ same] at is'
      refine ⟨child', ⟨is', there.imp_right fun notOver isOver => notOver (isOver.imp_right fun ended => ?_)⟩, rfl⟩
      rw [put_other _ _ same]
      exact ended
  found := by
    refine put_all (P := fun j l => ∀ child, l.child = some child → Running child → OwnName s.names j child) ?_
      fun j _ => isolated.found j
    intro child' is' running
    obtain rfl := Option.some.inj is'
    exact isolated.found i child is ⟨running.1, gone running.2⟩
  opened := by
    refine put_all (P := fun j l => ∀ child share, l.child = some child → child.opened = some share → share = j) ?_
      fun j _ => isolated.opened j
    intro child' share is' found
    obtain rfl := Option.some.inj is'
    exact own share found

theorem isolated_step {t : System Id} {e : Event Id} (isolated : Isolated jobs s) (step : Step jobs s e t) :
    Isolated jobs t := by
  cases step with
  | launcher alive moved fresh => exact isolated_move isolated alive moved fresh
  | kill i => exact isolated_kill isolated i
  | @exits i child is =>
    exact isolated_child isolated is true (by simp) child.opened fun share => isolated.opened i child share is
  | @opens i child share is running found =>
    refine isolated_child isolated is child.exited id (some share) fun share' same => ?_
    obtain rfl := Option.some.inj same
    exact found_own isolated is running found
  | reads => exact isolated

theorem isolated_of_reachable (reached : Reachable (Step jobs) (· = System.initial) s) : Isolated jobs s := by
  refine reachable_invariant (I := Isolated jobs) ?_ (fun _ _ _ isolated step => isolated_step isolated step) reached
  rintro _ rfl
  exact isolated_initial jobs

/-! ## What a child reads, and what a launcher can do to a share -/

/-- A name is taken from a share only by the launch that created the share. -/
theorem removed_own {t : System Id} {e : Event Id} (isolated : Isolated jobs s) (step : Step jobs s e t)
    {name : String} {k : Id} (there : s.names name = some k) (gone : t.names name ≠ some k) :
    e = .launcher k .remove := by
  cases step with
  | kill | exits | opens | reads => exact absurd there gone
  | @launcher i a names l alive moved fresh =>
    by_cases own : k = i
    · subst own
      cases moved with
      | remove => rfl
      | @share_create child here is free =>
        refine absurd ?_ gone
        by_cases same : name = get_ipc_name child.pid
        · rw [same]
          exact create_self _ _ _
        · exact (create_other _ _ same).trans there
      | _ => exact absurd there gone
    · exact absurd (names_other moved (isolated.held i) there own) gone

/-- The contents of a share change only by the launch that created it, before its child runs. -/
theorem written_own {t : System Id} {e : Event Id} (isolated : Isolated jobs s) (step : Step jobs s e t) {k : Id}
    (changed : (t.launch k).region ≠ (s.launch k).region) : (∃ a, e = .launcher k a) ∧ Suspended (s.launch k) := by
  cases step with
  | kill | reads => exact absurd rfl changed
  | launcher alive moved =>
    exact put_all (P := fun k l => l.region ≠ (s.launch k).region → (∃ a, _ = Event.launcher k a) ∧ Suspended (s.launch k))
      (fun changed => ⟨⟨_, rfl⟩, region_move moved (isolated.valid _) changed⟩) (fun _ _ changed => absurd rfl changed) k
      changed
  | exits | opens =>
    refine absurd ?_ changed
    refine put_all (P := fun k l => l.region = (s.launch k).region) ?_ (fun _ _ => rfl) k
    rfl

/-- In every interleaving of any number of launches: the share that a child opens
    is its own launch's, with both of its paths complete, and so does every later
    reading of it come out; a share is removed by the launch that created it and
    by no other, and written to only by that launch, before its child runs. -/
theorem configurations_isolated {t : System Id} {e : Event Id} (reached : Reachable (Step jobs) (· = System.initial) s)
    (step : Step jobs s e t) :
    (∀ i share, e = .opens i share → share = i ∧
      ∀ rest, read_paths ((s.launch share).region ++ rest) = some ((jobs i).xml_config_path, (jobs i).xsd_path)) ∧
    (∀ i memory, e = .reads i memory →
      read_paths memory = some ((jobs i).xml_config_path, (jobs i).xsd_path)) ∧
    (∀ name k, s.names name = some k → t.names name ≠ some k → e = .launcher k .remove) ∧
    (∀ k, (t.launch k).region ≠ (s.launch k).region → (∃ a, e = .launcher k a) ∧ Suspended (s.launch k)) := by
  have isolated := isolated_of_reachable reached
  refine ⟨?_, ?_, fun name k => removed_own isolated step, fun k => written_own isolated step⟩
  · rintro i share rfl
    cases step with
    | opens is running found =>
      obtain rfl := found_own isolated is running found
      exact ⟨rfl, reads_own isolated is running⟩
  · rintro i memory rfl
    cases step with
    | reads is running mapped rest => exact mapped_own isolated is running mapped rest

/-- Whatever a child loads from a share comes from the files of its own launch. -/
theorem loads_own_configuration {t : System Id} {i : Id} {memory : WString}
    (reached : Reachable (Step jobs) (· = System.initial) s) (step : Step jobs s (.reads i memory) t) (boost : Boost)
    (ndebug : Bool) (sysintercept_config : WString → WString → Except Stop xml.Config) :
    load_config boost ndebug sysintercept_config (some memory) =
      (sysintercept_config (jobs i).xml_config_path (jobs i).xsd_path >>= Config.construct boost ndebug) := by
  cases step with
  | reads is running mapped rest =>
    exact load_config_paths boost ndebug _ (mapped_own (isolated_of_reachable reached) is running mapped rest)

end

/-! ## One more launch -/

section
variable [DecidableEq Id] {jobs : Id → Job} {sys : System Id} {i : Id} {s t : State Id}

/-- The system in which one more launch has got somewhere. -/
def System.join (sys : System Id) (i : Id) (s : State Id) : System Id := { sys with names := s.names }.put i s.launch

@[simp] theorem join_self (sys : System Id) (i : Id) (s : State Id) : (sys.join i s).launch i = s.launch := put_self ..

theorem join_put (sys : System Id) (i : Id) (s : State Id) (names : Names Id) (l : Launch Id) :
    { sys.join i s with names }.put i l = sys.join i ⟨names, l⟩ := by
  unfold System.join System.put
  congr
  funext j
  by_cases same : j = i
  · simp [same]
  · simp [same]

theorem occupies_join {j : Id} {child : Child Id} (other : j ≠ i) : Occupies (sys.join i s) j child ↔ Occupies sys j child := by
  unfold Occupies Over System.join
  rw [put_other _ _ other]
  rfl

/-- What a launch can do by itself it can do among others, unless they have the id of its child. -/
theorem join_step {a : Action} (alive : sys.killed i = false) (sound : Sound (jobs i) i s)
    (fresh : ∀ pid, a = .create_process pid → ∀ j child, j ≠ i → Occupies sys j child → child.pid ≠ pid)
    (step : Launcher.Step (jobs i) i s a t) : ∃ e, Step jobs (sys.join i s) e (sys.join i t) := by
  cases step with
  | @exits child is running =>
    have exits : Step jobs (sys.join i s) (.exits i) _ := .exits ((congrArg Launch.child (join_self sys i s)).trans is)
    rw [join_self] at exits
    exact ⟨.exits i, join_put sys i s s.names { s.launch with child := some { child with exited := true } } ▸ exits⟩
  | @launcher _ names l moved =>
    refine ⟨.launcher i a, ?_⟩
    rw [← join_put sys i s names l]
    refine .launcher alive (by rw [join_self]; exact moved) ?_
    intro pid creates j child occupies
    by_cases same : j = i
    · -- The launch itself has no child before it creates one.
      subst same creates
      obtain ⟨is, _⟩ := occupies
      rw [join_self] at is
      cases moved with
      | create_process here =>
        have valid := sound.valid
        simp only [Valid, here] at valid
        rw [valid] at is
        cases is
    · exact fresh pid creates j child same ((occupies_join same).mp occupies)

/-- A launch that has not begun can join in where its names are those of the system. -/
theorem join_reachable {ls : List Action} (reached : Reachable (Step jobs) (· = System.initial) sys)
    (unbegun : sys.launch i = .initial) (alive : sys.killed i = false)
    (run : Run (Launcher.Step (jobs i) i) (State.initial sys.names) ls s)
    (fresh : ∀ child, s.launch.child = some child → ∀ j other, j ≠ i → Occupies sys j other → other.pid ≠ child.pid) :
    Reachable (Step jobs) (· = System.initial) (sys.join i s) := by
  have begins : sys.join i (State.initial sys.names) = sys := by
    unfold System.join System.put State.initial
    congr
    funext j
    by_cases same : j = i
    · simp [same, unbegun]
    · simp [same]
  have free : ∀ pid, .create_process pid ∈ ls → ∀ j other, j ≠ i → Occupies sys j other → other.pid ≠ pid := by
    intro pid member
    obtain ⟨child, is, rfl⟩ := created_of_run run pid member
    exact fresh child is
  clear fresh
  induction run with
  | refl =>
    rw [begins]
    exact reached
  | tail before last ih =>
    have earlier := ih fun pid member => free pid (List.mem_append_left _ member)
    obtain ⟨e, moved⟩ := join_step alive (sound_of_run before) (fun pid creates => free pid (by simp [creates])) last
    exact reachable_step earlier moved

/-- A launch that is served joins in, and its child opens its share. -/
theorem join_opens (pid : UInt32) {answers : (op : Iat.Op) → op.Resp}
    (reached : Reachable (Step jobs) (· = System.initial) sys) (unbegun : sys.launch i = .initial) (alive : sys.killed i = false)
    (free : sys.names (get_ipc_name pid) = none) (fresh : ∀ j other, j ≠ i → Occupies sys j other → other.pid ≠ pid)
    (stable : ∀ op, Patching.Stable (jobs i).image op (answers op))
    (served : ((Iat.inject (jobs i).fuel pid ((jobs i).from_utf (jobs i).dll)).drive answers).2 = .ret ()) :
    ∃ remote, Reachable (Step jobs) (· = System.initial) (sys.join i ⟨sys.names.create (get_ipc_name pid) i,
      ⟨.wait, (jobs i).contents, some ⟨pid, (jobs i).exe, true, false, remote, some i⟩⟩⟩) := by
  obtain ⟨ls, run⟩ := launch_served i pid free stable served
  generalize ((Iat.inject (jobs i).fuel pid ((jobs i).from_utf (jobs i).dll)).drive answers).1 = remote at run
  have joined := join_reachable reached unbegun alive (run_restrict run) fun child is => by
    obtain rfl := Option.some.inj is
    exact fresh
  generalize at_ : (⟨sys.names.create (get_ipc_name pid) i,
    ⟨.wait, (jobs i).contents, some ⟨pid, (jobs i).exe, true, false, remote, none⟩⟩⟩ : State Id) = waits at joined
  have is : ((sys.join i waits).launch i).child = some ⟨pid, (jobs i).exe, true, false, remote, none⟩ := by
    rw [join_self, ← at_]
  have found : (sys.join i waits).names (get_ipc_name pid) = some i := by
    rw [← at_]
    exact create_self _ _ _
  have opens : Step jobs (sys.join i waits) (.opens i i) _ := .opens is ⟨rfl, rfl⟩ found
  rw [join_self] at opens
  have opened := reachable_step joined opens
  rw [show ∀ l, (sys.join i waits).put i l = sys.join i ⟨waits.names, l⟩ from join_put sys i waits waits.names, ← at_] at opened
  exact ⟨remote, opened⟩

/-- The child that has opened its share reads it. -/
theorem join_reads {names : Names Id} {l : Launch Id} {child : Child Id} (is : l.child = some child) (running : Running child)
    (opened : child.opened = some i) (rest : WString) :
    Step jobs (sys.join i ⟨names, l⟩) (.reads i (l.region ++ rest)) (sys.join i ⟨names, l⟩) := by
  have reads : Step jobs (sys.join i ⟨names, l⟩) (.reads i (((sys.join i ⟨names, l⟩).launch i).region ++ rest)) _ :=
    .reads ((congrArg Launch.child (join_self sys i ⟨names, l⟩)).trans is) running opened rest
  rw [join_self] at reads
  exact reads

end

theorem initial_reachable (jobs : Id → Job) [DecidableEq Id] : Reachable (Step jobs) (· = System.initial) System.initial :=
  ⟨_, [], rfl, .refl _⟩

end

/-- The child of the sample launch has opened the share of its launch and reads it. -/
theorem sample_reads : ∃ s memory, Reachable (Step fun _ : Unit => sampleJob) (· = System.initial) s ∧
    Step (fun _ => sampleJob) s (.reads () memory) s ∧
    read_paths memory = some (sampleJob.xml_config_path, sampleJob.xsd_path) := by
  have unoccupied : ∀ (j : Unit) (other : Child Unit), j ≠ () → Occupies System.initial j other → other.pid ≠ 7 :=
    fun _ _ other _ => absurd rfl other
  obtain ⟨remote, reached⟩ := join_opens 7 (initial_reachable fun _ => sampleJob) rfl rfl rfl unoccupied sampleAnswers_stable
    sampleAnswers_serve
  exact ⟨_, _, reached, join_reads rfl ⟨rfl, rfl⟩ rfl [], read_paths_job sampleJob []⟩

/-- Another program, launched with another file of rules. -/
def otherJob : Job :=
  { sampleJob with
    argv1 := ⟨wide "D:\\other.xml", by decide⟩
    argv2 := ⟨wide "D:\\other.exe", by decide⟩ }

def sampleJobs (other : Bool) : Job := if other then otherJob else sampleJob

/-- The first launcher is killed while its child runs, so that its share stays; the second
    launch goes on. -/
theorem sample_isolated : ∃ s first second, Reachable (Step sampleJobs) (· = System.initial) s ∧ s.killed false = true ∧
    Step sampleJobs s (.reads false first) s ∧ Step sampleJobs s (.reads true second) s ∧
    read_paths first = some (wide "C:\\config.xml", wide "C:\\bin\\sysintercept_config.xsd") ∧
    read_paths second = some (wide "D:\\other.xml", wide "C:\\bin\\sysintercept_config.xsd") := by
  have unoccupied : ∀ (j : Bool) (other : Child Bool), j ≠ false → Occupies System.initial j other → other.pid ≠ 7 := by
    rintro j other _ ⟨is, _⟩
    cases is
  obtain ⟨remote, reached⟩ := join_opens 7 (initial_reachable sampleJobs) rfl rfl rfl unoccupied sampleAnswers_stable
    sampleAnswers_serve
  have killed := reachable_step reached (.kill false)
  have served : ((Iat.inject otherJob.fuel 9 (otherJob.from_utf otherJob.dll)).drive sampleAnswers).2 = .ret () := rfl
  have free : (Names.create (fun _ => none) (get_ipc_name 7) false) (get_ipc_name 9) = none := by decide
  obtain ⟨remote', both⟩ := join_opens 9 (i := true) killed rfl rfl free (by
    rintro j other ne ⟨is, _⟩
    obtain rfl : j = false := by simpa using ne
    obtain rfl := Option.some.inj is
    show (7 : UInt32) ≠ 9
    decide) sampleAnswers_stable served
  refine ⟨_, _, _, both, rfl, .reads rfl ⟨rfl, rfl⟩ rfl [], join_reads rfl ⟨rfl, rfl⟩ rfl [], ?_, ?_⟩
  · exact (configurations_isolated both (.reads rfl ⟨rfl, rfl⟩ rfl [])).2.1 false _ rfl
  · exact (configurations_isolated both (join_reads rfl ⟨rfl, rfl⟩ rfl [])).2.1 true _ rfl

end Sysintercept.Launches
