import Sysintercept.Served

/-!
# How launches end

What is left when `_tmain` returns: of the child, of the name space of shared
memory over any history of launches, and of the share while the child runs.
-/
namespace Sysintercept.Outcomes
open Sysintercept.Units Sysintercept.Rules Sysintercept.Buffers Sysintercept.Effects Sysintercept.Ipc Sysintercept.Iat Sysintercept.Patching
open Sysintercept.Automaton Sysintercept.Launcher Sysintercept.Served

section
variable {Id : Type} {job : Job} {me : Id} {names : Names Id}

/-! ## The child -/

/-- The child is resumed once `ResumeThread` has succeeded, and exits only then. -/
def Marked (ls : List Action) (s : State Id) : Prop :=
  match s.launch.child with
  | none => .resume_thread ∉ ls
  | some child => (child.resumed = true ↔ .resume_thread ∈ ls) ∧ (child.exited = true → child.resumed = true)

theorem marked_other (ls : List Action) {a : Action} (other : a ≠ .resume_thread) :
    .resume_thread ∈ ls ++ [a] ↔ .resume_thread ∈ ls := by
  simp [Ne.symm other]

theorem marked_step {ls : List Action} {s s' : State Id} {a : Action} (valid : Valid job s.launch) (marked : Marked ls s)
    (step : Step job me s a s') : Marked (ls ++ [a]) s' := by
  unfold Marked at marked ⊢
  cases step with
  | exits is running =>
    have other : Action.exits ≠ .resume_thread := by simp
    rw [is] at marked
    exact ⟨marked.1.trans (marked_other ls other).symm, fun _ => running.1⟩
  | launcher moved =>
    rcases child_move moved with ⟨pid, rfl, here, created⟩ | ⟨child, rfl, is, resumed⟩ |
      ⟨child, remote, other, is, worked⟩ | ⟨other, same⟩
    · have other : Action.create_process pid ≠ .resume_thread := by simp
      have none : s.launch.child = none := by
        simp only [Valid, here] at valid
        exact valid
      rw [none] at marked
      simp only [created]
      rw [marked_other ls other]
      exact ⟨⟨by simp, fun resumed => absurd resumed marked⟩, by simp⟩
    · simp only [resumed]
      simp
    · rw [is] at marked
      simp only [worked]
      rw [marked_other ls other]
      exact marked
    · simp only [same]
      rw [marked_other ls other]
      exact marked

theorem marked_of_run {ls : List Action} {s : State Id} (run : Run (Step job me) (State.initial names) ls s) :
    Marked ls s ∧ Sound job me s := by
  have initial : Marked [] (State.initial names) ∧ Sound job me (State.initial names) := ⟨nofun, rfl, nofun⟩
  refine run_history (I := fun ls s => Marked ls s ∧ Sound job me s) initial ?_ run
  rintro ls m a t ⟨marked, sound⟩ step
  exact ⟨marked_step sound.valid marked step, sound_step sound step⟩

/-- A launch creates its child once. -/
theorem created_of_run {ls : List Action} {s : State Id} (run : Run (Step job me) (State.initial names) ls s) :
    ∀ pid, .create_process pid ∈ ls → ∃ child, s.launch.child = some child ∧ child.pid = pid := by
  have whole : Sound job me s ∧ ∀ pid, .create_process pid ∈ ls → ∃ child, s.launch.child = some child ∧ child.pid = pid := by
    have begun : Sound job me (State.initial names) := ⟨rfl, nofun⟩
    refine run_history (I := fun ls s => Sound job me s ∧
      ∀ pid, .create_process pid ∈ ls → ∃ child, s.launch.child = some child ∧ child.pid = pid) ⟨begun, by simp⟩ ?_ run
    rintro ls s a t ⟨sound, created⟩ step
    refine ⟨sound_step sound step, fun pid member => ?_⟩
    rcases List.mem_append.mp member with earlier | now
    · obtain ⟨child, is, same⟩ := created pid earlier
      cases step with
      | exits is' =>
        obtain rfl := Option.some.inj (is.symm.trans is')
        exact ⟨_, rfl, same⟩
      | launcher moved =>
        rcases child_move moved with ⟨_, _, here, _⟩ | ⟨_, _, is', new⟩ | ⟨_, _, _, is', new⟩ | ⟨_, kept⟩
        · have none := sound.valid
          simp only [Valid, here, is] at none
          cases none
        · obtain rfl := Option.some.inj (is.symm.trans is')
          exact ⟨_, new, same⟩
        · obtain rfl := Option.some.inj (is.symm.trans is')
          exact ⟨_, new, same⟩
        · exact ⟨child, kept.trans is, same⟩
    · obtain rfl := List.mem_singleton.mp now
      cases step with
      | launcher moved =>
        cases moved with
        | create_process => exact ⟨_, rfl, rfl⟩
  exact whole.2

/-- `ResumeThread` succeeds only with the share in place and full and the import table patched. -/
theorem complete_of_resume_thread {s s' : State Id} (sound : Sound job me s) (resumes : Step job me s .resume_thread s') :
    ∃ child, s.launch.child = some child ∧ s.names (get_ipc_name child.pid) = some me ∧
      Complete job s.launch.region child.remote := by
  cases resumes with
  | launcher moved =>
    cases moved with
    | resume_thread here is =>
      have valid := sound.valid
      simp only [Valid, here] at valid
      obtain ⟨child, is', _, complete⟩ := valid
      obtain ⟨child', is'', named⟩ := sound.held (by rw [here]; rfl)
      obtain rfl := Option.some.inj (is'.symm.trans is'')
      exact ⟨child, is', named, complete⟩

/-- In every run: `ResumeThread` succeeds only with the share in place and full
    and the import table patched; and when `_tmain` returns after a child was
    created, that child was resumed so, or it is still suspended. -/
theorem resumed_complete_or_suspended {ls : List Action} {s : State Id}
    (run : Run (Step job me) (State.initial names) ls s) :
    (∀ before after, ls = before ++ .resume_thread :: after →
      ∃ m n, Run (Step job me) (State.initial names) before m ∧ Step job me m .resume_thread n ∧ Run (Step job me) n after s ∧
        ∃ child, m.launch.child = some child ∧ m.names (get_ipc_name child.pid) = some me ∧
          Complete job m.launch.region child.remote) ∧
    (s.launch.pc = .ended → ∀ child, s.launch.child = some child →
      (.resume_thread ∈ ls ∧ child.resumed = true ∧ Complete job s.launch.region child.remote) ∨
        (.resume_thread ∉ ls ∧ child.resumed = false ∧ child.exited = false)) := by
  constructor
  · rintro before after rfl
    obtain ⟨m, n, earlier, step, later⟩ := run_at run
    exact ⟨m, n, earlier, step, later, complete_of_resume_thread (sound_of_run earlier) step⟩
  · intro ended child is
    obtain ⟨marked, sound⟩ := marked_of_run run
    have valid := sound.valid
    simp only [Valid, ended] at valid
    simp only [Marked, is] at marked
    rcases valid with none | ⟨child', is', unresumed⟩ | ⟨child', is', resumed, complete⟩
    · rw [is] at none
      cases none
    · obtain rfl := Option.some.inj (is.symm.trans is')
      refine .inr ⟨fun resumed => ?_, unresumed, ?_⟩
      · rw [marked.1.mpr resumed] at unresumed
        cases unresumed
      · cases exited : child.exited with
        | false => rfl
        | true =>
          rw [marked.2 exited] at unresumed
          cases unresumed
    · obtain rfl := Option.some.inj (is.symm.trans is')
      exact .inl ⟨marked.1.mp resumed, resumed, complete⟩

end

/-- The sample launch reaches its `ResumeThread`, with everything in place. -/
theorem sample_resumed_complete :
    ∃ before m n child, Run (Step sampleJob ()) (State.initial fun _ => none) before m ∧
      Step sampleJob () m .resume_thread n ∧ m.launch.child = some child ∧
      m.names (get_ipc_name child.pid) = some () ∧ Complete sampleJob m.launch.region child.remote := by
  obtain ⟨ls, remote, run⟩ := sampleJob_served
  have plain := run_restrict run
  have resumed : .resume_thread ∈ ls := (marked_of_run plain).1.1.mp rfl
  obtain ⟨before, after, cutting⟩ := List.append_of_mem resumed
  obtain ⟨m, n, earlier, step, _, child, is, named, complete⟩ := (resumed_complete_or_suspended plain).1 before after cutting
  exact ⟨before, m, n, child, earlier, step, is, named, complete⟩

/-- A launch whose `create_only` throws leaves a child that was neither resumed nor
    patched, and that lives on suspended. -/
theorem suspended_child_left :
    ∃ ls s, Run (Step sampleJob ()) (State.initial fun _ => none) ls s ∧ s.launch.pc = .ended ∧
      ∃ child, s.launch.child = some child ∧ child.resumed = false ∧ child.remote = [] ∧ child.exited = false := by
  exact ⟨[.create_process 7, .proceed, .throws], _,
    run_cons (.launcher (.create_process rfl 7)) (run_cons (.launcher (.created rfl))
      (run_single (.launcher (.throws_early rfl)))), rfl, _, rfl, rfl, rfl, rfl⟩

section
variable {Id : Type} {job : Job} {me : Id} {names : Names Id}

/-! ## The name space -/

/-- Where the name space stands in comparison with the beginning. -/
inductive Account (me : Id) (names : Names Id) (ls : List Action) (s : State Id) : Prop
  | untouched (outside : s.launch.pc.owns = false) (clean : .constructor_throws ∉ ls) (same : s.names = names)
  | owned (owns : s.launch.pc.owns = true) (clean : .constructor_throws ∉ ls) (child : Child Id)
      (is : s.launch.child = some child) (free : names (get_ipc_name child.pid) = none)
      (created : s.names = names.create (get_ipc_name child.pid) me)
  | leaked (ended : s.launch.pc = .ended) (thrown : .constructor_throws ∈ ls) (name : String) (free : names name = none)
      (created : s.names = names.create name me)

/-- A step that neither creates nor removes the share, nor leaves its constructor,
    goes on in the same account. -/
theorem account_same {ls : List Action} {a : Action} {s s' : State Id} (account : Account me names ls s)
    (other : a ≠ .constructor_throws) (kept : s'.names = s.names) (scope : s'.launch.pc.owns = s.launch.pc.owns)
    (ended : s.launch.pc = .ended → s'.launch.pc = .ended)
    (pid : ∀ child, s.launch.child = some child → ∃ child', s'.launch.child = some child' ∧ child'.pid = child.pid) :
    Account me names (ls ++ [a]) s' := by
  have unthrown : .constructor_throws ∉ ls → .constructor_throws ∉ ls ++ [a] := by
    intro clean member
    rcases List.mem_append.mp member with earlier | last
    · exact clean earlier
    · exact other (List.mem_singleton.mp last).symm
  cases account with
  | untouched outside clean same => exact .untouched (scope.trans outside) (unthrown clean) (kept.trans same)
  | owned owns clean child is free created =>
    obtain ⟨child', is', samePid⟩ := pid child is
    exact .owned (scope.trans owns) (unthrown clean) child' is' (samePid ▸ free) (samePid ▸ kept.trans created)
  | leaked done thrown name free created =>
    exact .leaked (ended done) (List.mem_append_left _ thrown) name free (kept.trans created)

theorem early_outside {pc : Pc} (here : pc.early = true) : pc.owns = false := by
  cases pc with
  | start | created | share_create => rfl
  | _ => cases here

theorem constructing_owns {pc : Pc} (here : pc.constructing = true) : pc.owns = true := by
  cases pc with
  | share_truncate | share_map | share_copy => rfl
  | _ => cases here

theorem scoped_owns {pc : Pc} (here : pc.scoped = true) : pc.owns = true := by
  cases pc with
  | inject | resume | resumed | exit_code => rfl
  | _ => cases here

theorem account_step {ls : List Action} {a : Action} {s s' : State Id} (valid : Valid job s.launch)
    (account : Account me names ls s) (step : Step job me s a s') : Account me names (ls ++ [a]) s' := by
  have sameChild : ∀ child, s.launch.child = some child → ∃ child', s.launch.child = some child' ∧ child'.pid = child.pid :=
    fun child is => ⟨child, is, rfl⟩
  cases step with
  | exits is running =>
    refine account_same account (by simp) rfl rfl id fun child is' => ?_
    obtain rfl := Option.some.inj (is.symm.trans is')
    exact ⟨_, rfl, rfl⟩
  | @launcher _ _ l moved =>
    have goesOn : s.launch.pc ≠ .ended := move_running moved
    have notYet : s.launch.pc = .ended → l.pc = .ended := fun ended => absurd ended goesOn
    cases moved with
    | throws_early here => exact account_same account (by simp) rfl (early_outside here).symm notYet sameChild
    | throws_scoped here => exact account_same account (by simp) rfl (scoped_owns here).symm notYet sameChild
    | create_process here pid =>
      refine account_same account (by simp) rfl (by rw [here]; rfl) notYet fun child is => ?_
      simp only [Valid, here] at valid
      rw [valid] at is
      cases is
    | remote here is | resume_thread here is =>
      refine account_same account (by simp) rfl (by rw [here]; rfl) notYet fun child is' => ?_
      obtain rfl := Option.some.inj (is.symm.trans is')
      exact ⟨_, rfl, rfl⟩
    | share_create here is free =>
      cases account with
      | untouched _ clean same =>
        rw [same] at free ⊢
        exact .owned rfl (by simp [clean]) _ is free rfl
      | owned owns =>
        rw [here] at owns
        cases owns
      | leaked ended => exact absurd ended goesOn
    | constructor_throws here =>
      cases account with
      | untouched outside =>
        rw [constructing_owns here] at outside
        cases outside
      | owned _ _ child is free created => exact .leaked rfl (by simp) _ free created
      | leaked ended => exact absurd ended goesOn
    | remove here is =>
      cases account with
      | untouched outside =>
        rw [here] at outside
        cases outside
      | owned _ clean child is' free created =>
        obtain rfl := Option.some.inj (is.symm.trans is')
        refine .untouched rfl (by simp [clean]) ?_
        show s.names.remove _ = names
        rw [created, remove_create me free]
      | leaked ended => exact absurd ended goesOn
    | _ here => exact account_same account (by simp) rfl (by rw [here]; rfl) notYet sameChild

/-- A launch that has run to its end, from one name space to another. -/
def Finished (job : Job) (me : Id) (names : Names Id) (ls : List Action) (names' : Names Id) : Prop :=
  ∃ launch, Run (Step job me) (State.initial names) ls ⟨names', launch⟩ ∧ launch.pc = .ended

theorem account_of_run {ls : List Action} {s : State Id} (run : Run (Step job me) (State.initial names) ls s) :
    Account me names ls s := by
  have initial : Account me names [] (State.initial names) ∧ Sound job me (State.initial names) :=
    ⟨.untouched rfl nofun rfl, rfl, nofun⟩
  refine (run_history (I := fun ls s => Account me names ls s ∧ Sound job me s) initial ?_ run).1
  rintro ls m a t ⟨account, sound⟩ step
  exact ⟨account_step sound.valid account step, sound_step sound step⟩

/-- The shares that exist are the same. -/
def SameShares (names names' : Names Id) : Prop := ∀ name, (names' name).isSome = (names name).isSome

/-- A launch restores the name space, or its constructor has thrown with the share created. -/
theorem finished_restores {ls : List Action} {names' : Names Id} (finished : Finished job me names ls names') :
    (.constructor_throws ∉ ls ∧ names' = names) ∨ (.constructor_throws ∈ ls ∧ ¬ SameShares names names') := by
  obtain ⟨launch, run, ended⟩ := finished
  cases account_of_run run with
  | untouched _ clean same => exact .inl ⟨clean, same⟩
  | owned owns =>
    rw [ended] at owns
    cases owns
  | leaked _ thrown name free created =>
    refine .inr ⟨thrown, fun same => ?_⟩
    have there := same name
    have new : names' name = some me := by
      show (State.names ⟨names', launch⟩) name = some me
      rw [created, create_self]
    rw [new, free] at there
    cases there

/-- One launch of a history. -/
structure Past (Id : Type) where
  job : Job
  me : Id
  before : Names Id
  labels : List Action
  after : Names Id

/-- Launches one after the other, each beginning where the one before it ended. -/
inductive History : Names Id → List (Past Id) → Names Id → Prop
  | nil (names : Names Id) : History names [] names
  | cons {names names' : Names Id} {p : Past Id} {past : List (Past Id)} (begun : p.before = names)
      (finished : Finished p.job p.me p.before p.labels p.after) (rest : History p.after past names') :
      History names (p :: past) names'

theorem past_finished {names' : Names Id} {past : List (Past Id)} (history : History names past names') :
    ∀ p ∈ past, Finished p.job p.me p.before p.labels p.after := by
  induction history with
  | nil => exact nofun
  | cons _ finished _ ih =>
    intro p member
    rcases List.mem_cons.mp member with rfl | later
    · exact finished
    · exact ih p later

/-- A history of launches whose constructors have not thrown ends where it began,
    and so does each of them begin there. -/
theorem history_restores {names' : Names Id} {past : List (Past Id)} (history : History names past names')
    (clean : ∀ p ∈ past, .constructor_throws ∉ p.labels) : names' = names ∧ ∀ p ∈ past, p.before = names := by
  induction history with
  | nil => exact ⟨rfl, nofun⟩
  | @cons names names' p past begun finished _ ih =>
    obtain ⟨same, begins⟩ := ih (fun q member => clean q (by simp [member]))
    have restored : p.after = p.before := by
      rcases finished_restores finished with ⟨_, same⟩ | ⟨thrown, _⟩
      · exact same
      · exact absurd thrown (clean p (by simp))
    rw [restored, begun] at same begins
    refine ⟨same, fun q member => ?_⟩
    rcases List.mem_cons.mp member with rfl | later
    · exact begun
    · exact begins q later

/-- Over any history of launches, each leaves the shares that exist as they were
    exactly when no constructor throws between the creation of its share and its
    end; and then no launch begins with a share that the history has left. -/
theorem shares_restored_iff {names' : Names Id} {past : List (Past Id)} (history : History names past names') :
    ((∀ p ∈ past, SameShares p.before p.after) ↔ ∀ p ∈ past, .constructor_throws ∉ p.labels) ∧
    ((∀ p ∈ past, .constructor_throws ∉ p.labels) → names' = names ∧ ∀ p ∈ past, p.before = names) := by
  refine ⟨⟨fun same p member thrown => ?_, fun clean p member => ?_⟩, history_restores history⟩
  · rcases finished_restores (past_finished history p member) with ⟨clean, _⟩ | ⟨_, different⟩
    · exact clean thrown
    · exact different (same p member)
  · rcases finished_restores (past_finished history p member) with ⟨_, restored⟩ | ⟨thrown, _⟩
    · rw [restored]
      exact fun _ => rfl
    · exact absurd thrown (clean p member)

end

/-- A launch whose truncation fails, and the next one, whose child got the same id
    and whose `create_only` fails. -/
def leakingHistory : List (Past Unit) :=
  [⟨sampleJob, (), fun _ => none, [.create_process 7, .proceed, .share_create, .constructor_throws],
      Names.create (fun _ => none) (get_ipc_name 7) ()⟩,
    ⟨sampleJob, (), Names.create (fun _ => none) (get_ipc_name 7) (), [.create_process 7, .proceed, .throws],
      Names.create (fun _ => none) (get_ipc_name 7) ()⟩]

theorem leakingHistory_happens :
    History (fun _ => none) leakingHistory (Names.create (fun _ => none) (get_ipc_name 7) ()) := by
  refine .cons rfl ⟨⟨.ended, [], some ⟨7, sampleJob.exe, false, false, [], none⟩⟩, ?_, rfl⟩
    (.cons rfl ⟨⟨.ended, [], some ⟨7, sampleJob.exe, false, false, [], none⟩⟩, ?_, rfl⟩ (.nil _))
  · refine run_cons (.launcher (.create_process rfl 7)) (run_cons (.launcher (.created rfl)) ?_)
    exact run_cons (.launcher (.share_create rfl rfl rfl)) (run_single (.launcher (.constructor_throws rfl)))
  · refine run_cons (.launcher (.create_process rfl 7)) (run_cons (.launcher (.created rfl)) ?_)
    exact run_single (.launcher (.throws_early rfl))

theorem leakingHistory_restored_iff :
    ((∀ p ∈ leakingHistory, SameShares p.before p.after) ↔ ∀ p ∈ leakingHistory, .constructor_throws ∉ p.labels) ∧
      ((∀ p ∈ leakingHistory, .constructor_throws ∉ p.labels) →
        Names.create (fun _ => none) (get_ipc_name 7) () = (fun _ => none) ∧
          ∀ p ∈ leakingHistory, p.before = fun _ => none) :=
  shares_restored_iff leakingHistory_happens

/-- The first of these launches ends with a share that did not exist before, and
    with that share no launch for the same id can create its own. -/
theorem truncation_failure_leaks :
    History (fun _ => none) leakingHistory (Names.create (fun _ => none) (get_ipc_name 7) ()) ∧
    (∃ p ∈ leakingHistory, ¬ SameShares p.before p.after) ∧
    ∀ l names' l', ∀ child : Child Unit, l.child = some child → child.pid = 7 →
      ¬ Move sampleJob () (Names.create (fun _ => none) (get_ipc_name 7) ()) l .share_create names' l' := by
  refine ⟨leakingHistory_happens, ⟨_, List.mem_cons_self, fun same => ?_⟩, ?_⟩
  · have leaked := same (get_ipc_name 7)
    simp at leaked
  · intro l names' l' child is sameId moved
    cases moved with
    | share_create here is' free =>
      obtain rfl := Option.some.inj (is.symm.trans is')
      rw [sameId] at free
      simp at free

section
variable {Id : Type} {job : Job} {me : Id} {names : Names Id}

/-! ## The share while the child runs -/

/-- While the child runs, the launcher waits for it or is about to. -/
def Waiting (s : State Id) : Prop :=
  ∀ child, s.launch.child = some child → Running child → s.launch.pc = .resumed ∨ s.launch.pc = .wait

theorem waiting_step {s s' : State Id} {a : Action} (waiting : Waiting s) (covered : Covered s a)
    (step : Step job me s a s') : Waiting s' := by
  -- A step from elsewhere than the two places finds no child running.
  have idle : s.launch.pc ≠ .resumed → s.launch.pc ≠ .wait → ∀ child, s.launch.child = some child → ¬ Running child := by
    intro notResumed notWait child is running
    rcases waiting child is running with here | here
    · exact notResumed here
    · exact notWait here
  intro child' is' running
  cases step with
  | exits is =>
    obtain rfl := Option.some.inj is'
    cases running.2
  | launcher moved =>
    cases moved with
    | throws_scoped here =>
      rcases waiting child' is' running with at_ | at_
      · exact absurd rfl (covered child' is' running).1
      · rw [at_] at here
        cases here
    | resumed => exact .inr rfl
    | @wait child here is signalled honest =>
      obtain rfl := Option.some.inj (is.symm.trans is')
      cases signalled with
      | false => exact absurd rfl (covered child is running).2
      | true =>
        have exited := honest rfl
        rw [running.2] at exited
        cases exited
    | resume_thread => exact .inl rfl
    | create_process =>
      obtain rfl := Option.some.inj is'
      cases running.1
    | @remote op k child here is r stable =>
      obtain rfl := Option.some.inj is'
      have before : Running child := running
      exact absurd before (idle (by rw [here]; nofun) (by rw [here]; nofun) child is)
    | throws_early here | constructor_throws here =>
      refine absurd running (idle ?_ ?_ child' is')
      all_goals
        intro at_
        rw [at_] at here
        cases here
    | _ here => exact absurd running (idle (by rw [here]; nofun) (by rw [here]; nofun) child' is')

theorem waiting_of_run {ls : List Action} {s : State Id}
    (run : Run (Restrict (Step job me) Covered) (State.initial names) ls s) : Waiting s :=
  run_invariant (I := Waiting) (fun _ _ _ waiting step => waiting_step waiting step.2 step.1) run nofun

/-- In every run in which, while the child runs, the launcher throws nothing and
    does not stop waiting: a child that runs finds its share, with both paths
    complete in it, whatever is in the memory behind them. -/
theorem share_available {ls : List Action} {s : State Id}
    (run : Run (Restrict (Step job me) Covered) (State.initial names) ls s) {child : Child Id}
    (is : s.launch.child = some child) (running : Running child) :
    s.names (get_ipc_name child.pid) = some me ∧
      ∀ rest, read_paths (s.launch.region ++ rest) = some (job.xml_config_path, job.xsd_path) := by
  have sound := sound_of_run (run_restrict run)
  have waits := waiting_of_run run child is running
  have owns : s.launch.pc.owns = true := by
    rcases waits with here | here
    all_goals
      rw [here]
      rfl
  obtain ⟨child', is', named⟩ := sound.held owns
  obtain rfl := Option.some.inj (is.symm.trans is')
  refine ⟨named, ?_⟩
  obtain ⟨_, _, _, written, _⟩ := started_of_resumed sound.valid is running.1
  rw [written]
  exact read_paths_job job

end

/-- The sample launch waits for its child with the share in place. -/
theorem sample_share_available :
    ∃ ls s, Run (Restrict (Step sampleJob ()) Covered) (State.initial fun _ => none) ls s ∧
      ∃ child, s.launch.child = some child ∧ Running child ∧ s.names (get_ipc_name child.pid) = some () ∧
        ∀ rest, read_paths (s.launch.region ++ rest) = some (sampleJob.xml_config_path, sampleJob.xsd_path) := by
  obtain ⟨ls, remote, run⟩ := sampleJob_served
  have available := share_available run rfl ⟨rfl, rfl⟩
  exact ⟨ls, _, run, _, rfl, ⟨rfl, rfl⟩, available.1, available.2⟩

/-- When the wait fails at once, the launcher removes the share of a child that runs. -/
theorem failed_wait_removes_share :
    ∃ ls s, Run (Step sampleJob ()) (State.initial fun _ => none) ls s ∧
      ∃ child, s.launch.child = some child ∧ Running child ∧ s.names (get_ipc_name child.pid) = none := by
  obtain ⟨ls, remote, run⟩ := sampleJob_served
  have waits := Run.tail (run_restrict run) (.launcher (.wait rfl rfl false nofun))
  have leaves := Run.tail waits (.launcher (.exit_code rfl))
  exact ⟨_, _, .tail leaves (.launcher (.remove rfl rfl)), _, rfl, ⟨rfl, rfl⟩, remove_self _ _⟩

end Sysintercept.Outcomes
