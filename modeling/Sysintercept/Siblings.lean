import Sysintercept.Charsets
import Sysintercept.Paths
import Sysintercept.Outcomes

/-!
# The files next to the launcher

Which schema and which DLL a launch hands to its child, against the files that
stand next to the launcher's own program: where the text before the last
backslash of `argv[0]` is its directory, and which paths the conversion to the
narrow charset keeps.
-/
namespace Sysintercept.Siblings
open Sysintercept.Units Sysintercept.Rules Sysintercept.Charsets Sysintercept.Paths Sysintercept.Ipc Sysintercept.Patching
open Sysintercept.Automaton Sysintercept.Launcher Sysintercept.Served Sysintercept.Outcomes

/-- The path of a file that stands next to the program started as `argv0`. -/
def sibling (argv0 name : WString) : WString := directory argv0 ++ name

/-- The text up to its last backslash, or all of it and a backslash where there is none. -/
def upToBackslash : WString → WString
  | [] => [0x5C]
  | u :: rest => if u = 0x5C ∧ 0x5C ∉ rest then [u] else u :: upToBackslash rest

theorem upToBackslash_of_absent {w : WString} (absent : 0x5C ∉ w) : upToBackslash w = w ++ [0x5C] := by
  induction w with
  | nil => rfl
  | cons u rest ih =>
    obtain ⟨other, rest'⟩ := List.ne_and_not_mem_of_not_mem_cons absent
    rw [upToBackslash, if_neg (fun last => other last.1.symm), ih rest', List.cons_append]

theorem upToBackslash_append (before : WString) {after : WString} (absent : 0x5C ∉ after) :
    upToBackslash (before ++ 0x5C :: after) = before ++ [0x5C] := by
  induction before with
  | nil => rw [List.nil_append, upToBackslash, if_pos ⟨rfl, absent⟩, List.nil_append]
  | cons u before ih => rw [List.cons_append, upToBackslash, if_neg (by simp), ih, List.cons_append]

section
variable {Id : Type} (canonical : WString → WString) (charset : Charset) (job : Job)

/-- The share names the schema next to the launcher, and the bytes that `writeIAT`
    gets and puts into the child decode, with no character lost, to the path of the
    DLL next to the launcher. -/
def InjectsSiblings (l : Launch Id) : Prop :=
  ∃ child xml_config_path xsd_path dll, l.child = some child ∧
    read_paths l.region = some (xml_config_path, xsd_path) ∧
    location canonical xsd_path = location canonical (sibling job.argv0.val (wide "sysintercept_config.xsd")) ∧
    job.from_utf job.dll = .ok dll ∧ Patched job.image dll child.remote ∧ charset.to_utf dll = job.dll ∧
    location canonical (charset.to_utf dll) = location canonical (sibling job.argv0.val (wide "sysintercept.dll"))

/-- What comes before the last backslash of `argv[0]`, or all of it where there is
    none, is the same directory as what comes before its last separator. -/
def FindsDirectory (argv0 : WString) : Prop :=
  location canonical (upToBackslash argv0) = location canonical (directory argv0)

theorem find_last_of_none_iff (c : WChar) (w : WString) : find_last_of c w = none ↔ c ∉ w := by
  induction w with
  | nil => simp [find_last_of]
  | cons u rest ih =>
    unfold find_last_of
    cases found : find_last_of c rest with
    | some i =>
      have present : c ∈ rest := by simpa [found] using ih
      simp [present]
    | none =>
      have absent : c ∉ rest := by simpa [found] using ih
      by_cases same : u = c
      · simp [same]
      · simp [same, Ne.symm same, absent]

/-- The basename is the text before the last backslash. -/
theorem basename_backslash : job.basename ++ [0x5C] = upToBackslash job.argv0.val := by
  unfold Job.basename
  induction job.argv0.val with
  | nil => rfl
  | cons u rest ih =>
    cases found : find_last_of 0x5C rest with
    | some i =>
      have present : 0x5C ∈ rest := by
        have iff := find_last_of_none_iff 0x5C rest
        simpa [found] using iff
      rw [found] at ih
      rw [upToBackslash, if_neg (fun last => last.2 present), ← ih]
      simp only [find_last_of, found, List.take_succ_cons, List.cons_append]
    | none =>
      have absent := (find_last_of_none_iff 0x5C rest).mp found
      rw [found] at ih
      by_cases last : u = 0x5C
      · rw [upToBackslash, if_pos ⟨last, absent⟩]
        simp only [find_last_of, found, last, ↓reduceIte, List.take_zero, List.nil_append]
      · rw [upToBackslash, if_neg (fun both => last both.1), ← ih]
        simp only [find_last_of, found, last, ↓reduceIte, List.cons_append]

/-- The path of a file that a launch hands over. -/
theorem basename_file (name : WString) : job.basename ++ 0x5C :: name = upToBackslash job.argv0.val ++ name := by
  rw [← basename_backslash, List.append_assoc]
  rfl

/-- A file under the basename is the launcher's sibling exactly when the basename is
    the launcher's directory. -/
theorem sibling_iff {name : WString} (plain : Plain name) (proper : Proper name) :
    location canonical (job.basename ++ 0x5C :: name) = location canonical (sibling job.argv0.val name) ↔
      FindsDirectory canonical job.argv0.val := by
  have ends : EndsAtSeparator (upToBackslash job.argv0.val) := .inr ⟨job.basename, 0x5C, rfl, (basename_backslash job).symm⟩
  rw [basename_file]
  exact location_file_inj canonical ends (directory_split _).1 plain proper

theorem xsd_sibling_iff :
    location canonical job.xsd_path = location canonical (sibling job.argv0.val (wide "sysintercept_config.xsd")) ↔
      FindsDirectory canonical job.argv0.val :=
  sibling_iff canonical job ⟨whole_of_any (by decide), by decide⟩ (by decide)

theorem dll_sibling_iff :
    location canonical job.dll = location canonical (sibling job.argv0.val (wide "sysintercept.dll")) ↔
      FindsDirectory canonical job.argv0.val :=
  sibling_iff canonical job ⟨whole_of_any (by decide), by decide⟩ (by decide)

theorem dll_is : job.dll = upToBackslash job.argv0.val ++ wide "sysintercept.dll" := basename_file job _

variable {canonical charset job}

theorem injectsSiblings_of_complete {l : Launch Id} {child : Child Id} (is : l.child = some child)
    (complete : Complete job l.region child.remote) (converts : ∀ w, job.from_utf w = .ok (charset.from_utf w)) :
    InjectsSiblings canonical charset job l ↔
      FindsDirectory canonical job.argv0.val ∧
        charset.Represents (upToBackslash job.argv0.val ++ wide "sysintercept.dll") := by
  obtain ⟨full, path, converted, patched⟩ := complete
  rw [← dll_is]
  have reads : read_paths l.region = some (job.xml_config_path, job.xsd_path) := by
    have alone := read_paths_job job []
    rwa [List.append_nil, ← full] at alone
  constructor
  · rintro ⟨child', xml_config_path, xsd_path, dll, _, reads', xsd, converted', _, lossless, _⟩
    have paths : (xml_config_path, xsd_path) = (job.xml_config_path, job.xsd_path) :=
      Option.some.inj (reads'.symm.trans reads)
    obtain ⟨rfl, rfl⟩ := Prod.mk.inj paths
    obtain rfl : dll = charset.from_utf job.dll := Except.ok.inj (converted'.symm.trans (converts _))
    exact ⟨(xsd_sibling_iff canonical job).mp xsd, (charset.to_utf_from_utf_iff _).mp lossless⟩
  · rintro ⟨finds, represents⟩
    obtain rfl : path = charset.from_utf job.dll := Except.ok.inj (converted.symm.trans (converts _))
    have lossless := (charset.to_utf_from_utf_iff _).mpr represents
    refine ⟨child, _, _, _, is, reads, (xsd_sibling_iff canonical job).mpr finds, converted, patched, lossless, ?_⟩
    rw [lossless]
    exact (dll_sibling_iff canonical job).mpr finds

/-- In every run that reaches `ResumeThread`, the child gets the files next to the
    launcher exactly when the text before the last backslash of `argv[0]` is its
    directory and the charset has every character of the DLL's path there. -/
theorem siblings_injected_iff {me : Id} {names : Names Id} {ls : List Action} {s s' : State Id}
    (run : Run (Step job me) (State.initial names) ls s) (resumes : Step job me s .resume_thread s')
    (converts : ∀ w, job.from_utf w = .ok (charset.from_utf w)) :
    InjectsSiblings canonical charset job s.launch ↔
      FindsDirectory canonical job.argv0.val ∧
        charset.Represents (upToBackslash job.argv0.val ++ wide "sysintercept.dll") := by
  obtain ⟨child, is, _, complete⟩ := complete_of_resume_thread (sound_of_run run) resumes
  exact injectsSiblings_of_complete is complete converts

/-! ## Which `argv[0]` name their directory -/

/-- Where the last separator is a backslash, the text before it is the directory. -/
theorem findsDirectory_of_backslash {before name : WString} (whole : ∀ u ∈ name, IsSeparator u = false) :
    FindsDirectory canonical (before ++ 0x5C :: name) := by
  have absent : 0x5C ∉ name := by
    intro member
    cases whole _ member
  unfold FindsDirectory
  rw [upToBackslash_append before absent, directory_append before (by rfl) whole]

/-- Where there is no backslash, the text is the program itself, which is not the
    directory that it stands in. -/
theorem not_findsDirectory_without_backslash {dir name : WString} (ends : EndsAtSeparator dir) (plain : Plain name)
    (proper : Proper name) (absent : 0x5C ∉ dir ++ name) : ¬ FindsDirectory canonical (dir ++ name) := by
  have directory_is : directory (dir ++ name) = dir := by
    rcases ends with rfl | ⟨before, sep, isSep, rfl⟩
    · exact directory_name plain.whole
    · rw [List.append_assoc]
      exact directory_append before isSep plain.whole
  unfold FindsDirectory
  rw [upToBackslash_of_absent absent, directory_is, List.append_assoc,
    location_subdirectory canonical ends plain proper.1 (by rfl)]
  exact enter_ne canonical _ proper

end

/-- The sample launch, started as `argv0` in the "C" locale. -/
def startedAs (argv0 : CString) : Job := { sampleJob with argv0, from_utf := fun w => .ok (ascii.from_utf w) }

/-- A launch whose DLL path the sample system takes reaches its `ResumeThread`. -/
theorem startedAs_resumes {argv0 : CString} {path : Bytes} (encoded : ascii.from_utf (startedAs argv0).dll = path)
    (serves : ((Iat.inject 4 7 (.ok path)).drive sampleAnswers).2 = .ret ()) :
    ∃ ls s s', Run (Step (startedAs argv0) ()) (State.initial fun _ => none) ls s ∧
      Step (startedAs argv0) () s .resume_thread s' := by
  have stable : ∀ op, Stable (startedAs argv0).image op (sampleAnswers op) := sampleAnswers_stable
  have served : ((Iat.inject (startedAs argv0).fuel 7 ((startedAs argv0).from_utf (startedAs argv0).dll)).drive
      sampleAnswers).2 = .ret () := by
    rw [show (startedAs argv0).from_utf (startedAs argv0).dll = .ok path from congrArg _ encoded]
    exact serves
  have reaches : ∃ ls remote, Run (Restrict (Step (startedAs argv0) ()) Covered) (State.initial fun _ => none) ls
      ⟨Names.create (fun _ => none) (get_ipc_name 7) (),
        ⟨.wait, (startedAs argv0).contents, some ⟨7, (startedAs argv0).exe, true, false, remote, none⟩⟩⟩ :=
    (launch_served () 7 rfl stable served).imp fun _ run => ⟨_, run⟩
  obtain ⟨ls, remote, run⟩ := reaches
  have plain := run_restrict run
  have resumed : .resume_thread ∈ ls := (marked_of_run plain).1.1.mp rfl
  obtain ⟨before, after, rfl⟩ := List.append_of_mem resumed
  obtain ⟨s, s', earlier, step, _⟩ := run_at plain
  exact ⟨before, s, s', earlier, step⟩

/-- What such a launch injects, when it comes to that. -/
theorem startedAs_injects_iff {argv0 : CString} {path : Bytes} (encoded : ascii.from_utf (startedAs argv0).dll = path)
    (serves : ((Iat.inject 4 7 (.ok path)).drive sampleAnswers).2 = .ret ()) :
    ∃ ls s s', Run (Step (startedAs argv0) ()) (State.initial fun _ => none) ls s ∧
      Step (startedAs argv0) () s .resume_thread s' ∧
      (InjectsSiblings id ascii (startedAs argv0) s.launch ↔
        FindsDirectory id argv0.val ∧ ascii.Represents (upToBackslash argv0.val ++ wide "sysintercept.dll")) := by
  obtain ⟨ls, s, s', run, resumes⟩ := startedAs_resumes encoded serves
  obtain ⟨child, is, _, complete⟩ := complete_of_resume_thread (sound_of_run run) resumes
  exact ⟨ls, s, s', run, resumes, injectsSiblings_of_complete is complete fun _ => rfl⟩

def fullPath : CString := ⟨wide "C:\\tools\\sysintercept.exe", by decide⟩

/-- The command of the README's usage line. -/
def bareName : CString := ⟨wide "sysintercept", by decide⟩

/-- A directory whose name the "C" locale lacks. -/
def foreignDirectory : CString := ⟨wide "C:\\\u00e9\\sysintercept.exe", by decide⟩

/-- Started by its full path, a launch injects the files next to it. -/
theorem fullPath_injects_siblings :
    ∃ ls s, Run (Step (startedAs fullPath) ()) (State.initial fun _ => none) ls s ∧
      InjectsSiblings id ascii (startedAs fullPath) s.launch := by
  have encoded : ascii.from_utf (startedAs fullPath).dll = (wide "C:\\tools\\sysintercept.dll").map lowByte := by decide
  obtain ⟨ls, s, s', run, resumes⟩ := startedAs_resumes encoded rfl
  have last : (startedAs fullPath).argv0.val = wide "C:\\tools" ++ 0x5C :: wide "sysintercept.exe" := by decide
  have finds : FindsDirectory id (startedAs fullPath).argv0.val := by
    rw [last]
    exact findsDirectory_of_backslash (whole_of_any (by decide))
  exact ⟨ls, s, run, (siblings_injected_iff run resumes fun _ => rfl).mpr ⟨finds, by decide⟩⟩

/-- Started by its bare name, a launch injects the files of a directory of that name;
    and started from a directory whose name the charset lacks, a DLL from elsewhere. -/
theorem wrong_files_injected :
    (∃ ls s s', Run (Step (startedAs bareName) ()) (State.initial fun _ => none) ls s ∧
      Step (startedAs bareName) () s .resume_thread s' ∧ ¬ InjectsSiblings id ascii (startedAs bareName) s.launch) ∧
    (∃ ls s s', Run (Step (startedAs foreignDirectory) ()) (State.initial fun _ => none) ls s ∧
      Step (startedAs foreignDirectory) () s .resume_thread s' ∧
      ¬ InjectsSiblings id ascii (startedAs foreignDirectory) s.launch) := by
  constructor
  · have encoded : ascii.from_utf (startedAs bareName).dll = (wide "sysintercept\\sysintercept.dll").map lowByte := by
      decide
    obtain ⟨ls, s, s', run, resumes, injects_iff⟩ := startedAs_injects_iff encoded rfl
    refine ⟨ls, s, s', run, resumes, fun injects => ?_⟩
    have finds := (injects_iff.mp injects).1
    exact not_findsDirectory_without_backslash (.inl rfl) ⟨whole_of_any (by decide), by decide⟩ (by decide) (by decide) finds
  · have encoded : ascii.from_utf (startedAs foreignDirectory).dll = (wide "C:\\\\sysintercept.dll").map lowByte := by
      decide
    obtain ⟨ls, s, s', run, resumes, injects_iff⟩ := startedAs_injects_iff encoded rfl
    refine ⟨ls, s, s', run, resumes, fun injects => ?_⟩
    have represents := (injects_iff.mp injects).2
    exact absurd represents (by decide)

end Sysintercept.Siblings
