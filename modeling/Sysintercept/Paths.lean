import Sysintercept.Units

/-!
# Paths and the places that they denote

Windows paths as texts, and the place that a text denotes: where the walk along it
begins, and the names it goes down from there. Both separators count, an empty
piece and `.` stay, and `..` goes up as far as the root lets it.
-/
namespace Sysintercept.Paths
open Sysintercept.Units

def IsSeparator (u : WChar) : Bool := u == 0x5C || u == 0x2F

/-- The texts between the separators. -/
def pieces (path : WString) : List WString := path.splitOnP IsSeparator

/-- Where the walk along a path begins: in the current directory or at the root,
    of a drive if the path names one, or at the root of the network. -/
inductive Root
  | current (drive : Option WChar)
  | rooted (drive : Option WChar)
  | network
  deriving DecidableEq, Repr

/-- A place: so many directories up from where the walk begins, and then down along
    the names, of which the last comes first. -/
structure Location where
  root : Root
  up : Nat
  names : List WString
  deriving DecidableEq, Repr

/-- The names that `..` does not leave: the server and the share of a network path. -/
def Root.fixed : Root → Nat
  | .network => 2
  | _ => 0

def Location.parent (l : Location) : Location :=
  if l.root.fixed < l.names.length then { l with names := l.names.tail }
  else
    match l.root with
    | .current _ => { l with up := l.up + 1 }
    | _ => l

/-- A name that is not one of the directory entries `.` and `..`. -/
def Proper (name : WString) : Prop := name ≠ [] ∧ name ≠ [0x2E] ∧ name ≠ [0x2E, 0x2E]

instance (name : WString) : Decidable (Proper name) := by unfold Proper; infer_instance

/-- Where the walk begins, and the pieces left to walk along. -/
def start : List WString → Root × List WString
  | [] :: [] :: next :: rest => (.network, next :: rest)
  | [] :: next :: rest => (.rooted none, next :: rest)
  | [drive, 0x3A] :: next :: rest => (.rooted (some drive), next :: rest)
  | (drive :: 0x3A :: first) :: rest => (.current (some drive), first :: rest)
  | all => (.current none, all)

section
variable (canonical : WString → WString)

/-- One piece of the walk; `canonical` is the form in which the file system compares names. -/
def Location.enter (l : Location) (piece : WString) : Location :=
  if piece = [] ∨ piece = [0x2E] then l
  else if piece = [0x2E, 0x2E] then l.parent
  else { l with names := canonical piece :: l.names }

/-- The place that a path denotes. -/
def location (path : WString) : Location :=
  (start (pieces path)).2.foldl (Location.enter canonical) ⟨(start (pieces path)).1, 0, []⟩

theorem enter_empty (l : Location) : l.enter canonical [] = l := by
  simp [Location.enter]

theorem enter_proper (l : Location) {name : WString} (proper : Proper name) :
    l.enter canonical name = { l with names := canonical name :: l.names } := by
  obtain ⟨nonempty, noDot, noDots⟩ := proper
  simp [Location.enter, nonempty, noDot, noDots]

/-- One and the same name leads to one place only from one place. -/
theorem enter_inj {l l' : Location} {name : WString} (proper : Proper name) :
    l.enter canonical name = l'.enter canonical name ↔ l = l' := by
  constructor
  · intro same
    rw [enter_proper canonical l proper, enter_proper canonical l' proper] at same
    simp only [Location.mk.injEq, List.cons.injEq, true_and] at same
    cases l
    cases l'
    simpa using same
  · rintro rfl
    rfl

/-- A proper name leads somewhere else. -/
theorem enter_ne (l : Location) {name : WString} (proper : Proper name) : l.enter canonical name ≠ l := by
  intro same
  have longer := congrArg (fun l => l.names.length) same
  rw [enter_proper canonical l proper] at longer
  simp at longer

end

/-- A name that holds no separator and names no drive. -/
structure Plain (name : WString) : Prop where
  whole : ∀ u ∈ name, IsSeparator u = false
  driveless : name[1]? ≠ some 0x3A

theorem whole_of_any {name : WString} (none : name.any IsSeparator = false) : ∀ u ∈ name, IsSeparator u = false := by
  simpa using none

/-- A first piece that is there and names no drive is a name in the current directory. -/
theorem start_name {first : WString} (nonempty : first ≠ []) (driveless : first[1]? ≠ some 0x3A) (rest : List WString) :
    start (first :: rest) = (.current none, first :: rest) := by
  unfold start
  split
  · rename_i same
    exact absurd (List.cons.inj same).1 nonempty
  · rename_i same
    exact absurd (List.cons.inj same).1 nonempty
  · rename_i same
    rw [(List.cons.inj same).1] at driveless
    exact absurd rfl driveless
  · rename_i same
    rw [(List.cons.inj same).1] at driveless
    exact absurd rfl driveless
  · rfl

/-- What follows the pieces of a directory does not change where the walk begins. -/
theorem start_append (front : List WString) :
    ∃ root rest, ∀ name more, Plain name → (name ≠ [] ∨ more = []) →
      start (front ++ name :: more) = (root, rest ++ name :: more) := by
  match front with
  | [] =>
    refine ⟨.current none, [], fun name more plain first => ?_⟩
    cases name with
    | nil =>
      obtain rfl : more = [] := by simpa using first
      rfl
    | cons u name => exact start_name (by simp) plain.driveless more
  | [[]] =>
    refine ⟨.rooted none, [], fun name more plain first => ?_⟩
    cases name with
    | nil =>
      obtain rfl : more = [] := by simpa using first
      rfl
    | cons u name => rfl
  | [] :: [] :: rest =>
    refine ⟨.network, rest, fun name more plain first => ?_⟩
    cases rest <;> rfl
  | [] :: (u :: second) :: rest => exact ⟨.rooted none, (u :: second) :: rest, fun name more plain first => rfl⟩
  | [u] :: rest => exact ⟨.current none, [u] :: rest, fun name more plain first => start_name (by simp) (by simp) _⟩
  | (u :: v :: tail) :: rest =>
    by_cases drive : v = 0x3A
    · subst drive
      cases tail with
      | nil =>
        refine ⟨.rooted (some u), rest, fun name more plain first => ?_⟩
        cases rest <;> rfl
      | cons x tail => exact ⟨.current (some u), (x :: tail) :: rest, fun name more plain first => rfl⟩
    · exact ⟨.current none, (u :: v :: tail) :: rest,
        fun name more plain first => start_name (by simp) (by simpa using drive) _⟩

/-! ## Directories -/

/-- A text that a name can follow: empty, or up to a separator. -/
def EndsAtSeparator (dir : WString) : Prop := dir = [] ∨ ∃ before sep, IsSeparator sep = true ∧ dir = before ++ [sep]

theorem pieces_name {name : WString} (whole : ∀ u ∈ name, IsSeparator u = false) : pieces name = [name] :=
  List.splitOnP_eq_singleton whole

theorem pieces_append {dir : WString} (ends : EndsAtSeparator dir) :
    ∃ front, ∀ tail, pieces (dir ++ tail) = front ++ pieces tail := by
  rcases ends with rfl | ⟨before, sep, isSep, rfl⟩
  · exact ⟨[], fun tail => rfl⟩
  · refine ⟨pieces before, fun tail => ?_⟩
    rw [List.append_assoc]
    exact List.splitOnP_append_cons before tail isSep

section
variable (canonical : WString → WString)

/-- Behind a directory the walk goes on from its place. -/
theorem location_append {dir : WString} (ends : EndsAtSeparator dir) {tail name : WString} {more : List WString}
    (split : pieces tail = name :: more) (plain : Plain name) (first : name ≠ [] ∨ more = []) :
    location canonical (dir ++ tail) = (name :: more).foldl (Location.enter canonical) (location canonical dir) := by
  obtain ⟨front, behind⟩ := pieces_append ends
  obtain ⟨root, rest, begins⟩ := start_append front
  have whole : location canonical (dir ++ tail) =
      (rest ++ name :: more).foldl (Location.enter canonical) ⟨root, 0, []⟩ := by
    unfold location
    rw [behind, split, begins name more plain first]
  have alone : location canonical dir = rest.foldl (Location.enter canonical) ⟨root, 0, []⟩ := by
    have nothing : pieces dir = front ++ [[]] := by
      rw [← List.append_nil dir, behind]
      rfl
    unfold location
    rw [nothing, begins [] [] ⟨by simp, by simp⟩ (.inr rfl), List.foldl_append]
    exact enter_empty canonical _
  rw [whole, List.foldl_append, alone]

/-- A file in a directory. -/
theorem location_file {dir name : WString} (ends : EndsAtSeparator dir) (plain : Plain name) :
    location canonical (dir ++ name) = (location canonical dir).enter canonical name :=
  location_append canonical ends (pieces_name plain.whole) plain (.inr rfl)

/-- A directory in a directory. -/
theorem location_subdirectory {dir name : WString} (ends : EndsAtSeparator dir) (plain : Plain name) (nonempty : name ≠ [])
    {sep : WChar} (isSep : IsSeparator sep = true) :
    location canonical (dir ++ (name ++ [sep])) = (location canonical dir).enter canonical name := by
  have split : pieces (name ++ [sep]) = [name, []] := List.splitOnP_append_cons_of_forall_mem plain.whole sep isSep []
  rw [location_append canonical ends split plain (.inl nonempty)]
  exact enter_empty canonical _

/-- Files of one name are one file exactly when their directories are one directory. -/
theorem location_file_inj {dir dir' name : WString} (ends : EndsAtSeparator dir) (ends' : EndsAtSeparator dir')
    (plain : Plain name) (proper : Proper name) :
    location canonical (dir ++ name) = location canonical (dir' ++ name) ↔
      location canonical dir = location canonical dir' := by
  rw [location_file canonical ends plain, location_file canonical ends' plain, enter_inj canonical proper]

end

/-- A path up to its last separator; empty for a path without one, which is that of a
    file in the current directory. -/
def directory : WString → WString
  | [] => []
  | u :: rest => if directory rest = [] ∧ IsSeparator u = false then [] else u :: directory rest

theorem directory_name {name : WString} (whole : ∀ u ∈ name, IsSeparator u = false) : directory name = [] := by
  induction name with
  | nil => rfl
  | cons u name ih =>
    rw [directory, if_pos ⟨ih (fun v member => whole v (by simp [member])), whole u (by simp)⟩]

theorem directory_append (before : WString) {sep : WChar} (isSep : IsSeparator sep = true) {name : WString}
    (whole : ∀ u ∈ name, IsSeparator u = false) : directory (before ++ sep :: name) = before ++ [sep] := by
  induction before with
  | nil =>
    rw [List.nil_append, directory, if_neg (by simp [isSep]), directory_name whole]
    rfl
  | cons u before ih =>
    rw [List.cons_append, directory, ih, if_neg (by simp)]
    rfl

/-- A path is a directory and the name of a file in it. -/
theorem directory_split (path : WString) :
    EndsAtSeparator (directory path) ∧
      ∃ name : WString, (∀ u ∈ name, IsSeparator u = false) ∧ path = directory path ++ name := by
  induction path with
  | nil => exact ⟨.inl rfl, [], by simp, rfl⟩
  | cons u rest ih =>
    obtain ⟨ends, name, whole, split⟩ := ih
    by_cases stays : directory rest = [] ∧ IsSeparator u = false
    · rw [directory, if_pos stays]
      refine ⟨.inl rfl, u :: name, ?_, ?_⟩
      · intro v member
        rcases List.mem_cons.mp member with rfl | inside
        · exact stays.2
        · exact whole v inside
      · rw [stays.1, List.nil_append] at split
        rw [List.nil_append, split]
    · rw [directory, if_neg stays]
      refine ⟨?_, name, whole, by rw [List.cons_append, ← split]⟩
      rcases ends with empty | ⟨before, sep, isSep, same⟩
      · have isSep : IsSeparator u = true := by simpa [empty] using stays
        exact .inr ⟨[], u, isSep, by rw [empty]; rfl⟩
      · exact .inr ⟨u :: before, sep, isSep, by rw [same]; rfl⟩

end Sysintercept.Paths
