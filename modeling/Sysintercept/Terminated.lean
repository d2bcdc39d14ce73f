/-!
# Terminated strings

Strings that memory marks the end of by a terminator, over any type of units:
finding the end (`scan`), what a string is worth once it is passed on as a
terminated one (`cut`), and copying with padding to a fixed count (`padded`).
-/
namespace Sysintercept.Terminated
universe u

variable {α : Type u} [DecidableEq α] {nul : α}

/-- The units before the first terminator; none when the memory ends before one. -/
def scan (nul : α) : List α → Option (List α)
  | [] => none
  | a :: rest => if a = nul then some [] else (scan nul rest).map (a :: ·)

/-- The part of a string that its reader sees. -/
def cut (nul : α) (s : List α) : List α := s.takeWhile (fun a => decide (a ≠ nul))

/-- A copy of exactly `n` units: the string as far as it goes, then terminators. -/
def padded (nul : α) (s : List α) (n : Nat) : List α :=
  (cut nul s).take n ++ List.replicate (n - (cut nul s).length) nul

theorem not_mem_cut (s : List α) : nul ∉ cut nul s := by
  intro member
  have all := List.all_takeWhile (p := fun a => decide (a ≠ nul)) (l := s)
  have differs := List.all_eq_true.mp all nul member
  simp at differs

theorem cut_of_not_mem {s : List α} (clean : nul ∉ s) : cut nul s = s := by
  induction s with
  | nil => rfl
  | cons a rest ih =>
    obtain ⟨head, tail⟩ := List.ne_and_not_mem_of_not_mem_cons clean
    have keep : a ≠ nul := fun same => head same.symm
    simp only [cut, List.takeWhile_cons, keep, ne_eq, not_false_eq_true, decide_true, ↓reduceIte]
    rw [show rest.takeWhile (fun a => decide (a ≠ nul)) = rest from ih tail]

theorem cut_cut (s : List α) : cut nul (cut nul s) = cut nul s :=
  cut_of_not_mem (not_mem_cut s)

/-- Scanning a terminated string yields the part before its first terminator,
    whatever follows in memory. -/
theorem scan_terminated (s rest : List α) : scan nul (s ++ nul :: rest) = some (cut nul s) := by
  induction s with
  | nil => simp [scan, cut]
  | cons a s ih =>
    by_cases same : a = nul
    · simp [scan, cut, same]
    · simp only [List.cons_append, scan, same, ↓reduceIte, ih, Option.map_some, cut, List.takeWhile_cons, ne_eq,
        not_false_eq_true, decide_true]

theorem scan_clean {s : List α} (clean : nul ∉ s) (rest : List α) : scan nul (s ++ nul :: rest) = some s := by
  rw [scan_terminated, cut_of_not_mem clean]

/-- What a scan finds contains no terminator and is followed by one. -/
theorem scan_eq_some_iff (m s : List α) : scan nul m = some s ↔ nul ∉ s ∧ ∃ rest, m = s ++ nul :: rest := by
  constructor
  · intro found
    induction m generalizing s with
    | nil => simp [scan] at found
    | cons a m ih =>
      by_cases same : a = nul
      · simp only [scan, same, ↓reduceIte, Option.some.injEq] at found
        subst found
        exact ⟨by simp, m, by simp [same]⟩
      · simp only [scan, same, ↓reduceIte, Option.map_eq_some_iff] at found
        obtain ⟨s', inner, rfl⟩ := found
        obtain ⟨clean, rest, rfl⟩ := ih s' inner
        exact ⟨by simp [clean, Ne.symm same], rest, by simp⟩
  · rintro ⟨clean, rest, rfl⟩
    exact scan_clean clean rest

/-- The one terminated string that terminated memory begins with. -/
theorem terminated_prefix_iff {s : List α} (clean : nul ∉ s) (t rest : List α) :
    s ++ [nul] <+: t ++ nul :: rest ↔ s = cut nul t := by
  constructor
  · rintro ⟨after, same⟩
    have whole : scan nul (t ++ nul :: rest) = some (cut nul t) := scan_terminated t rest
    rw [← same, List.append_assoc] at whole
    exact Option.some.inj ((scan_clean clean after).symm.trans whole)
  · intro same
    obtain ⟨_, after, found⟩ := (scan_eq_some_iff (t ++ nul :: rest) (cut nul t)).mp (scan_terminated t rest)
    exact ⟨after, by rw [found, same, List.append_assoc, List.singleton_append]⟩

/-- A terminated string that begins another one is that string. -/
theorem terminated_prefix_unique {s t : List α} (sClean : nul ∉ s) (tClean : nul ∉ t)
    (begins : s ++ [nul] <+: t ++ [nul]) : s = t :=
  ((terminated_prefix_iff sClean t []).mp begins).trans (cut_of_not_mem tClean)

theorem padded_length (s : List α) (n : Nat) : (padded nul s n).length = n := by
  simp only [padded, List.length_append, List.length_take, List.length_replicate]
  omega

theorem padded_nil_succ (n : Nat) : padded nul [] (n + 1) = nul :: padded nul [] n := by
  simp [padded, cut, List.replicate_succ]

/-- What follows a terminator is not copied. -/
theorem padded_terminated (s : List α) (n : Nat) : padded nul (nul :: s) n = padded nul [] n := by
  simp [padded, cut]

theorem padded_cons_succ {a : α} (other : a ≠ nul) (s : List α) (n : Nat) :
    padded nul (a :: s) (n + 1) = a :: padded nul s n := by
  simp [padded, cut, other]

/-- A clean string copied with one unit to spare is that string, terminated. -/
theorem padded_clean {s : List α} (clean : nul ∉ s) : padded nul s (s.length + 1) = s ++ [nul] := by
  have spare : s.length + 1 - s.length = 1 := by omega
  simp [padded, cut_of_not_mem clean, List.take_of_length_le, spare]

end Sysintercept.Terminated
