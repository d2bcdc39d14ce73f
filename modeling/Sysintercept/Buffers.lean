/-!
# Buffers

Buffers of a fixed size that are overwritten piece by piece, over any type of
units.
-/
namespace Sysintercept.Buffers
universe u

variable {α : Type u}

/-- `n` units of a buffer, from an offset on. -/
def peek (m : List α) (offset n : Nat) : List α := (m.drop offset).take n

/-- A buffer with the units from an offset on overwritten. -/
def poke (m : List α) (offset : Nat) (us : List α) : List α := m.take offset ++ us ++ m.drop (offset + us.length)

theorem poke_length {m us : List α} {offset : Nat} (fits : offset + us.length ≤ m.length) :
    (poke m offset us).length = m.length := by
  simp only [poke, List.length_append, List.length_take, List.length_drop]
  omega

theorem getElem?_poke {m us : List α} {offset : Nat} (fits : offset + us.length ≤ m.length) (i : Nat) :
    (poke m offset us)[i]? = if i < offset then m[i]? else if i < offset + us.length then us[i - offset]? else m[i]? := by
  have front : (m.take offset).length = offset := by
    rw [List.length_take]
    omega
  unfold poke
  by_cases before : i < offset
  · rw [List.append_assoc, List.getElem?_append_left (by omega), List.getElem?_take, if_pos before, if_pos before]
  · by_cases within : i < offset + us.length
    · rw [List.getElem?_append_left (by rw [List.length_append]; omega), List.getElem?_append_right (by omega), front,
        if_neg before, if_pos within]
    · rw [List.getElem?_append_right (by rw [List.length_append]; omega), List.getElem?_drop, List.length_append, front,
        if_neg before, if_neg within]
      congr 1
      omega

theorem getElem?_peek (m : List α) (offset n i : Nat) : (peek m offset n)[i]? = if i < n then m[offset + i]? else none := by
  simp only [peek, List.getElem?_take, List.getElem?_drop]

theorem peek_poke_same {m us : List α} {offset : Nat} (fits : offset + us.length ≤ m.length) :
    peek (poke m offset us) offset us.length = us := by
  apply List.ext_getElem?
  intro i
  rw [getElem?_peek, getElem?_poke fits]
  by_cases within : i < us.length
  · rw [if_pos within, if_neg (by omega), if_pos (by omega)]
    congr 1
    omega
  · rw [if_neg within, List.getElem?_eq_none (by omega)]

/-- What is overwritten elsewhere reads as before. -/
theorem peek_poke_apart {m us : List α} {offset other n : Nat} (fits : offset + us.length ≤ m.length)
    (apart : other + n ≤ offset ∨ offset + us.length ≤ other) : peek (poke m offset us) other n = peek m other n := by
  apply List.ext_getElem?
  intro i
  rw [getElem?_peek, getElem?_peek]
  by_cases within : i < n
  · rw [if_pos within, if_pos within, getElem?_poke fits]
    rcases apart with before | after
    · rw [if_pos (by omega)]
    · rw [if_neg (by omega), if_neg (by omega)]
  · rw [if_neg within, if_neg within]

theorem poke_nil (m : List α) (offset : Nat) : poke m offset [] = m := by
  simp [poke]

/-- Overwriting unit by unit. -/
theorem poke_cons {m : List α} {offset : Nat} (u : α) (us : List α) (fits : offset < m.length) :
    poke (poke m offset [u]) (offset + 1) us = poke m offset (u :: us) := by
  have front : (m.take offset ++ [u]).length = offset + 1 := by
    rw [List.length_append, List.length_take, List.length_singleton]
    omega
  show (m.take offset ++ [u] ++ m.drop (offset + 1)).take (offset + 1) ++ us ++
      (m.take offset ++ [u] ++ m.drop (offset + 1)).drop (offset + 1 + us.length) = _
  rw [List.take_append_of_le_length (by omega), List.take_of_length_le (by omega), List.drop_append, front,
    List.drop_eq_nil_of_le (by omega), List.nil_append, List.drop_drop]
  have behind : offset + 1 + (offset + 1 + us.length - (offset + 1)) = offset + (u :: us).length := by
    rw [List.length_cons]
    omega
  rw [behind]
  simp [poke]

/-- Overwriting piece by piece, each piece behind the one before. -/
theorem poke_poke (m : List α) (offset : Nat) (us vs : List α) (fits : offset + us.length + vs.length ≤ m.length) :
    poke (poke m offset us) (offset + us.length) vs = poke m offset (us ++ vs) := by
  apply List.ext_getElem?
  intro i
  rw [getElem?_poke (by rw [poke_length (by omega)]; exact fits), getElem?_poke (by omega),
    getElem?_poke (by rw [List.length_append]; omega), List.length_append]
  by_cases before : i < offset
  · rw [if_pos (by omega), if_pos before, if_pos before]
  · rw [if_neg before, if_neg before]
    by_cases first : i < offset + us.length
    · rw [if_pos first, if_pos first, if_pos (by omega), List.getElem?_append_left (by omega)]
    · rw [if_neg first, if_neg first]
      by_cases second : i < offset + us.length + vs.length
      · rw [if_pos second, if_pos (by omega), List.getElem?_append_right (by omega)]
        congr 1
        omega
      · rw [if_neg second, if_neg (by omega)]

/-- Overwriting from the beginning on. -/
theorem poke_zero (m us : List α) : poke m 0 us = us ++ m.drop us.length := by
  simp [poke]

/-- Overwriting what follows a prefix of the same length. -/
theorem poke_append {front : List α} {offset : Nat} (long : front.length = offset) (m us : List α) :
    poke (front ++ m) offset us = front ++ poke m 0 us := by
  subst long
  simp [poke, List.drop_append]

/-- Overwriting the unit after a prefix extends the prefix. -/
theorem take_poke_succ {m : List α} {n : Nat} (u : α) (fits : n < m.length) :
    (poke m n [u]).take (n + 1) = m.take n ++ [u] := by
  have front : (m.take n ++ [u]).length = n + 1 := by
    rw [List.length_append, List.length_take, List.length_singleton]
    omega
  show (m.take n ++ [u] ++ m.drop (n + 1)).take (n + 1) = _
  rw [List.take_append_of_le_length (by omega), List.take_of_length_le (by omega)]

end Sysintercept.Buffers
