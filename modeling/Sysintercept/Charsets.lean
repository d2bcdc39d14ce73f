import Sysintercept.Units

/-!
# Charset conversions that drop what they cannot convert

Texts in UTF-16 as sequences of characters, a charset as the bytes that it has for
each character, and the two conversions of a text that skip what has no
counterpart on the other side: which texts and which bytes survive the way there
and back.
-/
namespace Sysintercept.Charsets
open Sysintercept.Terminated Sysintercept.Units

/-- A character of a text: a single unit, which may be a surrogate without its
    other half, or a surrogate pair. -/
inductive Character
  | unit (u : WChar)
  | pair (high low : WChar)
  deriving DecidableEq, Repr

def IsHigh (u : WChar) : Bool := 0xD800 ≤ u && u < 0xDC00
def IsLow (u : WChar) : Bool := 0xDC00 ≤ u && u < 0xE000

def Character.units : Character → WString
  | .unit u => [u]
  | .pair high low => [high, low]

def characters : WString → List Character
  | [] => []
  | [u] => [.unit u]
  | high :: low :: rest =>
    if IsHigh high && IsLow low then .pair high low :: characters rest else .unit high :: characters (low :: rest)

/-- The units of a sequence of characters. -/
def text (cs : List Character) : WString := cs.flatMap Character.units

@[simp] theorem text_nil : text [] = [] := rfl
@[simp] theorem text_unit (u : WChar) (cs : List Character) : text (.unit u :: cs) = u :: text cs := rfl
@[simp] theorem text_pair (high low : WChar) (cs : List Character) :
    text (.pair high low :: cs) = high :: low :: text cs := rfl

theorem text_characters (w : WString) : text (characters w) = w := by
  fun_induction characters w with
  | case1 => rfl
  | case2 u => rfl
  | case3 high low rest paired ih => rw [text_pair, ih]
  | case4 high low rest single ih => rw [text_unit, ih]

theorem characters_pair {high low : WChar} (paired : (IsHigh high && IsLow low) = true) (w : WString) :
    characters (high :: low :: w) = .pair high low :: characters w := by
  rw [characters, if_pos paired]

/-- A unit that opens no pair is a character of its own. -/
theorem characters_unit {u : WChar} (single : IsHigh u = false) (w : WString) :
    characters (u :: w) = .unit u :: characters w := by
  cases w with
  | nil => rfl
  | cons v rest => rw [characters, if_neg (by simp [single])]

/-- A text without NUL has no NUL among its characters. -/
theorem nul_not_mem_characters {w : WString} (clean : 0 ∉ w) : .unit 0 ∉ characters w := by
  intro member
  apply clean
  rw [← text_characters w]
  exact List.mem_flatMap.mpr ⟨.unit 0, member, by simp [Character.units]⟩

/-- The bytes of a text, character by character, without those that have none. -/
def encodeAll (encode : Character → Option Bytes) (w : WString) : Bytes :=
  (characters w).flatMap (fun c => (encode c).getD [])

/-- A charset: the bytes of the characters that it has, and how bytes are read.
    Only NUL is written with a zero byte, and half a pair is not written at all. -/
structure Charset where
  encode : Character → Option Bytes
  to_utf : Bytes → WString
  encode_half : ∀ u, (IsHigh u || IsLow u) = true → encode (.unit u) = none
  encode_nul : ∀ c b, encode c = some b → 0 ∈ b → c = .unit 0
  to_utf_clean : ∀ b, 0 ∉ b → 0 ∉ to_utf b
  to_utf_encodeAll : ∀ w, (∀ c ∈ characters w, (encode c).isSome) → to_utf (encodeAll encode w) = w

namespace Charset
variable (charset : Charset)

/-- The conversion to the charset, which skips the characters that it lacks. -/
def from_utf (w : WString) : Bytes := encodeAll charset.encode w

/-- The charset has every character of the text. -/
def Represents (w : WString) : Prop := ∀ c ∈ characters w, (charset.encode c).isSome

instance (w : WString) : Decidable (charset.Represents w) := by unfold Represents; infer_instance

/-- What is left of a text without the characters that the charset lacks. -/
def kept (w : WString) : WString := text ((characters w).filter (fun c => (charset.encode c).isSome))

/-- Dropping characters does not join the halves of a pair. -/
theorem characters_kept (w : WString) :
    characters (charset.kept w) = (characters w).filter (fun c => (charset.encode c).isSome) := by
  have unit_kept (u : WChar) (encodes : (charset.encode (.unit u)).isSome) : IsHigh u = false := by
    cases half : IsHigh u with
    | false => rfl
    | true => simp [charset.encode_half u (by simp [half])] at encodes
  unfold kept
  fun_induction characters w with
  | case1 => rfl
  | case2 u =>
    by_cases encodes : (charset.encode (.unit u)).isSome
    · simp [encodes, characters]
    · simp [encodes, characters]
  | case3 high low rest paired ih =>
    by_cases encodes : (charset.encode (.pair high low)).isSome
    · simp [encodes, characters_pair paired, ih]
    · simp [encodes, ih]
  | case4 high low rest single ih =>
    by_cases encodes : (charset.encode (.unit high)).isSome
    · rw [List.filter_cons_of_pos (by exact encodes), text_unit, characters_unit (unit_kept high encodes), ih]
    · rw [List.filter_cons_of_neg (by exact encodes), ih]

theorem represents_kept (w : WString) : charset.Represents (charset.kept w) := by
  intro c member
  rw [characters_kept] at member
  exact (List.mem_filter.mp member).2

theorem from_utf_kept (w : WString) : charset.from_utf (charset.kept w) = charset.from_utf w := by
  unfold from_utf encodeAll
  rw [characters_kept]
  induction characters w with
  | nil => rfl
  | cons c cs ih =>
    cases encoded : charset.encode c with
    | none => simp [encoded, ih]
    | some b => simp [encoded, ih]

/-- Reading the bytes of a text gives what was kept of it. -/
theorem to_utf_from_utf (w : WString) : charset.to_utf (charset.from_utf w) = charset.kept w := by
  rw [← from_utf_kept]
  exact charset.to_utf_encodeAll _ (charset.represents_kept w)

/-- A text survives the conversion exactly when the charset has all its characters. -/
theorem to_utf_from_utf_iff (w : WString) : charset.to_utf (charset.from_utf w) = w ↔ charset.Represents w := by
  constructor
  · intro survives
    rw [to_utf_from_utf] at survives
    rw [← survives]
    exact charset.represents_kept w
  · exact charset.to_utf_encodeAll w

/-- Bytes survive the conversion exactly when they are those of some text. -/
theorem from_utf_to_utf_iff (b : Bytes) : charset.from_utf (charset.to_utf b) = b ↔ ∃ w, charset.from_utf w = b := by
  constructor
  · intro survives
    exact ⟨_, survives⟩
  · rintro ⟨w, rfl⟩
    rw [to_utf_from_utf, from_utf_kept]

theorem from_utf_clean {w : WString} (clean : 0 ∉ w) : 0 ∉ charset.from_utf w := by
  intro member
  obtain ⟨c, inText, inBytes⟩ := List.mem_flatMap.mp member
  cases encoded : charset.encode c with
  | none => simp [encoded] at inBytes
  | some b =>
    have nul := charset.encode_nul c b encoded (by simpa [encoded] using inBytes)
    exact nul_not_mem_characters clean (nul ▸ inText)

end Charset

/-- The 7-bit charset of the "C" locale has one byte for each unit below 128. -/
def asciiByte : Character → Option Bytes
  | .unit u => if u.toNat < 128 then some [UInt8.ofNat u.toNat] else none
  | .pair _ _ => none

/-- Other bytes are invalid there, and skipped. -/
def asciiText (b : Bytes) : WString :=
  (b.filter (fun c => decide (c.toNat < 128))).map (fun c => UInt16.ofNat c.toNat)

theorem asciiByte_eq_some {c : Character} {b : Bytes} (encoded : asciiByte c = some b) :
    ∃ u : WChar, u.toNat < 128 ∧ c = .unit u ∧ b = [UInt8.ofNat u.toNat] := by
  cases c with
  | pair high low => simp [asciiByte] at encoded
  | unit u =>
    by_cases small : u.toNat < 128
    · simp only [asciiByte, small, ↓reduceIte, Option.some.injEq] at encoded
      exact ⟨u, small, rfl, encoded.symm⟩
    · simp [asciiByte, small] at encoded

theorem asciiText_encoded (cs : List Character) (encodes : ∀ c ∈ cs, (asciiByte c).isSome) :
    asciiText (cs.flatMap (fun c => (asciiByte c).getD [])) = text cs := by
  induction cs with
  | nil => rfl
  | cons c cs ih =>
    obtain ⟨b, encoded⟩ := Option.isSome_iff_exists.mp (encodes c (by simp))
    obtain ⟨u, small, rfl, rfl⟩ := asciiByte_eq_some encoded
    have value : (UInt8.ofNat u.toNat).toNat = u.toNat := by simp; omega
    have rest := ih (fun c' member => encodes c' (by simp [member]))
    unfold asciiText at rest ⊢
    rw [List.flatMap_cons, encoded, Option.getD_some, List.singleton_append,
      List.filter_cons_of_pos (by simp only [value, small, decide_true]), List.map_cons, rest, value, text_unit,
      UInt16.ofNat_toNat]

def ascii : Charset where
  encode := asciiByte
  to_utf := asciiText
  encode_half u half := by
    have large : ¬ u.toNat < 128 := by
      simp only [IsHigh, IsLow, Bool.or_eq_true, Bool.and_eq_true, decide_eq_true_eq, UInt16.le_iff_toNat_le] at half
      have surrogate : (0xD800 : UInt16).toNat = 55296 ∧ (0xDC00 : UInt16).toNat = 56320 := by decide
      omega
    simp [asciiByte, large]
  encode_nul c b encoded nul := by
    obtain ⟨u, small, rfl, rfl⟩ := asciiByte_eq_some encoded
    have value := congrArg UInt8.toNat (List.mem_singleton.mp nul)
    have zero : u.toNat = 0 := by
      simp at value
      omega
    have same : u = 0 := UInt16.toNat_inj.mp zero
    rw [same]
  to_utf_clean b clean member := by
    obtain ⟨c, inBytes, zero⟩ := List.mem_map.mp member
    have bound := c.toNat_lt
    have value := congrArg UInt16.toNat zero
    have same : c = 0 := by
      apply UInt8.toNat_inj.mp
      simp at value ⊢
      omega
    exact clean (same ▸ (List.mem_filter.mp inBytes).1)
  to_utf_encodeAll w represented := by
    show asciiText ((characters w).flatMap _) = w
    rw [asciiText_encoded _ represented, text_characters]

end Sysintercept.Charsets
