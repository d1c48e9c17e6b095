import Mathlib.Data.List.DropRight
import Mathlib.Tactic

/-
  Characters of a text: blanks at its ends, and bytes in hexadecimal.

  `trim` takes the white space of Unicode from both ends. What it leaves has none there
  (`trimmed_trim`), and what has none there it leaves alone (`trim_of_trimmed`).
-/
namespace NianPass.Chars

/-- The characters with the property `White_Space`. -/
def isWhitespace (c : Char) : Bool :=
  let n := c.toNat
  (9 ≤ n && n ≤ 13) || n = 0x20 || n = 0x85 || n = 0xA0 || n = 0x1680 || (0x2000 ≤ n && n ≤ 0x200A) ||
    n = 0x2028 || n = 0x2029 || n = 0x202F || n = 0x205F || n = 0x3000

/-- Nothing but white space. -/
def isBlank (value : String) : Bool := value.toList.all isWhitespace

def trim (chars : List Char) : List Char :=
  (chars.dropWhile isWhitespace).rdropWhile isWhitespace

/-- No white space at either end. -/
def Trimmed (chars : List Char) : Prop :=
  chars.head?.all (! isWhitespace ·) = true ∧ chars.getLast?.all (! isWhitespace ·) = true

instance (chars : List Char) : Decidable (Trimmed chars) := inferInstanceAs (Decidable (_ ∧ _))

variable {chars other : List Char}

theorem head_of_prefix (hinit : other <+: chars) (h : chars.head?.all (! isWhitespace ·) = true) :
    other.head?.all (! isWhitespace ·) = true := by
  obtain ⟨rest, rfl⟩ := hinit
  cases other with
  | nil => rfl
  | cons c other => exact h

theorem trimmed_trim : Trimmed (trim chars) := by
  unfold trim
  constructor
  · apply head_of_prefix (List.rdropWhile_prefix _ _)
    have hhead := List.head?_dropWhile_not isWhitespace chars
    cases h : (chars.dropWhile isWhitespace).head? with
    | none => rfl
    | some c =>
      rw [h] at hhead
      simp [hhead]
  · cases h : ((chars.dropWhile isWhitespace).rdropWhile isWhitespace).getLast? with
    | none => rfl
    | some c =>
      obtain ⟨hne, rfl⟩ := List.mem_getLast?_eq_getLast (Option.mem_def.mpr h)
      simpa using List.rdropWhile_last_not isWhitespace _ hne

theorem trim_of_trimmed (h : Trimmed chars) : trim chars = chars := by
  unfold trim
  obtain ⟨hhead, hlast⟩ := h
  have hdrop : chars.dropWhile isWhitespace = chars := by
    cases chars with
    | nil => rfl
    | cons c chars => exact List.dropWhile_cons_of_neg (by simpa using hhead)
  rw [hdrop, List.rdropWhile_eq_self_iff]
  intro hne
  rw [List.getLast?_eq_some_getLast hne] at hlast
  simpa using hlast

theorem trim_trim (chars : List Char) : trim (trim chars) = trim chars :=
  trim_of_trimmed trimmed_trim

theorem trim_sublist (chars : List Char) : (trim chars).Sublist chars :=
  (List.rdropWhile_prefix _ _).sublist.trans (List.dropWhile_sublist isWhitespace)

/-! ## Hexadecimal -/

/-- One byte, with a leading zero. -/
def hexByte (byte : UInt8) : List Char :=
  [Nat.digitChar (byte.toNat / 16), Nat.digitChar (byte.toNat % 16)]

@[simp] theorem length_hexByte (byte : UInt8) : (hexByte byte).length = 2 := rfl

theorem digitChar_hex {n : Nat} (h : n < 16) :
    ((Nat.digitChar n).isDigit || ('a' ≤ Nat.digitChar n && Nat.digitChar n ≤ 'f')) = true := by
  interval_cases n <;> decide

theorem hex_of_mem_hexByte {byte : UInt8} {c : Char} (h : c ∈ hexByte byte) :
    (c.isDigit || ('a' ≤ c && c ≤ 'f')) = true := by
  have hbyte : byte.toNat < 256 := byte.toNat_lt
  simp only [hexByte, List.mem_cons, List.not_mem_nil, or_false] at h
  obtain rfl | rfl := h
  · exact digitChar_hex (by omega)
  · exact digitChar_hex (by omega)

end NianPass.Chars
