import Mathlib.Tactic

/-
  Unsigned numbers of a fixed width as bytes, the most significant byte first.

  `ofBytes` reads a list of bytes as a number and `toBytes k n` writes the low
  `k` bytes of `n`. They are inverse to each other on lists of length `k` and
  numbers below `256 ^ k`. The other byte order is `List.reverse` of these.

  A list that is written behind its length in a fixed number of bytes ends where it says, so a
  sequence of such lists has one reading (`counted_append_inj`).
-/
namespace NianPass.Endian

/-- The number a list of bytes spells. -/
def ofBytes (bytes : List UInt8) : Nat :=
  bytes.foldl (fun value byte => value * 256 + byte.toNat) 0

/-- The low `k` bytes of `n`. -/
def toBytes : Nat → Nat → List UInt8
  | 0, _ => []
  | k + 1, n => toBytes k (n / 256) ++ [UInt8.ofNat (n % 256)]

variable {bytes : List UInt8} {k m n : Nat}

@[simp] theorem length_toBytes (k n : Nat) : (toBytes k n).length = k := by
  induction k generalizing n with
  | zero => rfl
  | succ k ih => rw [toBytes, List.length_append, ih, List.length_singleton]

theorem ofBytes_concat (bytes : List UInt8) (byte : UInt8) :
    ofBytes (bytes ++ [byte]) = ofBytes bytes * 256 + byte.toNat := by
  rw [ofBytes, List.foldl_append]
  rfl

theorem ofBytes_lt (bytes : List UInt8) : ofBytes bytes < 256 ^ bytes.length := by
  induction bytes using List.reverseRecOn with
  | nil => simp [ofBytes]
  | append_singleton bytes byte ih =>
    have hbyte : byte.toNat < 256 := byte.toNat_lt
    rw [ofBytes_concat, List.length_append, List.length_singleton, pow_succ]
    omega

theorem ofBytes_toBytes (k n : Nat) : ofBytes (toBytes k n) = n % 256 ^ k := by
  induction k generalizing n with
  | zero => simp [toBytes, ofBytes, Nat.mod_one]
  | succ k ih =>
    calc ofBytes (toBytes (k + 1) n)
        = n / 256 % 256 ^ k * 256 + n % 256 := by rw [toBytes, ofBytes_concat, ih]; simp
      _ = n % 256 + 256 * (n / 256 % 256 ^ k) := by omega
      _ = n % 256 ^ (k + 1) := by rw [← Nat.mod_mul, pow_succ']

theorem ofBytes_toBytes_of_lt (h : n < 256 ^ k) : ofBytes (toBytes k n) = n := by
  rw [ofBytes_toBytes, Nat.mod_eq_of_lt h]

theorem toBytes_ofBytes (bytes : List UInt8) : toBytes bytes.length (ofBytes bytes) = bytes := by
  induction bytes using List.reverseRecOn with
  | nil => rfl
  | append_singleton bytes byte ih =>
    have hbyte : byte.toNat < 256 := byte.toNat_lt
    have hhigh : (ofBytes bytes * 256 + byte.toNat) / 256 = ofBytes bytes := by omega
    have hlow : (ofBytes bytes * 256 + byte.toNat) % 256 = byte.toNat := by omega
    rw [ofBytes_concat, List.length_append, List.length_singleton, toBytes, hhigh, hlow, ih,
      UInt8.ofNat_toNat]

/-- Numbers that fit are told apart by their bytes. -/
theorem toBytes_injective (hm : m < 256 ^ k) (hn : n < 256 ^ k)
    (h : toBytes k m = toBytes k n) : m = n := by
  have := congrArg ofBytes h
  rwa [ofBytes_toBytes_of_lt hm, ofBytes_toBytes_of_lt hn] at this

/-! ## Lists behind their length -/

/-- A list of bytes behind its length in `k` bytes. -/
def counted (k : Nat) (bytes : List UInt8) : List UInt8 := toBytes k bytes.length ++ bytes

/-- Where a list ends is written in front of it, so it can be told from what follows. -/
theorem counted_append_inj {others rest rest' : List UInt8} (hbytes : bytes.length < 256 ^ k)
    (hothers : others.length < 256 ^ k) :
    counted k bytes ++ rest = counted k others ++ rest' ↔ bytes = others ∧ rest = rest' := by
  constructor
  · intro h
    rw [counted, counted, List.append_assoc, List.append_assoc] at h
    obtain ⟨hcount, hafter⟩ := List.append_inj h (by rw [length_toBytes, length_toBytes])
    exact List.append_inj hafter (toBytes_injective hbytes hothers hcount)
  · rintro ⟨rfl, rfl⟩
    rfl

end NianPass.Endian
