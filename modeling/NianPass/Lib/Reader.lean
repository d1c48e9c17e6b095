import Mathlib.Tactic

/-
  A source of bytes that hands them out in pieces of its own choice.

  A `Reader` is the list of what its next reads will meet: a piece with at least
  one byte, or a failure. `read n` returns `n` bytes at most and never looks
  beyond one piece, and nothing at the end. `readExact n` reads until it has `n`
  bytes: it goes on after an interruption, and fails at the end or at any other
  failure.

  How the bytes are cut into pieces makes no difference to `readExact` on a
  reader that does not fail (`readExact_quiet`), and on any reader what it
  returns is what comes next (`readExact_ok`).
-/
namespace NianPass

inductive ReadError where
  | unexpectedEof
  | interrupted
  | other
  deriving DecidableEq, Repr

namespace Reader

/-- What one read meets. -/
inductive Piece where
  | data (first : UInt8) (rest : List UInt8)
  | failed (error : ReadError)
  deriving DecidableEq, Repr

end Reader

abbrev Reader := List Reader.Piece

namespace Reader

/-- The bytes a piece brings. -/
def Piece.bytes : Piece → List UInt8
  | .data first rest => first :: rest
  | .failed _ => []

/-- All bytes to come. -/
def bytes (reader : Reader) : List UInt8 := reader.flatMap Piece.bytes

/-- The reader of `bytes` followed by what `reader` has. -/
def before (bytes : List UInt8) (reader : Reader) : Reader :=
  match bytes with
  | [] => reader
  | first :: rest => .data first rest :: reader

def read (n : Nat) : Reader → Except ReadError (List UInt8) × Reader
  | [] => (.ok [], [])
  | .data first rest :: later =>
    (.ok ((first :: rest).take n), before ((first :: rest).drop n) later)
  | .failed error :: later => (.error error, later)

def readExact (n : Nat) : Reader → Except ReadError (List UInt8) × Reader
  | [] => if n = 0 then (.ok [], []) else (.error .unexpectedEof, [])
  | .data first rest :: later =>
    if n ≤ rest.length + 1 then
      (.ok ((first :: rest).take n), before ((first :: rest).drop n) later)
    else
      let (result, later) := readExact (n - (rest.length + 1)) later
      (result.map (first :: rest ++ ·), later)
  | .failed error :: later =>
    if n = 0 then (.ok [], .failed error :: later)
    else if error = .interrupted then readExact n later
    else (.error error, later)

/-- No read fails. -/
def Quiet (reader : Reader) : Prop := ∀ error, Piece.failed error ∉ reader

variable {reader later : Reader} {n : Nat} {found : List UInt8}

@[simp] theorem bytes_nil : bytes [] = [] := rfl

@[simp] theorem bytes_cons (piece : Piece) (reader : Reader) :
    bytes (piece :: reader) = piece.bytes ++ bytes reader := rfl

@[simp] theorem bytes_before (start : List UInt8) (reader : Reader) :
    (before start reader).bytes = start ++ reader.bytes := by
  cases start <;> rfl

theorem Quiet.tail {piece : Piece} (h : Quiet (piece :: reader)) : Quiet reader :=
  fun error hmem => h error (List.mem_cons_of_mem piece hmem)

theorem Quiet.before {start : List UInt8} (h : Quiet reader) : Quiet (before start reader) := by
  intro error hmem
  cases start with
  | nil => exact h error hmem
  | cons first rest =>
    rcases List.mem_cons.mp hmem with heq | hmem
    · cases heq
    · exact h error hmem

theorem readExact_zero (reader : Reader) : readExact 0 reader = (.ok [], reader) := by
  cases reader with
  | nil => rfl
  | cons piece rest => cases piece <;> rfl

/-- `readExact` is the loop over `read`: nothing more is asked for when `n` bytes are there, no
byte means the end, and an interruption is no failure. -/
theorem readExact_loop (n : Nat) (reader : Reader) : readExact (n + 1) reader =
    match read (n + 1) reader with
    | (.ok [], later) => (.error .unexpectedEof, later)
    | (.ok found, later) =>
      let (result, last) := readExact (n + 1 - found.length) later
      (result.map (found ++ ·), last)
    | (.error error, later) =>
      if error = .interrupted then readExact (n + 1) later else (.error error, later) := by
  cases reader with
  | nil => rfl
  | cons piece rest =>
    cases piece with
    | data first bytes =>
      rw [readExact, read, List.take_succ_cons, List.drop_succ_cons]
      by_cases hin : n + 1 ≤ bytes.length + 1
      · have hlength : n + 1 - (first :: bytes.take n).length = 0 := by
          rw [List.length_cons, List.length_take]
          omega
        rw [if_pos hin]
        simp only [hlength, readExact_zero, Except.map, List.append_nil]
      · have htake : bytes.take n = bytes := List.take_of_length_le (by omega)
        have hdrop : bytes.drop n = [] := List.drop_of_length_le (by omega)
        rw [if_neg hin, htake, hdrop]
        rfl
    | failed error => rfl

/-- What a read returns comes next, and the rest comes after it. -/
theorem read_ok (h : read n reader = (.ok found, later)) :
    reader.bytes = found ++ later.bytes ∧ found.length ≤ n := by
  cases reader with
  | nil =>
    obtain ⟨hfound, rfl⟩ := Prod.mk.inj h
    cases hfound
    exact ⟨rfl, Nat.zero_le n⟩
  | cons piece rest =>
    cases piece with
    | data first bytes =>
      obtain ⟨hfound, rfl⟩ := Prod.mk.inj h
      cases hfound
      refine ⟨?_, List.length_take_le n _⟩
      rw [bytes_before, ← List.append_assoc, List.take_append_drop]
      rfl
    | failed error => cases (Prod.mk.inj h).1

/-- What `readExact` returns is what comes next, `n` bytes of it. -/
theorem readExact_ok (h : readExact n reader = (.ok found, later)) :
    reader.bytes = found ++ later.bytes ∧ found.length = n := by
  induction reader generalizing n found with
  | nil =>
    rw [readExact] at h
    split at h
    · case isTrue hn =>
      obtain ⟨hfound, rfl⟩ := Prod.mk.inj h
      cases hfound
      exact ⟨rfl, hn.symm⟩
    · cases (Prod.mk.inj h).1
  | cons piece rest ih =>
    cases piece with
    | data first bytes =>
      rw [readExact] at h
      split at h
      · case isTrue hn =>
        obtain ⟨hfound, rfl⟩ := Prod.mk.inj h
        cases hfound
        refine ⟨?_, by rw [List.length_take, List.length_cons]; omega⟩
        rw [bytes_before, ← List.append_assoc, List.take_append_drop]
        rfl
      · case isFalse hn =>
        cases hrest : readExact (n - (bytes.length + 1)) rest with
        | mk result last =>
          rw [hrest] at h
          obtain ⟨hfound, rfl⟩ := Prod.mk.inj h
          cases result with
          | error e => cases hfound
          | ok more =>
            cases hfound
            obtain ⟨hbytes, hlength⟩ := ih hrest
            refine ⟨?_, ?_⟩
            · rw [bytes_cons, Piece.bytes, hbytes, List.append_assoc]
            · rw [List.length_append, List.length_cons, hlength]
              omega
    | failed error =>
      rw [readExact] at h
      split at h
      · case isTrue hn =>
        obtain ⟨hfound, rfl⟩ := Prod.mk.inj h
        cases hfound
        exact ⟨rfl, hn.symm⟩
      · split at h
        · exact ih h
        · cases (Prod.mk.inj h).1

/-- A reader that does not fail and has enough hands out the next `n` bytes, in whatever pieces
they come. -/
theorem readExact_quiet (hquiet : Quiet reader) (hn : n ≤ reader.bytes.length) :
    ∃ later, readExact n reader = (.ok (reader.bytes.take n), later) ∧
      later.bytes = reader.bytes.drop n ∧ Quiet later := by
  induction reader generalizing n with
  | nil =>
    obtain rfl : n = 0 := by simpa using hn
    exact ⟨[], rfl, rfl, hquiet⟩
  | cons piece rest ih =>
    cases piece with
    | data first bytes =>
      rw [readExact]
      by_cases hin : n ≤ bytes.length + 1
      · rw [if_pos hin]
        refine ⟨before ((first :: bytes).drop n) rest, ?_, ?_, hquiet.tail.before⟩
        · rw [bytes_cons, Piece.bytes, List.take_append_of_le_length (by simpa using hin)]
        · rw [bytes_before, bytes_cons, Piece.bytes,
            List.drop_append_of_le_length (by simpa using hin)]
      · rw [if_neg hin]
        rw [bytes_cons, Piece.bytes, List.length_append, List.length_cons] at hn
        obtain ⟨later, hrest, hbytes, hlater⟩ :=
          @ih (n - (bytes.length + 1)) hquiet.tail (by omega)
        have hlong : (first :: bytes).length ≤ n := by
          rw [List.length_cons]
          omega
        refine ⟨later, ?_, ?_, hlater⟩
        · rw [hrest, bytes_cons, Piece.bytes, List.take_append, List.take_of_length_le hlong]
          rfl
        · rw [hbytes, bytes_cons, Piece.bytes, List.drop_append, List.drop_of_length_le hlong]
          rfl
    | failed error => exact absurd List.mem_cons_self (hquiet error)

end Reader

end NianPass
