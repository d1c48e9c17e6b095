import NianPass.Kdbx.Model
import Mathlib.Tactic

/-
  The autofill configuration on Android: `AutofillMetadataStore` and its codec.

  A bookmark of the vault and the apps trusted with it are written in a binary
  format, encrypted and put into one file. Texts are sequences of UTF-16 code
  units, as in Kotlin; writing one replaces a surrogate that has no partner by a
  question mark.

  The writer takes more than the reader: any number of associations, an empty
  source, a text with a lone surrogate. `metadata_survives_iff` says exactly what
  comes back.
-/
namespace NianPass.Android

open Kdbx (Bytes)

/-! ## UTF-8 -/

/-- A Kotlin string. -/
abbrev Text := List UInt16

def isHighSurrogate (unit : UInt16) : Bool := 0xD800 ≤ unit.toNat && unit.toNat < 0xDC00
def isLowSurrogate (unit : UInt16) : Bool := 0xDC00 ≤ unit.toNat && unit.toNat < 0xE000

/-- What the encoder makes of a unit without a partner. -/
def codePoint (unit : UInt16) : Nat :=
  if isHighSurrogate unit || isLowSurrogate unit then '?'.toNat else unit.toNat

def codePoints : Text → List Nat
  | [] => []
  | [unit] => [codePoint unit]
  | unit :: next :: rest =>
    if isHighSurrogate unit && isLowSurrogate next then
      (0x10000 + (unit.toNat - 0xD800) * 0x400 + (next.toNat - 0xDC00)) :: codePoints rest
    else codePoint unit :: codePoints (next :: rest)

def utf16 (point : Nat) : Text :=
  if point < 0x10000 then [UInt16.ofNat point]
  else [UInt16.ofNat (0xD800 + (point - 0x10000) / 0x400), UInt16.ofNat (0xDC00 + (point - 0x10000) % 0x400)]

def utf8 (point : Nat) : Bytes :=
  if point < 0x80 then [UInt8.ofNat point]
  else if point < 0x800 then [UInt8.ofNat (0xC0 + point / 0x40), UInt8.ofNat (0x80 + point % 0x40)]
  else if point < 0x10000 then
    [UInt8.ofNat (0xE0 + point / 0x1000), UInt8.ofNat (0x80 + point / 0x40 % 0x40),
      UInt8.ofNat (0x80 + point % 0x40)]
  else
    [UInt8.ofNat (0xF0 + point / 0x40000), UInt8.ofNat (0x80 + point / 0x1000 % 0x40),
      UInt8.ofNat (0x80 + point / 0x40 % 0x40), UInt8.ofNat (0x80 + point % 0x40)]

/-- A sequence that has begun: the bits read, the bytes to come and the bounds of the next one. -/
structure Pending where
  point : Nat
  needed : Nat
  lower : Nat
  upper : Nat
deriving DecidableEq

/-- A first byte is a character of its own, begins a sequence or is replaced. -/
def announce (byte : Nat) : Nat ⊕ Pending :=
  if byte < 0x80 then .inl byte
  else if byte < 0xC2 then .inl 0xFFFD
  else if byte < 0xE0 then .inr ⟨byte - 0xC0, 1, 0x80, 0xBF⟩
  else if byte < 0xF0 then
    -- the bounds keep out the overlong forms and the surrogates
    .inr ⟨byte - 0xE0, 2, if byte = 0xE0 then 0xA0 else 0x80, if byte = 0xED then 0x9F else 0xBF⟩
  else if byte < 0xF5 then
    .inr ⟨byte - 0xF0, 3, if byte = 0xF0 then 0x90 else 0x80, if byte = 0xF4 then 0x8F else 0xBF⟩
  else .inl 0xFFFD

/-- A byte that breaks a sequence off is read again as a first byte. -/
def decodeFrom : Option Pending → Bytes → List Nat
  | none, [] => []
  | some _, [] => [0xFFFD]
  | none, byte :: rest =>
    match announce byte.toNat with
    | .inl point => point :: decodeFrom none rest
    | .inr pending => decodeFrom (some pending) rest
  | some pending, byte :: rest =>
    if pending.lower ≤ byte.toNat ∧ byte.toNat ≤ pending.upper then
      let point := pending.point * 0x40 + (byte.toNat - 0x80)
      if pending.needed = 1 then point :: decodeFrom none rest
      else decodeFrom (some ⟨point, pending.needed - 1, 0x80, 0xBF⟩) rest
    else
      match announce byte.toNat with
      | .inl point => 0xFFFD :: point :: decodeFrom none rest
      | .inr pending => 0xFFFD :: decodeFrom (some pending) rest

def encodeUtf8 (text : Text) : Bytes := (codePoints text).flatMap utf8

def decodeUtf8 (bytes : Bytes) : Text := (decodeFrom none bytes).flatMap utf16

/-- The code points that are characters. -/
def IsScalar (point : Nat) : Prop := point < 0xD800 ∨ 0xE000 ≤ point ∧ point < 0x110000

section Utf8
variable {point number : Nat} {pending : Pending} {rest : Bytes}

theorem toNat_ofNat (h : number < 0x100) : (UInt8.ofNat number).toNat = number := by
  simp
  omega

theorem decodeFrom_first (h : number < 0x100) (hfirst : announce number = .inr pending) :
    decodeFrom none (UInt8.ofNat number :: rest) = decodeFrom (some pending) rest := by
  rw [decodeFrom, toNat_ofNat h, hfirst]

theorem decodeFrom_next (h : number < 0x40) (hlower : pending.lower ≤ 0x80 + number)
    (hupper : 0x80 + number ≤ pending.upper) (hneeded : pending.needed ≠ 1) :
    decodeFrom (some pending) (UInt8.ofNat (0x80 + number) :: rest) =
      decodeFrom (some ⟨pending.point * 0x40 + number, pending.needed - 1, 0x80, 0xBF⟩) rest := by
  rw [decodeFrom, toNat_ofNat (by omega), if_pos ⟨hlower, hupper⟩]
  simp only [if_neg hneeded, Nat.add_sub_cancel_left]

theorem decodeFrom_last (h : number < 0x40) (hlower : pending.lower ≤ 0x80 + number)
    (hupper : 0x80 + number ≤ pending.upper) (hneeded : pending.needed = 1) :
    decodeFrom (some pending) (UInt8.ofNat (0x80 + number) :: rest) =
      (pending.point * 0x40 + number) :: decodeFrom none rest := by
  rw [decodeFrom, toNat_ofNat (by omega), if_pos ⟨hlower, hupper⟩]
  simp only [if_pos hneeded, Nat.add_sub_cancel_left]

theorem decodeFrom_utf8 (h : IsScalar point) (rest : Bytes) :
    decodeFrom none (utf8 point ++ rest) = point :: decodeFrom none rest := by
  have hlow : point % 0x40 < 0x40 := Nat.mod_lt _ (by omega)
  have hmiddle : point / 0x40 % 0x40 < 0x40 := Nat.mod_lt _ (by omega)
  have hhigh : point / 0x1000 % 0x40 < 0x40 := Nat.mod_lt _ (by omega)
  have hbound : point < 0x110000 := by
    rcases h with h | h
    · omega
    · exact h.2
  unfold utf8
  split_ifs with h1 h2 h3
  · rw [List.singleton_append, decodeFrom, toNat_ofNat (by omega), announce, if_pos h1]
  · have hfirst : announce (0xC0 + point / 0x40) = .inr ⟨point / 0x40, 1, 0x80, 0xBF⟩ := by
      rw [announce, if_neg (by omega), if_neg (by omega), if_pos (by omega), Nat.add_sub_cancel_left]
    show decodeFrom none (_ :: _ :: rest) = _
    rw [decodeFrom_first (by omega) hfirst, decodeFrom_last hlow (by simp) (by simp; omega) rfl]
    congr 1
    simp only []
    omega
  · have hfirst : announce (0xE0 + point / 0x1000) = .inr ⟨point / 0x1000, 2,
        if 0xE0 + point / 0x1000 = 0xE0 then 0xA0 else 0x80,
        if 0xE0 + point / 0x1000 = 0xED then 0x9F else 0xBF⟩ := by
      rw [announce, if_neg (by omega), if_neg (by omega), if_neg (by omega), if_pos (by omega),
        Nat.add_sub_cancel_left]
    show decodeFrom none (_ :: _ :: _ :: rest) = _
    rw [decodeFrom_first (by omega) hfirst, decodeFrom_next hmiddle (by simp only []; split_ifs <;> omega)
      (by rcases h with h | h <;> simp only [] <;> split_ifs <;> omega) (by simp),
      decodeFrom_last hlow (by simp) (by simp; omega) rfl]
    congr 1
    simp only []
    omega
  · have hfirst : announce (0xF0 + point / 0x40000) = .inr ⟨point / 0x40000, 3,
        if 0xF0 + point / 0x40000 = 0xF0 then 0x90 else 0x80,
        if 0xF0 + point / 0x40000 = 0xF4 then 0x8F else 0xBF⟩ := by
      rw [announce, if_neg (by omega), if_neg (by omega), if_neg (by omega), if_neg (by omega),
        if_pos (by omega), Nat.add_sub_cancel_left]
    show decodeFrom none (_ :: _ :: _ :: _ :: rest) = _
    rw [decodeFrom_first (by omega) hfirst, decodeFrom_next hhigh (by simp only []; split_ifs <;> omega)
      (by simp only []; split_ifs <;> omega) (by simp), decodeFrom_next hmiddle (by simp) (by simp; omega)
      (by simp), decodeFrom_last hlow (by simp) (by simp; omega) rfl]
    congr 1
    simp only []
    omega

theorem decodeFrom_flatMap {points : List Nat} (h : ∀ point ∈ points, IsScalar point) :
    decodeFrom none (points.flatMap utf8) = points := by
  induction points with
  | nil => rfl
  | cons point points ih =>
    rw [List.flatMap_cons, decodeFrom_utf8 (h point List.mem_cons_self),
      ih fun point hmem => h point (List.mem_cons_of_mem _ hmem)]

theorem isScalar_codePoint (unit : UInt16) : IsScalar (codePoint unit) := by
  have hunit := unit.toNat_lt
  unfold codePoint isHighSurrogate isLowSurrogate IsScalar
  split_ifs with h
  · exact .inl (by decide)
  · simp only [Bool.or_eq_true, Bool.and_eq_true, decide_eq_true_eq] at h
    omega

theorem isScalar_codePoints (text : Text) : ∀ point ∈ codePoints text, IsScalar point := by
  fun_induction codePoints text with
  | case1 => simp
  | case2 unit => simpa using isScalar_codePoint unit
  | case3 unit next rest h ih =>
    simp only [List.mem_cons, forall_eq_or_imp]
    refine ⟨?_, ih⟩
    simp only [isHighSurrogate, isLowSurrogate, Bool.and_eq_true, decide_eq_true_eq] at h
    refine .inr ⟨?_, ?_⟩ <;> omega
  | case4 unit next rest h ih =>
    simp only [List.mem_cons, forall_eq_or_imp] at ih ⊢
    exact ⟨isScalar_codePoint unit, ih⟩

/-- A text as it comes back. -/
def Text.replaced (text : Text) : Text := (codePoints text).flatMap utf16

theorem decodeUtf8_encodeUtf8 (text : Text) : decodeUtf8 (encodeUtf8 text) = text.replaced := by
  rw [decodeUtf8, encodeUtf8, decodeFrom_flatMap (isScalar_codePoints text), Text.replaced]

/-- Every surrogate has its partner. -/
def Text.wellFormed : Text → Bool
  | [] => true
  | [unit] => !(isHighSurrogate unit || isLowSurrogate unit)
  | unit :: next :: rest =>
    if isHighSurrogate unit && isLowSurrogate next then Text.wellFormed rest
    else !(isHighSurrogate unit || isLowSurrogate unit) && Text.wellFormed (next :: rest)

theorem utf16_codePoint (unit : UInt16) :
    utf16 (codePoint unit) = [UInt16.ofNat (codePoint unit)] := by
  have hunit := unit.toNat_lt
  rw [utf16, if_pos]
  unfold codePoint
  split_ifs
  · decide
  · exact hunit

theorem ofNat_codePoint (unit : UInt16) :
    UInt16.ofNat (codePoint unit) = unit ↔
      (!(isHighSurrogate unit || isLowSurrogate unit)) = true := by
  unfold codePoint
  split_ifs with h
  · rw [h]
    simp only [Bool.not_true, Bool.false_eq_true, iff_false]
    intro heq
    rw [← heq] at h
    revert h
    decide
  · simp only [Bool.not_eq_true] at h
    simp [h]

theorem utf16_pair {unit next : UInt16} (h : (isHighSurrogate unit && isLowSurrogate next) = true) :
    utf16 (0x10000 + (unit.toNat - 0xD800) * 0x400 + (next.toNat - 0xDC00)) = [unit, next] := by
  simp only [isHighSurrogate, isLowSurrogate, Bool.and_eq_true, decide_eq_true_eq] at h
  have hhigh : 0xD800 + (0x10000 + (unit.toNat - 0xD800) * 0x400 + (next.toNat - 0xDC00) - 0x10000) /
      0x400 = unit.toNat := by omega
  have hlow : 0xDC00 + (0x10000 + (unit.toNat - 0xD800) * 0x400 + (next.toNat - 0xDC00) - 0x10000) %
      0x400 = next.toNat := by omega
  rw [utf16, if_neg (by omega), hhigh, hlow, UInt16.ofNat_toNat, UInt16.ofNat_toNat]

theorem Text.replaced_eq_iff (text : Text) : text.replaced = text ↔ text.wellFormed = true := by
  unfold Text.replaced
  fun_induction codePoints text with
  | case1 => simp [Text.wellFormed]
  | case2 unit =>
    rw [List.flatMap_singleton, utf16_codePoint, List.singleton_inj, ofNat_codePoint, Text.wellFormed]
  | case3 unit next rest h ih =>
    rw [List.flatMap_cons, utf16_pair h, Text.wellFormed, if_pos h, ← ih]
    simp
  | case4 unit next rest h ih =>
    rw [List.flatMap_cons, utf16_codePoint, Text.wellFormed, if_neg h, List.singleton_append,
      List.cons.injEq, ofNat_codePoint, ih, Bool.and_eq_true]

theorem wellFormed_cons {unit : UInt16} (h : isHighSurrogate unit = false) (h' : isLowSurrogate unit = false)
    (rest : Text) : Text.wellFormed (unit :: rest) = Text.wellFormed rest := by
  cases rest with
  | nil => simp [Text.wellFormed, h, h']
  | cons next rest => simp [Text.wellFormed, h, h']

theorem wellFormed_utf16 (h : IsScalar point) (rest : Text) :
    Text.wellFormed (utf16 point ++ rest) = Text.wellFormed rest := by
  unfold utf16
  split_ifs with hplane
  · have hunit : (UInt16.ofNat point).toNat = point := by
      simp
      omega
    unfold IsScalar at h
    apply wellFormed_cons
    · rw [isHighSurrogate, hunit]
      simp
      omega
    · rw [isLowSurrogate, hunit]
      simp
      omega
  · have hbound : point < 0x110000 := by
      rcases h with h | h
      · omega
      · exact h.2
    have hhigh : (UInt16.ofNat (0xD800 + (point - 0x10000) / 0x400)).toNat =
        0xD800 + (point - 0x10000) / 0x400 := by
      simp
      omega
    have hlow : (UInt16.ofNat (0xDC00 + (point - 0x10000) % 0x400)).toNat =
        0xDC00 + (point - 0x10000) % 0x400 := by
      simp
      omega
    show Text.wellFormed (_ :: _ :: rest) = _
    rw [Text.wellFormed, if_pos]
    rw [isHighSurrogate, isLowSurrogate, hhigh, hlow]
    simp
    omega

theorem Text.replaced_wellFormed (text : Text) : text.replaced.wellFormed = true := by
  unfold Text.replaced
  have hscalar := isScalar_codePoints text
  generalize codePoints text = points at hscalar
  induction points with
  | nil => rfl
  | cons point points ih =>
    rw [List.flatMap_cons, wellFormed_utf16 (hscalar point List.mem_cons_self)]
    exact ih fun point hmem => hscalar point (List.mem_cons_of_mem _ hmem)

@[simp] theorem Text.replaced_eq_nil (text : Text) : text.replaced = [] ↔ text = [] := by
  unfold Text.replaced
  fun_cases codePoints text with
  | case1 => simp
  | case2 unit => simp [utf16_codePoint]
  | case3 unit next rest h => simp [utf16_pair h]
  | case4 unit next rest h => simp [utf16_codePoint]

end Utf8

/-! ## The codec -/

structure AutofillAssociation where
  packageName : Text
  signingIdentity : Text
deriving DecidableEq

structure AutofillMetadata where
  sourceUri : Text
  grantFlags : BitVec 32
  displayName : Text
  associations : List AutofillAssociation
deriving DecidableEq

/-- An association as it comes back. -/
def AutofillAssociation.replaced (association : AutofillAssociation) : AutofillAssociation :=
  ⟨association.packageName.replaced, association.signingIdentity.replaced⟩

/-- What comes back, if anything does. -/
def AutofillMetadata.replaced (value : AutofillMetadata) : AutofillMetadata :=
  ⟨value.sourceUri.replaced, value.grantFlags, value.displayName.replaced,
    value.associations.map AutofillAssociation.replaced⟩

namespace AutofillMetadataCodec

def SCHEMA : BitVec 32 := 1
def MAX_TEXT : Nat := 16384
def MAX_ASSOCIATIONS : Nat := 1024

def writeInt (number : BitVec 32) : Bytes :=
  [UInt8.ofNat (number.toNat / 0x1000000), UInt8.ofNat (number.toNat / 0x10000 % 0x100),
    UInt8.ofNat (number.toNat / 0x100 % 0x100), UInt8.ofNat (number.toNat % 0x100)]

def readInt : Bytes → Option (BitVec 32 × Bytes)
  | first :: second :: third :: fourth :: rest =>
    some (BitVec.ofNat 32 (first.toNat * 0x1000000 + second.toNat * 0x10000 + third.toNat * 0x100 +
      fourth.toNat), rest)
  | _ => none

/-- `number in 0..max` -/
def inRange (number : BitVec 32) (max : Nat) : Bool :=
  decide (0 ≤ number.toInt) && decide (number.toInt ≤ max)

def writeText (value : Text) : Option Bytes :=
  let bytes := encodeUtf8 value
  if MAX_TEXT < bytes.length then none
  else some (writeInt (BitVec.ofNat 32 bytes.length) ++ bytes)

def readText (bytes : Bytes) : Option (Text × Bytes) := do
  let (length, rest) ← readInt bytes
  if !inRange length MAX_TEXT || decide (rest.length < length.toNat) then none
  else some (decodeUtf8 (rest.take length.toNat), rest.drop length.toNat)

def writeAssociations : List AutofillAssociation → Option Bytes
  | [] => some []
  | association :: rest => do
    let packageName ← writeText association.packageName
    let signingIdentity ← writeText association.signingIdentity
    let bytes ← writeAssociations rest
    some (packageName ++ (signingIdentity ++ bytes))

def readAssociations : Nat → Bytes → Option (List AutofillAssociation × Bytes)
  | 0, bytes => some ([], bytes)
  | count + 1, bytes => do
    let (packageName, bytes) ← readText bytes
    let (signingIdentity, bytes) ← readText bytes
    let (associations, bytes) ← readAssociations count bytes
    some (⟨packageName, signingIdentity⟩ :: associations, bytes)

def encode (value : AutofillMetadata) : Option Bytes := do
  let sourceUri ← writeText value.sourceUri
  let displayName ← writeText value.displayName
  let associations ← writeAssociations value.associations
  some (writeInt SCHEMA ++ (sourceUri ++ (writeInt value.grantFlags ++ (displayName ++
    (writeInt (BitVec.ofNat 32 value.associations.length) ++ associations)))))

def decode (bytes : Bytes) : Option AutofillMetadata := do
  let (schema, bytes) ← readInt bytes
  if schema ≠ SCHEMA then none
  else do
    let (sourceUri, bytes) ← readText bytes
    let (grantFlags, bytes) ← readInt bytes
    let (displayName, bytes) ← readText bytes
    let (count, bytes) ← readInt bytes
    if !inRange count MAX_ASSOCIATIONS then none
    else do
      let (associations, bytes) ← readAssociations count.toNat bytes
      if bytes ≠ [] ∨ sourceUri = [] then none
      else some ⟨sourceUri, grantFlags, displayName, associations⟩

section Codec
variable {bytes : Bytes} {value : AutofillMetadata}

theorem readInt_writeInt (number : BitVec 32) (rest : Bytes) :
    readInt (writeInt number ++ rest) = some (number, rest) := by
  have hnumber := number.isLt
  show some (_, rest) = _
  rw [toNat_ofNat (by omega), toNat_ofNat (by omega), toNat_ofNat (by omega), toNat_ofNat (by omega)]
  have hsum : number.toNat / 0x1000000 * 0x1000000 + number.toNat / 0x10000 % 0x100 * 0x10000 +
      number.toNat / 0x100 % 0x100 * 0x100 + number.toNat % 0x100 = number.toNat := by omega
  rw [hsum, BitVec.ofNat_toNat, BitVec.setWidth_eq]

/-- A small number is not negative. -/
theorem toInt_ofNat {number : Nat} (h : number < 2 ^ 31) : (BitVec.ofNat 32 number).toInt = number := by
  rw [BitVec.toInt_eq_toNat_of_lt] <;> simp <;> omega

theorem writeText_eq_some {text : Text} (h : writeText text = some bytes) :
    (encodeUtf8 text).length ≤ MAX_TEXT ∧
      bytes = writeInt (BitVec.ofNat 32 (encodeUtf8 text).length) ++ encodeUtf8 text := by
  unfold writeText at h
  dsimp only at h
  split_ifs at h with hlength
  exact ⟨Nat.le_of_not_lt hlength, (Option.some.inj h).symm⟩

theorem inRange_ofNat {number max : Nat} (h : number < 2 ^ 31) :
    inRange (BitVec.ofNat 32 number) max = decide (number ≤ max) := by
  rw [inRange, toInt_ofNat h]
  simp

theorem readText_writeText {text : Text} (h : writeText text = some bytes) (rest : Bytes) :
    readText (bytes ++ rest) = some (text.replaced, rest) := by
  obtain ⟨hlength, rfl⟩ := writeText_eq_some h
  have hrange : inRange (BitVec.ofNat 32 (encodeUtf8 text).length) MAX_TEXT = true := by
    rw [inRange_ofNat (Nat.lt_of_le_of_lt hlength (by decide))]
    simpa using hlength
  have hnat : (BitVec.ofNat 32 (encodeUtf8 text).length).toNat = (encodeUtf8 text).length := by
    rw [MAX_TEXT] at hlength
    simp
    omega
  simp only [readText, List.append_assoc, readInt_writeInt, Option.bind_eq_bind, Option.bind_some,
    hrange, hnat, List.take_left, List.drop_left, decodeUtf8_encodeUtf8]
  simp

theorem writeText_ne_nil {text : Text} (h : writeText text = some bytes) : bytes ≠ [] := by
  obtain ⟨-, rfl⟩ := writeText_eq_some h
  simp [writeInt]

/-- Reading fewer associations than were written leaves the others. -/
theorem readAssociations_writeAssociations {associations : List AutofillAssociation}
    (h : writeAssociations associations = some bytes) {count : Nat} (hcount : count ≤ associations.length)
    (rest : Bytes) :
    ∃ others, readAssociations count (bytes ++ rest) =
        some ((associations.take count).map AutofillAssociation.replaced, others ++ rest) ∧
      (others = [] ↔ count = associations.length) := by
  induction count generalizing associations bytes with
  | zero =>
    refine ⟨bytes, rfl, ?_⟩
    cases associations with
    | nil =>
      cases h
      simp
    | cons association associations =>
      simp only [writeAssociations, Option.bind_eq_bind, Option.bind_eq_some_iff] at h
      obtain ⟨packageName, hpackage, signingIdentity, -, others, -, heq⟩ := h
      cases heq
      simp [writeText_ne_nil hpackage]
  | succ count ih =>
    cases associations with
    | nil => simp at hcount
    | cons association associations =>
      simp only [writeAssociations, Option.bind_eq_bind, Option.bind_eq_some_iff] at h
      obtain ⟨packageName, hpackage, signingIdentity, hidentity, written, hwritten, heq⟩ := h
      cases heq
      obtain ⟨others, hread, hempty⟩ := ih hwritten (Nat.le_of_succ_le_succ hcount)
      refine ⟨others, ?_, ?_⟩
      · simp only [readAssociations, List.append_assoc, readText_writeText hpackage,
          readText_writeText hidentity, Option.bind_eq_bind, Option.bind_some, hread]
        rfl
      · rw [hempty, List.length_cons, Nat.add_right_cancel_iff]

/-- The fields a decoder reads, one after the other. -/
theorem decode_of_reads {start source flags display counted listed rest : Bytes} {sourceUri displayName : Text}
    {grantFlags count : BitVec 32} {associations : List AutofillAssociation}
    (hschema : readInt start = some (SCHEMA, source)) (hsource : readText source = some (sourceUri, flags))
    (hflags : readInt flags = some (grantFlags, display))
    (hdisplay : readText display = some (displayName, counted))
    (hcount : readInt counted = some (count, listed))
    (hassociations : inRange count MAX_ASSOCIATIONS = true →
      readAssociations count.toNat listed = some (associations, rest)) :
    decode start = if inRange count MAX_ASSOCIATIONS = true ∧ rest = [] ∧ sourceUri ≠ [] then
      some ⟨sourceUri, grantFlags, displayName, associations⟩ else none := by
  simp only [decode, hschema, hsource, hflags, hdisplay, hcount, Option.bind_eq_bind, Option.bind_some,
    ne_eq, not_true_eq_false, if_false]
  cases hrange : inRange count MAX_ASSOCIATIONS with
  | false => simp
  | true =>
    simp only [hassociations hrange, Option.bind_some]
    by_cases hrest : rest = [] <;> by_cases hempty : sourceUri = [] <;> simp [hrest, hempty]

/-- What was encoded is read back if it has a source and not too many associations. -/
theorem decode_encode (h : encode value = some bytes) :
    decode bytes = if value.associations.length ≤ MAX_ASSOCIATIONS ∧ value.sourceUri ≠ [] then
      some value.replaced else none := by
  simp only [encode, Option.bind_eq_bind, Option.bind_eq_some_iff] at h
  obtain ⟨sourceUri, hsource, displayName, hdisplay, associations, hassociations, heq⟩ := h
  rw [← Option.some.inj heq]
  have hcount : (BitVec.ofNat 32 value.associations.length).toNat ≤ value.associations.length := by
    rw [BitVec.toNat_ofNat]
    exact Nat.mod_le _ _
  obtain ⟨others, hread, hothers⟩ := readAssociations_writeAssociations hassociations hcount []
  rw [List.append_nil, List.append_nil] at hread
  rw [decode_of_reads (readInt_writeInt _ _) (readText_writeText hsource _) (readInt_writeInt _ _)
    (readText_writeText hdisplay _) (readInt_writeInt _ _) (fun _ => hread)]
  by_cases hsmall : value.associations.length < 2 ^ 31
  · have hnat : (BitVec.ofNat 32 value.associations.length).toNat = value.associations.length := by
      rw [BitVec.toNat_ofNat]
      exact Nat.mod_eq_of_lt (by omega)
    have hnone : others = [] := hothers.2 hnat
    rw [inRange_ofNat hsmall, hnat, List.take_length]
    simp [AutofillMetadata.replaced, hnone]
  · -- the count has wrapped around, and associations are left over
    rw [if_neg, if_neg]
    · rw [MAX_ASSOCIATIONS]
      omega
    · rintro ⟨hrange, hrest, -⟩
      have hall := hothers.1 hrest
      simp only [inRange, BitVec.toInt_eq_toNat_cond, MAX_ASSOCIATIONS, Bool.and_eq_true,
        decide_eq_true_eq] at hrange
      split_ifs at hrange <;> omega

end Codec

end AutofillMetadataCodec

/-! ## The store -/

/-- `Intent.FLAG_GRANT_READ_URI_PERMISSION` -/
def READ : BitVec 32 := 1

namespace AutofillGrantPolicy

def bookmarkFlags (sourceFlags : BitVec 32) : Option (BitVec 32) :=
  if sourceFlags &&& READ = READ then some (sourceFlags &&& READ) else none

def normalize (metadata : AutofillMetadata) : Option AutofillMetadata :=
  (bookmarkFlags metadata.grantFlags).map fun grantFlags => { metadata with grantFlags }

end AutofillGrantPolicy

structure EncryptedMetadata where
  iv : Bytes
  ciphertext : Bytes
deriving DecidableEq

/-- The cipher behind the store. An encryption draws its initialisation vector, and fails where
the key store does. -/
structure AutofillMetadataCipher (R : Type) where
  encrypt : R → Bytes → Bytes → Option EncryptedMetadata
  decrypt : EncryptedMetadata → Bytes → Option Bytes

/-- What the device contributes to one save. -/
structure Attempt (R : Type) where
  random : R
  /-- the file can be replaced -/
  writes : Bool

namespace AutofillMetadataStore

open AutofillMetadataCodec

def ENVELOPE_VERSION : BitVec 32 := 1
def IV_SIZE : Nat := 12
def MAX_CIPHERTEXT : Nat := 131072
/-- `dev.nian.pass|1|autofill-metadata` -/
def AAD : Bytes := encodeUtf8 ("dev.nian.pass|1|autofill-metadata".toList.map fun char => UInt16.ofNat char.toNat)

/-- The new contents of the file; a write that fails leaves the old ones. -/
def writeEnvelope (writes : Bool) (record : EncryptedMetadata) : Option Bytes :=
  if record.iv.length ≠ IV_SIZE then none
  else if record.ciphertext = [] ∨ MAX_CIPHERTEXT < record.ciphertext.length then none
  else if writes then
    some (writeInt ENVELOPE_VERSION ++ (writeInt (BitVec.ofNat 32 record.iv.length) ++ (record.iv ++
      (writeInt (BitVec.ofNat 32 record.ciphertext.length) ++ record.ciphertext))))
  else none

def readEnvelope (bytes : Bytes) : Option EncryptedMetadata := do
  let (version, bytes) ← readInt bytes
  if version ≠ ENVELOPE_VERSION then none
  else do
    let (ivLength, bytes) ← readInt bytes
    if ivLength.toNat ≠ IV_SIZE ∨ bytes.length < ivLength.toNat then none
    else do
      let iv := bytes.take ivLength.toNat
      let (ciphertextLength, bytes) ← readInt (bytes.drop ivLength.toNat)
      if !(inRange ciphertextLength MAX_CIPHERTEXT && decide (1 ≤ ciphertextLength.toNat)) ||
          decide (bytes.length < ciphertextLength.toNat) then none
      else if bytes.drop ciphertextLength.toNat ≠ [] then none
      else some ⟨iv, bytes.take ciphertextLength.toNat⟩

section Store
variable {R : Type} (cipher : AutofillMetadataCipher R)

def saveBookmark (attempt : Attempt R) (metadata : AutofillMetadata) (file : Option Bytes) :
    Bool × Option Bytes :=
  let saved := do
    let normalized ← AutofillGrantPolicy.normalize metadata
    let plaintext ← encode normalized
    let record ← cipher.encrypt attempt.random plaintext AAD
    writeEnvelope attempt.writes record
  match saved with
  | some contents => (true, some contents)
  | none => (false, file)

/-- What the file holds. -/
def opened (file : Option Bytes) : Option AutofillMetadata := do
  let contents ← file
  let record ← readEnvelope contents
  let plaintext ← cipher.decrypt record AAD
  decode plaintext

def loadBookmark (attempt : Attempt R) (file : Option Bytes) : Option AutofillMetadata × Option Bytes :=
  match opened cipher file with
  | none => (none, file)
  | some decoded =>
    match AutofillGrantPolicy.normalize decoded with
    | none => (none, file)
    | some normalized =>
      if normalized ≠ decoded then
        -- an older bookmark is written again with the flags it has now
        let (saved, file) := saveBookmark cipher attempt normalized file
        if saved then (some normalized, file) else (none, file)
      else (some normalized, file)

def associate (packageName signingIdentity : Text) (metadata : AutofillMetadata) : AutofillMetadata :=
  { metadata with
    associations := metadata.associations.filter (fun association => association.packageName ≠ packageName) ++
      [⟨packageName, signingIdentity⟩] }

def saveAssociation (loads saves : Attempt R) (packageName signingIdentity : Text) (file : Option Bytes) :
    Bool × Option Bytes :=
  match loadBookmark cipher loads file with
  | (none, file) => (false, file)
  | (some current, file) =>
    saveBookmark cipher saves (associate packageName signingIdentity current) file

def deleteBookmark (deletes : Bool) (file : Option Bytes) : Bool × Option Bytes :=
  if deletes then (true, none) else (file.isNone, file)

/-- A call of the store's user. -/
inductive Call (R : Type) where
  | saveBookmark (attempt : Attempt R) (metadata : AutofillMetadata)
  | saveAssociation (loads saves : Attempt R) (packageName signingIdentity : Text)
  | loadBookmark (attempt : Attempt R)
  | deleteBookmark (deletes : Bool)

/-- The file, with what the calls that reported success have asked it to hold. -/
structure Stored where
  file : Option Bytes
  requested : Option AutofillMetadata

def step (stored : Stored) : Call R → Stored
  | .saveBookmark attempt metadata =>
    let (saved, file) := saveBookmark cipher attempt metadata stored.file
    ⟨file, if saved then AutofillGrantPolicy.normalize metadata else stored.requested⟩
  | .saveAssociation loads saves packageName signingIdentity =>
    let (saved, file) := saveAssociation cipher loads saves packageName signingIdentity stored.file
    ⟨file, if saved then stored.requested.map (associate packageName signingIdentity) else stored.requested⟩
  | .loadBookmark attempt => ⟨(loadBookmark cipher attempt stored.file).2, stored.requested⟩
  | .deleteBookmark deletes =>
    let (deleted, file) := deleteBookmark deletes stored.file
    ⟨file, if deleted then none else stored.requested⟩

/-- Any calls, on whatever file there was. -/
def run (file : Option Bytes) (calls : List (Call R)) : Stored := calls.foldl (step cipher) ⟨file, none⟩

/-- What the reader takes. -/
structure Readable (metadata : AutofillMetadata) : Prop where
  associations : metadata.associations.length ≤ MAX_ASSOCIATIONS
  sourceUri : metadata.sourceUri ≠ []

/-- What comes back as it was. -/
structure Unaltered (metadata : AutofillMetadata) : Prop where
  sourceUri : metadata.sourceUri.wellFormed = true
  displayName : metadata.displayName.wellFormed = true
  associations : ∀ association ∈ metadata.associations,
    association.packageName.wellFormed = true ∧ association.signingIdentity.wellFormed = true

variable {cipher} {metadata : AutofillMetadata} {file : Option Bytes} {attempt : Attempt R}

/-- Decryption undoes encryption. -/
def Undoes (cipher : AutofillMetadataCipher R) : Prop :=
  ∀ random plaintext aad record, cipher.encrypt random plaintext aad = some record →
    cipher.decrypt record aad = some plaintext

theorem readEnvelope_of_reads {start lengths sized : Bytes} {ivLength ciphertextLength : BitVec 32}
    {record : EncryptedMetadata} (hversion : readInt start = some (ENVELOPE_VERSION, lengths))
    (hiv : readInt lengths = some (ivLength, record.iv ++ sized)) (hivLength : ivLength.toNat = record.iv.length)
    (hsize : record.iv.length = IV_SIZE) (hciphertext : readInt sized = some (ciphertextLength, record.ciphertext))
    (hlength : ciphertextLength.toNat = record.ciphertext.length)
    (hrange : inRange ciphertextLength MAX_CIPHERTEXT = true) (hempty : record.ciphertext ≠ []) :
    readEnvelope start = some record := by
  have hpositive : 1 ≤ record.ciphertext.length := List.length_pos_iff.2 hempty
  have htake : (record.iv ++ sized).take IV_SIZE = record.iv := by rw [← hsize, List.take_left]
  have hdrop : (record.iv ++ sized).drop IV_SIZE = sized := by rw [← hsize, List.drop_left]
  have hfits : ¬(record.iv ++ sized).length < IV_SIZE := by
    rw [List.length_append, hsize]
    omega
  simp only [readEnvelope, hversion, hiv, hivLength, Option.bind_eq_bind, Option.bind_some, hsize, htake,
    hdrop, hfits, hciphertext, hlength, hrange, hpositive]
  simp

theorem readEnvelope_writeEnvelope {writes : Bool} {record : EncryptedMetadata} {contents : Bytes}
    (h : writeEnvelope writes record = some contents) : readEnvelope contents = some record := by
  unfold writeEnvelope at h
  split_ifs at h with hiv hciphertext hwrites
  rw [not_or, MAX_CIPHERTEXT, not_lt] at hciphertext
  rw [← Option.some.inj h]
  have hsize : record.iv.length = IV_SIZE := not_ne_iff.1 hiv
  refine readEnvelope_of_reads (readInt_writeInt _ _) (readInt_writeInt _ _) ?_ hsize (readInt_writeInt _ _)
    ?_ ?_ hciphertext.1
  · rw [hsize]
    rfl
  · rw [BitVec.toNat_ofNat]
    exact Nat.mod_eq_of_lt (by omega)
  · rw [inRange_ofNat (by omega), MAX_CIPHERTEXT]
    exact decide_eq_true hciphertext.2

theorem normalize_eq_some {normalized : AutofillMetadata}
    (h : AutofillGrantPolicy.normalize metadata = some normalized) :
    normalized = { metadata with grantFlags := READ } := by
  unfold AutofillGrantPolicy.normalize AutofillGrantPolicy.bookmarkFlags at h
  split_ifs at h with hflags
  · rw [Option.map_some, hflags] at h
    exact (Option.some.inj h).symm
  · cases h

theorem normalize_of_read (h : metadata.grantFlags = READ) :
    AutofillGrantPolicy.normalize metadata = some metadata := by
  unfold AutofillGrantPolicy.normalize AutofillGrantPolicy.bookmarkFlags
  rw [h, if_pos (by decide), Option.map_some]
  show some { metadata with grantFlags := READ } = _
  rw [← h]

open Classical in
/-- What a reader makes of the metadata a save has written. -/
noncomputable def readBack (metadata : AutofillMetadata) : Option AutofillMetadata :=
  if Readable metadata then some metadata.replaced else none

theorem decode_eq_readBack {plaintext : Bytes} (h : encode metadata = some plaintext) :
    decode plaintext = readBack metadata := by
  rw [decode_encode h, readBack]
  by_cases hreadable : Readable metadata
  · rw [if_pos hreadable, if_pos ⟨hreadable.associations, hreadable.sourceUri⟩]
  · rw [if_neg hreadable, if_neg fun h => hreadable ⟨h.1, h.2⟩]

/-- A save that reports success. -/
theorem opened_saveBookmark (hundoes : Undoes cipher)
    (h : (saveBookmark cipher attempt metadata file).1 = true) :
    AutofillGrantPolicy.normalize metadata = some { metadata with grantFlags := READ } ∧
      opened cipher (saveBookmark cipher attempt metadata file).2 =
        readBack { metadata with grantFlags := READ } := by
  unfold saveBookmark at h ⊢
  dsimp only at h ⊢
  split at h
  case h_2 => cases h
  case h_1 contents hsaved =>
    simp only [Option.bind_eq_bind, Option.bind_eq_some_iff] at hsaved
    obtain ⟨normalized, hnormalized, plaintext, hplaintext, record, hrecord, hcontents⟩ := hsaved
    have heq := normalize_eq_some hnormalized
    subst heq
    refine ⟨hnormalized, ?_⟩
    simp only [opened, Option.bind_eq_bind, Option.bind_some, readEnvelope_writeEnvelope hcontents,
      hundoes _ _ _ _ hrecord, decode_eq_readBack hplaintext]

theorem saveBookmark_of_failed (h : (saveBookmark cipher attempt metadata file).1 = false) :
    (saveBookmark cipher attempt metadata file).2 = file := by
  unfold saveBookmark at h ⊢
  dsimp only at h ⊢
  split at h
  case h_1 => cases h
  case h_2 => rfl

/-- A bookmark with the flags of today is loaded as it is. -/
theorem loadBookmark_of_read (h : ∀ metadata, opened cipher file = some metadata → metadata.grantFlags = READ) :
    loadBookmark cipher attempt file = (opened cipher file, file) := by
  unfold loadBookmark
  cases hopened : opened cipher file with
  | none => rfl
  | some metadata => simp [normalize_of_read (h metadata hopened)]

/-- The packages keep their names. -/
def PackagesUnaltered (metadata : AutofillMetadata) : Prop :=
  ∀ association ∈ metadata.associations, association.packageName.wellFormed = true

/-- The metadata a file was written with, against what was asked for. As long as no package name is
altered, dropping the old association of a package does the same to both. -/
structure Written (cipher : AutofillMetadataCipher R) (file : Option Bytes) (requested : AutofillMetadata)
    (written : AutofillMetadata) : Prop where
  opened_eq : opened cipher file = readBack written
  writtenFlags : written.grantFlags = READ
  flags : requested.grantFlags = READ
  agrees : PackagesUnaltered requested → written.replaced = requested.replaced

def Holds (cipher : AutofillMetadataCipher R) (stored : Stored) : Prop :=
  ∀ requested, stored.requested = some requested → ∃ written, Written cipher stored.file requested written

section Altered
variable {text packageName signingIdentity : Text} {requested written other : AutofillMetadata}

theorem replaced_replaced (text : Text) : text.replaced.replaced = text.replaced :=
  (Text.replaced_eq_iff _).2 (Text.replaced_wellFormed text)

theorem association_replaced_replaced (association : AutofillAssociation) :
    association.replaced.replaced = association.replaced := by
  simp only [AutofillAssociation.replaced, replaced_replaced]

theorem readBack_eq_some (h : readBack written = some other) : Readable written ∧ other = written.replaced := by
  unfold readBack at h
  split_ifs at h with hreadable
  exact ⟨hreadable, (Option.some.inj h).symm⟩

theorem replaced_unaltered (metadata : AutofillMetadata) : Unaltered metadata.replaced where
  sourceUri := Text.replaced_wellFormed _
  displayName := Text.replaced_wellFormed _
  associations := by
    intro association hmem
    obtain ⟨original, -, rfl⟩ := List.mem_map.1 hmem
    exact ⟨Text.replaced_wellFormed _, Text.replaced_wellFormed _⟩

theorem Unaltered.replaced_eq (h : Unaltered metadata) : metadata.replaced = metadata := by
  have hassociations : metadata.associations.map AutofillAssociation.replaced = metadata.associations := by
    refine (List.map_congr_left fun association hmem => ?_).trans (List.map_id _)
    obtain ⟨hpackage, hidentity⟩ := h.associations association hmem
    simp only [AutofillAssociation.replaced, (Text.replaced_eq_iff _).2 hpackage,
      (Text.replaced_eq_iff _).2 hidentity, id]
  simp only [AutofillMetadata.replaced, (Text.replaced_eq_iff _).2 h.sourceUri,
    (Text.replaced_eq_iff _).2 h.displayName, hassociations]

theorem readable_replaced (h : Readable metadata) : Readable metadata.replaced where
  associations := by
    rw [AutofillMetadata.replaced, List.length_map]
    exact h.associations
  sourceUri := fun hempty => h.sourceUri ((Text.replaced_eq_nil _).1 hempty)

/-- Names that come back as they were are told apart as they were. -/
theorem replaced_associate (h : PackagesUnaltered requested) :
    (associate packageName signingIdentity requested.replaced).replaced =
      (associate packageName signingIdentity requested).replaced := by
  have hfilter : ((requested.associations.map AutofillAssociation.replaced).filter fun association =>
        association.packageName ≠ packageName).map AutofillAssociation.replaced =
      (requested.associations.filter fun association =>
        association.packageName ≠ packageName).map AutofillAssociation.replaced := by
    rw [List.filter_map, List.map_map]
    have hsame : requested.associations.filter
          ((fun association => decide (association.packageName ≠ packageName)) ∘ AutofillAssociation.replaced) =
        requested.associations.filter fun association => association.packageName ≠ packageName := by
      refine List.filter_congr fun association hmem => ?_
      show decide (association.packageName.replaced ≠ packageName) = _
      rw [(Text.replaced_eq_iff _).2 (h association hmem)]
    rw [hsame]
    exact List.map_congr_left fun association _ => association_replaced_replaced association
  simp only [associate, AutofillMetadata.replaced, List.map_append, replaced_replaced, hfilter]

theorem packagesUnaltered_of_associate
    (h : PackagesUnaltered (associate packageName signingIdentity requested)) :
    PackagesUnaltered requested := by
  intro association hmem
  by_cases heq : association.packageName = packageName
  · rw [heq]
    exact h ⟨packageName, signingIdentity⟩ (List.mem_append_right _ List.mem_cons_self)
  · exact h association (List.mem_append_left _ (List.mem_filter.2 ⟨hmem, decide_eq_true heq⟩))

end Altered

section Run
variable {requested written : AutofillMetadata} {stored : Stored}

theorem Written.loadBookmark_eq (h : Written cipher file requested written) (attempt : Attempt R) :
    loadBookmark cipher attempt file = (readBack written, file) := by
  rw [loadBookmark_of_read, h.opened_eq]
  intro metadata hopened
  rw [h.opened_eq] at hopened
  rw [(readBack_eq_some hopened).2]
  exact h.writtenFlags

theorem holds_saveBookmark (hundoes : Undoes cipher) (attempt : Attempt R) (metadata : AutofillMetadata)
    (h : Holds cipher stored) : Holds cipher (step cipher stored (.saveBookmark attempt metadata)) := by
  intro requested hrequested
  cases hsaved : (saveBookmark cipher attempt metadata stored.file).1 with
  | true =>
    obtain ⟨hnormalize, hopened⟩ := opened_saveBookmark hundoes hsaved
    simp only [step, hsaved, if_true, hnormalize, Option.some.injEq] at hrequested
    subst hrequested
    exact ⟨_, hopened, rfl, rfl, fun _ => rfl⟩
  | false =>
    simp only [step, hsaved, Bool.false_eq_true, if_false] at hrequested
    show ∃ written, Written cipher (saveBookmark cipher attempt metadata stored.file).2 requested written
    rw [saveBookmark_of_failed hsaved]
    exact h requested hrequested

/-- The association is added to what comes back. -/
theorem Written.of_saveAssociation (hundoes : Undoes cipher) (h : Written cipher file requested written)
    {loads saves : Attempt R} {packageName signingIdentity : Text}
    (hsaved : (saveAssociation cipher loads saves packageName signingIdentity file).1 =
      true) :
    Written cipher (saveAssociation cipher loads saves packageName signingIdentity file).2
      (associate packageName signingIdentity requested)
      (associate packageName signingIdentity written.replaced) := by
  unfold saveAssociation at hsaved ⊢
  rw [h.loadBookmark_eq] at hsaved ⊢
  cases hread : readBack written with
  | none => simp [hread] at hsaved
  | some current =>
    obtain ⟨-, rfl⟩ := readBack_eq_some hread
    simp only [hread] at hsaved ⊢
    have hflags : { associate packageName signingIdentity written.replaced with grantFlags := READ } =
        associate packageName signingIdentity written.replaced := by
      rw [← h.writtenFlags]
      rfl
    have hopened := (opened_saveBookmark hundoes hsaved).2
    rw [hflags] at hopened
    refine ⟨hopened, h.writtenFlags, h.flags, fun hpackages => ?_⟩
    have hbefore := packagesUnaltered_of_associate hpackages
    rw [h.agrees hbefore, replaced_associate hbefore]

theorem Written.saveAssociation_of_failed (h : Written cipher file requested written)
    {loads saves : Attempt R} {packageName signingIdentity : Text}
    (hfailed : (saveAssociation cipher loads saves packageName signingIdentity file).1 =
      false) :
    (saveAssociation cipher loads saves packageName signingIdentity file).2 = file := by
  unfold saveAssociation at hfailed ⊢
  rw [h.loadBookmark_eq] at hfailed ⊢
  cases hread : readBack written with
  | none => rfl
  | some current =>
    simp only [hread] at hfailed ⊢
    exact saveBookmark_of_failed hfailed

theorem holds_saveAssociation (hundoes : Undoes cipher) (loads saves : Attempt R)
    (packageName signingIdentity : Text) (h : Holds cipher stored) :
    Holds cipher (step cipher stored (.saveAssociation loads saves packageName signingIdentity)) := by
  intro requested hrequested
  show ∃ written, Written cipher
    (saveAssociation cipher loads saves packageName signingIdentity stored.file).2
    requested written
  cases hsaved : (saveAssociation cipher loads saves packageName signingIdentity
    stored.file).1 with
  | true =>
    simp only [step, hsaved, if_true, Option.map_eq_some_iff] at hrequested
    obtain ⟨before, hbefore, rfl⟩ := hrequested
    obtain ⟨written, hwritten⟩ := h before hbefore
    exact ⟨_, hwritten.of_saveAssociation hundoes hsaved⟩
  | false =>
    simp only [step, hsaved, Bool.false_eq_true, if_false] at hrequested
    obtain ⟨written, hwritten⟩ := h requested hrequested
    refine ⟨written, ?_⟩
    rw [hwritten.saveAssociation_of_failed hsaved]
    exact hwritten

theorem holds_step (hundoes : Undoes cipher) (h : Holds cipher stored) (call : Call R) :
    Holds cipher (step cipher stored call) := by
  cases call with
  | saveBookmark attempt metadata => exact holds_saveBookmark hundoes attempt metadata h
  | saveAssociation loads saves packageName signingIdentity =>
    exact holds_saveAssociation hundoes loads saves packageName signingIdentity h
  | loadBookmark attempt =>
    intro requested hrequested
    obtain ⟨written, hwritten⟩ := h requested hrequested
    refine ⟨written, ?_⟩
    rw [step, hwritten.loadBookmark_eq]
    exact hwritten
  | deleteBookmark deletes =>
    intro requested hrequested
    cases deletes with
    | true => cases hrequested
    | false =>
      cases hfile : stored.file with
      | none => simp [step, deleteBookmark, hfile] at hrequested
      | some contents =>
        simp only [step, deleteBookmark, hfile] at hrequested ⊢
        rw [← hfile]
        exact h requested hrequested

theorem holds_run (hundoes : Undoes cipher) (file : Option Bytes) (calls : List (Call R)) :
    Holds cipher (run cipher file calls) := by
  have hfrom : ∀ stored, Holds cipher stored → Holds cipher (calls.foldl (step cipher) stored) := by
    induction calls with
    | nil => exact fun _ h => h
    | cons call calls ih => exact fun stored h => ih _ (holds_step hundoes h call)
  exact hfrom _ fun _ h => nomatch h

/-- After any calls the bookmark loads as it was asked for exactly if the reader takes as many
associations as there are, it has a source, and no text holds a surrogate without its partner. -/
theorem metadata_survives_iff (hundoes : Undoes cipher) (file : Option Bytes) (calls : List (Call R))
    (attempt : Attempt R) (hrequested : (run cipher file calls).requested = some metadata) :
    (loadBookmark cipher attempt (run cipher file calls).file).1 = some metadata ↔
      Readable metadata ∧ Unaltered metadata := by
  obtain ⟨written, hwritten⟩ := holds_run hundoes file calls metadata hrequested
  rw [hwritten.loadBookmark_eq]
  constructor
  · intro hload
    obtain ⟨hreadable, rfl⟩ := readBack_eq_some hload
    exact ⟨readable_replaced hreadable, replaced_unaltered written⟩
  · rintro ⟨hreadable, hunaltered⟩
    have hsame : written.replaced = metadata :=
      (hwritten.agrees fun association hmem => (hunaltered.associations association hmem).1).trans
        hunaltered.replaced_eq
    have hwrittenReadable : Readable written := by
      subst hsame
      refine ⟨?_, fun hempty => hreadable.sourceUri ((Text.replaced_eq_nil _).2 hempty)⟩
      have hlength := hreadable.associations
      rwa [AutofillMetadata.replaced, List.length_map] at hlength
    show readBack written = _
    rw [readBack, if_pos hwrittenReadable, hsame]

/-- A cipher that hides nothing and puts sixteen bytes behind the plaintext. -/
def tagged : AutofillMetadataCipher Bytes where
  encrypt := fun iv plaintext _ => some ⟨iv, plaintext ++ List.replicate 16 0⟩
  decrypt := fun record _ => some (record.ciphertext.take (record.ciphertext.length - 16))

theorem undoes_tagged : Undoes tagged := by
  intro iv plaintext aad record h
  obtain rfl := Option.some.inj h
  simp [tagged]

def smooth : Attempt Bytes := ⟨List.replicate 12 7, true⟩

/-- A bookmark and two apps, the first of them trusted anew. -/
def trusting : List (Call Bytes) :=
  [.saveBookmark smooth ⟨[99, 58], 3, [0x76, 0xD83D, 0xDD11], []⟩, .saveAssociation smooth smooth [97] [1],
    .saveAssociation smooth smooth [98] [2], .saveAssociation smooth smooth [97] [3]]

set_option maxRecDepth 100000 in
theorem metadata_survives_trusting :
    (run tagged none trusting).requested =
        some ⟨[99, 58], 1, [0x76, 0xD83D, 0xDD11], [⟨[98], [2]⟩, ⟨[97], [3]⟩]⟩ ∧
      ((loadBookmark tagged smooth (run tagged none trusting).file).1 =
          some ⟨[99, 58], 1, [0x76, 0xD83D, 0xDD11], [⟨[98], [2]⟩, ⟨[97], [3]⟩]⟩ ↔
        Readable ⟨[99, 58], 1, [0x76, 0xD83D, 0xDD11], [⟨[98], [2]⟩, ⟨[97], [3]⟩]⟩ ∧
          Unaltered ⟨[99, 58], 1, [0x76, 0xD83D, 0xDD11], [⟨[98], [2]⟩, ⟨[97], [3]⟩]⟩) := by
  have hrequested : (run tagged none trusting).requested =
      some ⟨[99, 58], 1, [0x76, 0xD83D, 0xDD11], [⟨[98], [2]⟩, ⟨[97], [3]⟩]⟩ := by decide +kernel
  exact ⟨hrequested, metadata_survives_iff undoes_tagged none trusting smooth hrequested⟩

/-- As many apps as the reader takes, and one more. -/
def crowded : List (Call Bytes) :=
  [.saveBookmark smooth ⟨[99, 58], 3, [0x76], List.replicate 1024 ⟨[], []⟩⟩,
    .saveAssociation smooth smooth [98] [2]]

set_option maxRecDepth 100000 in
/-- The last app is reported as saved, and nothing is left of the configuration. -/
theorem metadata_lost_crowded :
    Undoes tagged ∧
      (run tagged none crowded).requested =
        some ⟨[99, 58], 1, [0x76], List.replicate 1024 ⟨[], []⟩ ++ [⟨[98], [2]⟩]⟩ ∧
      (loadBookmark tagged smooth (run tagged none crowded).file).1 = none :=
  ⟨undoes_tagged, by decide +kernel, by decide +kernel⟩

end Run

end Store

end AutofillMetadataStore

end NianPass.Android
