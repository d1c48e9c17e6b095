import NianPass.Kdbx.Editing

/-
  Looking an object up by the text of its identifier.

  A text has the 32 hexadecimal digits of the UUID in five blocks, so it names
  one UUID only, and `findEntryId` and `findGroupId` find an object exactly if
  the database has one of that name.
-/
namespace NianPass.Kdbx

variable {V : Type}

theorem digitChar_lt_inj {a b : Nat} (ha : a < 16) (hb : b < 16)
    (h : Nat.digitChar a = Nat.digitChar b) : a = b := by
  have hdigits : ∀ x y : Fin 16, Nat.digitChar x = Nat.digitChar y → x = y := by decide
  exact congrArg Fin.val (hdigits ⟨a, ha⟩ ⟨b, hb⟩ h)

/-- Numbers below `16 ^ k` that agree in `k` hexadecimal digits. -/
theorem mod_eq_of_digits {a b k : Nat} (h : ∀ i < k, a >>> (4 * i) % 16 = b >>> (4 * i) % 16) :
    a % 16 ^ k = b % 16 ^ k := by
  induction k with
  | zero => simp [Nat.mod_one]
  | succ k ih =>
    have hdigit : a / 16 ^ k % 16 = b / 16 ^ k % 16 := by
      have hshift : ∀ n : Nat, n >>> (4 * k) = n / 16 ^ k := fun n => by
        rw [Nat.shiftRight_eq_div_pow, Nat.pow_mul]
      have := h k (Nat.lt_succ_self k)
      rwa [hshift, hshift] at this
    rw [Nat.mod_pow_succ, Nat.mod_pow_succ, ih fun i hi => h i (Nat.lt_succ_of_lt hi), hdigit]

theorem length_uuidText (uuid : Uuid) : (Database.uuidText uuid).toList.length = 36 := by
  simp [Database.uuidText]

theorem uuidText_injective {a b : Uuid} (h : Database.uuidText a = Database.uuidText b) :
    a = b := by
  have hchars := String.ofList_injective h
  -- One block after the other.
  obtain ⟨hchars, h5⟩ := List.append_inj' hchars (by simp)
  obtain ⟨hchars, -⟩ := List.append_inj' hchars rfl
  obtain ⟨hchars, h4⟩ := List.append_inj' hchars (by simp)
  obtain ⟨hchars, -⟩ := List.append_inj' hchars rfl
  obtain ⟨hchars, h3⟩ := List.append_inj' hchars (by simp)
  obtain ⟨hchars, -⟩ := List.append_inj' hchars rfl
  obtain ⟨hchars, h2⟩ := List.append_inj' hchars (by simp)
  obtain ⟨h1, -⟩ := List.append_inj' hchars rfl
  have hdigit : ∀ {x y : Nat}, Nat.digitChar (x % 16) = Nat.digitChar (y % 16) →
      x % 16 = y % 16 := fun h =>
    digitChar_lt_inj (Nat.mod_lt _ (by decide)) (Nat.mod_lt _ (by decide)) h
  simp only [List.map_inj_left, List.mem_range] at h1 h2 h3 h4 h5
  have hall : ∀ i < 32, a.toNat >>> (4 * i) % 16 = b.toNat >>> (4 * i) % 16 := by
    intro i hi
    by_cases hlast : i < 12
    · have := hdigit (h5 (11 - i) (by omega))
      rwa [show 31 - (20 + (11 - i)) = i by omega] at this
    · by_cases hfourth : i < 16
      · have := hdigit (h4 (15 - i) (by omega))
        rwa [show 31 - (16 + (15 - i)) = i by omega] at this
      · by_cases hthird : i < 20
        · have := hdigit (h3 (19 - i) (by omega))
          rwa [show 31 - (12 + (19 - i)) = i by omega] at this
        · by_cases hsecond : i < 24
          · have := hdigit (h2 (23 - i) (by omega))
            rwa [show 31 - (8 + (23 - i)) = i by omega] at this
          · have := hdigit (h1 (31 - i) (by omega))
            rwa [show 31 - (0 + (31 - i)) = i by omega] at this
  have hmod := mod_eq_of_digits hall
  have hbound : ∀ x : Uuid, x.toNat % 16 ^ 32 = x.toNat := fun x => Nat.mod_eq_of_lt x.isLt
  rw [hbound, hbound] at hmod
  exact BitVec.eq_of_toNat_eq hmod

theorem find?_key_eq_some {k : Kind} {ν : Type} {m : Map (ObjectId k) ν} {text : String}
    {id : ObjectId k} :
    (m.keys.find? fun key => decide (Database.uuidText key.uuid = text)) = some id ↔
      id ∈ m ∧ Database.uuidText id.uuid = text := by
  constructor
  · intro h
    have htext := List.find?_some h
    exact ⟨Std.ExtTreeMap.mem_keys.mp (List.mem_of_find?_eq_some h), of_decide_eq_true htext⟩
  · rintro ⟨hmem, htext⟩
    cases hfind : m.keys.find? fun key => decide (Database.uuidText key.uuid = text) with
    | none =>
      have := List.find?_eq_none.mp hfind id (Std.ExtTreeMap.mem_keys.mpr hmem)
      exact absurd (decide_eq_true htext) this
    | some other =>
      have hother := List.find?_some hfind
      have huuid := uuidText_injective ((of_decide_eq_true hother).trans htext.symm)
      obtain ⟨uuid⟩ := other
      obtain ⟨uuid'⟩ := id
      exact congrArg (fun uuid => some (ObjectId.mk uuid)) huuid

namespace Database
variable {db out : Database V} {text : String}

theorem findEntryId_eq_ok {id : EntryId} :
    db.findEntryId text = .ok id ↔ id ∈ db.entries ∧ uuidText id.uuid = text := by
  rw [← find?_key_eq_some]
  unfold findEntryId
  cases db.entries.keys.find? fun entry => uuidText entry.uuid = text <;> simp

theorem findGroupId_eq_ok {id : GroupId} :
    db.findGroupId text = .ok id ↔ id ∈ db.groups ∧ uuidText id.uuid = text := by
  rw [← find?_key_eq_some]
  unfold findGroupId
  cases db.groups.keys.find? fun group => uuidText group.uuid = text <;> simp

/-- The answer depends on the entries of that name only. -/
theorem findEntryId_congr
    (h : ∀ id : EntryId, uuidText id.uuid = text → (id ∈ out.entries ↔ id ∈ db.entries)) :
    out.findEntryId text = db.findEntryId text := by
  have herror : ∀ {db : Database V} {e}, db.findEntryId text = .error e → e = .entryNotFound := by
    intro db e he
    unfold findEntryId at he
    split at he
    · cases he
    · cases he
      rfl
  have hsame : ∀ id, out.findEntryId text = .ok id ↔ db.findEntryId text = .ok id := by
    intro id
    rw [findEntryId_eq_ok, findEntryId_eq_ok]
    constructor
    · rintro ⟨hid, ht⟩
      exact ⟨(h id ht).mp hid, ht⟩
    · rintro ⟨hid, ht⟩
      exact ⟨(h id ht).mpr hid, ht⟩
  cases hdb : db.findEntryId text with
  | ok id => exact (hsame id).mpr hdb
  | error e =>
    cases hout : out.findEntryId text with
    | ok id =>
      rw [(hsame id).mp hout] at hdb
      cases hdb
    | error e' => rw [herror hdb, herror hout]

end Database

end NianPass.Kdbx
