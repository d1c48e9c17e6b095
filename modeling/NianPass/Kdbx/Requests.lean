import NianPass.Kdbx.RecycleBin
import NianPass.Kdbx.EntryPass

/-
  What a mutation of one entry asks for.

  The mutations that track an entry look first whether the entry has what is
  asked for already, and then leave it alone. `Mutation.asked` says what that is
  for each of them. It fails for the entry that is edited, and the edit makes it
  true; `update_entry` asks for several things at once, and its edit gives them
  all.
-/
namespace NianPass.Kdbx

variable {V : Type}

/-! ## Requests -/

namespace EntryData

/-- The field has the value. A field that is missing is as good as an empty one. -/
def HoldsField (data : EntryData V) (name value : String) : Prop :=
  (data.fields[name]?.map (·.get)).getD "" = value

/-- The entry has the address, and none of the older TOTP fields. -/
def HoldsTotp (data : EntryData V) (uri : String) : Prop :=
  data.fields[Fields.otp]?.map (·.get) = some uri ∧ data.hasLegacyTotp = false

end EntryData

def EntryExpiry.Holds (lib : Editing V) (times : Times) : EntryExpiry → Prop
  | .disabled => times.expires ≠ some true ∧ times.expiry = 0
  | .atUnixSeconds seconds => times.expires = some true ∧
      lib.fromTimestamp seconds = some times.expiry

def EntryIconUpdate.Holds (icon : Option Icon) : EntryIconUpdate → Prop
  | .none => icon = Option.none
  | .builtIn id => icon = some (.builtIn id.toNat)

def EntryTotpUpdate.Holds (data : EntryData V) : EntryTotpUpdate → Prop
  | .clear => data.hasTotp = false
  | .set uri => data.HoldsTotp uri

/-- The entry has everything the update names. -/
structure EntryUpdate.Holds (lib : Editing V) (update : EntryUpdate) (data : EntryData V) : Prop where
  fields : ∀ candidate ∈ update.candidates, ∀ value ∈ candidate.2.1, data.HoldsField candidate.1 value
  expiry : ∀ expiry ∈ update.expiry, expiry.Holds lib data.times
  icon : ∀ icon ∈ update.icon, icon.Holds data.icon
  totp : ∀ totp ∈ update.totp, totp.Holds data

/-- The entry a mutation tracks, for the mutations that track one. -/
def Mutation.tracked : Mutation → Option String
  | .setEntryTitle id _ | .setEntryUsername id _ | .setEntryUrl id _ | .setEntryPassword id _
  | .setEntryNotes id _ | .updateEntry id _ | .setEntryCustomField id _ _ _
  | .deleteEntryCustomField id _ | .setEntryTags id _ | .setEntryTotpUri id _ | .clearEntryTotp id
  | .addEntryAttachment id _ _ | .setEntryCustomIconPng id _ | .restoreEntryHistory id _ _ => some id
  | _ => none

/-- What the mutation asks of the entry it tracks. Restoring a snapshot asks for nothing that an
entry could have already. -/
def Mutation.asked (lib : Editing V) (db : Database V) (data : EntryData V) : Mutation → Prop
  | .setEntryTitle _ title => data.HoldsField Fields.title title
  | .setEntryUsername _ username => data.HoldsField Fields.username username
  | .setEntryUrl _ url => data.HoldsField Fields.url url
  | .setEntryPassword _ password => data.HoldsField Fields.password password
  | .setEntryNotes _ notes => data.HoldsField Fields.notes notes
  | .updateEntry _ update => update.Holds lib data
  | .setEntryCustomField _ name value _ => data.fields[name]?.map (·.get) = some value
  | .deleteEntryCustomField _ name => name ∉ data.fields
  | .setEntryTags _ tags => data.tags = tags
  | .setEntryTotpUri _ uri => data.HoldsTotp uri
  | .clearEntryTotp _ => data.hasTotp = false
  | .addEntryAttachment _ name bytes => db.attachmentByName data name = some ⟨true, bytes⟩
  | .setEntryCustomIconPng _ bytes => (db.customIcon data).map (·.data) = some bytes
  | _ => False

/-! ## Fields -/

section Fields
variable {data : EntryData V} {name value : String}

theorem holdsField_iff : data.fields[name]?.any (·.get = value) ∨
    (data.fields[name]?.isNone ∧ value.isEmpty) ↔ data.HoldsField name value := by
  unfold EntryData.HoldsField
  cases data.fields[name]? with
  | none =>
    rw [Option.map_none, Option.getD_none, @eq_comm String "" value, ← String.isEmpty_iff]
    simp
  | some existing => simp

theorem any_get_iff {existing : Option (Value String)} :
    existing.any (·.get = value) = true ↔ existing.map (·.get) = some value := by
  cases existing <;> simp

theorem getElem?_setField (data : EntryData V) (isProtected : Bool) (other : String) :
    (data.setField name isProtected value).fields[other]? =
      if name = other then some ⟨isProtected, value⟩ else data.fields[other]? := by
  by_cases h : name = other <;> simp [EntryData.setField, Std.ExtTreeMap.getElem?_insert, h]

theorem holdsField_setField (data : EntryData V) (name value : String) (isProtected : Bool) :
    (data.setField name isProtected value).HoldsField name value := by
  unfold EntryData.HoldsField
  rw [getElem?_setField, if_pos rfl]
  rfl

end Fields

/-! ## TOTP -/

section Totp
variable {data other : EntryData V} {uri : String}

theorem hasTotp_eq_false : data.hasTotp = false ↔
    ∀ name ∈ Fields.totpNames, data.fields[name]? = none := by
  simp [EntryData.hasTotp]

theorem hasLegacyTotp_eq_false : data.hasLegacyTotp = false ↔
    ∀ name ∈ Fields.totpNames, name ≠ Fields.otp → data.fields[name]? = none := by
  simp [EntryData.hasLegacyTotp]

theorem holdsTotp_iff : data.fields[Fields.otp]?.any (·.get = uri) ∧ ¬ data.hasLegacyTotp ↔
    data.HoldsTotp uri := by
  rw [any_get_iff, Bool.not_eq_true]
  rfl

/-- What an entry says about TOTP is in the TOTP fields. -/
theorem EntryTotpUpdate.Holds.congr {totp : EntryTotpUpdate}
    (hsame : ∀ name ∈ Fields.totpNames, other.fields[name]? = data.fields[name]?)
    (h : totp.Holds data) : totp.Holds other := by
  cases totp with
  | clear =>
    refine hasTotp_eq_false.mpr fun name hname => ?_
    rw [hsame name hname]
    exact hasTotp_eq_false.mp h name hname
  | set uri =>
    have hotp : Fields.otp ∈ Fields.totpNames := List.mem_cons_self
    refine ⟨?_, hasLegacyTotp_eq_false.mpr fun name hname hne => ?_⟩
    · rw [hsame Fields.otp hotp]
      exact h.1
    · rw [hsame name hname]
      exact hasLegacyTotp_eq_false.mp h.2 name hname hne

theorem getElem?_removeTotp (data : EntryData V) (name : String) :
    data.removeTotp.fields[name]? = if name ∈ Fields.totpNames then none else data.fields[name]? :=
  foldl_erase_getElem? Fields.totpNames data.fields name

theorem hasTotp_removeTotp (data : EntryData V) : data.removeTotp.hasTotp = false := by
  refine hasTotp_eq_false.mpr fun name hname => ?_
  rw [getElem?_removeTotp, if_pos hname]

theorem holdsTotp_setField (data : EntryData V) (uri : String) :
    (data.removeTotp.setField Fields.otp true uri).HoldsTotp uri := by
  refine ⟨?_, hasLegacyTotp_eq_false.mpr fun name hname hne => ?_⟩
  · rw [getElem?_setField, if_pos rfl]
    rfl
  · rw [getElem?_setField, if_neg (Ne.symm hne), getElem?_removeTotp, if_pos hname]

end Totp

/-! ## Several requests at once -/

section Update
variable (lib : Editing V) (env : Ambient) {db : Database V} {current data : EntryData V}
  {update : EntryUpdate}

/-- A field is changed unless it has the value that is asked for. -/
theorem fieldChange_eq_none {candidate : String × Option String × MissingFieldProtection} :
    fieldChange lib db current candidate = none ↔
      ∀ value ∈ candidate.2.1, current.HoldsField candidate.1 value := by
  obtain ⟨name, _ | value, policy⟩ := candidate
  · simp [fieldChange]
  · unfold fieldChange
    simp only [Option.bind_some, Option.mem_some_iff, forall_eq']
    split
    · case isTrue h => exact iff_of_true rfl (holdsField_iff.mp h)
    · case isFalse h => exact iff_of_false nofun (mt holdsField_iff.mpr h)

theorem fieldChange_eq_some {candidate : String × Option String × MissingFieldProtection}
    {change : String × String × Bool} (h : fieldChange lib db current candidate = some change) :
    change.1 = candidate.1 ∧ candidate.2.1 = some change.2.1 := by
  obtain ⟨value, hvalue, hchange⟩ := Option.bind_eq_some_iff.mp h
  dsimp only at hchange
  split at hchange
  · cases hchange
  · cases hchange
    exact ⟨rfl, hvalue⟩

/-- The names of the changes are among the names of the candidates. -/
theorem names_changes (db : Database V) (current : EntryData V)
    (candidates : List (String × Option String × MissingFieldProtection)) :
    ((candidates.filterMap (fieldChange lib db current)).map (·.1)).Sublist (candidates.map (·.1)) := by
  induction candidates with
  | nil => exact List.Sublist.refl _
  | cons candidate candidates ih =>
    rw [List.filterMap_cons]
    cases hchange : fieldChange lib db current candidate with
    | none => exact ih.cons _
    | some change =>
      rw [List.map_cons, List.map_cons, (fieldChange_eq_some lib hchange).1]
      exact ih.cons_cons _

/-- The changes of an update write their own fields. -/
theorem foldl_setField_getElem? {changes : List (String × String × Bool)} (data : EntryData V)
    {name : String} (hname : ∀ change ∈ changes, change.1 ≠ name) :
    (changes.foldl (fun data change => data.setField change.1 change.2.2 change.2.1) data).fields[name]? =
      data.fields[name]? := by
  induction changes generalizing data with
  | nil => rfl
  | cons change changes ih =>
    rw [List.foldl_cons, ih _ fun other hother => hname other (List.mem_cons_of_mem _ hother),
      getElem?_setField, if_neg (hname change List.mem_cons_self)]

/-- After the changes, each field has the value that is asked for. Each is named once, so no change
undoes an earlier one. -/
theorem holdsField_changes {candidates : List (String × Option String × MissingFieldProtection)}
    (hnodup : (candidates.map (·.1)).Nodup)
    (hsame : ∀ candidate ∈ candidates, data.fields[candidate.1]? = current.fields[candidate.1]?) :
    ∀ candidate ∈ candidates, ∀ value ∈ candidate.2.1,
      ((candidates.filterMap (fieldChange lib db current)).foldl
        (fun data change => data.setField change.1 change.2.2 change.2.1) data).HoldsField
          candidate.1 value := by
  induction candidates generalizing data with
  | nil => exact nofun
  | cons candidate candidates ih =>
    obtain ⟨hnew, hnodup⟩ := List.nodup_cons.mp hnodup
    change candidate.1 ∉ candidates.map (·.1) at hnew
    have hlater : ∀ change ∈ candidates.filterMap (fieldChange lib db current),
        change.1 ≠ candidate.1 := by
      intro change hchange heq
      apply hnew
      rw [← heq]
      exact (names_changes lib db current candidates).subset (List.mem_map_of_mem hchange)
    have hrest := fun other hother => hsame other (List.mem_cons_of_mem candidate hother)
    rw [List.filterMap_cons]
    cases hchange : fieldChange lib db current candidate with
    | none =>
      intro other hother value hvalue
      rcases List.mem_cons.mp hother with rfl | hother
      · have hholds := (fieldChange_eq_none lib).mp hchange value hvalue
        unfold EntryData.HoldsField at hholds ⊢
        rwa [foldl_setField_getElem? data hlater, hsame _ List.mem_cons_self]
      · exact ih hnodup hrest other hother value hvalue
    | some change =>
      obtain ⟨hname, hasked⟩ := fieldChange_eq_some lib hchange
      intro other hother value hvalue
      rcases List.mem_cons.mp hother with rfl | hother
      · obtain rfl : change.2.1 = value := Option.some.inj (hasked.symm.trans hvalue)
        have hholds := holdsField_setField data change.1 change.2.1 change.2.2
        unfold EntryData.HoldsField at hholds ⊢
        rw [List.foldl_cons, foldl_setField_getElem? _ hlater, ← hname]
        exact hholds
      · refine ih hnodup (fun rest hmem => ?_) other hother value hvalue
        rw [getElem?_setField, if_neg, hrest rest hmem]
        rw [hname]
        intro heq
        apply hnew
        rw [heq]
        exact List.mem_map_of_mem hmem

theorem expiryChange_none {expiry : Option EntryExpiry}
    (h : expiryChange lib current expiry = .ok none) :
    ∀ asked ∈ expiry, asked.Holds lib current.times := by
  rintro asked rfl
  cases asked with
  | disabled =>
    simp only [expiryChange, Except.ok.injEq, ite_eq_right_iff, reduceCtorEq, imp_false, not_or,
      not_not] at h
    exact h
  | atUnixSeconds seconds =>
    simp only [expiryChange] at h
    split at h
    · cases h
    · case h_2 timestamp htimestamp =>
      split at h
      · case isTrue hsame => exact ⟨hsame.1, hsame.2 ▸ htimestamp⟩
      · cases h

theorem expiryChange_some {expiry : Option EntryExpiry} {expires : Bool} {timestamp : Time}
    (h : expiryChange lib current expiry = .ok (some (expires, timestamp))) :
    (∃ asked ∈ expiry, ¬ asked.Holds lib current.times) ∧ ∀ asked ∈ expiry, ∀ times : Times,
      times.expires = some expires → times.expiry = timestamp → asked.Holds lib times := by
  rcases expiry with _ | _ | seconds
  · cases h
  · simp only [expiryChange] at h
    split at h
    · case isTrue hold =>
      cases h
      refine ⟨⟨_, rfl, fun hholds => ?_⟩, ?_⟩
      · rcases hold with hold | hold
        · exact hholds.1 hold
        · exact hold hholds.2
      · intro asked hasked times hexpires hexpiry
        cases hasked
        exact ⟨by rw [hexpires]; decide, hexpiry⟩
    · cases h
  · simp only [expiryChange] at h
    split at h
    · cases h
    · case h_2 htimestamp =>
      split at h
      · cases h
      · case isFalse hold =>
        cases h
        refine ⟨⟨_, rfl, fun hholds => hold ⟨hholds.1, ?_⟩⟩, ?_⟩
        · exact Option.some.inj (hholds.2.symm.trans htimestamp)
        · intro asked hasked times hexpires hexpiry
          cases hasked
          exact ⟨hexpires, hexpiry ▸ htimestamp⟩

theorem iconChange_none {icon : Option EntryIconUpdate} (h : iconChange current icon = .ok none) :
    ∀ asked ∈ icon, asked.Holds current.icon := by
  rintro asked rfl
  cases asked with
  | none =>
    simp only [iconChange, Except.ok.injEq, ite_eq_right_iff, reduceCtorEq, imp_false] at h
    exact Option.not_isSome_iff_eq_none.mp h
  | builtIn id =>
    simp only [iconChange] at h
    split at h
    · cases h
    · split at h
      · case isTrue hsame => exact hsame
      · cases h

/-- The new icon is another one, and never a custom icon. -/
theorem iconChange_some {asked : Option EntryIconUpdate} {icon : Option Icon}
    (h : iconChange current asked = .ok (some icon)) :
    (∃ update ∈ asked, ¬ update.Holds current.icon) ∧ (∀ update ∈ asked, update.Holds icon) ∧
      ∀ i, icon ≠ some (.custom i) := by
  rcases asked with _ | _ | id
  · cases h
  · simp only [iconChange] at h
    split at h
    · case isTrue hold =>
      cases h
      refine ⟨⟨_, rfl, fun hnone => ?_⟩, fun update hupdate => ?_, nofun⟩
      · change current.icon = none at hnone
        rw [hnone] at hold
        cases hold
      · cases hupdate
        rfl
    · cases h
  · simp only [iconChange] at h
    split at h
    · cases h
    · split at h
      · cases h
      · case isFalse hold =>
        cases h
        refine ⟨⟨_, rfl, hold⟩, fun update hupdate => ?_, nofun⟩
        cases hupdate
        rfl

theorem totpChange_none {totp : Option EntryTotpUpdate} (h : totpChange lib current totp = .ok none) :
    ∀ asked ∈ totp, asked.Holds current := by
  rintro asked rfl
  cases asked with
  | clear =>
    simp only [totpChange, Except.ok.injEq, ite_eq_right_iff, reduceCtorEq, imp_false] at h
    exact Bool.eq_false_iff.mpr h
  | set uri =>
    simp only [totpChange] at h
    split at h
    · cases h
    · split at h
      · cases h
      · case isFalse hsame =>
        rw [not_or, not_not] at hsame
        exact holdsTotp_iff.mp hsame

/-- What is left to do is what was asked for, and the entry does not have it. -/
theorem totpChange_some {totp : Option EntryTotpUpdate} {change : EntryTotpUpdate}
    (h : totpChange lib current totp = .ok (some change)) :
    totp = some change ∧ ¬ change.Holds current := by
  rcases totp with _ | _ | uri
  · cases h
  · simp only [totpChange] at h
    split at h
    · case isTrue hold =>
      cases h
      exact ⟨rfl, fun hnone => by rw [show current.hasTotp = false from hnone] at hold; cases hold⟩
    · cases h
  · simp only [totpChange] at h
    split at h
    · cases h
    · split at h
      · case isTrue hold =>
        cases h
        refine ⟨rfl, fun hholds => ?_⟩
        obtain ⟨hsame, hlegacy⟩ := holdsTotp_iff.mpr hholds
        rcases hold with hold | hold
        · exact hold hsame
        · exact hlegacy hold
      · cases h

/-- Setting fields writes fields and nothing else. -/
theorem foldl_setField (changes : List (String × String × Bool)) (data : EntryData V) :
    ∃ fields, changes.foldl (fun data change => data.setField change.1 change.2.2 change.2.1) data =
      { data with fields := fields } := by
  induction changes generalizing data with
  | nil => exact ⟨data.fields, rfl⟩
  | cons change changes ih =>
    obtain ⟨fields, h⟩ := ih (data.setField change.1 change.2.2 change.2.1)
    exact ⟨fields, h⟩

/-! What an update writes, part by part. -/

section Apply
variable (changes : List (String × String × Bool)) (expiry : Option (Bool × Time))
  (icon : Option (Option Icon)) (totp : Option EntryTotpUpdate) (data : EntryData V)

/-- An update leaves the entry where it is. -/
theorem applyUpdate_place : (applyUpdate env changes expiry icon totp data).parent = data.parent ∧
    (applyUpdate env changes expiry icon totp data).previousParent = data.previousParent := by
  obtain ⟨fields, h⟩ := foldl_setField changes data
  unfold applyUpdate
  rw [h]
  rcases expiry with _ | _ <;> rcases icon with _ | _ <;> rcases totp with _ | _ | _ <;>
    exact ⟨rfl, rfl⟩

theorem applyUpdate_icon :
    (applyUpdate env changes expiry icon totp data).icon = icon.getD data.icon := by
  obtain ⟨fields, h⟩ := foldl_setField changes data
  unfold applyUpdate
  rw [h]
  rcases expiry with _ | _ <;> rcases icon with _ | _ <;> rcases totp with _ | _ | _ <;> rfl

theorem applyUpdate_expiry :
    (applyUpdate env changes expiry icon totp data).times.expires =
        (expiry.map fun change => some change.1).getD data.times.expires ∧
      (applyUpdate env changes expiry icon totp data).times.expiry =
        (expiry.map (·.2)).getD data.times.expiry := by
  obtain ⟨fields, h⟩ := foldl_setField changes data
  unfold applyUpdate
  rw [h]
  rcases expiry with _ | _ <;> rcases icon with _ | _ <;> rcases totp with _ | _ | _ <;>
    exact ⟨rfl, rfl⟩

/-- Only the change of TOTP writes TOTP fields. -/
theorem applyUpdate_getElem? {name : String} (hname : name ∉ Fields.totpNames) :
    (applyUpdate env changes expiry icon totp data).fields[name]? =
      (changes.foldl (fun data change => data.setField change.1 change.2.2 change.2.1) data).fields[name]? := by
  have hotp : Fields.otp ≠ name := by
    rintro rfl
    exact hname List.mem_cons_self
  have hexpiry : (applyUpdate env changes expiry icon none data).fields =
      (changes.foldl (fun data change => data.setField change.1 change.2.2 change.2.1) data).fields := by
    rcases expiry with _ | _ <;> rcases icon with _ | _ <;> rfl
  rw [← hexpiry]
  rcases totp with _ | _ | uri
  · rfl
  · show (applyUpdate env changes expiry icon none data).removeTotp.fields[name]? = _
    rw [getElem?_removeTotp, if_neg hname]
  · show ((applyUpdate env changes expiry icon none data).removeTotp.setField Fields.otp true
      uri).fields[name]? = _
    rw [getElem?_setField, if_neg hotp, getElem?_removeTotp, if_neg hname]

theorem applyUpdate_totp (change : EntryTotpUpdate) :
    change.Holds (applyUpdate env changes expiry icon (some change) data) := by
  cases change with
  | clear => exact hasTotp_removeTotp (applyUpdate env changes expiry icon none data)
  | set uri => exact holdsTotp_setField (applyUpdate env changes expiry icon none data) uri

end Apply

theorem names_candidates (update : EntryUpdate) : update.candidates.map (·.1) =
    [Fields.title, Fields.username, Fields.url, Fields.password, Fields.notes] := rfl

/-- The fields an update may change are no TOTP fields. -/
theorem not_mem_totpNames {name : String} (h : name ∈ update.candidates.map (·.1)) :
    name ∉ Fields.totpNames := by
  rw [names_candidates] at h
  revert name
  decide

section Outcome
variable {expiry : Option (Bool × Time)} {icon : Option (Option Icon)}
  {totp : Option EntryTotpUpdate}
  (hexpiry : expiryChange lib current update.expiry = .ok expiry)
  (hicon : iconChange current update.icon = .ok icon)
  (htotp : totpChange lib current update.totp = .ok totp)
include hexpiry hicon htotp

/-- The entry has everything that is asked for exactly if no change is found. -/
theorem holds_iff_unchanged : update.Holds lib current ↔
    (update.candidates.filterMap (fieldChange lib db current)).isEmpty ∧ expiry.isNone ∧
      icon.isNone ∧ totp.isNone := by
  have hfields : (update.candidates.filterMap (fieldChange lib db current)).isEmpty ↔
      ∀ candidate ∈ update.candidates, ∀ value ∈ candidate.2.1,
        current.HoldsField candidate.1 value := by
    rw [List.isEmpty_iff, List.filterMap_eq_nil_iff]
    exact forall₂_congr fun candidate _ => fieldChange_eq_none lib
  constructor
  · intro h
    refine ⟨hfields.mpr h.fields, ?_, ?_, ?_⟩
    · cases expiry with
      | none => rfl
      | some change =>
        obtain ⟨asked, hasked, hnot⟩ := (expiryChange_some lib hexpiry).1
        exact absurd (h.expiry asked hasked) hnot
    · cases icon with
      | none => rfl
      | some icon =>
        obtain ⟨asked, hasked, hnot⟩ := (iconChange_some hicon).1
        exact absurd (h.icon asked hasked) hnot
    · cases totp with
      | none => rfl
      | some change =>
        obtain ⟨hasked, hnot⟩ := totpChange_some lib htotp
        exact absurd (h.totp change hasked) hnot
  · rintro ⟨hempty, hnoExpiry, hnoIcon, hnoTotp⟩
    obtain rfl := Option.isNone_iff_eq_none.mp hnoExpiry
    obtain rfl := Option.isNone_iff_eq_none.mp hnoIcon
    obtain rfl := Option.isNone_iff_eq_none.mp hnoTotp
    exact ⟨hfields.mp hempty, expiryChange_none lib hexpiry, iconChange_none hicon,
      totpChange_none lib htotp⟩

/-- The changes that are found give the entry everything that is asked for. -/
theorem applyUpdate_holds : update.Holds lib
    (applyUpdate env (update.candidates.filterMap (fieldChange lib db current)) expiry icon totp
      current) := by
  have hsublist := names_changes lib db current update.candidates
  have hchanged := @holdsField_changes V lib db current current update.candidates
    (by rw [names_candidates]; decide) fun _ _ => rfl
  generalize update.candidates.filterMap (fieldChange lib db current) = changes at hsublist hchanged ⊢
  obtain ⟨hexpires, htime⟩ := applyUpdate_expiry env changes expiry icon totp current
  constructor
  case fields =>
    intro candidate hcandidate value hvalue
    have hname := not_mem_totpNames (List.mem_map_of_mem hcandidate)
    have hholds := hchanged candidate hcandidate value hvalue
    unfold EntryData.HoldsField at hholds ⊢
    rwa [applyUpdate_getElem? env changes expiry icon totp current hname]
  case expiry =>
    intro asked hasked
    cases expiry with
    | none =>
      have hholds := expiryChange_none lib hexpiry asked hasked
      rw [Option.map_none, Option.getD_none] at hexpires htime
      cases asked <;> simpa only [EntryExpiry.Holds, hexpires, htime] using hholds
    | some change => exact (expiryChange_some lib hexpiry).2 asked hasked _ hexpires htime
  case icon =>
    intro asked hasked
    rw [applyUpdate_icon]
    cases icon with
    | none => exact iconChange_none hicon asked hasked
    | some icon => exact (iconChange_some hicon).2.1 asked hasked
  case totp =>
    intro asked hasked
    cases totp with
    | none =>
      refine (totpChange_none lib htotp asked hasked).congr fun name hname => ?_
      have hother : ∀ change ∈ changes, change.1 ≠ name := by
        rintro change hchange rfl
        exact not_mem_totpNames (hsublist.subset (List.mem_map_of_mem hchange)) hname
      have hfields : (applyUpdate env changes expiry icon none current).fields = (changes.foldl
          (fun data change => data.setField change.1 change.2.2 change.2.1) current).fields := by
        rcases expiry with _ | _ <;> rcases icon with _ | _ <;> rfl
      rw [hfields, foldl_setField_getElem? current hother]
    | some change =>
      obtain ⟨hsame, -⟩ := totpChange_some lib htotp
      obtain rfl : change = asked := Option.some.inj (hsame.symm.trans hasked)
      exact applyUpdate_totp env changes expiry icon current change

end Outcome

/-- An update that names nothing asks for nothing. -/
theorem holds_of_isEmpty (h : update.isEmpty = true) : update.Holds lib current := by
  obtain ⟨title, username, url, password, notes, expiry, totp, icon⟩ := update
  simp only [EntryUpdate.isEmpty, Bool.and_eq_true, Option.isNone_iff_eq_none] at h
  obtain ⟨⟨⟨⟨⟨⟨⟨rfl, rfl⟩, rfl⟩, rfl⟩, rfl⟩, rfl⟩, rfl⟩, rfl⟩ := h
  constructor <;> simp [EntryUpdate.candidates]

/-- Tracking sets the time of the last modification, and no request is about that. -/
theorem EntryUpdate.Holds.touch (h : update.Holds lib data) (now : Time) :
    update.Holds lib { data with times := lib.touch now data.times } := by
  refine ⟨h.fields, fun asked hasked => ?_, h.icon, h.totp⟩
  have hholds := h.expiry asked hasked
  rw [lib.touch_eq]
  cases asked <;> exact hholds

end Update

end NianPass.Kdbx
