import NianPass.Kdbx.Edits
import NianPass.Kdbx.Lookup
import NianPass.Kdbx.Restore
import NianPass.Lib.Batch

/-
  A bulk call against the single calls it stands for.

  `bulk.rs` looks everything up first, and then moves or removes on a candidate
  without checking again. One call for each entry checks against the state that
  the calls before it left. The two differ in nothing but clocks: entries move
  and go, groups stay where they are, so neither the bin nor a destination nor
  the place of another entry changes on the way.

  `Performs` reads a call as a function of the database (`trashed`,
  `trashedTogether`, ...); `SameUpToTimes` compares the two databases without
  the times that a call stamps; `Batch.batch_agrees` puts the items together.

  A single call that creates the bin draws an identifier. It is the one the bulk
  call draws, so that the bins can be compared.
-/
namespace NianPass.Kdbx

open Method

variable {V : Type}

/-! ## Databases without the times of a call -/

/-- The entry without the time of its last move. -/
def Entry.timeless (entry : Entry V) : Entry V :=
  { entry with times := { entry.times with locationChanged := none } }

def Group.timeless (group : Group V) : Group V := { group with times := {} }

/-- The database without the times a call stamps on what it moves, creates and deletes. The
attachment table is left out, it is compared where it is in use. -/
def Database.timeless (db : Database V) : Database V :=
  { db with
    groups := db.groups.map fun _ group => group.timeless
    entries := db.entries.map fun _ entry => entry.timeless
    metadata := { db.metadata with recyclebinChanged := none }
    deletedObjects := db.deletedObjects.map fun _ _ => none
    attachments := ∅ }

/-- The databases differ in times only, and attachments that are in use are the same. -/
structure SameUpToTimes (db out : Database V) : Prop where
  timeless : out.timeless = db.timeless
  attachments : ∀ a, out.Refers a → out.attachments[a]? = db.attachments[a]?

theorem SameUpToTimes.refl (db : Database V) : SameUpToTimes db db := ⟨rfl, fun _ _ => rfl⟩

section Timeless
variable {db out : Database V}

theorem timeless_parentOf (db : Database V) : db.timeless.parentOf = db.parentOf := by
  funext id
  simp only [Database.parentOf, Database.timeless, Std.ExtTreeMap.getElem?_map]
  cases db.groups[id]? <;> rfl

theorem timeless_homeOf (db : Database V) : db.timeless.homeOf = db.homeOf := by
  funext id
  simp only [Database.homeOf, Database.timeless, Std.ExtTreeMap.getElem?_map, Option.map_map]
  cases db.entries[id]? <;> rfl

theorem timeless_mem_groups {id : GroupId} : id ∈ db.timeless.groups ↔ id ∈ db.groups :=
  Std.ExtTreeMap.mem_map

theorem timeless_mem_entries {id : EntryId} : id ∈ db.timeless.entries ↔ id ∈ db.entries :=
  Std.ExtTreeMap.mem_map

theorem timeless_groupIsInRecycleBin (db : Database V) (group recycle : GroupId) :
    groupIsInRecycleBin db.timeless group recycle = groupIsInRecycleBin db group recycle := by
  unfold groupIsInRecycleBin
  rw [timeless_parentOf]
  unfold Database.timeless
  rw [Std.ExtTreeMap.size_map]

theorem timeless_recycleBinId (db : Database V) :
    recycleBinId db.timeless = recycleBinId db := by
  unfold recycleBinId
  simp only [timeless_mem_groups]
  rfl

/-- What a database refers to does not depend on times. -/
theorem timeless_refers {a : AttachmentId} : db.timeless.Refers a ↔ db.Refers a := by
  unfold Database.Refers Database.timeless
  simp only [Std.ExtTreeMap.getElem?_map, Option.map_eq_some_iff]
  constructor
  · rintro ⟨id, _, ⟨entry, hentry, rfl⟩, h⟩
    exact ⟨id, entry, hentry, h⟩
  · rintro ⟨id, entry, hentry, h⟩
    exact ⟨id, entry.timeless, ⟨entry, hentry, rfl⟩, h⟩

/-! ### Edits -/

theorem timeless_relocateEntry (db : Database V) (id : EntryId) (target : GroupId) :
    (db.relocateEntry id target).timeless = db.timeless.relocateEntry id target := by
  unfold Database.relocateEntry
  rw [timeless_homeOf]
  unfold Database.timeless
  congr 1
  · ext x : 1
    simp only [Std.ExtTreeMap.getElem?_map, Option.map_map]
    cases db.groups[x]? <;> rfl
  · ext e : 1
    simp only [Std.ExtTreeMap.getElem?_map, Std.ExtTreeMap.getElem?_modify]
    split
    · cases db.entries[id]? <;> rfl
    · rfl

theorem timeless_editEntry (db : Database V) (id : EntryId) {edit : Entry V → Entry V}
    (hedit : ∀ entry, (edit entry).timeless = entry.timeless) :
    (db.editEntry id edit).timeless = db.timeless := by
  unfold Database.timeless
  congr 1
  ext e : 1
  rw [Std.ExtTreeMap.getElem?_map, getElem?_editEntry, Std.ExtTreeMap.getElem?_map]
  split
  · cases db.entries[e]? with
    | none => rfl
    | some entry => exact congrArg some (hedit entry)
  · rfl

theorem timeless_eraseEntry (db : Database V) (id : EntryId) :
    (db.eraseEntry id).timeless = db.timeless.eraseEntry id := by
  unfold Database.eraseEntry
  rw [timeless_homeOf]
  unfold Database.timeless
  congr 1
  · ext x : 1
    simp only [Std.ExtTreeMap.getElem?_map, Option.map_map]
    cases db.groups[x]? <;> rfl
  · ext e : 1
    simp only [Std.ExtTreeMap.getElem?_map, Std.ExtTreeMap.getElem?_erase]
    split <;> rfl

end Timeless

/-! ## Calls as functions of the database -/

/-- `ok_or(e)?` where only the database matters. -/
def require {α : Type} (e : EditError) (found : Option α) : Except EditError α :=
  match found with
  | some a => .ok a
  | none => .error e

/-- The call succeeds exactly if `expected` does and leaves that database; a call that fails leaves
the document alone. -/
def Performs {α : Type} (doc : KdbxDocument V) (expected : Except EditError (Database V))
    (r : Except EditError α) (out : KdbxDocument V) : Prop :=
  match expected with
  | .ok db => (∃ a, r = .ok a) ∧ out.database = db
  | .error e => r = .error e ∧ out = doc

section Performs
variable {α β : Type} {doc : KdbxDocument V} {e : EditError}

theorem performs_throw : (throw e : Edit V α).Yields doc (Performs doc (.error e)) := ⟨rfl, rfl⟩

theorem performs_kept {a : α} :
    (pure a : Edit V α).Yields doc (Performs doc (.ok doc.database)) := ⟨⟨a, rfl⟩, rfl⟩

theorem performs_commit (db : Database V) :
    (Edit.commit db : Edit V PUnit).Yields doc (Performs doc (.ok db)) := by
  exact ⟨⟨⟨⟩, rfl⟩, markChanged_withDatabase doc db⟩

theorem performs_check {result : Except EditError β} {f : β → Edit V α}
    {expected : β → Except EditError (Database V)}
    (h : ∀ b, (f b).Yields doc (Performs doc (expected b))) :
    (check result >>= f : Edit V α).Yields doc (Performs doc (result >>= expected)) := by
  apply yields_check
  · rintro e rfl
    exact ⟨rfl, rfl⟩
  · rintro b rfl
    exact h b

theorem performs_replace (result : Except EditError (Database V)) :
    (check result >>= Edit.commit : Edit V PUnit).Yields doc (Performs doc result) := by
  apply yields_check
  · rintro e rfl
    exact ⟨rfl, rfl⟩
  · rintro db rfl
    exact performs_commit db

theorem performs_okOr {found : Option β} {f : β → Edit V α}
    {expected : β → Except EditError (Database V)}
    (h : ∀ b, (f b).Yields doc (Performs doc (expected b))) :
    (okOr e found >>= f : Edit V α).Yields doc (Performs doc (require e found >>= expected)) := by
  apply yields_okOr
  · rintro rfl
    exact ⟨rfl, rfl⟩
  · rintro b rfl
    exact h b

theorem performs_ite {c : Prop} [Decidable c] {m n : Edit V α}
    {expected otherwise : Except EditError (Database V)}
    (hm : m.Yields doc (Performs doc expected)) (hn : n.Yields doc (Performs doc otherwise)) :
    (if c then m else n : Edit V α).Yields doc
      (Performs doc (if c then expected else otherwise)) := by
  split
  · exact hm
  · exact hn

theorem performs_quiet {m : Edit V α} {expected : Except EditError (Database V)}
    (h : m.Yields doc (Performs doc expected)) : m.quiet.Yields doc (Performs doc expected) := by
  apply yields_bind
  apply Yields.weaken h
  intro r out hr
  cases expected with
  | ok db =>
    obtain ⟨⟨a, rfl⟩, hdb⟩ := hr
    exact ⟨⟨⟨⟩, rfl⟩, hdb⟩
  | error e =>
    obtain ⟨rfl, rfl⟩ := hr
    exact ⟨rfl, rfl⟩

/-- A call that answers with something after it has committed. -/
theorem performs_replace_pure (result : Except EditError (Database V)) (a : α) :
    (check result >>= fun db => Edit.commit db >>= fun _ => pure a : Edit V α).Yields doc
      (Performs doc result) := by
  apply yields_check
  · rintro e rfl
    exact ⟨rfl, rfl⟩
  · rintro db rfl
    apply yields_bind
    apply Yields.weaken (performs_commit db)
    rintro _ out ⟨⟨b, rfl⟩, hdb⟩
    exact ⟨⟨a, rfl⟩, hdb⟩

end Performs

section Calls
variable (lib : Editing V) (env : Ambient)

/-! ### One entry -/

def moved (db : Database V) (entry destination : String) : Except EditError (Database V) := do
  let entryId ← db.findEntryId entry
  let destinationId ← db.findGroupId destination
  let current ← require .entryNotFound db.entries[entryId]?
  if current.parent = destinationId then .ok db
  else relocated lib env db entryId destinationId

def trashed (db : Database V) (id : String) : Except EditError (Database V) := do
  let entryId ← db.findEntryId id
  let made ← ensureRecycleBin lib env db
  let current ← require .entryNotFound made.1.entries[entryId]?
  if groupIsInRecycleBin made.1 current.parent made.2 then .ok db
  else relocated lib env made.1 entryId made.2

def restored (db : Database V) (id : String) : Except EditError (Database V) := do
  let entryId ← db.findEntryId id
  let recycle ← require .invalidRecycleBinOperation (recycleBinId db)
  let current ← require .entryNotFound db.entries[entryId]?
  if ¬ groupIsInRecycleBin db current.parent recycle then .error .invalidRecycleBinOperation
  else relocated lib env db entryId (entryDestination lib db recycle current)

def deleted (db : Database V) (id : String) : Except EditError (Database V) := do
  let entryId ← db.findEntryId id
  let recycle ← require .invalidRecycleBinOperation (recycleBinId db)
  let current ← require .entryNotFound db.entries[entryId]?
  if ¬ groupIsInRecycleBin db current.parent recycle then .error .invalidRecycleBinOperation
  else do
    let entryId ← db.findEntryId id
    let _ ← require .entryNotFound db.entries[entryId]?
    .ok (lib.trackRemove env db entryId)

/-! ### Several entries -/

def movedTogether (db : Database V) (entries : List String) (destination : String) :
    Except EditError (Database V) :=
  if entries.isEmpty then .ok db
  else do
    let destinationId ← db.findGroupId destination
    let entryIds ← entries.mapM db.findEntryId
    let out ← entryIds.foldlM
      (moveRound lib env destinationId fun _ parent => parent = destinationId) (db, false)
    if out.2 then .ok out.1 else .ok db

def trashedTogether (db : Database V) (entries : List String) : Except EditError (Database V) :=
  if entries.isEmpty then .ok db
  else do
    let entryIds ← entries.mapM db.findEntryId
    let made ← ensureRecycleBin lib env db
    let out ← entryIds.foldlM
      (moveRound lib env made.2 fun db parent => groupIsInRecycleBin db parent made.2)
      (made.1, false)
    if out.2 then .ok out.1 else .ok db

def restoredTogether (db : Database V) (entries : List String) : Except EditError (Database V) :=
  if entries.isEmpty then .ok db
  else do
    let entryIds ← entries.mapM db.findEntryId
    let recycle ← require .invalidRecycleBinOperation (recycleBinId db)
    let destinations ← entryIds.mapM (restorable lib db recycle)
    destinations.foldlM (fun candidate item => relocated lib env candidate item.1 item.2) db

def deletedTogether (db : Database V) (entries : List String) : Except EditError (Database V) :=
  if entries.isEmpty then .ok db
  else do
    let entryIds ← entries.mapM db.findEntryId
    let recycle ← require .invalidRecycleBinOperation (recycleBinId db)
    let _ ← entryIds.mapM (restorable lib db recycle)
    entryIds.foldlM (removeRound lib env) db

variable (doc : KdbxDocument V)

theorem moveEntry_performs (entry destination : String) :
    (KdbxDocument.moveEntry lib env entry destination).Yields doc
      (Performs doc (moved lib env doc.database entry destination)) :=
  yields_get <| performs_check fun _ => performs_check fun _ => performs_okOr fun _ =>
    performs_ite performs_kept (performs_replace _)

theorem trashEntry_performs (id : String) :
    (KdbxDocument.trashEntry lib env id).Yields doc
      (Performs doc (trashed lib env doc.database id)) :=
  yields_get <| performs_check fun _ => performs_check fun _ => performs_okOr fun _ =>
    performs_ite performs_kept (performs_replace _)

theorem restoreEntry_performs (id : String) :
    (KdbxDocument.restoreEntry lib env id).Yields doc
      (Performs doc (restored lib env doc.database id)) :=
  yields_get <| performs_check fun _ => performs_okOr fun _ => performs_okOr fun _ =>
    performs_ite performs_throw (performs_replace_pure _ _)

theorem permanentlyDeleteRecycledEntry_performs (id : String) :
    (KdbxDocument.permanentlyDeleteRecycledEntry lib env id).Yields doc
      (Performs doc (deleted lib env doc.database id)) :=
  yields_get <| performs_check fun _ => performs_okOr fun _ => performs_okOr fun _ =>
    performs_ite performs_throw <| yields_get <| performs_check fun _ => performs_okOr fun _ =>
      performs_commit _

theorem moveEntries_performs (entries : List String) (destination : String) :
    (KdbxDocument.moveEntries lib env entries destination).Yields doc
      (Performs doc (movedTogether lib env doc.database entries destination)) :=
  yields_get <| performs_ite performs_kept <| performs_check fun _ => performs_check fun _ =>
    performs_check fun _ => performs_ite (performs_commit _) performs_kept

theorem trashEntries_performs (entries : List String) :
    (KdbxDocument.trashEntries lib env entries).Yields doc
      (Performs doc (trashedTogether lib env doc.database entries)) :=
  yields_get <| performs_ite performs_kept <| performs_check fun _ => performs_check fun _ =>
    performs_check fun _ => performs_ite (performs_commit _) performs_kept

theorem restoreEntries_performs (entries : List String) :
    (KdbxDocument.restoreEntries lib env entries).Yields doc
      (Performs doc (restoredTogether lib env doc.database entries)) :=
  yields_get <| performs_ite performs_kept <| performs_check fun _ => performs_okOr fun _ =>
    performs_check fun _ => performs_replace _

theorem permanentlyDeleteRecycledEntries_performs (entries : List String) :
    (KdbxDocument.permanentlyDeleteRecycledEntries lib env entries).Yields doc
      (Performs doc (deletedTogether lib env doc.database entries)) :=
  yields_get <| performs_ite performs_kept <| performs_check fun _ => performs_okOr fun _ =>
    performs_check fun _ => performs_replace _

end Calls

/-! ## What the two sides share -/

namespace SameUpToTimes
variable {db out : Database V} (h : SameUpToTimes db out)
include h

theorem mem_groups {id : GroupId} : id ∈ out.groups ↔ id ∈ db.groups := by
  rw [← timeless_mem_groups, h.timeless, timeless_mem_groups]

theorem mem_entries {id : EntryId} : id ∈ out.entries ↔ id ∈ db.entries := by
  rw [← timeless_mem_entries, h.timeless, timeless_mem_entries]

theorem groupIsInRecycleBin (group recycle : GroupId) :
    Kdbx.groupIsInRecycleBin out group recycle = Kdbx.groupIsInRecycleBin db group recycle := by
  rw [← timeless_groupIsInRecycleBin out, h.timeless, timeless_groupIsInRecycleBin]

theorem entries (id : EntryId) :
    out.entries[id]?.map Entry.timeless = db.entries[id]?.map Entry.timeless := by
  have := congrArg (fun db : Database V => db.entries[id]?) h.timeless
  simpa [Database.timeless] using this

/-- An entry is on both sides or on neither, and hangs below one group. -/
theorem entry_cases (id : EntryId) :
    (db.entries[id]? = none ∧ out.entries[id]? = none) ∨
    ∃ entry entry' : Entry V, db.entries[id]? = some entry ∧ out.entries[id]? = some entry' ∧
      entry'.timeless = entry.timeless := by
  have hsame := h.entries id
  cases hdb : db.entries[id]? with
  | none =>
    rw [hdb, Option.map_none, Option.map_eq_none_iff] at hsame
    exact Or.inl ⟨rfl, hsame⟩
  | some entry =>
    rw [hdb, Option.map_some, Option.map_eq_some_iff] at hsame
    obtain ⟨entry', hout, heq⟩ := hsame
    exact Or.inr ⟨entry, entry', rfl, hout, heq⟩

end SameUpToTimes

/-- The time of a move. -/
def Entry.stamped (now : Time) (entry : Entry V) : Entry V :=
  { entry with times := { entry.times with locationChanged := some now } }

/-- The database after a move. -/
def Database.placed (db : Database V) (now : Time) (id : EntryId) (target : GroupId) : Database V :=
  (db.relocateEntry id target).editEntry id (Entry.stamped now)

section Placed
variable {db out : Database V} {now now' : Time} {id : EntryId} {target : GroupId}

theorem timeless_placed : (db.placed now id target).timeless = db.timeless.relocateEntry id target := by
  unfold Database.placed
  have hstamped : ((db.relocateEntry id target).editEntry id (Entry.stamped now)).timeless =
      (db.relocateEntry id target).timeless := timeless_editEntry _ id fun _ => rfl
  rw [hstamped, timeless_relocateEntry]

theorem mem_entries_placed {e : EntryId} : e ∈ (db.placed now id target).entries ↔ e ∈ db.entries := by
  simp [Database.placed, Database.relocateEntry, Std.ExtTreeMap.mem_modify]

theorem entries_placed {e : EntryId} (he : e ≠ id) :
    (db.placed now id target).entries[e]? = db.entries[e]? := by
  unfold Database.placed
  rw [getElem?_editEntry, if_neg (Ne.symm he), getElem?_relocateEntry, if_neg (Ne.symm he)]

theorem findGroupId_placed (text : String) :
    (db.placed now id target).findGroupId text = db.findGroupId text := by
  unfold Database.findGroupId Database.placed Database.editEntry Database.relocateEntry
  rw [Std.ExtTreeMap.keys_map]

theorem refers_placed {a : AttachmentId} :
    (db.placed now id target).Refers a ↔ db.Refers a := by
  have hrelocated : ∀ db : Database V, (db.relocateEntry id target).Refers a ↔ db.Refers a := by
    intro db
    unfold Database.Refers
    simp only [getElem?_relocateEntry]
    constructor
    · rintro ⟨e, entry, hentry, h⟩
      split at hentry
      · obtain ⟨entry', hentry', rfl⟩ := Option.map_eq_some_iff.mp hentry
        exact ⟨e, entry', hentry', h⟩
      · exact ⟨e, entry, hentry, h⟩
    · rintro ⟨e, entry, hentry, h⟩
      by_cases he : id = e
      · exact ⟨e, { entry with parent := target, previousParent := some entry.parent }, by
          rw [if_pos he, hentry]
          rfl, h⟩
      · exact ⟨e, entry, by rw [if_neg he, hentry], h⟩
  rw [← timeless_refers, timeless_placed, hrelocated, timeless_refers]

theorem SameUpToTimes.placed (h : SameUpToTimes db out) :
    SameUpToTimes (db.placed now id target) (out.placed now' id target) where
  timeless := by rw [timeless_placed, timeless_placed, h.timeless]
  attachments a ha := h.attachments a (refers_placed.mp ha)

/-- A move succeeds if the entry and the destination exist. -/
theorem relocated_eq (lib : Editing V) (env : Ambient) (db : Database V) (id : EntryId)
    (target : GroupId) : relocated lib env db id target =
      if id ∈ db.entries then
        if target ∈ db.groups then .ok (db.placed env.now id target) else .error .groupNotFound
      else .error .entryNotFound := by
  unfold relocated
  split
  · case isTrue hid =>
    have hsome := lib.moveEntryTo_isSome db id target hid
    cases hmove : lib.moveEntryTo db id target with
    | none =>
      have hmissing : target ∉ db.groups := fun ht => by
        have := hsome.mpr ht
        simp [hmove] at this
      rw [if_neg hmissing]
    | some moved =>
      have hfound : target ∈ db.groups := hsome.mp (by simp [hmove])
      rw [if_pos hfound, lib.moveEntryTo_eq db id target moved hid hmove]
      rfl
  · rfl

end Placed

/-! ## Moving -/

section Moving
variable (lib : Editing V) (env env' : Ambient)

/-- A round of a bulk move against the checks of a single call, from related databases. -/
theorem moveRound_agrees {cand db : Database V} {changed : Bool} {target : GroupId} {id : EntryId}
    {stays : Database V → GroupId → Bool} (stays' : GroupId → Prop) [DecidablePred stays']
    {keep : Database V} {R : Database V × Bool → Database V → Prop} (h : SameUpToTimes cand db)
    (hstays : ∀ p, stays cand p = true ↔ stays' p) (hkept : R (cand, changed) keep)
    (hmoved : R (cand.placed env.now id target, true) (db.placed env'.now id target)) :
    Agree R (moveRound lib env target stays (cand, changed) id)
      (require .entryNotFound db.entries[id]? >>= fun current =>
        if stays' current.parent then .ok keep else relocated lib env' db id target) := by
  unfold moveRound
  rcases h.entry_cases id with ⟨hcand, hdb⟩ | ⟨entry, entry', hcand, hdb, heq⟩
  · simp only [hcand, hdb]
    exact .error _ _
  · have hparent : entry'.timeless.parent = entry.timeless.parent := by rw [heq]
    have hmem : id ∈ cand.entries := mem_iff_exists.mpr ⟨entry, hcand⟩
    simp only [hcand, hdb, relocated_eq, hmem, h.mem_entries.mpr hmem, if_true]
    show Agree R _ (if stays' entry'.timeless.parent then .ok keep else _)
    rw [hparent]
    show Agree R _ (if stays' entry.parent then .ok keep else _)
    by_cases hstay : stays' entry.parent
    · rw [if_pos ((hstays _).mpr hstay), if_pos hstay]
      exact .ok hkept
    · rw [if_neg (mt (hstays _).mp hstay), if_neg hstay]
      by_cases htarget : target ∈ cand.groups
      · rw [if_pos htarget, if_pos (h.mem_groups.mpr htarget)]
        exact .ok hmoved
      · rw [if_neg htarget, if_neg (mt h.mem_groups.mp htarget)]
        exact .error _ _

end Moving

/-- How far `move_entries` and the single moves have come: whatever moved, the texts find the same. -/
structure MovedSoFar (start : Database V) (state : Database V × Bool) (db : Database V) : Prop where
  same : SameUpToTimes state.1 db
  entryIds : ∀ text, db.findEntryId text = start.findEntryId text
  groupIds : ∀ text, db.findGroupId text = start.findGroupId text
  unchanged : state.2 = false → state.1 = start

theorem findEntryId_placed (db : Database V) (now : Time) (id : EntryId) (target : GroupId)
    (text : String) : (db.placed now id target).findEntryId text = db.findEntryId text :=
  Database.findEntryId_congr fun _ _ => mem_entries_placed

/-- The names of the calls, looked at one after the other. -/
theorem mapM_names {α : Type} (f : String → Except EditError α) (calls : List (String × Ambient)) :
    (calls.map Prod.fst).mapM f = calls.mapM fun call => f call.1 :=
  List.mapM_map

section Together
variable (lib : Editing V) (env : Ambient) (start : Database V)

theorem movedTogether_agrees (destination : String) (calls : List (String × Ambient)) :
    Agree SameUpToTimes
      (movedTogether lib env start (calls.map Prod.fst) destination)
      (calls.foldlM (fun db call => moved lib call.2 db call.1 destination) start) := by
  cases calls with
  | nil => exact .ok (SameUpToTimes.refl start)
  | cons first rest =>
    unfold movedTogether
    rw [if_neg (by simp)]
    cases hdestination : start.findGroupId destination with
    | error e =>
      -- The first single call fails as well.
      have hfirst : ∃ e', moved lib first.2 start first.1 destination = .error e' := by
        unfold moved
        rw [hdestination]
        cases start.findEntryId first.1 with
        | error e => exact ⟨e, rfl⟩
        | ok id => exact ⟨e, rfl⟩
      obtain ⟨e', he'⟩ := hfirst
      rw [List.foldlM_cons, he']
      exact .error e e'
    | ok target =>
      have hround : ∀ (call : String × Ambient) (rest : List (String × Ambient)) state db,
          MovedSoFar start state db → Agree (MovedSoFar start)
            (start.findEntryId call.1 >>=
              moveRound lib env target (fun _ parent => parent = target) state)
            (moved lib call.2 db call.1 destination) := by
        rintro call rest ⟨cand, changed⟩ db h
        unfold moved
        rw [h.entryIds, h.groupIds, hdestination]
        cases start.findEntryId call.1 with
        | error e => exact .error e e
        | ok id =>
          have hsame : SameUpToTimes cand db := h.same
          rw [Batch.bind_ok, Batch.bind_ok]
          refine moveRound_agrees lib env call.2 (· = target) hsame (fun p => ?_) h ?_
          · exact decide_eq_true_iff
          · exact {
              same := h.same.placed
              entryIds text := (findEntryId_placed ..).trans (h.entryIds text)
              groupIds text := (findGroupId_placed text).trans (h.groupIds text)
              unchanged := nofun }
      have hstart : MovedSoFar start (start, false) start :=
        ⟨SameUpToTimes.refl start, fun _ => rfl, fun _ => rfl, fun _ => rfl⟩
      have hbatch := @Batch.batch_agrees _ _ _ _ _ _ (fun call : String × Ambient => start.findEntryId call.1)
        _ _ (fun _ => MovedSoFar start) hround (first :: rest) _ _ hstart
      rw [mapM_names]
      simp only [Batch.bind_ok, ← bind_assoc]
      apply hbatch.finish
      rintro ⟨cand, changed⟩ db h
      cases changed with
      | true => exact ⟨cand, rfl, h.same⟩
      | false =>
        have hsame := h.same
        rw [h.unchanged rfl] at hsame
        exact ⟨start, rfl, hsame⟩

end Together

/-! ## Trashing -/

/-- The library stamps new groups and otherwise makes the same ones. -/
def StampsOnly (lib : Editing V) : Prop :=
  ∀ now now' parent, (lib.newGroup now parent).timeless = (lib.newGroup now' parent).timeless

/-- The database may use a bin, and `recycle` is its bin. -/
def Database.HasBin (db : Database V) (recycle : GroupId) : Prop :=
  db.metadata.recyclebinEnabled ≠ some false ∧ recycleBinId db = some recycle

section Bin
variable {lib : Editing V} {env env' : Ambient} {db made : Database V} {recycle : GroupId}

theorem Database.HasBin.ensures (h : db.HasBin recycle) :
    ensureRecycleBin lib env db = .ok (db, recycle) := by
  unfold ensureRecycleBin
  rw [if_neg h.1, h.2]

theorem Database.HasBin.placed (h : db.HasBin recycle) {now : Time} {id : EntryId}
    {target : GroupId} : (db.placed now id target).HasBin recycle := by
  refine ⟨h.1, ?_⟩
  rw [← timeless_recycleBinId, timeless_placed, ← h.2, ← timeless_recycleBinId db]
  unfold recycleBinId Database.relocateEntry
  simp only [Std.ExtTreeMap.mem_map]

/-- Once there is a bin there is one. -/
theorem ensureRecycleBin_hasBin (h : ensureRecycleBin lib env db = .ok (made, recycle)) :
    made.HasBin recycle := by
  unfold ensureRecycleBin at h
  split at h
  · cases h
  · case isFalse henabled =>
    split at h
    · case h_1 id hbin =>
      cases h
      exact ⟨henabled, hbin⟩
    · cases h
      refine ⟨by simp, ?_⟩
      simp [recycleBinId, Editing.addGroup, Database.insertGroup, Database.editGroup,
        Std.ExtTreeMap.mem_modify]

theorem ensureRecycleBin_entries (h : ensureRecycleBin lib env db = .ok (made, recycle)) :
    made.entries = db.entries := by
  unfold ensureRecycleBin at h
  split at h
  · cases h
  · split at h <;> cases h <;> rfl

/-- At another time the bin is the same one. A new bin has the identifier that is drawn for it. -/
theorem ensureRecycleBin_again (env' : Ambient) (hstamps : StampsOnly lib)
    (h : ensureRecycleBin lib env db = .ok (made, recycle))
    (huuid : recycleBinId db = none → env'.uuid = env.uuid) :
    ∃ made', ensureRecycleBin lib env' db = .ok (made', recycle) ∧ SameUpToTimes made made' := by
  unfold ensureRecycleBin at h ⊢
  split at h
  · cases h
  · case isFalse henabled =>
    rw [if_neg henabled]
    split at h
    · case h_1 id hbin =>
      cases h
      exact ⟨db, rfl, SameUpToTimes.refl db⟩
    · case h_2 hbin =>
      cases h
      obtain ⟨now, uuid⟩ := env
      obtain ⟨now', uuid'⟩ := env'
      obtain rfl : uuid' = uuid := huuid hbin
      refine ⟨_, rfl, ?_, fun _ _ => rfl⟩
      unfold Database.timeless Editing.addGroup Database.insertGroup Database.editGroup
      congr 1
      ext x : 1
      simp only [Std.ExtTreeMap.getElem?_map, Std.ExtTreeMap.getElem?_modify,
        Std.ExtTreeMap.getElem?_insert]
      split
      · -- the bin itself, which has its name besides
        have hnew := congrArg (fun group : Group V => some { group with name := recycleBinName })
          (hstamps now' now db.root)
        rw [if_pos Std.ReflCmp.compare_self, if_pos Std.ReflCmp.compare_self]
        exact hnew
      · rfl

end Bin

/-- How far `trash_entries` and the single calls have come. As long as nothing moved, the single calls
left the document as it was, without the bin that the candidate has. -/
structure TrashedSoFar (lib : Editing V) (env : Ambient) (start : Database V) (recycle : GroupId)
    (rest : List (String × Ambient)) (state : Database V × Bool) (db : Database V) : Prop where
  draws : recycleBinId start = none → ∀ call ∈ rest, call.2.uuid = env.uuid
  entryIds : ∀ text, db.findEntryId text = start.findEntryId text
  ready : ∀ env', (recycleBinId start = none → env'.uuid = env.uuid) →
    ∃ other, ensureRecycleBin lib env' db = .ok (other, recycle) ∧ SameUpToTimes state.1 other
  changed : state.2 = true → SameUpToTimes state.1 db
  unchanged : state.2 = false → db = start

section Together
variable (lib : Editing V) (env : Ambient) (start : Database V)

theorem trashedTogether_agrees (hstamps : StampsOnly lib) (calls : List (String × Ambient))
    (hdraws : recycleBinId start = none → ∀ call ∈ calls, call.2.uuid = env.uuid) :
    Agree SameUpToTimes
      (trashedTogether lib env start (calls.map Prod.fst))
      (calls.foldlM (fun db call => trashed lib call.2 db call.1) start) := by
  cases calls with
  | nil => exact .ok (SameUpToTimes.refl start)
  | cons first rest =>
    unfold trashedTogether
    rw [if_neg (by simp), mapM_names]
    cases hmade : ensureRecycleBin lib env start with
    | error e =>
      -- The bin is disabled for the first single call as well.
      have hfirst : ∃ e', trashed lib first.2 start first.1 = .error e' := by
        unfold trashed
        cases start.findEntryId first.1 with
        | error e => exact ⟨e, rfl⟩
        | ok id =>
          cases hagain : ensureRecycleBin lib first.2 start with
          | error e => exact ⟨e, rfl⟩
          | ok out =>
            obtain ⟨made', hmade', -⟩ := ensureRecycleBin_again env hstamps hagain fun hnone =>
              (hdraws hnone first List.mem_cons_self).symm
            rw [hmade] at hmade'
            cases hmade'
      obtain ⟨e', he'⟩ := hfirst
      rw [List.foldlM_cons, he']
      cases (first :: rest).mapM fun call => start.findEntryId call.1 with
      | error e => exact .error e e'
      | ok ids => exact .error e e'
    | ok out =>
      obtain ⟨made, recycle⟩ := out
      have hround : ∀ (call : String × Ambient) (rest : List (String × Ambient)) state db,
          TrashedSoFar lib env start recycle (call :: rest) state db →
          Agree (TrashedSoFar lib env start recycle rest)
            (start.findEntryId call.1 >>= moveRound lib env recycle
              (fun db parent => groupIsInRecycleBin db parent recycle) state)
            (trashed lib call.2 db call.1) := by
        rintro call rest ⟨cand, changed⟩ db h
        have hlater := fun hnone other hother => h.draws hnone other (List.mem_cons_of_mem call hother)
        unfold trashed
        rw [h.entryIds]
        cases start.findEntryId call.1 with
        | error e => exact .error e e
        | ok id =>
          obtain ⟨other, hother, hsame⟩ := h.ready call.2 fun hnone => h.draws hnone call List.mem_cons_self
          rw [hother]
          rw [Batch.bind_ok, Batch.bind_ok]
          refine moveRound_agrees lib env call.2 (fun parent => groupIsInRecycleBin other parent recycle)
            hsame (fun p => ?_) { h with draws := hlater } ?_
          · rw [hsame.groupIsInRecycleBin]
          · have hbin : (other.placed call.2.now id recycle).HasBin recycle :=
              (ensureRecycleBin_hasBin hother).placed
            have hids : ∀ text, other.findEntryId text = db.findEntryId text := fun text =>
              Database.findEntryId_congr fun _ _ => by rw [ensureRecycleBin_entries hother]
            exact {
              draws := hlater
              entryIds text := by rw [findEntryId_placed, hids, h.entryIds]
              ready env' _ := ⟨_, hbin.ensures, hsame.placed⟩
              changed _ := hsame.placed
              unchanged := nofun }
      have hstart : TrashedSoFar lib env start recycle (first :: rest) (made, false) start := {
        draws := hdraws
        entryIds _ := rfl
        ready env' huuid := ensureRecycleBin_again env' hstamps hmade huuid
        changed := nofun
        unchanged _ := rfl }
      have hbatch := @Batch.batch_agrees _ _ _ _ _ _ (fun call : String × Ambient => start.findEntryId call.1)
        _ _ (TrashedSoFar lib env start recycle) hround (first :: rest) _ _ hstart
      simp only [Batch.bind_ok, ← bind_assoc]
      apply hbatch.finish
      rintro ⟨cand, changed⟩ db h
      cases changed with
      | true => exact ⟨cand, rfl, h.changed rfl⟩
      | false =>
        rw [h.unchanged rfl]
        exact ⟨start, rfl, SameUpToTimes.refl start⟩

end Together

/-! ## Restoring and deleting -/

section InStep
variable {lib : Editing V} {db out start : Database V} {recycle : GroupId}

theorem SameGroups.groupIsInRecycleBin (h : SameGroups db out) (group : GroupId) :
    groupIsInRecycleBin out group recycle = groupIsInRecycleBin db group recycle := by
  unfold Kdbx.groupIsInRecycleBin
  rw [decide_eq_decide, Database.mem_trail_parentOf, Database.mem_trail_parentOf, h.parentOf]

theorem SameGroups.recycleBinId (h : SameGroups db out) (hmetadata : out.metadata = db.metadata) :
    recycleBinId out = recycleBinId db := by
  unfold Kdbx.recycleBinId
  simp only [hmetadata, h.mem_groups]

/-- Where an entry goes back to depends on the groups only. -/
theorem SameGroups.entryDestination (h : SameGroups db out) (hlookup : LooksUp lib.toKeepass)
    (entry : Entry V) :
    entryDestination lib out recycle entry = entryDestination lib db recycle entry := by
  unfold Kdbx.entryDestination
  rw [hlookup.eq_filter, hlookup.eq_filter, h.root]
  simp only [h.mem_groups, h.groupIsInRecycleBin]

theorem sameGroups_placed {now : Time} {id : EntryId} {target : GroupId} :
    SameGroups db (db.placed now id target) :=
  have h : SameGroups db (db.relocateEntry id target) := sameGroups_relocateEntry
  ⟨h.root, h.core, h.childGroups⟩

/-- How far a bulk restore or delete and the single calls have come: the groups are those of the
start, and so is every entry that is still to come. -/
structure InStep (start : Database V) (rest : List (String × Ambient)) (state db : Database V) :
    Prop where
  names : (rest.map Prod.fst).Nodup
  same : SameUpToTimes state db
  groups : SameGroups start db
  metadata : db.metadata = start.metadata
  entries : ∀ id : EntryId, Database.uuidText id.uuid ∈ rest.map Prod.fst →
    db.entries[id]? = start.entries[id]?

namespace InStep
variable {call : String × Ambient} {rest : List (String × Ambient)} {state state' db' : Database V}
  {id : EntryId}

theorem init {calls : List (String × Ambient)} (h : (calls.map Prod.fst).Nodup) :
    InStep start calls start start where
  names := h
  same := SameUpToTimes.refl start
  groups := ⟨rfl, fun _ => rfl, fun _ => rfl⟩
  metadata := rfl
  entries _ _ := rfl

theorem findEntryId (h : InStep start (call :: rest) state db) :
    db.findEntryId call.1 = start.findEntryId call.1 := by
  apply Database.findEntryId_congr
  intro id hid
  have hsame := h.entries id (by rw [hid]; exact List.mem_cons_self)
  rw [mem_iff_exists, mem_iff_exists, hsame]

theorem next (h : InStep start (call :: rest) state db) (hid : start.findEntryId call.1 = .ok id)
    (hsame : SameUpToTimes state' db') (hgroups : SameGroups db db')
    (hmetadata : db'.metadata = db.metadata)
    (hentries : ∀ e, e ≠ id → db'.entries[e]? = db.entries[e]?) : InStep start rest state' db' where
  names := (List.nodup_cons.mp h.names).2
  same := hsame
  groups := h.groups.trans hgroups
  metadata := hmetadata.trans h.metadata
  entries e he := by
    -- an entry still to come is not the one of this call
    have hne : e ≠ id := by
      rintro rfl
      rw [(Database.findEntryId_eq_ok.mp hid).2] at he
      exact (List.nodup_cons.mp h.names).1 he
    rw [hentries e hne]
    exact h.entries e (List.mem_cons_of_mem _ he)

end InStep

end InStep

section Removed
variable {lib : Editing V} {env env' : Ambient} {db out : Database V} {id : EntryId}

theorem trackRemove_eq (lib : Editing V) (env : Ambient) (hid : id ∈ db.entries) :
    ∃ table, lib.trackRemove env db id = { db.eraseEntry id with
      attachments := table
      deletedObjects := db.deletedObjects.insert id.uuid (some env.now) } := by
  obtain ⟨table, htable⟩ := lib.removeEntry_eq db id hid
  refine ⟨table, ?_⟩
  unfold Editing.trackRemove
  rw [htable]
  rfl

theorem timeless_trackRemove (lib : Editing V) (env : Ambient) (hid : id ∈ db.entries) :
    (lib.trackRemove env db id).timeless = { db.timeless.eraseEntry id with
      deletedObjects := db.timeless.deletedObjects.insert id.uuid none } := by
  obtain ⟨table, htable⟩ := trackRemove_eq lib env hid
  rw [htable, ← timeless_eraseEntry]
  unfold Database.timeless
  congr 1
  ext uuid : 1
  simp only [Std.ExtTreeMap.getElem?_map, Std.ExtTreeMap.getElem?_insert]
  split <;> rfl

theorem refers_of_trackRemove (hid : id ∈ db.entries) {a : AttachmentId}
    (h : (lib.trackRemove env db id).Refers a) : (lib.removeEntry db id).Refers a ∧ db.Refers a := by
  refine ⟨h, ?_⟩
  obtain ⟨table, htable⟩ := trackRemove_eq lib env hid
  rw [htable] at h
  obtain ⟨e, entry, hentry, hnamed⟩ := h
  have herased : (db.eraseEntry id).entries[e]? = some entry := hentry
  rw [getElem?_eraseEntry] at herased
  split at herased
  · cases herased
  · exact ⟨e, entry, herased, hnamed⟩

/-- Removing an entry from both sides. -/
theorem SameUpToTimes.removed (h : SameUpToTimes db out) (hid : id ∈ out.entries) :
    SameUpToTimes (lib.trackRemove env db id) (lib.trackRemove env' out id) := by
  have hmem : id ∈ db.entries := h.mem_entries.mp hid
  have hsame : (lib.trackRemove env' out id).timeless = (lib.trackRemove env db id).timeless := by
    rw [timeless_trackRemove lib env' hid, timeless_trackRemove lib env hmem, h.timeless]
  refine ⟨hsame, ?_⟩
  intro a ha
  have hother : (lib.trackRemove env db id).Refers a := by
    rw [← timeless_refers, ← hsame, timeless_refers]
    exact ha
  obtain ⟨hleft, hrefers⟩ := refers_of_trackRemove hid ha
  obtain ⟨hleft', -⟩ := refers_of_trackRemove hmem hother
  calc (lib.removeEntry out id).attachments[a]?
      _ = out.attachments[a]? := lib.removeEntry_attachments out id a hleft
      _ = db.attachments[a]? := h.attachments a hrefers
      _ = (lib.removeEntry db id).attachments[a]? := (lib.removeEntry_attachments db id a hleft').symm

theorem sameGroups_trackRemove (lib : Editing V) (env : Ambient) (hid : id ∈ db.entries) :
    SameGroups db (lib.trackRemove env db id) := by
  obtain ⟨table, htable⟩ := trackRemove_eq lib env hid
  have h : SameGroups db (db.eraseEntry id) := sameGroups_eraseEntry
  rw [htable]
  exact ⟨h.root, h.core, h.childGroups⟩

end Removed

section Together
variable (lib : Editing V) (env : Ambient) (start : Database V)

theorem restoredTogether_agrees (hlookup : LooksUp lib.toKeepass) (calls : List (String × Ambient))
    (hnames : (calls.map Prod.fst).Nodup) :
    Agree SameUpToTimes
      (restoredTogether lib env start (calls.map Prod.fst))
      (calls.foldlM (fun db call => restored lib call.2 db call.1) start) := by
  cases calls with
  | nil => exact .ok (SameUpToTimes.refl start)
  | cons first rest =>
    unfold restoredTogether
    rw [if_neg (by simp), mapM_names]
    cases hrecycle : recycleBinId start with
    | none =>
      -- Neither has a bin.
      have hfirst : ∃ e', restored lib first.2 start first.1 = .error e' := by
        unfold restored
        rw [hrecycle]
        cases start.findEntryId first.1 with
        | error e => exact ⟨e, rfl⟩
        | ok id => exact ⟨_, rfl⟩
      obtain ⟨e', he'⟩ := hfirst
      rw [List.foldlM_cons, he']
      cases (first :: rest).mapM fun call => start.findEntryId call.1 with
      | error e => exact .error e e'
      | ok ids => exact .error _ e'
    | some recycle =>
      have hround : ∀ (call : String × Ambient) (rest : List (String × Ambient)) state db,
          InStep start (call :: rest) state db → Agree (InStep start rest)
            (start.findEntryId call.1 >>= restorable lib start recycle >>= fun item =>
              relocated lib env state item.1 item.2)
            (restored lib call.2 db call.1) := by
        intro call rest state db h
        unfold restored
        rw [h.findEntryId, h.groups.recycleBinId h.metadata, hrecycle]
        cases hid : start.findEntryId call.1 with
        | error e => exact .error e e
        | ok id =>
          have hentry := h.entries id (by
            rw [(Database.findEntryId_eq_ok.mp hid).2]
            exact List.mem_cons_self)
          simp only [Batch.bind_ok, restorable, hentry]
          cases hsome : start.entries[id]? with
          | none => exact .error _ _
          | some entry =>
            have hmem : id ∈ db.entries := mem_iff_exists.mpr ⟨entry, hentry.trans hsome⟩
            simp only [require, Batch.bind_ok, h.groups.groupIsInRecycleBin,
              h.groups.entryDestination hlookup]
            split
            · exact .error _ _
            · simp only [Batch.bind_ok, relocated_eq, if_pos hmem,
                if_pos (h.same.mem_entries.mp hmem), h.same.mem_groups]
              split
              · exact .ok (h.next hid h.same.placed sameGroups_placed rfl fun e he =>
                  entries_placed he)
              · exact .error _ _
      have hlook := Batch.mapM_agrees (fun call : String × Ambient => start.findEntryId call.1)
        (restorable lib start recycle) (first :: rest)
      have hbatch := @Batch.batch_agrees _ _ _ _ _ _
        (fun call : String × Ambient => start.findEntryId call.1 >>= restorable lib start recycle)
        _ _ (InStep start) hround (first :: rest) _ _ (InStep.init hnames)
      simp only [require, Batch.bind_ok, ← bind_assoc]
      exact (hlook.bind_eq _).trans hbatch (by rintro a _ c rfl h; exact h.same)

/-- The check of `restorable`, for an entry that goes nowhere. -/
def removable (db : Database V) (recycle : GroupId) (id : EntryId) : Except EditError EntryId := do
  let _ ← restorable lib db recycle id
  .ok id

theorem deletedTogether_agrees (calls : List (String × Ambient))
    (hnames : (calls.map Prod.fst).Nodup) :
    Agree SameUpToTimes
      (deletedTogether lib env start (calls.map Prod.fst))
      (calls.foldlM (fun db call => deleted lib call.2 db call.1) start) := by
  cases calls with
  | nil => exact .ok (SameUpToTimes.refl start)
  | cons first rest =>
    unfold deletedTogether
    rw [if_neg (by simp), mapM_names]
    cases hrecycle : recycleBinId start with
    | none =>
      have hfirst : ∃ e', deleted lib first.2 start first.1 = .error e' := by
        unfold deleted
        rw [hrecycle]
        cases start.findEntryId first.1 with
        | error e => exact ⟨e, rfl⟩
        | ok id => exact ⟨_, rfl⟩
      obtain ⟨e', he'⟩ := hfirst
      rw [List.foldlM_cons, he']
      cases (first :: rest).mapM fun call => start.findEntryId call.1 with
      | error e => exact .error e e'
      | ok ids => exact .error _ e'
    | some recycle =>
      have hround : ∀ (call : String × Ambient) (rest : List (String × Ambient)) state db,
          InStep start (call :: rest) state db → Agree (InStep start rest)
            (start.findEntryId call.1 >>= removable lib start recycle >>= removeRound lib env state)
            (deleted lib call.2 db call.1) := by
        intro call rest state db h
        unfold deleted
        rw [h.findEntryId, h.groups.recycleBinId h.metadata, hrecycle]
        cases hid : start.findEntryId call.1 with
        | error e => exact .error e e
        | ok id =>
          have hentry := h.entries id (by
            rw [(Database.findEntryId_eq_ok.mp hid).2]
            exact List.mem_cons_self)
          simp only [Batch.bind_ok, removable, restorable, hentry]
          cases hsome : start.entries[id]? with
          | none => exact .error _ _
          | some entry =>
            have hmem : id ∈ db.entries := mem_iff_exists.mpr ⟨entry, hentry.trans hsome⟩
            simp only [require, Batch.bind_ok, h.groups.groupIsInRecycleBin]
            split
            · exact .error _ _
            · simp only [Batch.bind_ok, removeRound, if_pos (h.same.mem_entries.mp hmem)]
              obtain ⟨table, htable⟩ := trackRemove_eq lib call.2 hmem
              refine .ok (h.next hid (h.same.removed hmem) (sameGroups_trackRemove lib _ hmem) ?_ ?_)
              · rw [htable]
                rfl
              · intro e he
                rw [htable]
                exact (getElem?_eraseEntry e).trans (if_neg (Ne.symm he))
      have hlook : Agree Eq ((first :: rest).mapM (fun call => start.findEntryId call.1) >>= fun ids =>
          ids.mapM (restorable lib start recycle) >>= fun _ => (.ok ids : Except EditError _))
          ((first :: rest).mapM fun call => start.findEntryId call.1 >>= removable lib start recycle) := by
        refine Agree.trans (Agree.bind (Agree.of_ok_iff fun _ => Iff.rfl) ?_)
          (Batch.mapM_agrees (fun call : String × Ambient => start.findEntryId call.1)
            (removable lib start recycle) (first :: rest))
          fun _ _ _ => Eq.trans
        rintro ids _ rfl
        exact Batch.mapM_keep _ ids
      have hbatch := @Batch.batch_agrees _ _ _ _ _ _
        (fun call : String × Ambient => start.findEntryId call.1 >>= removable lib start recycle)
        _ _ (InStep start) hround (first :: rest) _ _ (InStep.init hnames)
      have hall := (hlook.bind_eq _).trans hbatch (T := SameUpToTimes) (by
        rintro a _ c rfl h
        exact h.same)
      simpa only [bind_assoc, require, Batch.bind_ok] using hall

end Together

/-! ## The bulk operations -/

/-- An operation with a bulk call. -/
inductive BulkOperation where
  | move (destination : String)
  | trash
  | restore
  | delete
  deriving DecidableEq, Repr

namespace BulkOperation

def together : BulkOperation → List String → Mutation
  | move destination, entries => .moveEntries entries destination
  | trash, entries => .trashEntries entries
  | restore, entries => .restoreEntries entries
  | delete, entries => .permanentlyDeleteRecycledEntries entries

def single : BulkOperation → String → Mutation
  | move destination, entry => .moveEntry entry destination
  | trash, entry => .trashEntry entry
  | restore, entry => .restoreEntry entry
  | delete, entry => .permanentlyDeleteRecycledEntry entry

/-- What the bulk call makes of the database. -/
def allOf (lib : Editing V) (env : Ambient) (db : Database V) :
    BulkOperation → List String → Except EditError (Database V)
  | move destination, entries => movedTogether lib env db entries destination
  | trash, entries => trashedTogether lib env db entries
  | restore, entries => restoredTogether lib env db entries
  | delete, entries => deletedTogether lib env db entries

/-- What a single call makes of the database. -/
def oneOf (lib : Editing V) (env : Ambient) (db : Database V) :
    BulkOperation → String → Except EditError (Database V)
  | move destination, entry => moved lib env db entry destination
  | trash, entry => trashed lib env db entry
  | restore, entry => restored lib env db entry
  | delete, entry => deleted lib env db entry

end BulkOperation

/-- The document after a call, where it succeeds. -/
def MutationCall.attempt (lib : Editing V) (call : MutationCall) (doc : KdbxDocument V) :
    Except EditError (KdbxDocument V) :=
  match call.perform lib doc with
  | (.ok _, out) => .ok out
  | (.error e, _) => .error e

/-- One call after the other, up to the first that fails. -/
def performEach (lib : Editing V) (doc : KdbxDocument V) (calls : List MutationCall) :
    Except EditError (KdbxDocument V) :=
  calls.foldlM (fun doc call => call.attempt lib doc) doc

section Bulk
variable (lib : Editing V) (op : BulkOperation)

theorem together_performs (env : Ambient) (doc : KdbxDocument V) (entries : List String) :
    ((op.together entries).body lib env).Yields doc
      (Performs doc (op.allOf lib env doc.database entries)) := by
  cases op with
  | move destination => exact moveEntries_performs lib env doc entries destination
  | trash => exact trashEntries_performs lib env doc entries
  | restore => exact restoreEntries_performs lib env doc entries
  | delete => exact permanentlyDeleteRecycledEntries_performs lib env doc entries

theorem single_performs (env : Ambient) (doc : KdbxDocument V) (entry : String) :
    ((op.single entry).body lib env).Yields doc
      (Performs doc (op.oneOf lib env doc.database entry)) := by
  cases op with
  | move destination => exact moveEntry_performs lib env doc entry destination
  | trash => exact trashEntry_performs lib env doc entry
  | restore => exact performs_quiet (restoreEntry_performs lib env doc entry)
  | delete => exact permanentlyDeleteRecycledEntry_performs lib env doc entry

/-- A call that succeeds leaves the database that the body is said to give. -/
theorem attempt_agrees {mutation : Mutation} {env : Ambient} {doc : KdbxDocument V}
    {expected : Except EditError (Database V)}
    (h : (mutation.body lib env).Yields doc (Performs doc expected)) :
    Agree (fun db (out : KdbxDocument V) => out.database = db) expected
      (MutationCall.attempt lib ⟨mutation, env⟩ doc) := by
  unfold Yields at h
  unfold MutationCall.attempt MutationCall.perform
  cases hcall : (mutation.body lib env).call doc with
  | mk r out =>
    simp only [hcall] at h ⊢
    cases expected with
    | ok db =>
      obtain ⟨⟨a, rfl⟩, hdb⟩ := h
      exact .ok hdb
    | error e =>
      obtain ⟨rfl, -⟩ := h
      exact .error e e

/-- The calls one after the other, as functions of the database. -/
theorem performEach_agrees (doc : KdbxDocument V) (calls : List (String × Ambient)) :
    Agree (fun db (out : KdbxDocument V) => out.database = db)
      (calls.foldlM (fun db call => op.oneOf lib call.2 db call.1) doc.database)
      (performEach lib doc (calls.map fun call => ⟨op.single call.1, call.2⟩)) := by
  have hround : ∀ (call : String × Ambient) (rest : List (String × Ambient)) db
      (out : KdbxDocument V), out.database = db →
      Agree (fun db (out : KdbxDocument V) => out.database = db)
        (op.oneOf lib call.2 db call.1) (MutationCall.attempt lib ⟨op.single call.1, call.2⟩ out) := by
    rintro call rest _ out rfl
    exact attempt_agrees lib (single_performs lib op call.2 out call.1)
  unfold performEach
  rw [List.foldlM_map]
  exact @Batch.foldlM_agrees _ _ _ _ _ _ _ (fun _ db (out : KdbxDocument V) => out.database = db)
    hround calls _ _ rfl

/-- The bulk call against the calls one after the other, as functions of the database. -/
theorem allOf_agrees (hlookup : LooksUp lib.toKeepass) (hstamps : StampsOnly lib) (env : Ambient)
    (start : Database V) (calls : List (String × Ambient)) (hnames : (calls.map Prod.fst).Nodup)
    (hdraws : recycleBinId start = none → ∀ call ∈ calls, call.2.uuid = env.uuid) :
    Agree SameUpToTimes (op.allOf lib env start (calls.map Prod.fst))
      (calls.foldlM (fun db call => op.oneOf lib call.2 db call.1) start) := by
  cases op with
  | move destination => exact movedTogether_agrees lib env start destination calls
  | trash => exact trashedTogether_agrees lib env start hstamps calls hdraws
  | restore => exact restoredTogether_agrees lib env start hlookup calls hnames
  | delete => exact deletedTogether_agrees lib env start calls hnames

/-- A bulk call succeeds exactly if the single calls do, one after the other, and leaves the same
database up to times. One that fails leaves the document as it was, whatever is on the list. -/
theorem together_performs_each (hlookup : LooksUp lib.toKeepass) (hstamps : StampsOnly lib)
    (doc : KdbxDocument V) (env : Ambient) :
    (∀ calls : List (String × Ambient), (calls.map Prod.fst).Nodup →
      (recycleBinId doc.database = none → ∀ call ∈ calls, call.2.uuid = env.uuid) →
      ((∃ a, (MutationCall.perform lib ⟨op.together (calls.map Prod.fst), env⟩ doc).1 = .ok a) ↔
        ∃ out, performEach lib doc (calls.map fun call => ⟨op.single call.1, call.2⟩) = .ok out) ∧
      ∀ out, performEach lib doc (calls.map fun call => ⟨op.single call.1, call.2⟩) = .ok out →
        SameUpToTimes (MutationCall.perform lib ⟨op.together (calls.map Prod.fst), env⟩ doc).2.database
          out.database) ∧
    ∀ entries e, (MutationCall.perform lib ⟨op.together entries, env⟩ doc).1 = .error e →
      (MutationCall.perform lib ⟨op.together entries, env⟩ doc).2 = doc := by
  have hbulk := together_performs lib op env doc
  constructor
  · intro calls hnames hdraws
    have hall := allOf_agrees lib op hlookup hstamps env doc.database calls hnames hdraws
    have heach := performEach_agrees lib op doc calls
    have hentries := hbulk (calls.map Prod.fst)
    unfold Yields at hentries
    unfold MutationCall.perform
    cases hexpected : op.allOf lib env doc.database (calls.map Prod.fst) with
    | ok db =>
      rw [hexpected] at hall hentries
      obtain ⟨db', hdb', hsame⟩ := hall.of_ok
      rw [hdb'] at heach
      obtain ⟨out, hout, hdatabase⟩ := heach.of_ok
      obtain ⟨hok, hdb⟩ := hentries
      refine ⟨iff_of_true hok ⟨out, hout⟩, ?_⟩
      intro out' hout'
      obtain rfl := Except.ok.inj (hout.symm.trans hout')
      rw [hdb, hdatabase]
      exact hsame
    | error e =>
      rw [hexpected] at hall hentries
      obtain ⟨e', he'⟩ := hall.of_error
      rw [he'] at heach
      obtain ⟨e'', he''⟩ := heach.of_error
      obtain ⟨herror, -⟩ := hentries
      rw [he'']
      refine ⟨iff_of_false ?_ ?_, ?_⟩
      · rintro ⟨a, ha⟩
        have hclash := herror.symm.trans ha
        cases hclash
      · rintro ⟨out, hout⟩
        cases hout
      · intro out hout
        cases hout
  · intro entries e he
    have hentries := hbulk entries
    unfold Yields at hentries
    unfold MutationCall.perform at he ⊢
    cases hexpected : op.allOf lib env doc.database entries with
    | ok db =>
      rw [hexpected] at hentries
      obtain ⟨⟨a, ha⟩, -⟩ := hentries
      have hclash := ha.symm.trans he
      cases hclash
    | error e' =>
      rw [hexpected] at hentries
      exact hentries.2

end Bulk

/-! ## A bin created on the way -/

theorem stampsOnly_reference : StampsOnly (Editing.reference : Editing V) := fun _ _ _ => rfl

/-- Three entries in two groups, and no bin. -/
def crowdedVault : Database Unit where
  config := ()
  root := ⟨1⟩
  groups := mapOf [(⟨1⟩, { name := "Root", groups := [⟨2⟩], entries := [⟨10⟩, ⟨11⟩] }),
    (⟨2⟩, { name := "Mail", parent := some ⟨1⟩, entries := [⟨12⟩] })]
  entries := mapOf [(⟨10⟩, { parent := ⟨1⟩, fields := titled "first" }),
    (⟨11⟩, { parent := ⟨1⟩, fields := titled "second" }),
    (⟨12⟩, { parent := ⟨2⟩, fields := titled "third" })]

/-- All three of them, at times of their own. -/
def crowdedCalls : List (String × Ambient) :=
  [(Database.uuidText 12, ⟨8, 99⟩), (Database.uuidText 10, ⟨9, 99⟩), (Database.uuidText 11, ⟨10, 99⟩)]

def crowdedTrash : Except EditError PUnit × KdbxDocument Unit :=
  MutationCall.perform Editing.reference ⟨.trashEntries (crowdedCalls.map Prod.fst), ⟨7, 99⟩⟩
    (document crowdedVault)

set_option maxRecDepth 100000 in
/-- The first entry brings the bin with it, and the others follow. -/
theorem together_performs_each_trash :
    recycleBinId crowdedVault = none ∧ crowdedTrash.1 = .ok ⟨⟩ ∧
    (crowdedTrash.2.database.groups[(⟨99⟩ : GroupId)]?).map (·.entries) = some [⟨12⟩, ⟨10⟩, ⟨11⟩] ∧
    ∃ out, performEach Editing.reference (document crowdedVault)
        (crowdedCalls.map fun call => ⟨.trashEntry call.1, call.2⟩) = .ok out ∧
      SameUpToTimes crowdedTrash.2.database out.database := by
  have hdistinct : (crowdedCalls.map Prod.fst).Nodup := by decide +kernel
  have hdraws : ∀ call ∈ crowdedCalls, call.2.uuid = 99 := by decide
  obtain ⟨hsucceeds, hsame⟩ := (together_performs_each Editing.reference .trash looksUp_reference
    stampsOnly_reference (document crowdedVault) ⟨7, 99⟩).1 crowdedCalls hdistinct fun _ => hdraws
  have hbulk : crowdedTrash.1 = .ok ⟨⟩ := by decide +kernel
  obtain ⟨out, hout⟩ := hsucceeds.mp ⟨⟨⟩, hbulk⟩
  exact ⟨by decide +kernel, hbulk, by decide +kernel, out, hout, hsame out hout⟩

end NianPass.Kdbx
