import NianPass.Kdbx.RecycleBin
import NianPass.Kdbx.Outcome

/-
  What the mutations of a document can do to it.

  A mutation refuses and leaves the document alone, answers without having found
  anything to change, or commits: the database becomes another one and the
  revision advances. `Commits Idle P doc` says so, where `Idle` holds when there
  was nothing to change and `P` of the database that was committed.

  Whatever a mutation commits is put together from few kinds of changes. A call
  draws at most one identifier, and uses it first (`Draw`): for a new entry, a
  new group or a new icon. Everything else is a `Change`: a tracked edit of an
  entry, moving or removing an entry or a group, an edit of a group that keeps
  its place, and the settings. `Edits` is one draw at most and any number of
  changes.
-/
namespace NianPass.Kdbx

open Method

variable {V : Type}

/-! ## The kinds of changes -/

/-- The snapshots that the history policy of `db` keeps. -/
def Database.kept (db : Database V) (snapshots : List (EntryData V)) : List (EntryData V) :=
  match finiteHistoryLimit db with
  | none => snapshots
  | some limit => snapshots.take limit

theorem mem_kept {db : Database V} {snapshots : List (EntryData V)} {snapshot : EntryData V}
    (h : snapshot ∈ db.kept snapshots) : snapshot ∈ snapshots := by
  unfold Database.kept at h
  split at h
  · exact h
  · exact List.mem_of_mem_take h

/-- `out` is `db` with the entry `id` changed to `data` and the entry as it was recorded in front
of its history, as far as the policy keeps it. -/
structure TrackedEdit (db : Database V) (id : EntryId) (entry : Entry V) (data : EntryData V)
    (out : Database V) : Prop where
  found : db.entries[id]? = some entry
  entries : out.entries = db.entries.insert id
    { data with history := some (db.kept (entry.toEntryData :: entry.history.getD [])) }
  parent : data.parent = entry.parent
  previousParent : data.previousParent = entry.previousParent
  icon : ∀ i, data.icon = some (.custom i) → entry.icon = some (.custom i) ∨ i ∈ out.customIcons
  groups : out.groups = db.groups
  root : out.root = db.root
  metadata : out.metadata = db.metadata
  deletedObjects : out.deletedObjects = db.deletedObjects

theorem TrackedEdit.found_after {db out : Database V} {id : EntryId} {entry : Entry V}
    {data : EntryData V} (h : TrackedEdit db id entry data out) : out.entries[id]? =
      some { data with history := some (db.kept (entry.toEntryData :: entry.history.getD [])) } := by
  rw [h.entries, Std.ExtTreeMap.getElem?_insert_self]

/-- A change that draws the identifier `uuid`. -/
inductive Draw (uuid : Uuid) (db : Database V) : Database V → Prop
  | entry (parent : GroupId) (entry : Entry V) (table : Map AttachmentId (Value Bytes))
      (hparent : parent ∈ db.groups) (hentry : entry.parent = parent)
      (hhistory : entry.history.getD [] = [])
      (hicon : ∀ i, entry.icon = some (.custom i) → i ∈ db.customIcons) :
      Draw uuid db { db.insertEntry parent ⟨uuid⟩ entry with attachments := table }
  | group (parent : GroupId) (group : Group V) (hparent : parent ∈ db.groups ∨ parent = db.root)
      (hgroup : group.parent = some parent) (hgroups : group.groups = [])
      (hentries : group.entries = []) (hicon : ∀ i, group.icon ≠ some (.custom i)) :
      Draw uuid db (db.insertGroup parent ⟨uuid⟩ group)
  | icon (id : EntryId) (entry : Entry V) (data : EntryData V) (icon : CustomIcon)
      (out : Database V) (h : TrackedEdit db id entry data out)
      (hicons : out.customIcons = db.customIcons.insert ⟨uuid⟩ icon) : Draw uuid db out

/-- A change that draws no identifier and leaves everything where it is. -/
inductive Still (db : Database V) : Database V → Prop
  | tracked (id : EntryId) (entry : Entry V) (data : EntryData V) (out : Database V)
      (h : TrackedEdit db id entry data out) (hicons : out.customIcons = db.customIcons) :
      Still db out
  | removeEntry (id : EntryId) (table : Map AttachmentId (Value Bytes)) (time : Option Time)
      (hid : id ∈ db.entries) :
      Still db { db.eraseEntry id with
        attachments := table
        deletedObjects := db.deletedObjects.insert id.uuid time }
  | editGroup (id : GroupId) (edit : Group V → Group V)
      (hparent : ∀ group, (edit group).parent = group.parent)
      (hprevious : ∀ group, (edit group).previousParent = group.previousParent)
      (hgroups : ∀ group, (edit group).groups = group.groups)
      (hentries : ∀ group, (edit group).entries = group.entries)
      (hicon : ∀ group, (edit group).icon = group.icon ∨ (edit group).icon = none) :
      Still db (db.editGroup id edit)
  | removeGroup (id : GroupId) (without : Database V) (deleted : Map Uuid (Option Time))
      (hid : id ∈ db.groups) (hroot : id ≠ db.root)
      (hwithout : ∃ cleared, db.WithoutGroup cleared id without)
      (hdeleted : ∀ uuid, uuid ∈ deleted ↔
        uuid ∈ db.deletedObjects ∨ uuid ∈ Editing.removedWith db id) :
      Still db { without with deletedObjects := deleted }
  | settings (metadata : Meta V) (hlimit : metadata.historyMaxItems = db.metadata.historyMaxItems) :
      Still db { db with metadata := metadata }
  | historyPolicy (metadata : Meta V) :
      Still db (pruneAllEntryHistory { db with metadata := metadata })

/-- A change that draws no identifier. -/
inductive Change (db : Database V) : Database V → Prop
  | still (out : Database V) (h : Still db out) : Change db out
  | moveEntry (id : EntryId) (target : GroupId) (times : Times → Times) (hid : id ∈ db.entries)
      (htarget : target ∈ db.groups) :
      Change db ((db.relocateEntry id target).editEntry id fun entry =>
        { entry with times := times entry.times })
  | moveGroup (id target : GroupId) (hid : id ∈ db.groups) (htarget : target ∈ db.groups)
      (hroot : id ≠ db.root) (hcycle : ¬ Forest.Above db.parentOf id target) :
      Change db (db.relocateGroup id target)

/-- One draw of `uuid` at most, and then any number of changes of the kind `R`. -/
def EditsBy (R : Database V → Database V → Prop) (uuid : Uuid) (db out : Database V) : Prop :=
  ∃ mid, (mid = db ∨ Draw uuid db mid) ∧ Relation.ReflTransGen R mid out

/-- One draw of `uuid` at most, and then any number of changes. -/
abbrev Edits (uuid : Uuid) (db out : Database V) : Prop := EditsBy Change uuid db out

section EditsBy
variable {R : Database V → Database V → Prop} {uuid : Uuid} {db mid out : Database V}

theorem edits_of_change (h : R db out) : EditsBy R uuid db out :=
  ⟨db, Or.inl rfl, .single h⟩

theorem edits_of_draw (h : Draw uuid db out) : EditsBy R uuid db out :=
  ⟨out, Or.inr h, .refl⟩

theorem EditsBy.then (h : EditsBy R uuid db mid) (hrest : Relation.ReflTransGen R mid out) :
    EditsBy R uuid db out := by
  obtain ⟨first, hfirst, hmid⟩ := h
  exact ⟨first, hfirst, hmid.trans hrest⟩

theorem EditsBy.edits (h : EditsBy Still uuid db out) : Edits uuid db out := by
  obtain ⟨first, hfirst, hrest⟩ := h
  exact ⟨first, hfirst, Relation.ReflTransGen.mono (fun _ out h => Change.still out h) _ _ hrest⟩

end EditsBy

/-! ## Committing -/

/-- An error leaves the document alone. An answer leaves it alone, if `Idle`, or its database becomes
one that `P` allows and the revision advances. -/
inductive Commits {α : Type} (Idle : Prop) (P : Database V → Prop) (doc : KdbxDocument V) :
    Except EditError α → KdbxDocument V → Prop
  | refused (e : EditError) : Commits Idle P doc (.error e) doc
  | kept (a : α) (h : Idle) : Commits Idle P doc (.ok a) doc
  | changed (a : α) (db : Database V) (h : P db) :
      Commits Idle P doc (.ok a) (doc.withDatabase db).markChanged

theorem Commits.weaken {α : Type} {Idle : Prop} {P P' : Database V → Prop}
    {doc doc' : KdbxDocument V} {r : Except EditError α} (h : Commits Idle P doc r doc')
    (hP : ∀ db, P db → P' db) : Commits Idle P' doc r doc' := by
  cases h with
  | refused e => exact .refused e
  | kept a h => exact .kept a h
  | changed a db h => exact .changed a db (hP db h)

theorem markChanged_withDatabase (doc : KdbxDocument V) (db : Database V) :
    (doc.withDatabase db).markChanged.database = db := by
  unfold KdbxDocument.markChanged
  split <;> rfl

section Rules
variable {α β : Type} {Idle : Prop} {P : Database V → Prop} {doc : KdbxDocument V}

/-- A step that only reads. -/
theorem commits_check {result : Except EditError β} {f : β → Edit V α}
    (h : ∀ b, result = .ok b → (f b).Yields doc (Commits Idle P doc)) :
    (check result >>= f : Edit V α).Yields doc (Commits Idle P doc) :=
  yields_check (fun e _ => .refused e) h

theorem commits_okOr {e : EditError} {found : Option β} {f : β → Edit V α}
    (h : ∀ b, found = some b → (f b).Yields doc (Commits Idle P doc)) :
    (okOr e found >>= f : Edit V α).Yields doc (Commits Idle P doc) :=
  yields_okOr (fun _ => .refused e) h

theorem commits_commit {db : Database V} (h : P db) :
    (Edit.commit db : Edit V PUnit).Yields doc (Commits Idle P doc) :=
  yields_modify (Commits.changed PUnit.unit db h)

theorem commits_commit_pure {db : Database V} {a : α} (h : P db) :
    (Edit.commit db >>= fun _ => pure a : Edit V α).Yields doc (Commits Idle P doc) := by
  apply yields_bind
  apply yields_modify
  exact Commits.changed a db h

theorem commits_quiet {m : Edit V α} (h : m.Yields doc (Commits Idle P doc)) :
    m.quiet.Yields doc (Commits Idle P doc) := by
  apply yields_bind
  apply Yields.weaken h
  intro r doc' hr
  cases hr with
  | refused e => exact .refused e
  | kept a h => exact .kept _ h
  | changed a db h => exact .changed _ db h

end Rules

/-! ## Tracked edits -/

theorem modify_eq_insert {κ ν : Type} [Ord κ] [Std.TransOrd κ] [Std.LawfulEqOrd κ] {m : Map κ ν}
    {k : κ} {v : ν} {f : ν → ν} (h : m[k]? = some v) : m.modify k f = m.insert k (f v) := by
  apply Std.ExtTreeMap.ext_getElem?
  intro x
  rw [Std.ExtTreeMap.getElem?_modify, Std.ExtTreeMap.getElem?_insert]
  split
  · case isTrue hx =>
    obtain rfl := Std.LawfulEqOrd.eq_of_compare hx
    simp [h]
  · rfl

theorem insert_insert_self {κ ν : Type} [Ord κ] [Std.TransOrd κ] [Std.LawfulEqOrd κ] {m : Map κ ν}
    {k : κ} {v w : ν} : (m.insert k v).insert k w = m.insert k w := by
  apply Std.ExtTreeMap.ext_getElem?
  intro x
  simp only [Std.ExtTreeMap.getElem?_insert]
  split <;> rfl

/-- `edited` is `db` with a tracked edit of the entry `id`, before the policy is enforced. -/
structure PendingEdit (db : Database V) (id : EntryId) (entry : Entry V) (data : EntryData V)
    (edited : Database V) : Prop where
  found : db.entries[id]? = some entry
  entries : edited.entries = db.entries.insert id
    { data with history := some (entry.toEntryData :: entry.history.getD []) }
  parent : data.parent = entry.parent
  previousParent : data.previousParent = entry.previousParent
  icon : ∀ i, data.icon = some (.custom i) → entry.icon = some (.custom i) ∨ i ∈ edited.customIcons
  groups : edited.groups = db.groups
  root : edited.root = db.root
  metadata : edited.metadata = db.metadata
  deletedObjects : edited.deletedObjects = db.deletedObjects

/-- Pruning an entry that has a history keeps the newest snapshots. -/
theorem pruneEntryHistory_some (limit : Nat) (data : EntryData V) (snapshots : List (EntryData V)) :
    pruneEntryHistory limit { data with history := some snapshots } =
      { data with history := some (snapshots.take limit) } := by
  unfold pruneEntryHistory
  dsimp only
  split
  · case isTrue h => rw [List.take_of_length_le h]
  · rfl

/-- Enforcing the policy turns a pending edit into a tracked one. It cannot fail, because the
entry is there. -/
theorem commitTracked_exact {doc : KdbxDocument V} {id : EntryId} {entry : Entry V}
    {data : EntryData V} {edited : Database V}
    (h : PendingEdit doc.database id entry data edited) :
    (Edit.commitTracked id edited).Yields doc fun r doc' => r = .ok ⟨⟩ ∧
      ∃ out, TrackedEdit doc.database id entry data out ∧ out.customIcons = edited.customIcons ∧
        out.attachments = edited.attachments ∧ doc' = (doc.withDatabase out).markChanged := by
  have hlimit : finiteHistoryLimit edited = finiteHistoryLimit doc.database := by
    unfold finiteHistoryLimit
    rw [h.metadata]
  apply yields_modify
  apply yields_bind
  apply yields_get
  show (match finiteHistoryLimit edited with
    | none => _
    | some limit => _ : Edit V PUnit).Yields _ _
  rw [hlimit]
  cases hk : finiteHistoryLimit doc.database with
  | none =>
    refine ⟨rfl, edited, ?_, rfl, rfl, rfl⟩
    have hkept : doc.database.kept (entry.toEntryData :: entry.history.getD []) =
        entry.toEntryData :: entry.history.getD [] := by
      simp [Database.kept, hk]
    exact ⟨h.found, by rw [hkept]; exact h.entries, h.parent, h.previousParent, h.icon, h.groups, h.root, h.metadata,
      h.deletedObjects⟩
  | some limit =>
    have hfound : edited.entries[id]? =
        some { data with history := some (entry.toEntryData :: entry.history.getD []) } := by
      rw [h.entries, Std.ExtTreeMap.getElem?_insert_self]
    apply yields_okOr
    · intro hnone
      -- The edit has just put the entry there.
      change edited.entries[id]? = none at hnone
      rw [hfound] at hnone
      cases hnone
    · intro _ _
      refine ⟨rfl, edited.editEntry id (pruneEntryHistory limit), ?_, rfl, rfl, rfl⟩
      have hentries : (edited.editEntry id (pruneEntryHistory limit)).entries =
          doc.database.entries.insert id { data with
            history := some (doc.database.kept (entry.toEntryData :: entry.history.getD [])) } := by
        show edited.entries.modify id _ = _
        rw [modify_eq_insert hfound, h.entries, insert_insert_self, pruneEntryHistory_some]
        simp [Database.kept, hk]
      exact ⟨h.found, hentries, h.parent, h.previousParent, h.icon, h.groups, h.root, h.metadata, h.deletedObjects⟩

theorem commitTracked_yields {doc : KdbxDocument V} {id : EntryId} {entry : Entry V}
    {data : EntryData V} {edited : Database V}
    (h : PendingEdit doc.database id entry data edited) {Idle : Prop}
    {P : Database V → Prop}
    (hP : ∀ out, TrackedEdit doc.database id entry data out → out.customIcons = edited.customIcons →
      out.attachments = edited.attachments → P out) :
    (Edit.commitTracked id edited).Yields doc (Commits Idle P doc) := by
  apply Yields.weaken (commitTracked_exact h)
  rintro _ _ ⟨rfl, out, hout, hicons, hattachments, rfl⟩
  exact .changed _ out (hP out hout hicons hattachments)

section Pending
variable (lib : Editing V) (env : Ambient) {db : Database V} {id : EntryId} {entry : Entry V}

/-- What the entry holds after a tracked edit, its history aside. -/
def Editing.tracked (edit : EntryData V → EntryData V) (data : EntryData V) : EntryData V :=
  { edit data with times := lib.touch env.now (edit data).times }

/-- A tracked edit that keeps the entry in its group and gives it no custom icon it did not have. -/
theorem pending_track (edit : EntryData V → EntryData V) (hfound : db.entries[id]? = some entry)
    (hparent : ∀ data, (edit data).parent = data.parent)
    (hprevious : ∀ data, (edit data).previousParent = data.previousParent)
    (hicon : ∀ i, (edit entry.toEntryData).icon = some (.custom i) →
      entry.icon = some (.custom i)) :
    PendingEdit db id entry (lib.tracked env edit entry.toEntryData)
      (db.editEntry id (lib.track env edit)) where
  found := hfound
  entries := modify_eq_insert hfound
  parent := hparent _
  previousParent := hprevious _
  icon i hi := Or.inl (hicon i hi)
  groups := rfl
  root := rfl
  metadata := rfl
  deletedObjects := rfl

theorem pending_trackIcon (hfound : db.entries[id]? = some entry) (bytes : Bytes) :
    PendingEdit db id entry
      (lib.tracked env (fun data => { data with icon := some (.custom ⟨env.uuid⟩) })
        entry.toEntryData)
      (lib.trackIcon env db id bytes) where
  found := hfound
  entries := modify_eq_insert hfound
  parent := rfl
  previousParent := rfl
  icon i hi := by
    obtain rfl : (⟨env.uuid⟩ : CustomIconId) = i := by
      simpa [Editing.tracked] using hi
    right
    simp [Editing.trackIcon]
  groups := rfl
  root := rfl
  metadata := rfl
  deletedObjects := rfl

/-- The edited entry has the attachment under its name. -/
theorem pending_trackAttachment (hfound : db.entries[id]? = some entry) (name : String)
    (value : Value Bytes) : ∃ data a, PendingEdit db id entry data
      (lib.trackAttachment env db id name value) ∧ data.attachments[name]? = some a ∧
      (lib.trackAttachment env db id name value).attachments[a]? = some value ∧
      (lib.trackAttachment env db id name value).customIcons = db.customIcons := by
  obtain ⟨a, table, heq, hvalue, -⟩ :=
    lib.addAttachment_eq (db.editEntry id (lib.track env fun data => data)) id name value
  have hpending := pending_track lib env (fun data => data) hfound (fun _ => rfl) (fun _ => rfl) (fun _ h => h)
  set data := lib.tracked env (fun data => data) entry.toEntryData
  refine ⟨{ data with attachments := data.attachments.insert name a }, a, ?_, ?_, ?_, ?_⟩
  · unfold Editing.trackAttachment
    rw [heq]
    refine ⟨hfound, ?_, hpending.parent, hpending.previousParent, fun i hi => Or.inl hi, rfl, rfl, rfl, rfl⟩
    show ((db.editEntry id (lib.track env fun data => data)).entries.modify id _) = _
    rw [hpending.entries, modify_eq_insert Std.ExtTreeMap.getElem?_insert_self,
      insert_insert_self]
  · exact Std.ExtTreeMap.getElem?_insert_self
  · unfold Editing.trackAttachment
    rw [heq]
    exact hvalue
  · unfold Editing.trackAttachment
    rw [heq]
    rfl

end Pending

end NianPass.Kdbx
