import NianPass.Kdbx.Changes
import NianPass.Kdbx.Requests

/-
  What each mutation does when it commits.

  `Effect lib env doc mutation out` has a case for every kind of mutation, with
  what the call has looked up and checked by then and the database it commits.
  Each body is taken apart once, to show that it commits its effect or leaves
  the document alone, and everything else is read off the effects: that they are
  made of the changes of a call, and in other modules that they change something.

  `duplicate_entry` is the exception. It fails with the new entry already in
  place when its source names a custom icon that does not exist.
-/
namespace NianPass.Kdbx

open Method

variable {V : Type}

/-! ## Effects -/

namespace Editing
variable (lib : Editing V) (env : Ambient)

/-- A new entry with its fields. -/
def created (db : Database V) (group : GroupId) (input : NewEntry) (notes : Option String) :
    Database V :=
  (lib.addEntry env db group).editEntry ⟨env.uuid⟩ fun entry =>
    { input.fill lib notes db entry.toEntryData with history := entry.history }

/-- The new entry of `duplicate_entry` as it stands before its icon is set. -/
def duplicated (db : Database V) (source : Entry V) : Database V :=
  db.insertEntry source.parent ⟨env.uuid⟩ (source.copyInto (lib.newEntry env.now source.parent))

/-- The new entry of `duplicate_entry` with its icon and its attachments. -/
def copied (db : Database V) (source : Entry V) : Database V :=
  (db.attachmentsNamed source.toEntryData).foldl
    (fun db attachment => lib.addAttachment db ⟨env.uuid⟩ attachment.1 attachment.2)
    (db.insertEntry source.parent ⟨env.uuid⟩
      { source.copyInto (lib.newEntry env.now source.parent) with icon := source.icon })

/-- A new group with its name. -/
def createdGroup (db : Database V) (parent : GroupId) (name : String) : Database V :=
  (lib.addGroup env db parent).editGroup ⟨env.uuid⟩ ({ · with name := name })

end Editing

/-- The group that `text` names was removed, once the icons of `subtree` and the references to it
were taken away. -/
structure RemovesGroup (lib : Editing V) (env : Ambient) (db : Database V) (text : String)
    (id : GroupId) (subtree : List GroupId) (cleared out : Database V) : Prop where
  named : db.findGroupId text = .ok id
  icons : clearIcons db subtree = .ok cleared
  mem : id ∈ cleared.groups
  removed : lib.trackRemoveGroup env { cleared with
    metadata := clearDeletedGroupMetadataReferences subtree cleared.metadata } id = some out

/-- `out` is what the mutation makes of the database of `doc` when it commits. -/
inductive Effect (lib : Editing V) (env : Ambient) (doc : KdbxDocument V) :
    Mutation → Database V → Prop
  | tracked (mutation : Mutation) (text : String) (id : EntryId) (entry : Entry V)
      (data : EntryData V) (out : Database V) (htracked : mutation.tracked = some text)
      (hid : doc.database.findEntryId text = .ok id) (h : TrackedEdit doc.database id entry data out)
      (hicons : out.customIcons = doc.database.customIcons ∨
        ∃ icon, out.customIcons = doc.database.customIcons.insert ⟨env.uuid⟩ icon)
      (hnew : ¬ mutation.asked lib doc.database entry.toEntryData)
      (hdone : mutation.asked lib out data) : Effect lib env doc mutation out
  | restoreEntryHistory (text : String) (historyIndex : Nat) (id : EntryId) (entry : Entry V)
      (source : EntryData V) (out : Database V) (hid : doc.database.findEntryId text = .ok id)
      (hsource : (entry.history.getD [])[historyIndex]? = some source)
      (hshape : restoreShapeSupported doc.database entry.toEntryData = true)
      (hicon : ∀ i, source.icon ≠ some (.custom i))
      (h : TrackedEdit doc.database id entry (lib.tracked env
        (fun data => source.restoreFrom data source.icon) entry.toEntryData) out)
      (hicons : out.customIcons = doc.database.customIcons) :
      Effect lib env doc (.restoreEntryHistory text historyIndex doc.revision) out
  | createEntry (text : String) (input : NewEntry) (group : GroupId)
      (hid : doc.database.findGroupId text = .ok group) :
      Effect lib env doc (.createEntry text input) (lib.created env doc.database group input none)
  | createEntryWithNotes (text : String) (input : NewEntry) (notes : Option String) (group : GroupId)
      (hid : doc.database.findGroupId text = .ok group) :
      Effect lib env doc (.createEntryWithNotes text input notes)
        (lib.created env doc.database group input notes)
  | duplicateEntry (text : String) (source : Entry V)
      (hparent : source.parent ∈ doc.database.groups) (hicon : HasIcon doc.database source.icon) :
      Effect lib env doc (.duplicateEntry text) (lib.copied env doc.database source)
  | permanentlyDeleteEntry (text : String) (id : EntryId)
      (hid : doc.database.findEntryId text = .ok id) :
      Effect lib env doc (.permanentlyDeleteEntry text) (lib.trackRemove env doc.database id)
  | permanentlyDeleteRecycledEntry (text : String) (id : EntryId)
      (hid : doc.database.findEntryId text = .ok id) :
      Effect lib env doc (.permanentlyDeleteRecycledEntry text) (lib.trackRemove env doc.database id)
  | moveEntry (text destination : String) (id : EntryId) (target : GroupId) (entry : Entry V)
      (out : Database V) (hentry : doc.database.entries[id]? = some entry)
      (hne : entry.parent ≠ target) (h : relocated lib env doc.database id target = .ok out) :
      Effect lib env doc (.moveEntry text destination) out
  | trashEntry (text : String) (id : EntryId) (made : Database V) (recycle : GroupId)
      (entry : Entry V) (out : Database V)
      (hmade : ensureRecycleBin lib env doc.database = .ok (made, recycle))
      (hentry : made.entries[id]? = some entry)
      (hout : ¬ groupIsInRecycleBin made entry.parent recycle)
      (h : relocated lib env made id recycle = .ok out) :
      Effect lib env doc (.trashEntry text) out
  | restoreEntry (text : String) (id : EntryId) (recycle : GroupId) (entry : Entry V)
      (out : Database V) (hid : doc.database.findEntryId text = .ok id)
      (hbin : recycleBinId doc.database = some recycle)
      (hentry : doc.database.entries[id]? = some entry)
      (hin : groupIsInRecycleBin doc.database entry.parent recycle = true)
      (h : relocated lib env doc.database id (entryDestination lib doc.database recycle entry) =
        .ok out) : Effect lib env doc (.restoreEntry text) out
  | moveEntries (texts : List String) (destination : String) (ids : List EntryId) (target : GroupId)
      (out : Database V) (h : ids.foldlM (moveRound lib env target fun _ parent => parent = target)
        (doc.database, false) = .ok (out, true)) :
      Effect lib env doc (.moveEntries texts destination) out
  | trashEntries (texts : List String) (ids : List EntryId) (made : Database V) (recycle : GroupId)
      (out : Database V) (hmade : ensureRecycleBin lib env doc.database = .ok (made, recycle))
      (h : ids.foldlM (moveRound lib env recycle fun db parent =>
        groupIsInRecycleBin db parent recycle) (made, false) = .ok (out, true)) :
      Effect lib env doc (.trashEntries texts) out
  | restoreEntries (texts : List String) (ids : List EntryId) (recycle : GroupId)
      (destinations : List (EntryId × GroupId)) (out : Database V) (hne : ¬ texts.isEmpty)
      (hids : texts.mapM doc.database.findEntryId = .ok ids)
      (hbin : recycleBinId doc.database = some recycle)
      (hdestinations : ids.mapM (restorable lib doc.database recycle) = .ok destinations)
      (h : destinations.foldlM (fun candidate item => relocated lib env candidate item.1 item.2)
        doc.database = .ok out) : Effect lib env doc (.restoreEntries texts) out
  | permanentlyDeleteRecycledEntries (texts : List String) (ids : List EntryId) (out : Database V)
      (hne : ¬ texts.isEmpty) (hids : texts.mapM doc.database.findEntryId = .ok ids)
      (h : ids.foldlM (removeRound lib env) doc.database = .ok out) :
      Effect lib env doc (.permanentlyDeleteRecycledEntries texts) out
  | createGroup (text name : String) (parent : GroupId)
      (hid : doc.database.findGroupId text = .ok parent) :
      Effect lib env doc (.createGroup text name) (lib.createdGroup env doc.database parent name)
  | renameGroup (text name : String) (id : GroupId) (group : Group V)
      (hgroup : doc.database.groups[id]? = some group) (hne : group.name ≠ name) :
      Effect lib env doc (.renameGroup text name)
        (doc.database.editGroup id (lib.trackGroup env ({ · with name := name })))
  | moveGroup (text destination : String) (id target : GroupId) (out : Database V)
      (hid : id ∈ doc.database.groups) (hparent : doc.database.parentOf id ≠ some target)
      (h : lib.trackMoveGroup env doc.database id target = some out) :
      Effect lib env doc (.moveGroup text destination) out
  | permanentlyDeleteGroup (text : String) (id : GroupId) (subtree : List GroupId)
      (cleared out : Database V) (h : RemovesGroup lib env doc.database text id subtree cleared out) :
      Effect lib env doc (.permanentlyDeleteGroup text) out
  | permanentlyDeleteRecycledGroup (text : String) (id : GroupId) (subtree : List GroupId)
      (cleared out : Database V) (h : RemovesGroup lib env doc.database text id subtree cleared out) :
      Effect lib env doc (.permanentlyDeleteRecycledGroup text) out
  | trashGroup (text : String) (id : GroupId) (made : Database V) (recycle : GroupId)
      (out : Database V) (hmade : ensureRecycleBin lib env doc.database = .ok (made, recycle))
      (hout : ¬ (id = recycle ∨ groupIsInRecycleBin made id recycle))
      (h : relocatedGroup lib env made id recycle = .ok out) : Effect lib env doc (.trashGroup text) out
  | restoreGroup (text : String) (id recycle : GroupId) (group : Group V) (out : Database V)
      (hid : doc.database.findGroupId text = .ok id)
      (hbin : recycleBinId doc.database = some recycle)
      (hin : ¬ (id = recycle ∨ ¬ groupIsInRecycleBin doc.database id recycle))
      (hgroup : doc.database.groups[id]? = some group)
      (h : relocatedGroup lib env doc.database id (groupDestination lib doc.database recycle group) =
        .ok out) : Effect lib env doc (.restoreGroup text) out
  | setHistoryMaxItems (maxItems : Option Nat) (hne : finiteHistoryLimit doc.database ≠ maxItems) :
      Effect lib env doc (.setHistoryMaxItems maxItems) (pruneAllEntryHistory { doc.database with
        metadata := { doc.database.metadata with
          historyMaxItems := maxItems.map Int.ofNat
          settingsChanged := some env.now } })
  | setRecycleBinEnabled (enabled : Bool) (hne : recycleBinEnabled doc.database ≠ enabled) :
      Effect lib env doc (.setRecycleBinEnabled enabled) { doc.database with
        metadata := { doc.database.metadata with
          recyclebinEnabled := some enabled
          recyclebinChanged := some env.now
          settingsChanged := some env.now } }
  | updateDatabaseMetadata (next : DatabaseMetadata) (hne : databaseMetadata doc.database ≠ next) :
      Effect lib env doc (.updateDatabaseMetadata next) { doc.database with
        metadata := doc.database.metadata.update env (databaseMetadata doc.database) next }

/-- The mutation tracks no entry, or the entry has what is asked for. -/
def Mutation.Idle (lib : Editing V) (doc : KdbxDocument V) (mutation : Mutation) : Prop :=
  ∀ text, mutation.tracked = some text → ∃ id entry, doc.database.findEntryId text = .ok id ∧
    doc.database.entries[id]? = some entry ∧ mutation.asked lib doc.database entry.toEntryData

/-- The mutation commits its effect, or there is nothing to do. -/
abbrev Mutation.Commits {α : Type} (lib : Editing V) (env : Ambient) (doc : KdbxDocument V)
    (mutation : Mutation) : Except EditError α → KdbxDocument V → Prop :=
  Kdbx.Commits (mutation.Idle lib doc) (Effect lib env doc mutation) doc

theorem Mutation.idle_of_untracked {lib : Editing V} {doc : KdbxDocument V} {mutation : Mutation}
    (h : mutation.tracked = none) : mutation.Idle lib doc := by
  intro text htext
  rw [h] at htext
  cases htext

/-! ## Mutations of one entry -/

section Tracked
variable (lib : Editing V) (env : Ambient) (doc : KdbxDocument V)

/-- The entry has what is asked for. -/
theorem commits_kept {lib : Editing V} {env : Ambient} {doc : KdbxDocument V} {mutation : Mutation}
    {text : String} {id : EntryId} {entry : Entry V} (htracked : mutation.tracked = some text)
    (hid : doc.database.findEntryId text = .ok id) (hfound : doc.database.entries[id]? = some entry)
    (hasked : mutation.asked lib doc.database entry.toEntryData) :
    mutation.Commits lib env doc (.ok PUnit.unit) doc := by
  apply Commits.kept
  intro other hother
  obtain rfl := Option.some.inj (htracked.symm.trans hother)
  exact ⟨id, entry, hid, hfound, hasked⟩

/-- A tracked edit of the entry that was looked up, which gives it what is asked for. -/
theorem commits_track {mutation : Mutation} {text : String} {id : EntryId} {entry : Entry V}
    {edit : EntryData V → EntryData V} (htracked : mutation.tracked = some text)
    (hid : doc.database.findEntryId text = .ok id) (hfound : doc.database.entries[id]? = some entry)
    (hnew : ¬ mutation.asked lib doc.database entry.toEntryData)
    (hdone : ∀ out, mutation.asked lib out (lib.tracked env edit entry.toEntryData))
    (hparent : ∀ data, (edit data).parent = data.parent)
    (hprevious : ∀ data, (edit data).previousParent = data.previousParent)
    (hicon : ∀ i, (edit entry.toEntryData).icon = some (.custom i) →
      entry.icon = some (.custom i)) :
    (Edit.commitTracked id (doc.database.editEntry id (lib.track env edit))).Yields doc
      (mutation.Commits lib env doc) := by
  apply commitTracked_yields (pending_track lib env edit hfound hparent hprevious hicon)
  intro out hout hicons _
  exact .tracked mutation text id entry _ out htracked hid hout (Or.inl hicons) hnew (hdone out)

/-- The five setters of standard fields differ in the field. -/
theorem setStandardField_commits {mutation : Mutation} (id field newValue : String)
    (missing : MissingFieldProtection) (htracked : mutation.tracked = some id)
    (hasked : ∀ db data, mutation.asked lib db data ↔ data.HoldsField field newValue) :
    (KdbxDocument.setStandardField lib env id field newValue missing).Yields doc
      (mutation.Commits lib env doc) := by
  apply yields_get
  apply commits_check
  intro entryId hid
  apply commits_okOr
  intro current hfound
  apply yields_ite
  · intro hsame
    exact commits_kept htracked hid hfound ((hasked _ _).mpr (holdsField_iff.mp hsame))
  · intro hnew
    refine commits_track lib env doc htracked hid hfound ?_ ?_ (fun _ => rfl) (fun _ => rfl) fun _ h => h
    · rw [hasked]
      exact mt holdsField_iff.mpr hnew
    · intro out
      rw [hasked]
      exact holdsField_setField current.toEntryData field newValue _

theorem setEntryCustomField_commits (id name value : String) (newFieldProtected : Bool) :
    (KdbxDocument.setEntryCustomField lib env id name value newFieldProtected).Yields doc
      (Mutation.Commits lib env doc (.setEntryCustomField id name value newFieldProtected)) := by
  apply yields_get
  apply commits_check
  intro _ _
  apply commits_check
  intro entryId hid
  apply commits_okOr
  intro current hfound
  apply yields_ite
  · intro hsame
    exact commits_kept rfl hid hfound (any_get_iff.mp hsame)
  · intro hnew
    refine commits_track lib env doc rfl hid hfound (mt any_get_iff.mpr hnew) ?_ (fun _ => rfl)
      (fun _ => rfl) fun _ h => h
    intro out
    show (((current.toEntryData.setField name _ value).fields)[name]?).map (·.get) = some value
    rw [getElem?_setField, if_pos rfl]
    rfl

theorem deleteEntryCustomField_commits (id name : String) :
    (KdbxDocument.deleteEntryCustomField lib env id name).Yields doc
      (Mutation.Commits lib env doc (.deleteEntryCustomField id name)) := by
  apply yields_get
  apply commits_check
  intro _ _
  apply commits_check
  intro entryId hid
  apply commits_okOr
  intro current hfound
  apply yields_ite
  · intro hmem
    refine commits_track lib env doc rfl hid hfound (not_not.mpr hmem) ?_ (fun _ => rfl)
      (fun _ => rfl) fun _ h => h
    intro out hleft
    exact (Std.ExtTreeMap.mem_erase.mp hleft).1 Std.ReflCmp.compare_self
  · intro hmissing
    exact commits_kept rfl hid hfound hmissing

theorem setEntryTotpUri_commits (id uri : String) :
    (KdbxDocument.setEntryTotpUri lib env id uri).Yields doc
      (Mutation.Commits lib env doc (.setEntryTotpUri id uri)) := by
  apply yields_get
  apply commits_check
  intro _ _
  apply commits_check
  intro entryId hid
  apply commits_okOr
  intro current hfound
  apply yields_ite
  · intro hsame
    exact commits_kept rfl hid hfound (holdsTotp_iff.mp hsame)
  · intro hnew
    exact commits_track lib env doc rfl hid hfound (mt holdsTotp_iff.mpr hnew)
      (fun _ => holdsTotp_setField current.toEntryData uri) (fun _ => rfl) (fun _ => rfl) fun _ h => h

theorem clearEntryTotp_commits (id : String) :
    (KdbxDocument.clearEntryTotp lib env id).Yields doc
      (Mutation.Commits lib env doc (.clearEntryTotp id)) := by
  apply yields_get
  apply commits_check
  intro entryId hid
  apply commits_okOr
  intro current hfound
  apply yields_ite
  · intro htotp
    refine commits_track lib env doc rfl hid hfound ?_
      (fun _ => hasTotp_removeTotp current.toEntryData) (fun _ => rfl) (fun _ => rfl) fun _ h => h
    exact Bool.not_eq_false _ ▸ htotp
  · intro hnone
    exact commits_kept rfl hid hfound (Bool.eq_false_iff.mpr hnone)

theorem setEntryTags_commits (id : String) (tags : List String) :
    (KdbxDocument.setEntryTags lib env id tags).Yields doc
      (Mutation.Commits lib env doc (.setEntryTags id tags)) := by
  apply yields_get
  apply commits_check
  intro _ _
  apply commits_check
  intro entryId hid
  apply commits_okOr
  intro current hfound
  apply yields_ite
  · intro hsame
    exact commits_kept rfl hid hfound hsame
  · intro hnew
    exact commits_track lib env doc rfl hid hfound hnew (fun _ => rfl) (fun _ => rfl) (fun _ => rfl)
      fun _ h => h

theorem updateEntry_commits (id : String) (update : EntryUpdate) :
    (KdbxDocument.updateEntry lib env id update).Yields doc
      (Mutation.Commits lib env doc (.updateEntry id update)) := by
  apply yields_get
  apply commits_check
  intro entryId hid
  apply commits_okOr
  intro current hfound
  apply yields_ite
  · intro hempty
    exact commits_kept rfl hid hfound (holds_of_isEmpty lib hempty)
  intro _
  apply commits_check
  intro expiry hexpiry
  apply commits_check
  intro icon hicon
  apply commits_check
  intro totp htotp
  have hsame := @holds_iff_unchanged V lib doc.database current.toEntryData update expiry icon totp
    hexpiry hicon htotp
  apply yields_ite
  · intro hunchanged
    exact commits_kept rfl hid hfound (hsame.mpr hunchanged)
  intro hchanged
  refine commits_track lib env doc rfl hid hfound (mt hsame.mp hchanged) ?_
    (fun data => (applyUpdate_place env _ expiry icon totp data).1)
    (fun data => (applyUpdate_place env _ expiry icon totp data).2) ?_
  · intro out
    exact (applyUpdate_holds lib env hexpiry hicon htotp).touch lib env.now
  · intro i hi
    rw [applyUpdate_icon] at hi
    cases icon with
    | none => exact hi
    | some icon => exact absurd hi ((iconChange_some hicon).2.2 i)

theorem addEntryAttachment_commits (id name : String) (bytes : Bytes) :
    (KdbxDocument.addEntryAttachment lib env id name bytes).Yields doc
      (Mutation.Commits lib env doc (.addEntryAttachment id name bytes)) := by
  apply yields_get
  apply yields_ite
  · intro _
    exact .refused _
  intro _
  apply commits_check
  intro entryId hid
  apply commits_okOr
  intro current hfound
  apply yields_ite
  · intro _
    exact .refused _
  intro habsent
  obtain ⟨data, a, hpending, hnamed, hvalue, hsame⟩ :=
    pending_trackAttachment lib env hfound name ⟨true, bytes⟩
  apply commitTracked_yields hpending
  intro out hout hicons hattachments
  refine .tracked _ id entryId current data out rfl hid hout (Or.inl (hicons.trans hsame)) ?_ ?_
  · intro hthere
    exact habsent (Option.isSome_of_eq_some hthere)
  · show out.attachmentByName data name = some ⟨true, bytes⟩
    rw [Database.attachmentByName, hnamed, hattachments]
    exact hvalue

theorem setEntryCustomIconPng_commits (id : String) (bytes : Bytes) :
    (KdbxDocument.setEntryCustomIconPng lib env id bytes).Yields doc
      (Mutation.Commits lib env doc (.setEntryCustomIconPng id bytes)) := by
  apply yields_get
  apply commits_check
  intro _ _
  apply commits_check
  intro entryId hid
  apply commits_okOr
  intro current hfound
  have hasked : (doc.database.customIcon current.toEntryData).any (·.data = bytes) = true ↔
      (doc.database.customIcon current.toEntryData).map (·.data) = some bytes := by
    cases doc.database.customIcon current.toEntryData <;> simp
  apply yields_ite
  · intro hsame
    exact commits_kept rfl hid hfound (hasked.mp hsame)
  intro hnew
  apply commitTracked_yields (pending_trackIcon lib env hfound bytes)
  intro out hout hicons _
  refine .tracked _ id entryId current _ out rfl hid hout (Or.inr ⟨_, hicons⟩) (mt hasked.mpr hnew) ?_
  show Option.map _ out.customIcons[(⟨env.uuid⟩ : CustomIconId)]? = some bytes
  rw [hicons]
  show Option.map _ (doc.database.customIcons.insert (⟨env.uuid⟩ : CustomIconId)
    (lib.newIcon env.now bytes))[(⟨env.uuid⟩ : CustomIconId)]? = some bytes
  rw [Std.ExtTreeMap.getElem?_insert_self, Option.map_some, lib.newIcon_data]

theorem restoreEntryHistory_commits (id : String) (historyIndex expectedDocumentRevision : Nat) :
    (KdbxDocument.restoreEntryHistory lib env id historyIndex expectedDocumentRevision).Yields doc
      (Mutation.Commits lib env doc
        (.restoreEntryHistory id historyIndex expectedDocumentRevision)) := by
  apply yields_get
  apply yields_ite
  · intro _
    exact .refused _
  intro hrevision
  obtain rfl := not_not.mp hrevision
  apply commits_check
  intro entryId hid
  apply commits_okOr
  intro current hfound
  apply commits_okOr
  intro source hsource
  apply yields_ite
  · intro _
    exact .refused _
  intro hshape
  rw [not_or, not_not] at hshape
  split
  · exact .refused _
  · case h_2 _ hcustom =>
    -- A snapshot with a custom icon has been refused.
    refine commitTracked_yields (pending_track lib env
      (fun data => source.restoreFrom data source.icon) hfound (fun _ => rfl) (fun _ => rfl)
      fun i hi => absurd hi (hcustom i)) ?_
    intro out hout hicons _
    exact .restoreEntryHistory id historyIndex entryId current source out hid hsource hshape.1 hcustom
      hout hicons

end Tracked

/-! ## Mutations of the tree and of the settings -/

section Tree
variable (lib : Editing V) (env : Ambient) (doc : KdbxDocument V)

theorem commits_unchanged {α : Type} {lib : Editing V} {env : Ambient} {doc : KdbxDocument V}
    {mutation : Mutation} (a : α) (h : mutation.tracked = none) :
    mutation.Commits lib env doc (.ok a) doc :=
  .kept a (Mutation.idle_of_untracked h)

/-- Two mutations create entries, with the same body. -/
theorem createEntryWithNotes_commits {mutation : Mutation} (group : String) (input : NewEntry)
    (notes : Option String) (heffect : ∀ id, doc.database.findGroupId group = .ok id →
      Effect lib env doc mutation (lib.created env doc.database id input notes)) :
    (KdbxDocument.createEntryWithNotes lib env group input notes).Yields doc
      (mutation.Commits lib env doc) := by
  apply yields_get
  apply commits_check
  intro groupId hid
  apply commits_okOr
  intro _ _
  exact commits_commit_pure (heffect groupId hid)

theorem permanentlyDeleteEntry_commits {mutation : Mutation} (id : String)
    (heffect : ∀ entryId, doc.database.findEntryId id = .ok entryId →
      Effect lib env doc mutation (lib.trackRemove env doc.database entryId)) :
    (KdbxDocument.permanentlyDeleteEntry lib env id).Yields doc (mutation.Commits lib env doc) := by
  apply yields_get
  apply commits_check
  intro entryId hid
  apply commits_okOr
  intro _ _
  exact commits_commit (heffect entryId hid)

theorem permanentlyDeleteRecycledEntry_commits (id : String) :
    (KdbxDocument.permanentlyDeleteRecycledEntry lib env id).Yields doc
      (Mutation.Commits lib env doc (.permanentlyDeleteRecycledEntry id)) := by
  apply yields_get
  apply commits_check
  intro entryId _
  apply commits_okOr
  intro recycle _
  apply commits_okOr
  intro current _
  apply yields_ite
  · intro _
    exact .refused _
  intro _
  exact permanentlyDeleteEntry_commits lib env doc id fun entryId hid => .permanentlyDeleteRecycledEntry id entryId hid

theorem moveEntry_commits (entry destination : String) :
    (KdbxDocument.moveEntry lib env entry destination).Yields doc
      (Mutation.Commits lib env doc (.moveEntry entry destination)) := by
  apply yields_get
  apply commits_check
  intro entryId _
  apply commits_check
  intro destinationId _
  apply commits_okOr
  intro current hcurrent
  apply yields_ite
  · intro _
    exact commits_unchanged _ rfl
  intro hne
  apply commits_check
  intro candidate hcandidate
  exact commits_commit (.moveEntry entry destination entryId destinationId current candidate hcurrent
    hne hcandidate)

theorem createGroup_commits (parent name : String) :
    (KdbxDocument.createGroup lib env parent name).Yields doc
      (Mutation.Commits lib env doc (.createGroup parent name)) := by
  apply yields_get
  apply commits_check
  intro parentId hid
  apply commits_okOr
  intro _ _
  exact commits_commit_pure (.createGroup parent name parentId hid)

theorem renameGroup_commits (id name : String) :
    (KdbxDocument.renameGroup lib env id name).Yields doc
      (Mutation.Commits lib env doc (.renameGroup id name)) := by
  apply yields_get
  apply commits_check
  intro groupId hid
  apply commits_okOr
  intro current hcurrent
  apply yields_ite
  · intro _
    exact commits_unchanged _ rfl
  intro hne
  exact commits_commit (.renameGroup id name groupId current hcurrent hne)

theorem mem_of_findGroupId {db : Database V} {text : String} {id : GroupId}
    (h : db.findGroupId text = .ok id) : id ∈ db.groups := by
  unfold Database.findGroupId at h
  split at h
  · case h_1 group hfind =>
    cases h
    exact Std.ExtTreeMap.mem_keys.mp (List.mem_of_find?_eq_some hfind)
  · cases h

theorem mem_of_findEntryId {db : Database V} {text : String} {id : EntryId}
    (h : db.findEntryId text = .ok id) : id ∈ db.entries := by
  unfold Database.findEntryId at h
  split at h
  · case h_1 entry hfind =>
    cases h
    exact Std.ExtTreeMap.mem_keys.mp (List.mem_of_find?_eq_some hfind)
  · cases h

theorem moveGroup_commits (group destinationParent : String) :
    (KdbxDocument.moveGroup lib env group destinationParent).Yields doc
      (Mutation.Commits lib env doc (.moveGroup group destinationParent)) := by
  apply yields_get
  apply commits_check
  intro groupId hid
  apply commits_check
  intro destinationId _
  apply commits_okOr
  intro current hcurrent
  apply commits_okOr
  intro currentParent hparent
  apply yields_ite
  · intro _
    exact commits_unchanged _ rfl
  intro hne
  apply commits_okOr
  intro candidate hcandidate
  refine commits_commit (.moveGroup group destinationParent groupId destinationId candidate
    (mem_of_findGroupId hid) ?_ hcandidate)
  rw [Database.parentOf, hcurrent]
  exact fun hsame => hne (Option.some.inj (hparent.symm.trans hsame))

theorem permanentlyDeleteGroup_commits {mutation : Mutation} (id : String)
    (heffect : ∀ groupId subtree cleared out,
      RemovesGroup lib env doc.database id groupId subtree cleared out → Effect lib env doc mutation out) :
    (KdbxDocument.permanentlyDeleteGroup lib env id).Yields doc (mutation.Commits lib env doc) := by
  apply yields_get
  apply commits_check
  intro groupId hid
  apply yields_ite
  · intro _
    exact .refused _
  intro _
  apply commits_check
  intro subtree _
  apply commits_check
  intro cleared hcleared
  apply commits_okOr
  intro group hgroup
  apply commits_okOr
  intro candidate hcandidate
  exact commits_commit (heffect groupId subtree cleared candidate
    ⟨hid, hcleared, mem_iff_exists.mpr ⟨group, hgroup⟩, hcandidate⟩)

theorem permanentlyDeleteRecycledGroup_commits (id : String) :
    (KdbxDocument.permanentlyDeleteRecycledGroup lib env id).Yields doc
      (Mutation.Commits lib env doc (.permanentlyDeleteRecycledGroup id)) := by
  apply yields_get
  apply commits_check
  intro groupId _
  apply commits_okOr
  intro recycle _
  apply yields_ite
  · intro _
    exact .refused _
  intro _
  exact permanentlyDeleteGroup_commits lib env doc id fun groupId subtree cleared out h =>
    .permanentlyDeleteRecycledGroup id groupId subtree cleared out h

/-- The icon is set on the new entry, or it is a custom icon that does not exist. -/
theorem copyIcon_insertEntry (db : Database V) (parent : GroupId) (id : EntryId) {entry : Entry V}
    (hentry : entry.icon = none) (icon : Option Icon) :
    (copyIcon (db.insertEntry parent id entry) id icon =
        .ok (db.insertEntry parent id { entry with icon := icon }) ∧
      ∀ i, icon = some (.custom i) → i ∈ db.customIcons) ∨
    (copyIcon (db.insertEntry parent id entry) id icon =
        .error (.conversion "entry custom icon was missing") ∧
      ∃ i, icon = some (.custom i) ∧ i ∉ db.customIcons) := by
  rcases icon with _ | _ | i
  · refine Or.inl ⟨?_, fun i hi => nomatch hi⟩
    simp only [copyIcon, ← hentry]
  · refine Or.inl ⟨?_, fun i hi => nomatch hi⟩
    simp only [copyIcon, editEntry_insertEntry]
  · by_cases hi : i ∈ db.customIcons
    · refine Or.inl ⟨?_, fun j hj => ?_⟩
      · have hmem : i ∈ (db.insertEntry parent id entry).customIcons := hi
        simp only [copyIcon, Editing.setIconCustom, hmem, if_true, editEntry_insertEntry]
      · cases hj
        exact hi
    · refine Or.inr ⟨?_, i, rfl, hi⟩
      have hmem : i ∉ (db.insertEntry parent id entry).customIcons := hi
      simp only [copyIcon, Editing.setIconCustom, hmem, if_false]

/-- The source of a duplicate has a custom icon that does not exist. -/
def DanglingIcon (db : Database V) (text : String) (source : Entry V) : Prop :=
  (∃ id, db.findEntryId text = .ok id ∧ db.entries[id]? = some source) ∧
    source.parent ∈ db.groups ∧ ∃ i, source.icon = some (.custom i) ∧ i ∉ db.customIcons

/-- `duplicate_entry` commits, except that it leaves the new entry behind when the custom icon of
the source does not exist. -/
theorem duplicateEntry_outcome (id : String) :
    (KdbxDocument.duplicateEntry lib env id).Yields doc fun r out =>
      Mutation.Commits lib env doc (.duplicateEntry id) r out ∨
        ∃ source, DanglingIcon doc.database id source ∧
          r = .error (.conversion "entry custom icon was missing") ∧
          out = doc.withDatabase (lib.duplicated env doc.database source) := by
  apply yields_get
  apply yields_check
  · intro e _
    exact Or.inl (.refused e)
  intro sourceId hid
  apply yields_okOr
  · intro _
    exact Or.inl (.refused _)
  intro source hsource
  apply yields_okOr
  · intro _
    exact Or.inl (.refused _)
  intro group hgroup
  have hparent : source.parent ∈ doc.database.groups := mem_iff_exists.mpr ⟨group, hgroup⟩
  have hadded : (lib.addEntry env doc.database source.parent).editEntry ⟨env.uuid⟩ source.copyInto =
      lib.duplicated env doc.database source := editEntry_insertEntry _ _
  have hcopied := copyIcon_insertEntry doc.database source.parent ⟨env.uuid⟩
    (show (source.copyInto (lib.newEntry env.now source.parent)).icon = none from
      lib.newEntry_icon env.now source.parent) source.icon
  dsimp only
  rw [hadded]
  apply yields_modify
  apply yields_check
  · intro e he
    rcases hcopied with ⟨hok, -⟩ | ⟨herror, hicon⟩
    · cases hok.symm.trans he
    · cases herror.symm.trans he
      exact Or.inr ⟨source, ⟨⟨sourceId, hid, hsource⟩, hparent, hicon⟩, rfl, rfl⟩
  · intro iconed hiconed
    rcases hcopied with ⟨hok, hicon⟩ | ⟨herror, -⟩
    · cases hok.symm.trans hiconed
      apply yields_bind
      apply yields_modify
      exact Or.inl (Commits.changed _ _ (.duplicateEntry id source hparent hicon))
    · cases herror.symm.trans hiconed

theorem trashEntry_commits (id : String) :
    (KdbxDocument.trashEntry lib env id).Yields doc
      (Mutation.Commits lib env doc (.trashEntry id)) := by
  apply yields_get
  apply commits_check
  intro entryId _
  apply commits_check
  rintro ⟨made, recycle⟩ hmade
  apply commits_okOr
  intro current hcurrent
  apply yields_ite
  · intro _
    exact commits_unchanged _ rfl
  intro hout
  apply commits_check
  intro candidate hcandidate
  exact commits_commit (.trashEntry id entryId made recycle current candidate hmade hcurrent hout
    hcandidate)

theorem restoreEntry_commits (id : String) :
    (KdbxDocument.restoreEntry lib env id).Yields doc
      (Mutation.Commits lib env doc (.restoreEntry id)) := by
  apply yields_get
  apply commits_check
  intro entryId hid
  apply commits_okOr
  intro recycle hbin
  apply commits_okOr
  intro current hcurrent
  apply yields_ite
  · intro _
    exact .refused _
  intro hin
  apply commits_check
  intro candidate hcandidate
  exact commits_commit_pure (.restoreEntry id entryId recycle current candidate hid hbin hcurrent
    (not_not.mp hin) hcandidate)

theorem trashGroup_commits (id : String) :
    (KdbxDocument.trashGroup lib env id).Yields doc
      (Mutation.Commits lib env doc (.trashGroup id)) := by
  apply yields_get
  apply commits_check
  intro groupId _
  apply yields_ite
  · intro _
    exact .refused _
  intro _
  apply commits_check
  rintro ⟨made, recycle⟩ hmade
  apply yields_ite
  · intro _
    exact commits_unchanged _ rfl
  intro hout
  apply commits_check
  intro candidate hcandidate
  exact commits_commit (.trashGroup id groupId made recycle candidate hmade hout hcandidate)

theorem restoreGroup_commits (id : String) :
    (KdbxDocument.restoreGroup lib env id).Yields doc
      (Mutation.Commits lib env doc (.restoreGroup id)) := by
  apply yields_get
  apply commits_check
  intro groupId hid
  apply commits_okOr
  intro recycle hbin
  apply yields_ite
  · intro _
    exact .refused _
  intro hin
  apply commits_okOr
  intro current hcurrent
  apply commits_check
  intro candidate hcandidate
  exact commits_commit_pure (.restoreGroup id groupId recycle current candidate hid hbin hin hcurrent
    hcandidate)

theorem moveEntries_commits (entries : List String) (destination : String) :
    (KdbxDocument.moveEntries lib env entries destination).Yields doc
      (Mutation.Commits lib env doc (.moveEntries entries destination)) := by
  apply yields_get
  apply yields_ite
  · intro _
    exact commits_unchanged _ rfl
  intro _
  apply commits_check
  intro destinationId _
  apply commits_check
  intro entryIds _
  apply commits_check
  rintro ⟨candidate, changed⟩ hmoved
  apply yields_ite
  · rintro rfl
    exact commits_commit (.moveEntries entries destination entryIds destinationId candidate hmoved)
  · intro _
    exact commits_unchanged _ rfl

theorem trashEntries_commits (entries : List String) :
    (KdbxDocument.trashEntries lib env entries).Yields doc
      (Mutation.Commits lib env doc (.trashEntries entries)) := by
  apply yields_get
  apply yields_ite
  · intro _
    exact commits_unchanged _ rfl
  intro _
  apply commits_check
  intro entryIds _
  apply commits_check
  rintro ⟨made, recycle⟩ hmade
  apply commits_check
  rintro ⟨candidate, changed⟩ hmoved
  apply yields_ite
  · rintro rfl
    exact commits_commit (.trashEntries entries entryIds made recycle candidate hmade hmoved)
  · intro _
    exact commits_unchanged _ rfl

theorem restoreEntries_commits (entries : List String) :
    (KdbxDocument.restoreEntries lib env entries).Yields doc
      (Mutation.Commits lib env doc (.restoreEntries entries)) := by
  apply yields_get
  apply yields_ite
  · intro _
    exact commits_unchanged _ rfl
  intro hne
  apply commits_check
  intro entryIds hids
  apply commits_okOr
  intro recycle hbin
  apply commits_check
  intro destinations hdestinations
  apply commits_check
  intro candidate hcandidate
  exact commits_commit (.restoreEntries entries entryIds recycle destinations candidate hne hids hbin
    hdestinations hcandidate)

theorem permanentlyDeleteRecycledEntries_commits (entries : List String) :
    (KdbxDocument.permanentlyDeleteRecycledEntries lib env entries).Yields doc
      (Mutation.Commits lib env doc (.permanentlyDeleteRecycledEntries entries)) := by
  apply yields_get
  apply yields_ite
  · intro _
    exact commits_unchanged _ rfl
  intro hne
  apply commits_check
  intro entryIds hids
  apply commits_okOr
  intro recycle _
  apply commits_check
  intro _ _
  apply commits_check
  intro candidate hcandidate
  exact commits_commit (.permanentlyDeleteRecycledEntries entries entryIds candidate hne hids
    hcandidate)

theorem setHistoryMaxItems_commits (maxItems : Option Nat) :
    (KdbxDocument.setHistoryMaxItems env maxItems).Yields doc
      (Mutation.Commits lib env doc (.setHistoryMaxItems maxItems)) := by
  apply yields_get
  apply yields_ite
  · intro _
    exact commits_unchanged _ rfl
  intro hne
  apply yields_ite
  · intro _
    exact .refused _
  · intro _
    exact commits_commit (.setHistoryMaxItems maxItems hne)

theorem setRecycleBinEnabled_commits (enabled : Bool) :
    (KdbxDocument.setRecycleBinEnabled env enabled).Yields doc
      (Mutation.Commits lib env doc (.setRecycleBinEnabled enabled)) := by
  apply yields_get
  apply yields_ite
  · intro _
    exact commits_unchanged _ rfl
  intro hne
  apply yields_ite
  · intro _
    exact .refused _
  · intro _
    exact commits_commit (.setRecycleBinEnabled enabled hne)

theorem updateDatabaseMetadata_commits (next : DatabaseMetadata) :
    (KdbxDocument.updateDatabaseMetadata env next).Yields doc
      (Mutation.Commits lib env doc (.updateDatabaseMetadata next)) := by
  apply yields_get
  apply yields_ite
  · intro _
    exact .refused _
  intro _
  apply yields_ite
  · intro _
    exact commits_unchanged _ rfl
  intro hne
  exact commits_commit_pure (.updateDatabaseMetadata next hne)

end Tree

/-! ## All mutations -/

section All
variable (lib : Editing V) (env : Ambient) (doc : KdbxDocument V)

/-- Every mutation commits its effect, but for the one that duplicates an entry. -/
theorem Mutation.commits {mutation : Mutation} (h : ∀ id, mutation ≠ .duplicateEntry id) :
    (mutation.body lib env).Yields doc (mutation.Commits lib env doc) := by
  cases mutation with
  | setEntryTitle id title =>
    exact setStandardField_commits lib env doc id _ title _ rfl fun _ _ => Iff.rfl
  | setEntryUsername id username =>
    exact setStandardField_commits lib env doc id _ username _ rfl fun _ _ => Iff.rfl
  | setEntryUrl id url => exact setStandardField_commits lib env doc id _ url _ rfl fun _ _ => Iff.rfl
  | setEntryPassword id password =>
    exact setStandardField_commits lib env doc id _ password _ rfl fun _ _ => Iff.rfl
  | setEntryNotes id notes =>
    exact setStandardField_commits lib env doc id _ notes _ rfl fun _ _ => Iff.rfl
  | updateEntry id update => exact updateEntry_commits lib env doc id update
  | setEntryCustomField id name value newFieldProtected =>
    exact setEntryCustomField_commits lib env doc id name value newFieldProtected
  | deleteEntryCustomField id name => exact deleteEntryCustomField_commits lib env doc id name
  | setEntryTags id tags => exact setEntryTags_commits lib env doc id tags
  | setEntryTotpUri id uri => exact setEntryTotpUri_commits lib env doc id uri
  | clearEntryTotp id => exact clearEntryTotp_commits lib env doc id
  | addEntryAttachment id name bytes => exact addEntryAttachment_commits lib env doc id name bytes
  | setEntryCustomIconPng id bytes => exact setEntryCustomIconPng_commits lib env doc id bytes
  | restoreEntryHistory id historyIndex expectedDocumentRevision =>
    exact restoreEntryHistory_commits lib env doc id historyIndex expectedDocumentRevision
  | createEntry group input =>
    exact commits_quiet (createEntryWithNotes_commits lib env doc group input none
      fun groupId hid => .createEntry group input groupId hid)
  | createEntryWithNotes group input notes =>
    exact commits_quiet (createEntryWithNotes_commits lib env doc group input notes
      fun groupId hid => .createEntryWithNotes group input notes groupId hid)
  | duplicateEntry id => exact absurd rfl (h id)
  | permanentlyDeleteEntry id =>
    exact permanentlyDeleteEntry_commits lib env doc id fun entryId hid =>
      .permanentlyDeleteEntry id entryId hid
  | moveEntry entry destination => exact moveEntry_commits lib env doc entry destination
  | trashEntry id => exact trashEntry_commits lib env doc id
  | restoreEntry id => exact commits_quiet (restoreEntry_commits lib env doc id)
  | permanentlyDeleteRecycledEntry id =>
    exact permanentlyDeleteRecycledEntry_commits lib env doc id
  | moveEntries entries destination => exact moveEntries_commits lib env doc entries destination
  | trashEntries entries => exact trashEntries_commits lib env doc entries
  | restoreEntries entries => exact restoreEntries_commits lib env doc entries
  | permanentlyDeleteRecycledEntries entries =>
    exact permanentlyDeleteRecycledEntries_commits lib env doc entries
  | createGroup parent name => exact commits_quiet (createGroup_commits lib env doc parent name)
  | renameGroup id name => exact renameGroup_commits lib env doc id name
  | moveGroup group destinationParent => exact moveGroup_commits lib env doc group destinationParent
  | permanentlyDeleteGroup id =>
    exact permanentlyDeleteGroup_commits lib env doc id fun groupId subtree cleared out h =>
      .permanentlyDeleteGroup id groupId subtree cleared out h
  | trashGroup id => exact trashGroup_commits lib env doc id
  | restoreGroup id => exact commits_quiet (restoreGroup_commits lib env doc id)
  | permanentlyDeleteRecycledGroup id =>
    exact permanentlyDeleteRecycledGroup_commits lib env doc id
  | setHistoryMaxItems maxItems => exact setHistoryMaxItems_commits lib env doc maxItems
  | setRecycleBinEnabled enabled => exact setRecycleBinEnabled_commits lib env doc enabled
  | updateDatabaseMetadata next =>
    exact commits_quiet (updateDatabaseMetadata_commits lib env doc next)

end All

end NianPass.Kdbx
