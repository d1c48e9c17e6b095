import NianPass.Kdbx.Mutations

/-
  The recycle bin and the bulk operations (`recycle_bin.rs`, `bulk.rs`), and all
  public mutations of a document as one type.

  Everything here works on a candidate copy of the database, which replaces the
  database of the document only when nothing failed.
-/
namespace NianPass.Kdbx

open Method

variable {V : Type} (lib : Editing V) (env : Ambient)

/-! ## The bin -/

def recycleBinName := "Recycle Bin"

def recycleBinId (db : Database V) : Option GroupId :=
  db.metadata.recyclebinUuid.bind fun uuid =>
    if (⟨uuid⟩ : GroupId) ∈ db.groups then some ⟨uuid⟩ else none

/-- `group_is_in_recycle_bin`: the walk up the parents of `group` meets the bin. -/
def groupIsInRecycleBin (db : Database V) (group recycle : GroupId) : Bool :=
  recycle ∈ Forest.trail db.parentOf (db.groups.size + 1) group

def ensureRecycleBin (db : Database V) : Except EditError (Database V × GroupId) :=
  if db.metadata.recyclebinEnabled = some false then .error .recycleBinDisabled
  else match recycleBinId db with
    | some id => .ok (db, id)
    | none =>
      let id : GroupId := ⟨env.uuid⟩
      let added := (lib.addGroup env db db.root).editGroup id ({ · with name := recycleBinName })
      .ok ({ added with metadata := { added.metadata with
        recyclebinEnabled := some true
        recyclebinUuid := some env.uuid
        recyclebinChanged := some env.now } }, id)

def recycleBinEnabled (db : Database V) : Bool := db.metadata.recyclebinEnabled.getD true

/-- The bin has an entry or a child group. -/
def recycleBinOccupied (db : Database V) : Bool :=
  match recycleBinId db with
  | none => false
  | some recycle => !(db.childEntries recycle).isEmpty || !(db.childGroups recycle).isEmpty

def KdbxDocument.setRecycleBinEnabled (enabled : Bool) : Edit V PUnit := do
  let doc ← get
  if recycleBinEnabled doc.database = enabled then pure ⟨⟩
  else if ¬ enabled ∧ recycleBinOccupied doc.database then
    throw EditError.invalidRecycleBinOperation
  else
    Edit.commit { doc.database with metadata := { doc.database.metadata with
        recyclebinEnabled := some enabled
        recyclebinChanged := some env.now
        settingsChanged := some env.now } }

/-! ## Entries -/

def KdbxDocument.trashEntry (id : String) : Edit V PUnit := do
  let doc ← get
  let entryId ← check (doc.database.findEntryId id)
  let (candidate, recycle) ← check (ensureRecycleBin lib env doc.database)
  let current ← okOr EditError.entryNotFound candidate.entries[entryId]?
  if groupIsInRecycleBin candidate current.parent recycle then pure ⟨⟩
  else
    let candidate ← check (relocated lib env candidate entryId recycle)
    Edit.commit candidate

/-- Where a recycled entry goes back to. -/
def entryDestination (db : Database V) (recycle : GroupId) (entry : Entry V) : GroupId :=
  ((lib.previousParent db entry.previousParent).filter fun destination =>
    destination ∈ db.groups ∧ ¬ groupIsInRecycleBin db destination recycle).getD db.root

def KdbxDocument.restoreEntry (id : String) : Edit V GroupId := do
  let doc ← get
  let entryId ← check (doc.database.findEntryId id)
  let recycle ← okOr EditError.invalidRecycleBinOperation (recycleBinId doc.database)
  let current ← okOr EditError.entryNotFound doc.database.entries[entryId]?
  if ¬ groupIsInRecycleBin doc.database current.parent recycle then
    throw EditError.invalidRecycleBinOperation
  else
    let previous := entryDestination lib doc.database recycle current
    let candidate ← check (relocated lib env doc.database entryId previous)
    Edit.commit candidate
    pure previous

def KdbxDocument.permanentlyDeleteRecycledEntry (id : String) : Edit V PUnit := do
  let doc ← get
  let entryId ← check (doc.database.findEntryId id)
  let recycle ← okOr EditError.invalidRecycleBinOperation (recycleBinId doc.database)
  let current ← okOr EditError.entryNotFound doc.database.entries[entryId]?
  if ¬ groupIsInRecycleBin doc.database current.parent recycle then
    throw EditError.invalidRecycleBinOperation
  else KdbxDocument.permanentlyDeleteEntry lib env id

/-! ## Groups -/

/-- `move_to` and the new time of the location, on a candidate database. -/
def relocatedGroup (db : Database V) (id target : GroupId) : Except EditError (Database V) :=
  if id ∈ db.groups then
    match lib.moveGroupTo db id target with
    | some out => .ok (out.editGroup id fun group =>
        { group with times := { group.times with locationChanged := some env.now } })
    | none => .error .invalidGroupMove
  else .error .groupNotFound

def KdbxDocument.trashGroup (id : String) : Edit V PUnit := do
  let doc ← get
  let groupId ← check (doc.database.findGroupId id)
  if groupId = doc.database.root then throw EditError.cannotDeleteRootGroup
  else
    let (candidate, recycle) ← check (ensureRecycleBin lib env doc.database)
    if groupId = recycle ∨ groupIsInRecycleBin candidate groupId recycle then pure ⟨⟩
    else
      let candidate ← check (relocatedGroup lib env candidate groupId recycle)
      Edit.commit candidate

/-- Where a recycled group goes back to. -/
def groupDestination (db : Database V) (recycle : GroupId) (group : Group V) : GroupId :=
  ((lib.previousParent db group.previousParent).filter fun destination =>
    ¬ groupIsInRecycleBin db destination recycle).getD db.root

def KdbxDocument.restoreGroup (id : String) : Edit V GroupId := do
  let doc ← get
  let groupId ← check (doc.database.findGroupId id)
  let recycle ← okOr EditError.invalidRecycleBinOperation (recycleBinId doc.database)
  if groupId = recycle ∨ ¬ groupIsInRecycleBin doc.database groupId recycle then
    throw EditError.invalidRecycleBinOperation
  else
    let current ← okOr EditError.groupNotFound doc.database.groups[groupId]?
    let previous := groupDestination lib doc.database recycle current
    let candidate ← check (relocatedGroup lib env doc.database groupId previous)
    Edit.commit candidate
    pure previous

def KdbxDocument.permanentlyDeleteRecycledGroup (id : String) : Edit V PUnit := do
  let doc ← get
  let groupId ← check (doc.database.findGroupId id)
  let recycle ← okOr EditError.invalidRecycleBinOperation (recycleBinId doc.database)
  if groupId = recycle ∨ ¬ groupIsInRecycleBin doc.database groupId recycle then
    throw EditError.invalidRecycleBinOperation
  else KdbxDocument.permanentlyDeleteGroup lib env id

/-! ## Several entries at once -/

/-- A round of `move_entries` (`stays` is "already in the destination") and of `trash_entries`
(`stays` is "already in the bin"). -/
def moveRound (target : GroupId) (stays : Database V → GroupId → Bool)
    (state : Database V × Bool) (id : EntryId) : Except EditError (Database V × Bool) :=
  match state.1.entries[id]? with
  | none => .error .entryNotFound
  | some entry =>
    if stays state.1 entry.parent then .ok state
    else match relocated lib env state.1 id target with
      | .ok out => .ok (out, true)
      | .error e => .error e

def KdbxDocument.moveEntries (entries : List String) (destination : String) : Edit V PUnit := do
  let doc ← get
  if entries.isEmpty then pure ⟨⟩
  else
    let destinationId ← check (doc.database.findGroupId destination)
    let entryIds ← check (entries.mapM doc.database.findEntryId)
    let (candidate, changed) ← check (entryIds.foldlM
      (moveRound lib env destinationId fun _ parent => parent = destinationId) (doc.database, false))
    if changed then Edit.commit candidate else pure ⟨⟩

def KdbxDocument.trashEntries (entries : List String) : Edit V PUnit := do
  let doc ← get
  if entries.isEmpty then pure ⟨⟩
  else
    let entryIds ← check (entries.mapM doc.database.findEntryId)
    let (candidate, recycle) ← check (ensureRecycleBin lib env doc.database)
    let (candidate, changed) ← check (entryIds.foldlM
      (moveRound lib env recycle fun db parent => groupIsInRecycleBin db parent recycle)
      (candidate, false))
    if changed then Edit.commit candidate else pure ⟨⟩

/-- The check of one entry of `restore_entries`, and where it goes. -/
def restorable (db : Database V) (recycle : GroupId) (id : EntryId) :
    Except EditError (EntryId × GroupId) :=
  match db.entries[id]? with
  | none => .error .entryNotFound
  | some entry =>
    if ¬ groupIsInRecycleBin db entry.parent recycle then .error .invalidRecycleBinOperation
    else .ok (id, entryDestination lib db recycle entry)

def KdbxDocument.restoreEntries (entries : List String) : Edit V PUnit := do
  let doc ← get
  if entries.isEmpty then pure ⟨⟩
  else
    let entryIds ← check (entries.mapM doc.database.findEntryId)
    let recycle ← okOr EditError.invalidRecycleBinOperation (recycleBinId doc.database)
    let destinations ← check (entryIds.mapM (restorable lib doc.database recycle))
    let candidate ← check (destinations.foldlM
      (fun candidate item => relocated lib env candidate item.1 item.2) doc.database)
    Edit.commit candidate

/-- A round of the loop that deletes. -/
def removeRound (candidate : Database V) (id : EntryId) : Except EditError (Database V) :=
  if id ∈ candidate.entries then .ok (lib.trackRemove env candidate id) else .error .entryNotFound

def KdbxDocument.permanentlyDeleteRecycledEntries (entries : List String) : Edit V PUnit := do
  let doc ← get
  if entries.isEmpty then pure ⟨⟩
  else
    let entryIds ← check (entries.mapM doc.database.findEntryId)
    let recycle ← okOr EditError.invalidRecycleBinOperation (recycleBinId doc.database)
    let _ ← check (entryIds.mapM (restorable lib doc.database recycle))
    let candidate ← check (entryIds.foldlM (removeRound lib env) doc.database)
    Edit.commit candidate

/-! ## All mutations -/

/-- A public mutation with its arguments. -/
inductive Mutation where
  | setEntryTitle (id title : String)
  | setEntryUsername (id username : String)
  | setEntryUrl (id url : String)
  | setEntryPassword (id password : String)
  | setEntryNotes (id notes : String)
  | updateEntry (id : String) (update : EntryUpdate)
  | setEntryCustomField (id name value : String) (newFieldProtected : Bool)
  | deleteEntryCustomField (id name : String)
  | setEntryTags (id : String) (tags : List String)
  | setEntryTotpUri (id uri : String)
  | clearEntryTotp (id : String)
  | addEntryAttachment (id name : String) (bytes : Bytes)
  | setEntryCustomIconPng (id : String) (bytes : Bytes)
  | restoreEntryHistory (id : String) (historyIndex expectedDocumentRevision : Nat)
  | createEntry (group : String) (input : NewEntry)
  | createEntryWithNotes (group : String) (input : NewEntry) (notes : Option String)
  | duplicateEntry (id : String)
  | permanentlyDeleteEntry (id : String)
  | moveEntry (entry destination : String)
  | trashEntry (id : String)
  | restoreEntry (id : String)
  | permanentlyDeleteRecycledEntry (id : String)
  | moveEntries (entries : List String) (destination : String)
  | trashEntries (entries : List String)
  | restoreEntries (entries : List String)
  | permanentlyDeleteRecycledEntries (entries : List String)
  | createGroup (parent name : String)
  | renameGroup (id name : String)
  | moveGroup (group destinationParent : String)
  | permanentlyDeleteGroup (id : String)
  | trashGroup (id : String)
  | restoreGroup (id : String)
  | permanentlyDeleteRecycledGroup (id : String)
  | setHistoryMaxItems (maxItems : Option Nat)
  | setRecycleBinEnabled (enabled : Bool)
  | updateDatabaseMetadata (next : DatabaseMetadata)

/-- The answer of a mutation, without the identifier or the metadata it reports. -/
def Edit.quiet {α : Type} (m : Edit V α) : Edit V PUnit := do
  let _ ← m
  pure ⟨⟩

def Mutation.body : Mutation → Edit V PUnit
  | .setEntryTitle id title => KdbxDocument.setEntryTitle lib env id title
  | .setEntryUsername id username => KdbxDocument.setEntryUsername lib env id username
  | .setEntryUrl id url => KdbxDocument.setEntryUrl lib env id url
  | .setEntryPassword id password => KdbxDocument.setEntryPassword lib env id password
  | .setEntryNotes id notes => KdbxDocument.setEntryNotes lib env id notes
  | .updateEntry id update => KdbxDocument.updateEntry lib env id update
  | .setEntryCustomField id name value newFieldProtected =>
    KdbxDocument.setEntryCustomField lib env id name value newFieldProtected
  | .deleteEntryCustomField id name => KdbxDocument.deleteEntryCustomField lib env id name
  | .setEntryTags id tags => KdbxDocument.setEntryTags lib env id tags
  | .setEntryTotpUri id uri => KdbxDocument.setEntryTotpUri lib env id uri
  | .clearEntryTotp id => KdbxDocument.clearEntryTotp lib env id
  | .addEntryAttachment id name bytes => KdbxDocument.addEntryAttachment lib env id name bytes
  | .setEntryCustomIconPng id bytes => KdbxDocument.setEntryCustomIconPng lib env id bytes
  | .restoreEntryHistory id historyIndex expectedDocumentRevision =>
    KdbxDocument.restoreEntryHistory lib env id historyIndex expectedDocumentRevision
  | .createEntry group input => (KdbxDocument.createEntry lib env group input).quiet
  | .createEntryWithNotes group input notes =>
    (KdbxDocument.createEntryWithNotes lib env group input notes).quiet
  | .duplicateEntry id => (KdbxDocument.duplicateEntry lib env id).quiet
  | .permanentlyDeleteEntry id => KdbxDocument.permanentlyDeleteEntry lib env id
  | .moveEntry entry destination => KdbxDocument.moveEntry lib env entry destination
  | .trashEntry id => KdbxDocument.trashEntry lib env id
  | .restoreEntry id => (KdbxDocument.restoreEntry lib env id).quiet
  | .permanentlyDeleteRecycledEntry id => KdbxDocument.permanentlyDeleteRecycledEntry lib env id
  | .moveEntries entries destination => KdbxDocument.moveEntries lib env entries destination
  | .trashEntries entries => KdbxDocument.trashEntries lib env entries
  | .restoreEntries entries => KdbxDocument.restoreEntries lib env entries
  | .permanentlyDeleteRecycledEntries entries =>
    KdbxDocument.permanentlyDeleteRecycledEntries lib env entries
  | .createGroup parent name => (KdbxDocument.createGroup lib env parent name).quiet
  | .renameGroup id name => KdbxDocument.renameGroup lib env id name
  | .moveGroup group destinationParent => KdbxDocument.moveGroup lib env group destinationParent
  | .permanentlyDeleteGroup id => KdbxDocument.permanentlyDeleteGroup lib env id
  | .trashGroup id => KdbxDocument.trashGroup lib env id
  | .restoreGroup id => (KdbxDocument.restoreGroup lib env id).quiet
  | .permanentlyDeleteRecycledGroup id => KdbxDocument.permanentlyDeleteRecycledGroup lib env id
  | .setHistoryMaxItems maxItems => KdbxDocument.setHistoryMaxItems env maxItems
  | .setRecycleBinEnabled enabled => KdbxDocument.setRecycleBinEnabled env enabled
  | .updateDatabaseMetadata next => (KdbxDocument.updateDatabaseMetadata env next).quiet

/-- A call of a mutation, with what the library gets from its surroundings meanwhile. -/
structure MutationCall where
  mutation : Mutation
  env : Ambient

/-- The answer of the call on `doc` and the document afterwards. -/
def MutationCall.perform (call : MutationCall) (doc : KdbxDocument V) :
    Except EditError PUnit × KdbxDocument V :=
  (call.mutation.body lib call.env).call doc

/-- The document after a sequence of calls. -/
def performAll (doc : KdbxDocument V) (calls : List MutationCall) : KdbxDocument V :=
  calls.foldl (fun doc call => (call.perform lib doc).2) doc

end NianPass.Kdbx
