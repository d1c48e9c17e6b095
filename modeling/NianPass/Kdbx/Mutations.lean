import NianPass.Kdbx.Editing

/-
  The mutations of `crates/kdbx/src`: entries and their fields (`lib.rs`,
  `entry_mutations.rs`, `totp.rs`), attachments, custom icons and history
  (`attachments.rs`, `custom_icons.rs`, `history.rs`), groups (`lib.rs`) and the
  settings of the database (`history_policy.rs`, `database_settings.rs`).

  The bodies keep the order of the source: what is looked up and checked first,
  and what has been written when a later step fails.
-/
namespace NianPass.Kdbx

open Method

variable {V : Type} (lib : Editing V) (env : Ambient)

/-! ## Protection of new fields -/

inductive MissingFieldProtection where
  | databaseTitlePolicy
  | databaseUsernamePolicy
  | databaseUrlPolicy
  | databaseNotesPolicy
  | alwaysProtected
  deriving DecidableEq

def missingFieldIsProtected (db : Database V) : MissingFieldProtection → Bool
  | .databaseTitlePolicy => db.metadata.memoryProtection.any lib.protectTitle
  | .databaseUsernamePolicy => db.metadata.memoryProtection.any lib.protectUsername
  | .databaseUrlPolicy => db.metadata.memoryProtection.any lib.protectUrl
  | .databaseNotesPolicy => db.metadata.memoryProtection.any lib.protectNotes
  | .alwaysProtected => true

def isReservedField (name : String) : Bool :=
  name ∈ lib.knownFields ∨ name ∈ Fields.totpNames ∨ Fields.passkeyStart.toList <+: name.toList

def rejectReservedField (name : String) : Except EditError Unit :=
  if isReservedField lib name then .error .reservedField else .ok ()

/-! ## Standard fields -/

def KdbxDocument.setStandardField (id field newValue : String) (missing : MissingFieldProtection) :
    Edit V PUnit := do
  let doc ← get
  let entryId ← check (doc.database.findEntryId id)
  let current ← okOr EditError.entryNotFound doc.database.entries[entryId]?
  let existing := current.fields[field]?
  if existing.any (·.get = newValue) ∨ (existing.isNone ∧ newValue.isEmpty) then pure ⟨⟩
  else
    let protect := (existing.map (·.isProtected)).getD (missingFieldIsProtected lib doc.database missing)
    Edit.commitTracked entryId
      (doc.database.editEntry entryId (lib.track env (·.setField field protect newValue)))

def KdbxDocument.setEntryTitle (id title : String) : Edit V PUnit :=
  KdbxDocument.setStandardField lib env id Fields.title title .databaseTitlePolicy

def KdbxDocument.setEntryUsername (id username : String) : Edit V PUnit :=
  KdbxDocument.setStandardField lib env id Fields.username username .databaseUsernamePolicy

def KdbxDocument.setEntryUrl (id url : String) : Edit V PUnit :=
  KdbxDocument.setStandardField lib env id Fields.url url .databaseUrlPolicy

def KdbxDocument.setEntryPassword (id password : String) : Edit V PUnit :=
  KdbxDocument.setStandardField lib env id Fields.password password .alwaysProtected

def KdbxDocument.setEntryNotes (id notes : String) : Edit V PUnit :=
  KdbxDocument.setStandardField lib env id Fields.notes notes .databaseNotesPolicy

/-! ## Creating, deleting and moving entries -/

structure NewEntry where
  title : String
  username : String
  url : String
  password : Option String

/-- `set_new_field`: an empty value stays absent. -/
def EntryData.setNewField (data : EntryData V) (name value : String) (isProtected : Bool) :
    EntryData V :=
  if value.isEmpty then data else data.setField name isProtected value

/-- The fields `create_entry_with_notes` fills in. -/
def NewEntry.fill (input : NewEntry) (notes : Option String) (db : Database V)
    (data : EntryData V) : EntryData V :=
  let data := data.setNewField Fields.title input.title
    (missingFieldIsProtected lib db .databaseTitlePolicy)
  let data := data.setNewField Fields.username input.username
    (missingFieldIsProtected lib db .databaseUsernamePolicy)
  let data := data.setNewField Fields.url input.url
    (missingFieldIsProtected lib db .databaseUrlPolicy)
  let data := match input.password with
    | some password => data.setField Fields.password true password
    | none => data
  match notes with
  | some notes => data.setField Fields.notes (missingFieldIsProtected lib db .databaseNotesPolicy) notes
  | none => data

def KdbxDocument.createEntryWithNotes (group : String) (input : NewEntry) (notes : Option String) :
    Edit V EntryId := do
  let doc ← get
  let groupId ← check (doc.database.findGroupId group)
  let _ ← okOr EditError.groupNotFound doc.database.groups[groupId]?
  let entryId : EntryId := ⟨env.uuid⟩
  let added := lib.addEntry env doc.database groupId
  Edit.commit (added.editEntry entryId fun entry =>
    { input.fill lib notes doc.database entry.toEntryData with history := entry.history })
  pure entryId

def KdbxDocument.createEntry (group : String) (input : NewEntry) : Edit V EntryId :=
  KdbxDocument.createEntryWithNotes lib env group input none

def KdbxDocument.permanentlyDeleteEntry (id : String) : Edit V PUnit := do
  let doc ← get
  let entryId ← check (doc.database.findEntryId id)
  let _ ← okOr EditError.entryNotFound doc.database.entries[entryId]?
  Edit.commit (lib.trackRemove env doc.database entryId)

/-- `move_to` and the new time of the location, on a candidate database. -/
def relocated (db : Database V) (id : EntryId) (target : GroupId) :
    Except EditError (Database V) :=
  if id ∈ db.entries then
    match lib.moveEntryTo db id target with
    | some out => .ok (out.editEntry id fun entry =>
        { entry with times := { entry.times with locationChanged := some env.now } })
    | none => .error .groupNotFound
  else .error .entryNotFound

def KdbxDocument.moveEntry (entry destination : String) : Edit V PUnit := do
  let doc ← get
  let entryId ← check (doc.database.findEntryId entry)
  let destinationId ← check (doc.database.findGroupId destination)
  let current ← okOr EditError.entryNotFound doc.database.entries[entryId]?
  if current.parent = destinationId then pure ⟨⟩
  else
    let candidate ← check (relocated lib env doc.database entryId destinationId)
    Edit.commit candidate

/-! ## Groups -/

def KdbxDocument.createGroup (parent name : String) : Edit V GroupId := do
  let doc ← get
  let parentId ← check (doc.database.findGroupId parent)
  let _ ← okOr EditError.groupNotFound doc.database.groups[parentId]?
  let groupId : GroupId := ⟨env.uuid⟩
  Edit.commit ((lib.addGroup env doc.database parentId).editGroup groupId ({ · with name := name }))
  pure groupId

def KdbxDocument.renameGroup (id name : String) : Edit V PUnit := do
  let doc ← get
  let groupId ← check (doc.database.findGroupId id)
  let current ← okOr EditError.groupNotFound doc.database.groups[groupId]?
  if current.name = name then pure ⟨⟩
  else
    Edit.commit (doc.database.editGroup groupId (lib.trackGroup env ({ · with name := name })))

def KdbxDocument.moveGroup (group destinationParent : String) : Edit V PUnit := do
  let doc ← get
  let groupId ← check (doc.database.findGroupId group)
  let destinationId ← check (doc.database.findGroupId destinationParent)
  let current ← okOr EditError.groupNotFound doc.database.groups[groupId]?
  let currentParent ← okOr EditError.invalidGroupMove current.parent
  if currentParent = destinationId then pure ⟨⟩
  else
    -- `map_group_move_error`: the library names the missing group, or refuses the root or a cycle.
    let refusal := if destinationId ∈ doc.database.groups then EditError.invalidGroupMove
      else EditError.groupNotFound
    let candidate ← okOr refusal (lib.trackMoveGroup env doc.database groupId destinationId)
    Edit.commit candidate

/-- The stack of `group_subtree_ids`: the last group pushed is visited next. In a tree every group is
visited once, and `fuel` is enough when it is the number of groups. Where the lists meet again the
loop may not end, and a run that is cut off is no success. -/
def groupSubtreeIds (db : Database V) : Nat → List GroupId → List GroupId →
    Except EditError (List GroupId)
  | _, result, [] => .ok result
  | 0, _, _ => .error .groupNotFound
  | fuel + 1, result, id :: pending =>
    match db.groups[id]? with
    | none => .error .groupNotFound
    | some group => groupSubtreeIds db fuel (result ++ [id]) (group.groups.reverse ++ pending)

def clearDeletedGroupMetadataReferences (deleted : List GroupId) (metadata : Meta V) : Meta V :=
  let cleared (reference : Option Uuid) : Option Uuid :=
    reference.filter fun uuid => ⟨uuid⟩ ∉ deleted
  { metadata with
    recyclebinUuid := cleared metadata.recyclebinUuid
    entryTemplatesGroup := cleared metadata.entryTemplatesGroup
    lastSelectedGroup := cleared metadata.lastSelectedGroup
    lastTopVisibleGroup := cleared metadata.lastTopVisibleGroup }

/-- The loop of `permanently_delete_group` that takes the icons off the subtree. -/
def clearIcons (db : Database V) (groups : List GroupId) : Except EditError (Database V) :=
  groups.foldlM (fun candidate id =>
    if id ∈ candidate.groups then .ok (candidate.editGroup id ({ · with icon := none }))
    else .error EditError.groupNotFound) db

def KdbxDocument.permanentlyDeleteGroup (id : String) : Edit V PUnit := do
  let doc ← get
  let groupId ← check (doc.database.findGroupId id)
  if groupId = doc.database.root then throw EditError.cannotDeleteRootGroup
  else
    let subtree ← check (groupSubtreeIds doc.database doc.database.groups.size [] [groupId])
    let candidate ← check (clearIcons doc.database subtree)
    let candidate := { candidate with
      metadata := clearDeletedGroupMetadataReferences subtree candidate.metadata }
    let _ ← okOr EditError.groupNotFound candidate.groups[groupId]?
    let candidate ← okOr EditError.cannotDeleteRootGroup
      (lib.trackRemoveGroup env candidate groupId)
    Edit.commit candidate

/-! ## Custom fields -/

def KdbxDocument.setEntryCustomField (entry name value : String) (newFieldProtected : Bool) :
    Edit V PUnit := do
  let doc ← get
  let _ ← check (rejectReservedField lib name)
  let entryId ← check (doc.database.findEntryId entry)
  let current ← okOr EditError.entryNotFound doc.database.entries[entryId]?
  let existing := current.fields[name]?
  if existing.any (·.get = value) then pure ⟨⟩
  else
    let protect := (existing.map (·.isProtected)).getD newFieldProtected
    Edit.commitTracked entryId
      (doc.database.editEntry entryId (lib.track env (·.setField name protect value)))

def KdbxDocument.deleteEntryCustomField (entry name : String) : Edit V PUnit := do
  let doc ← get
  let _ ← check (rejectReservedField lib name)
  let entryId ← check (doc.database.findEntryId entry)
  let current ← okOr EditError.entryNotFound doc.database.entries[entryId]?
  if name ∈ current.fields then
    Edit.commitTracked entryId (doc.database.editEntry entryId
      (lib.track env fun data => { data with fields := data.fields.erase name }))
  else pure ⟨⟩

/-! ## TOTP -/

def validateTotpUri (raw : String) : Except EditError Unit :=
  match lib.parseUrl raw with
  | none => .error .invalidTotp
  | some (scheme, host) =>
    if scheme ≠ "otpauth" ∨ host ≠ some "totp" then .error .invalidTotp
    else match lib.parseTotp raw with
      | none => .error .invalidTotp
      | some (period, digits) =>
        if period = 0 ∨ ¬ (6 ≤ digits ∧ digits ≤ 10) then .error .invalidTotp else .ok ()

namespace EntryData

def hasTotp (data : EntryData V) : Bool := Fields.totpNames.any (· ∈ data.fields)

/-- A TOTP field other than `otp` is there. -/
def hasLegacyTotp (data : EntryData V) : Bool :=
  (Fields.totpNames.filter (· ≠ Fields.otp)).any (· ∈ data.fields)

/-- `for name in TOTP_FIELD_NAMES { tracked.fields.remove(name); }`. -/
def removeTotp (data : EntryData V) : EntryData V :=
  { data with fields := Fields.totpNames.foldl (fun fields name => fields.erase name) data.fields }

def modifiedAt (data : EntryData V) (now : Time) : EntryData V :=
  { data with times := { data.times with lastModification := some now } }

end EntryData

def KdbxDocument.setEntryTotpUri (id uri : String) : Edit V PUnit := do
  let doc ← get
  let _ ← check (validateTotpUri lib uri)
  let entryId ← check (doc.database.findEntryId id)
  let current ← okOr EditError.entryNotFound doc.database.entries[entryId]?
  if current.fields[Fields.otp]?.any (·.get = uri) ∧ ¬ current.hasLegacyTotp then pure ⟨⟩
  else
    Edit.commitTracked entryId (doc.database.editEntry entryId
      (lib.track env (·.removeTotp.setField Fields.otp true uri)))

def KdbxDocument.clearEntryTotp (id : String) : Edit V PUnit := do
  let doc ← get
  let entryId ← check (doc.database.findEntryId id)
  let current ← okOr EditError.entryNotFound doc.database.entries[entryId]?
  if current.hasTotp then
    Edit.commitTracked entryId (doc.database.editEntry entryId
      (lib.track env (·.removeTotp.modifiedAt env.now)))
  else pure ⟨⟩

/-! ## One edit of several fields -/

inductive EntryExpiry where
  | disabled
  | atUnixSeconds (seconds : Int)

inductive EntryIconUpdate where
  | none
  | builtIn (id : UInt8)

inductive EntryTotpUpdate where
  | clear
  | set (uri : String)

structure EntryUpdate where
  title : Option String := none
  username : Option String := none
  url : Option String := none
  password : Option String := none
  notes : Option String := none
  expiry : Option EntryExpiry := none
  totp : Option EntryTotpUpdate := none
  icon : Option EntryIconUpdate := none

namespace EntryUpdate

def isEmpty (update : EntryUpdate) : Bool :=
  update.title.isNone && update.username.isNone && update.url.isNone && update.password.isNone &&
    update.notes.isNone && update.expiry.isNone && update.totp.isNone && update.icon.isNone

/-- The fields the update may change, with the policy for one that is missing. -/
def candidates (update : EntryUpdate) :
    List (String × Option String × MissingFieldProtection) :=
  [(Fields.title, update.title, .databaseTitlePolicy),
   (Fields.username, update.username, .databaseUsernamePolicy),
   (Fields.url, update.url, .databaseUrlPolicy),
   (Fields.password, update.password, .alwaysProtected),
   (Fields.notes, update.notes, .databaseNotesPolicy)]

end EntryUpdate

/-- The field, its new value and its protection, unless the field would stay as it is. -/
def fieldChange (db : Database V) (current : EntryData V)
    (candidate : String × Option String × MissingFieldProtection) :
    Option (String × String × Bool) :=
  candidate.2.1.bind fun value =>
    let existing := current.fields[candidate.1]?
    if existing.any (·.get = value) ∨ (existing.isNone ∧ value.isEmpty) then none
    else some (candidate.1, value,
      (existing.map (·.isProtected)).getD (missingFieldIsProtected lib db candidate.2.2))

/-- The new `expires` and `expiry`. -/
def expiryChange (current : EntryData V) :
    Option EntryExpiry → Except EditError (Option (Bool × Time))
  | none => .ok none
  | some .disabled =>
    .ok (if current.times.expires = some true ∨ current.times.expiry ≠ 0 then some (false, 0)
      else none)
  | some (.atUnixSeconds seconds) =>
    match lib.fromTimestamp seconds with
    | none => .error .invalidExpiry
    | some timestamp =>
      .ok (if current.times.expires = some true ∧ current.times.expiry = timestamp then none
        else some (true, timestamp))

/-- `MAX_STANDARD_ICON_ID`. -/
def maxStandardIconId : UInt8 := 68

def iconChange (current : EntryData V) :
    Option EntryIconUpdate → Except EditError (Option (Option Icon))
  | none => .ok none
  | some .none => .ok (if current.icon.isSome then some none else none)
  | some (.builtIn id) =>
    if maxStandardIconId < id then .error .invalidIcon
    else .ok (if current.icon = some (.builtIn id.toNat) then none
      else some (some (.builtIn id.toNat)))

def totpChange (current : EntryData V) :
    Option EntryTotpUpdate → Except EditError (Option EntryTotpUpdate)
  | none => .ok none
  | some .clear => .ok (if current.hasTotp then some .clear else none)
  | some (.set uri) =>
    match validateTotpUri lib uri with
    | .error e => .error e
    | .ok () =>
      .ok (if ¬ current.fields[Fields.otp]?.any (·.get = uri) ∨ current.hasLegacyTotp
        then some (.set uri) else none)

/-- The changes made to the tracked entry, in the order of the source. -/
def applyUpdate (changes : List (String × String × Bool)) (expiry : Option (Bool × Time))
    (icon : Option (Option Icon)) (totp : Option EntryTotpUpdate) (data : EntryData V) :
    EntryData V :=
  let data := changes.foldl
    (fun data change => data.setField change.1 change.2.2 change.2.1) data
  let data := match expiry with
    | none => data
    | some (expires, timestamp) => { data with times := { data.times with
        expires := some expires
        expiry := timestamp
        lastModification := some env.now } }
  let data := match icon with
    | none => data
    | some icon => { data with icon := icon }
  match totp with
  | none => data
  | some .clear => data.removeTotp.modifiedAt env.now
  | some (.set uri) => data.removeTotp.setField Fields.otp true uri

def KdbxDocument.updateEntry (id : String) (update : EntryUpdate) : Edit V PUnit := do
  let doc ← get
  let entryId ← check (doc.database.findEntryId id)
  let current ← okOr EditError.entryNotFound doc.database.entries[entryId]?
  if update.isEmpty then pure ⟨⟩
  else
    let changes := update.candidates.filterMap (fieldChange lib doc.database current.toEntryData)
    let expiry ← check (expiryChange lib current.toEntryData update.expiry)
    let icon ← check (iconChange current.toEntryData update.icon)
    let totp ← check (totpChange lib current.toEntryData update.totp)
    if changes.isEmpty ∧ expiry.isNone ∧ icon.isNone ∧ totp.isNone then pure ⟨⟩
    else
      Edit.commitTracked entryId (doc.database.editEntry entryId
        (lib.track env (applyUpdate env changes expiry icon totp)))

/-! ## Tags -/

/-- `MAX_ENTRY_TAGS`. -/
def maxEntryTags : Nat := 64

/-- `MAX_ENTRY_TAG_BYTES`. -/
def maxEntryTagBytes : Nat := 256

def validateEntryTags (tags : List String) : Except EditError Unit :=
  if maxEntryTags < tags.length then .error .invalidEntryTags
  else if tags.any (fun tag => tag.isEmpty ∨ maxEntryTagBytes < tag.utf8ByteSize) ∨ ¬ tags.Nodup
    then .error .invalidEntryTags
  else .ok ()

def KdbxDocument.setEntryTags (id : String) (tags : List String) : Edit V PUnit := do
  let doc ← get
  let _ ← check (validateEntryTags tags)
  let entryId ← check (doc.database.findEntryId id)
  let current ← okOr EditError.entryNotFound doc.database.entries[entryId]?
  if current.tags = tags then pure ⟨⟩
  else
    Edit.commitTracked entryId (doc.database.editEntry entryId
      (lib.track env fun data => { data with tags := tags }.modifiedAt env.now))

/-! ## Duplicates -/

/-- What `duplicate_entry` copies into the new entry before it sets the icon. -/
def EntryData.copyInto (source : EntryData V) (entry : Entry V) : Entry V :=
  { entry with
    fields := source.fields
    autotype := source.autotype
    tags := source.tags
    customData := source.customData
    foregroundColor := source.foregroundColor
    backgroundColor := source.backgroundColor
    overrideUrl := source.overrideUrl
    qualityCheck := source.qualityCheck
    times := { entry.times with expiry := source.times.expiry, expires := source.times.expires } }

/-- The icon of a duplicate, which may be a custom icon that does not exist. -/
def copyIcon (db : Database V) (id : EntryId) : Option Icon → Except EditError (Database V)
  | none => .ok db
  | some (.builtIn icon) => .ok (db.editEntry id ({ · with icon := some (.builtIn icon) }))
  | some (.custom icon) =>
    match Editing.setIconCustom db id icon with
    | some out => .ok out
    | none => .error (.conversion "entry custom icon was missing")

/-- `duplicate_entry`. The new entry is in the database before its icon is set. -/
def KdbxDocument.duplicateEntry (id : String) : Edit V EntryId := do
  let doc ← get
  let sourceId ← check (doc.database.findEntryId id)
  let source ← okOr EditError.entryNotFound doc.database.entries[sourceId]?
  let attachments := doc.database.attachmentsNamed source.toEntryData
  let _ ← okOr EditError.groupNotFound doc.database.groups[source.parent]?
  let duplicateId : EntryId := ⟨env.uuid⟩
  let added := (lib.addEntry env doc.database source.parent).editEntry duplicateId
    source.copyInto
  modify (·.withDatabase added)
  let iconed ← check (copyIcon added duplicateId source.icon)
  Edit.commit (attachments.foldl
    (fun db attachment => lib.addAttachment db duplicateId attachment.1 attachment.2) iconed)
  pure duplicateId

/-! ## Attachments, custom icons and history -/

def KdbxDocument.addEntryAttachment (id name : String) (bytes : Bytes) : Edit V PUnit := do
  let doc ← get
  if name.isEmpty then throw EditError.invalidAttachmentName
  else
    let entryId ← check (doc.database.findEntryId id)
    let current ← okOr EditError.entryNotFound doc.database.entries[entryId]?
    if (doc.database.attachmentByName current.toEntryData name).isSome then
      throw EditError.attachmentAlreadyExists
    else
      Edit.commitTracked entryId
        (lib.trackAttachment env doc.database entryId name ⟨true, bytes⟩)

namespace Png

def signature : Bytes := [0x89, 0x50, 0x4E, 0x47, 0x0D, 0x0A, 0x1A, 0x0A]
def ihdr : Bytes := [0x49, 0x48, 0x44, 0x52]
def idat : Bytes := [0x49, 0x44, 0x41, 0x54]
def iend : Bytes := [0x49, 0x45, 0x4E, 0x44]

def maxBytes : Nat := 4 * 1024 * 1024
def maxDimension : Nat := 4096

/-- `u32::from_be_bytes` of the four bytes at `offset`. -/
def word (bytes : Bytes) (offset : Nat) : Nat :=
  ((bytes.drop offset).take 4).foldl (fun value byte => value * 256 + byte.toNat) 0

/-- The loop over the chunks. A round moves on by twelve bytes or more, so `fuel` is enough when
it is the number of bytes. The checked additions of the source cannot overflow here. -/
def chunksValid (bytes : Bytes) : Nat → Nat → Bool → Bool → Bool
  | 0, _, _, _ => false
  | fuel + 1, offset, firstChunk, sawIdat =>
    if bytes.length < offset + 12 then false
    else
      let length := word bytes offset
      let chunkType := (bytes.drop (offset + 4)).take 4
      let dataStart := offset + 8
      let chunkEnd := dataStart + length + 4
      let width := word bytes dataStart
      let height := word bytes (dataStart + 4)
      if bytes.length < chunkEnd then false
      else if firstChunk ∧ (length ≠ 13 ∨ chunkType ≠ ihdr) then false
      else if firstChunk ∧ (width = 0 ∨ height = 0 ∨ maxDimension < width ∨ maxDimension < height)
        then false
      else if ¬ firstChunk ∧ chunkType = ihdr then false
      else
        let sawIdat := sawIdat || chunkType = idat
        if chunkType = iend then length = 0 ∧ sawIdat ∧ chunkEnd = bytes.length
        else chunksValid bytes fuel chunkEnd false sawIdat

end Png

def validatePngIcon (bytes : Bytes) : Except EditError Unit :=
  if bytes.length < 45 ∨ Png.maxBytes < bytes.length ∨ bytes.take 8 ≠ Png.signature then
    .error .invalidIcon
  else if Png.chunksValid bytes bytes.length 8 true false then .ok ()
  else .error .invalidIcon

def KdbxDocument.setEntryCustomIconPng (id : String) (bytes : Bytes) : Edit V PUnit := do
  let doc ← get
  let _ ← check (validatePngIcon bytes)
  let entryId ← check (doc.database.findEntryId id)
  let current ← okOr EditError.entryNotFound doc.database.entries[entryId]?
  if (doc.database.customIcon current.toEntryData).any (·.data = bytes) then pure ⟨⟩
  else Edit.commitTracked entryId (lib.trackIcon env doc.database entryId bytes)

def restoreShapeSupported (db : Database V) (entry : EntryData V) : Bool :=
  (db.attachmentsNamed entry).isEmpty ∧ (db.customIcon entry).isNone

/-- What `restore_entry_history` writes into the current entry. -/
def EntryData.restoreFrom (source current : EntryData V) (icon : Option Icon) : EntryData V :=
  { current with
    fields := source.fields
    autotype := source.autotype
    tags := source.tags
    times := { source.times with locationChanged := current.times.locationChanged }
    customData := source.customData
    foregroundColor := source.foregroundColor
    backgroundColor := source.backgroundColor
    overrideUrl := source.overrideUrl
    qualityCheck := source.qualityCheck
    icon := icon }

def KdbxDocument.restoreEntryHistory (id : String) (historyIndex expectedDocumentRevision : Nat) :
    Edit V PUnit := do
  let doc ← get
  if doc.revision ≠ expectedDocumentRevision then throw EditError.staleHistory
  else
    let entryId ← check (doc.database.findEntryId id)
    let current ← okOr EditError.entryNotFound doc.database.entries[entryId]?
    let source ← okOr EditError.historyRevisionNotFound (current.history.getD [])[historyIndex]?
    if ¬ restoreShapeSupported doc.database current.toEntryData ∨
        ¬ restoreShapeSupported doc.database source then throw EditError.historyRestoreUnsupported
    else match source.icon with
      | some (.custom _) => throw EditError.historyRestoreUnsupported
      | icon => Edit.commitTracked entryId (doc.database.editEntry entryId
          (lib.track env fun data => source.restoreFrom data icon))

/-! ## Settings -/

/-- `MAX_HISTORY_ITEMS`. -/
def maxHistoryItems : Nat := 10000

def KdbxDocument.setHistoryMaxItems (maxItems : Option Nat) : Edit V PUnit := do
  let doc ← get
  if finiteHistoryLimit doc.database = maxItems then pure ⟨⟩
  else if maxItems.any (maxHistoryItems < ·) then throw EditError.invalidHistoryPolicy
  else
    -- The limit that is pruned to is read back from the metadata just written.
    Edit.commit (pruneAllEntryHistory { doc.database with
      metadata := { doc.database.metadata with
        historyMaxItems := maxItems.map Int.ofNat
        settingsChanged := some env.now } })

structure DatabaseMetadata where
  name : String
  description : String
  defaultUsername : String
  deriving DecidableEq

def databaseMetadata (db : Database V) : DatabaseMetadata where
  name := db.metadata.databaseName.getD ""
  description := db.metadata.databaseDescription.getD ""
  defaultUsername := db.metadata.defaultUsername.getD ""

def maxDatabaseNameBytes : Nat := 4 * 1024
def maxDatabaseDescriptionBytes : Nat := 64 * 1024
def maxDefaultUsernameBytes : Nat := 4 * 1024

def optionalString (value : String) : Option String := if value.isEmpty then none else some value

/-- The metadata after `update_database_metadata`. -/
def Meta.update (metadata : Meta V) (current next : DatabaseMetadata) : Meta V :=
  let metadata := if current.name = next.name then metadata else { metadata with
    databaseName := optionalString next.name
    databaseNameChanged := some env.now }
  let metadata := if current.description = next.description then metadata else { metadata with
    databaseDescription := optionalString next.description
    databaseDescriptionChanged := some env.now }
  let metadata := if current.defaultUsername = next.defaultUsername then metadata else { metadata with
    defaultUsername := optionalString next.defaultUsername
    defaultUsernameChanged := some env.now }
  { metadata with settingsChanged := some env.now }

def KdbxDocument.updateDatabaseMetadata (next : DatabaseMetadata) : Edit V DatabaseMetadata := do
  let doc ← get
  if maxDatabaseNameBytes < next.name.utf8ByteSize ∨
      maxDatabaseDescriptionBytes < next.description.utf8ByteSize ∨
      maxDefaultUsernameBytes < next.defaultUsername.utf8ByteSize then
    throw EditError.invalidDatabaseMetadata
  else
    let current := databaseMetadata doc.database
    if current = next then pure current
    else
      let candidate := { doc.database with
        metadata := doc.database.metadata.update env current next }
      Edit.commit candidate
      pure (databaseMetadata candidate)

end NianPass.Kdbx
