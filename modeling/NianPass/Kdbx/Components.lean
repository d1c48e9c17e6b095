import NianPass.Kdbx.Keepass
import NianPass.Kdbx.ThreeWay

/-
  The parts of `crates/kdbx/src/sync.rs` that look at one object at a time:
  the conflict descriptors, the state of an entry or a group that the merge
  compares, the property merges, the test for a lost reorder and the merge of
  an entry's history.

  A property merge returns the merged value together with the conflicts it
  reports. Where the three-way choice of a property fails, the merged value
  keeps the local one and one conflict is reported.
-/
namespace NianPass.Kdbx

/-! ## Conflicts -/

inductive SyncConflictKind where
  | fieldEdit
  | deleteVsModify
  | moveVsMove
  | groupDeleteVsDescendantChange
  | uuidCollision
  | hierarchyCycle
  | metadata
  | binary
  | customIcon
  | history
  | unsupportedSemantic
  deriving DecidableEq, Repr

inductive SyncConflictObject where
  | entry (id : EntryId)
  | group (id : GroupId)
  | databaseMetadata
  deriving DecidableEq, Repr

inductive SyncConflictFieldKind where
  | standard
  | custom
  | reserved
  | entryMetadata
  | groupMetadata
  | databaseMetadata
  deriving DecidableEq, Repr

structure SyncConflictField where
  kind : SyncConflictFieldKind
  name : Option String
  deriving DecidableEq, Repr

structure SyncConflict where
  object : SyncConflictObject
  kind : SyncConflictKind
  field : Option SyncConflictField := none
  deriving DecidableEq, Repr

def entryConflict (id : EntryId) (kind : SyncConflictKind)
    (field : Option SyncConflictField := none) : SyncConflict :=
  { object := .entry id, kind := kind, field := field }

def groupConflict (id : GroupId) (kind : SyncConflictKind) : SyncConflict :=
  { object := .group id, kind := kind }

/-- `icon_conflict_kind` and `database_conflict`. -/
def databaseConflict (kind : SyncConflictKind) : SyncConflict :=
  { object := .databaseMetadata, kind := kind }

def entryMetadataConflict (id : EntryId) : SyncConflict :=
  entryConflict id .fieldEdit (some { kind := .entryMetadata, name := none })

def groupMetadataConflict (id : GroupId) : SyncConflict :=
  { groupConflict id .metadata with field := some { kind := .groupMetadata, name := none } }

def databaseMetadataConflict : SyncConflict :=
  { databaseConflict .metadata with field := some { kind := .databaseMetadata, name := none } }

def historyConflict (id : EntryId) : SyncConflict := entryConflict id .history

namespace Fields

def title := "Title"
def username := "UserName"
def password := "Password"
def url := "URL"
def notes := "Notes"
def otp := "otp"
def keepassTotpSeed := "TOTP Seed"
def keepassTotpSettings := "TOTP Settings"
def keepass2TotpSecretBase32 := "TimeOtp-Secret-Base32"
def keepass2TotpAlgorithm := "TimeOtp-Algorithm"
def keepass2TotpLength := "TimeOtp-Length"
def keepass2TotpPeriod := "TimeOtp-Period"

/-- `TOTP_FIELD_NAMES`. -/
def totpNames : List String :=
  [otp, keepassTotpSeed, keepassTotpSettings, "TimeOtp-Secret", "TimeOtp-Secret-Hex",
    keepass2TotpSecretBase32, "TimeOtp-Secret-Base64", keepass2TotpAlgorithm, keepass2TotpLength,
    keepass2TotpPeriod]

/-- `PASSKEY_FIELD_PREFIX`. -/
def passkeyStart := "KPEX_PASSKEY"

end Fields

def entryFieldConflict (id : EntryId) (name : String) : SyncConflict :=
  let kind :=
    if name ∈ Fields.totpNames ∨ Fields.passkeyStart.toList <+: name.toList then
      SyncConflictFieldKind.reserved
    else if name ∈ [Fields.title, Fields.username, Fields.password, Fields.url, Fields.notes] then
      .standard
    else .custom
  entryConflict id .fieldEdit (some { kind := kind, name := some name })

/-! ## The state of one object -/

variable {V : Type}

structure EntryState (V : Type) where
  entry : Entry V
  parent : GroupId
  previousParent : Option GroupId
  attachments : Map String (Value Bytes)
  deriving DecidableEq

structure GroupState (V : Type) where
  group : Group V
  parent : Option GroupId
  previousParent : Option GroupId
  childGroups : List GroupId
  childEntries : List EntryId
  deriving DecidableEq

/-- `attachments_named`: the attachments of an entry or a snapshot, by name, with their data. -/
def namedAttachments (db : Database V) (entry : EntryData V) : Map String (Value Bytes) :=
  entry.attachments.filterMap fun _ a => db.attachments[a]?

def entryState (K : Keepass V) (db : Database V) (entry : Entry V) : EntryState V where
  entry := entry
  parent := entry.parent
  previousParent := K.previousParent db entry.previousParent
  attachments := namedAttachments db entry.toEntryData

def groupState (K : Keepass V) (db : Database V) (group : Group V) : GroupState V where
  group := group
  parent := group.parent
  previousParent := K.previousParent db group.previousParent
  childGroups := group.groups
  childEntries := group.entries

def entryIndex (K : Keepass V) (db : Database V) : Map EntryId (EntryState V) :=
  db.entries.map fun _ entry => entryState K db entry

def groupIndex (K : Keepass V) (db : Database V) : Map GroupId (GroupState V) :=
  db.groups.map fun _ group => groupState K db group

/-! ## Properties -/

/-- The macro `merge_prop!`. -/
def mergeProp {α : Type} [DecidableEq α] (conflict : SyncConflict) (base loc remote : α) :
    α × List SyncConflict :=
  match chooseThreeWay base loc remote with
  | some value => (value, [])
  | none => (loc, [conflict])

def mergeTimes (conflict : SyncConflict) (base loc remote : Times) : Times × List SyncConflict :=
  let creation := mergeProp conflict base.creation loc.creation remote.creation
  let lastAccess := mergeProp conflict base.lastAccess loc.lastAccess remote.lastAccess
  let expiry := mergeProp conflict base.expiry loc.expiry remote.expiry
  let expires := mergeProp conflict base.expires loc.expires remote.expires
  let usageCount := mergeProp conflict base.usageCount loc.usageCount remote.usageCount
  ({ creation := creation.1
     lastModification := max loc.lastModification remote.lastModification
     lastAccess := lastAccess.1
     expiry := expiry.1
     locationChanged := max loc.locationChanged remote.locationChanged
     expires := expires.1
     usageCount := usageCount.1 },
   creation.2 ++ lastAccess.2 ++ expiry.2 ++ expires.2 ++ usageCount.2)

variable [DecidableEq V]

def mergeMeta (base loc remote : Meta V) : Meta V × List SyncConflict :=
  let c := databaseMetadataConflict
  let generator := mergeProp c base.generator loc.generator remote.generator
  let databaseName := mergeProp c base.databaseName loc.databaseName remote.databaseName
  let databaseNameChanged :=
    mergeProp c base.databaseNameChanged loc.databaseNameChanged remote.databaseNameChanged
  let databaseDescription :=
    mergeProp c base.databaseDescription loc.databaseDescription remote.databaseDescription
  let databaseDescriptionChanged := mergeProp c base.databaseDescriptionChanged
    loc.databaseDescriptionChanged remote.databaseDescriptionChanged
  let defaultUsername :=
    mergeProp c base.defaultUsername loc.defaultUsername remote.defaultUsername
  let defaultUsernameChanged := mergeProp c base.defaultUsernameChanged
    loc.defaultUsernameChanged remote.defaultUsernameChanged
  let maintenanceHistoryDays := mergeProp c base.maintenanceHistoryDays
    loc.maintenanceHistoryDays remote.maintenanceHistoryDays
  let color := mergeProp c base.color loc.color remote.color
  let masterKeyChanged :=
    mergeProp c base.masterKeyChanged loc.masterKeyChanged remote.masterKeyChanged
  let masterKeyChangeRec :=
    mergeProp c base.masterKeyChangeRec loc.masterKeyChangeRec remote.masterKeyChangeRec
  let masterKeyChangeForce :=
    mergeProp c base.masterKeyChangeForce loc.masterKeyChangeForce remote.masterKeyChangeForce
  let memoryProtection :=
    mergeProp c base.memoryProtection loc.memoryProtection remote.memoryProtection
  let recyclebinEnabled :=
    mergeProp c base.recyclebinEnabled loc.recyclebinEnabled remote.recyclebinEnabled
  let recyclebinUuid := mergeProp c base.recyclebinUuid loc.recyclebinUuid remote.recyclebinUuid
  let recyclebinChanged :=
    mergeProp c base.recyclebinChanged loc.recyclebinChanged remote.recyclebinChanged
  let entryTemplatesGroup :=
    mergeProp c base.entryTemplatesGroup loc.entryTemplatesGroup remote.entryTemplatesGroup
  let entryTemplatesGroupChanged := mergeProp c base.entryTemplatesGroupChanged
    loc.entryTemplatesGroupChanged remote.entryTemplatesGroupChanged
  let lastSelectedGroup :=
    mergeProp c base.lastSelectedGroup loc.lastSelectedGroup remote.lastSelectedGroup
  let lastTopVisibleGroup :=
    mergeProp c base.lastTopVisibleGroup loc.lastTopVisibleGroup remote.lastTopVisibleGroup
  let historyMaxItems :=
    mergeProp c base.historyMaxItems loc.historyMaxItems remote.historyMaxItems
  let historyMaxSize := mergeProp c base.historyMaxSize loc.historyMaxSize remote.historyMaxSize
  let settingsChanged :=
    mergeProp c base.settingsChanged loc.settingsChanged remote.settingsChanged
  let customData := mergeNamedMap base.customData loc.customData remote.customData
  ({ generator := generator.1, databaseName := databaseName.1
     databaseNameChanged := databaseNameChanged.1
     databaseDescription := databaseDescription.1
     databaseDescriptionChanged := databaseDescriptionChanged.1
     defaultUsername := defaultUsername.1, defaultUsernameChanged := defaultUsernameChanged.1
     maintenanceHistoryDays := maintenanceHistoryDays.1, color := color.1
     masterKeyChanged := masterKeyChanged.1, masterKeyChangeRec := masterKeyChangeRec.1
     masterKeyChangeForce := masterKeyChangeForce.1, memoryProtection := memoryProtection.1
     recyclebinEnabled := recyclebinEnabled.1, recyclebinUuid := recyclebinUuid.1
     recyclebinChanged := recyclebinChanged.1, entryTemplatesGroup := entryTemplatesGroup.1
     entryTemplatesGroupChanged := entryTemplatesGroupChanged.1
     lastSelectedGroup := lastSelectedGroup.1, lastTopVisibleGroup := lastTopVisibleGroup.1
     historyMaxItems := historyMaxItems.1, historyMaxSize := historyMaxSize.1
     settingsChanged := settingsChanged.1, customData := customData.1 },
   generator.2 ++ databaseName.2 ++ databaseNameChanged.2 ++ databaseDescription.2 ++
   databaseDescriptionChanged.2 ++ defaultUsername.2 ++ defaultUsernameChanged.2 ++
   maintenanceHistoryDays.2 ++ color.2 ++ masterKeyChanged.2 ++ masterKeyChangeRec.2 ++
   masterKeyChangeForce.2 ++ memoryProtection.2 ++ recyclebinEnabled.2 ++ recyclebinUuid.2 ++
   recyclebinChanged.2 ++ entryTemplatesGroup.2 ++ entryTemplatesGroupChanged.2 ++
   lastSelectedGroup.2 ++ lastTopVisibleGroup.2 ++ historyMaxItems.2 ++ historyMaxSize.2 ++
   settingsChanged.2 ++ customData.2.map fun _ => c)

/-- The conflict for two branches that chose different icons; nothing is written here. -/
def iconChoiceConflict (conflict : SyncConflict) (base loc remote : Option Icon) :
    List SyncConflict :=
  if chooseThreeWay base loc remote = none then [conflict] else []

def mergeEntryProperties (id : EntryId) (base loc remote merged : Entry V) :
    Entry V × List SyncConflict :=
  let c := entryMetadataConflict id
  let autotype := mergeProp c base.autotype loc.autotype remote.autotype
  let tags := mergeProp c base.tags loc.tags remote.tags
  let customData := mergeProp c base.customData loc.customData remote.customData
  let foregroundColor :=
    mergeProp c base.foregroundColor loc.foregroundColor remote.foregroundColor
  let backgroundColor :=
    mergeProp c base.backgroundColor loc.backgroundColor remote.backgroundColor
  let overrideUrl := mergeProp c base.overrideUrl loc.overrideUrl remote.overrideUrl
  let qualityCheck := mergeProp c base.qualityCheck loc.qualityCheck remote.qualityCheck
  let times := mergeTimes c base.times loc.times remote.times
  ({ merged with
      autotype := autotype.1, tags := tags.1, customData := customData.1
      foregroundColor := foregroundColor.1, backgroundColor := backgroundColor.1
      overrideUrl := overrideUrl.1, qualityCheck := qualityCheck.1, times := times.1 },
   autotype.2 ++ tags.2 ++ customData.2 ++ foregroundColor.2 ++ backgroundColor.2 ++
   overrideUrl.2 ++ qualityCheck.2 ++ times.2 ++
   iconChoiceConflict (entryConflict id .customIcon) base.icon loc.icon remote.icon)

/-! ## Child order -/

section Order
variable {α : Type} [DecidableEq α]

def relativeOrder (order keep : List α) : List α := order.filter (· ∈ keep)

def orderChangedRelativeToBase (base branch : List α) : Bool :=
  relativeOrder branch base ≠ relativeOrder base branch

def remoteReorderWouldBeLost (base loc remote : List α) : Bool :=
  if !orderChangedRelativeToBase base remote then false
  else
    let common := base.filter fun id => id ∈ loc ∧ id ∈ remote
    !orderChangedRelativeToBase base loc ||
      decide (relativeOrder loc common ≠ relativeOrder remote common)

end Order

def mergeGroupProperties (id : GroupId) (base loc remote merged : Group V) :
    Group V × List SyncConflict :=
  let c := groupMetadataConflict id
  let name := mergeProp c base.name loc.name remote.name
  let notes := mergeProp c base.notes loc.notes remote.notes
  let tags := mergeProp c base.tags loc.tags remote.tags
  let customData := mergeProp c base.customData loc.customData remote.customData
  let isExpanded := mergeProp c base.isExpanded loc.isExpanded remote.isExpanded
  let defaultAutotypeSequence := mergeProp c base.defaultAutotypeSequence
    loc.defaultAutotypeSequence remote.defaultAutotypeSequence
  let enableAutotype := mergeProp c base.enableAutotype loc.enableAutotype remote.enableAutotype
  let enableSearching :=
    mergeProp c base.enableSearching loc.enableSearching remote.enableSearching
  let times := mergeTimes c base.times loc.times remote.times
  ({ merged with
      name := name.1, notes := notes.1, tags := tags.1, customData := customData.1
      isExpanded := isExpanded.1, defaultAutotypeSequence := defaultAutotypeSequence.1
      enableAutotype := enableAutotype.1, enableSearching := enableSearching.1
      times := times.1 },
   name.2 ++ notes.2 ++ tags.2 ++ customData.2 ++ isExpanded.2 ++ defaultAutotypeSequence.2 ++
   enableAutotype.2 ++ enableSearching.2 ++ times.2 ++
   iconChoiceConflict (groupConflict id .customIcon) base.icon loc.icon remote.icon ++
   (if remoteReorderWouldBeLost base.groups loc.groups remote.groups then [c] else []) ++
   (if remoteReorderWouldBeLost base.entries loc.entries remote.entries then [c] else []))

/-! ## History -/

/-- The snapshots of an entry, the newest first. -/
def historyOf (db : Database V) (id : EntryId) : List (EntryData V) :=
  (db.entries[id]?.bind (·.history)).getD []

/-- `history_entry_semantically_eq`: everything but the structural parent. -/
def historyEntrySemanticallyEq (K : Keepass V) (leftDb rightDb : Database V)
    (left right : EntryData V) : Bool :=
  K.previousParent leftDb left.previousParent = K.previousParent rightDb right.previousParent
  ∧ left.fields = right.fields
  ∧ left.autotype = right.autotype
  ∧ left.tags = right.tags
  ∧ left.times = right.times
  ∧ left.customData = right.customData
  ∧ left.icon = right.icon
  ∧ left.foregroundColor = right.foregroundColor
  ∧ left.backgroundColor = right.backgroundColor
  ∧ left.overrideUrl = right.overrideUrl
  ∧ left.qualityCheck = right.qualityCheck
  ∧ namedAttachments leftDb left = namedAttachments rightDb right

def historiesSemanticallyEq (K : Keepass V) (left right : Database V) (id : EntryId) : Bool :=
  let leftHistory := historyOf left id
  let rightHistory := historyOf right id
  leftHistory.length = rightHistory.length ∧
    (leftHistory.zip rightHistory).all fun pair =>
      historyEntrySemanticallyEq K left right pair.1 pair.2

omit [DecidableEq V] in
/-- Whether some snapshot of the entry has an attachment. -/
def historyHasAttachments (db : Database V) (id : EntryId) : Bool :=
  (historyOf db id).any fun snapshot => !(namedAttachments db snapshot).isEmpty

/-- The remote snapshots that repeat neither a local one nor an earlier remote one (`prior`). -/
def newSnapshots (K : Keepass V) (locDb remoteDb : Database V) (loc : List (EntryData V)) :
    List (EntryData V) → List (EntryData V) → List (EntryData V)
  | _, [] => []
  | prior, snapshot :: rest =>
    if loc.any (historyEntrySemanticallyEq K locDb remoteDb · snapshot) ||
        prior.any (historyEntrySemanticallyEq K remoteDb remoteDb · snapshot) then
      newSnapshots K locDb remoteDb loc (prior ++ [snapshot]) rest
    else snapshot :: newSnapshots K locDb remoteDb loc (prior ++ [snapshot]) rest

def mergeHistory (K : Keepass V) (base loc remote : Database V) (id : EntryId) :
    Option (List (EntryData V)) × List SyncConflict :=
  let locHistory := loc.entries[id]?.bind (·.history)
  let remoteHistory := remote.entries[id]?.bind (·.history)
  if historiesSemanticallyEq K loc remote id then (locHistory, [])
  else if historiesSemanticallyEq K loc base id then
    if historyHasAttachments remote id then (locHistory, [historyConflict id])
    else (remoteHistory, [])
  else if historiesSemanticallyEq K remote base id then (locHistory, [])
  else if historyHasAttachments loc id || historyHasAttachments remote id then
    (locHistory, [historyConflict id])
  else
    (some (historyOf loc id ++
      newSnapshots K loc remote (historyOf loc id) [] (historyOf remote id)), [])

end NianPass.Kdbx
