import NianPass.Kdbx.Merge
import NianPass.Lib.Method

/-
  What the mutations of `KdbxDocument` share.

  `Editing V` extends the contract of `keepass-rs` by what the mutations call
  and the merge does not: the objects the library constructs, what it stamps on
  a tracked object, and the parsers it brings. The edits themselves are
  definitions over these: a tracked change puts the entry as it was at the front
  of its history, and removing a tracked object leaves a tombstone for
  everything that went.

  The library reads the clock and draws identifiers. `Ambient` is what it gets
  there during one call.

  Callers name entries and groups by text, so every mutation starts by looking
  the text up among the identifiers of the database.
-/
namespace NianPass.Kdbx

variable {V : Type}

/-- The errors of `crates/kdbx` that a mutation can return. -/
inductive EditError where
  | conversion (reason : String)
  | entryNotFound
  | groupNotFound
  | cannotDeleteRootGroup
  | invalidGroupMove
  | reservedField
  | invalidAttachmentName
  | attachmentAlreadyExists
  | invalidDatabaseMetadata
  | invalidExpiry
  | invalidIcon
  | invalidEntryTags
  | invalidTotp
  | historyRevisionNotFound
  | staleHistory
  | historyRestoreUnsupported
  | invalidHistoryPolicy
  | recycleBinDisabled
  | invalidRecycleBinOperation
  deriving DecidableEq, Repr

/-! ## The library -/

/-- The operations of `keepass-rs` that the mutations call, with what they rely on. -/
structure Editing (V : Type) extends Keepass V where
  /-- `fields::KNOWN_FIELDS`. -/
  knownFields : List String
  protectTitle : V → Bool
  protectUsername : V → Bool
  protectUrl : V → Bool
  protectNotes : V → Bool
  /-- What a tracked change does to the times of the object. -/
  touch : Time → Times → Times
  /-- What a tracked move does to the times of the group. -/
  touchMoved : Time → Times → Times
  newEntry : Time → GroupId → Entry V
  newGroup : Time → GroupId → Group V
  newIcon : Time → Bytes → CustomIcon
  /-- `Url::parse`: the scheme and the host. -/
  parseUrl : String → Option (String × Option String)
  /-- `TOTP::from_str`: the period and the number of digits. -/
  parseTotp : String → Option (Nat × Nat)
  /-- `DateTime::from_timestamp`. -/
  fromTimestamp : Int → Option Time
  /-- Tracking sets the time of the last modification and no other. -/
  touch_eq : ∀ now times,
    touch now times = { times with lastModification := (touch now times).lastModification }
  newEntry_parent : ∀ now group, (newEntry now group).parent = group
  newEntry_history : ∀ now group, (newEntry now group).history.getD [] = []
  newEntry_icon : ∀ now group, (newEntry now group).icon = none
  newGroup_parent : ∀ now parent, (newGroup now parent).parent = some parent
  newGroup_groups : ∀ now parent, (newGroup now parent).groups = []
  newGroup_entries : ∀ now parent, (newGroup now parent).entries = []
  newGroup_icon : ∀ now parent id, (newGroup now parent).icon ≠ some (.custom id)
  newIcon_data : ∀ now bytes, (newIcon now bytes).data = bytes

/-- The library at its simplest: tracking stamps the time of the call, new objects are empty, and
no text is a TOTP address. -/
def Editing.reference : Editing V where
  toKeepass := Kdbx.reference
  knownFields := ["Title", "UserName", "Password", "URL", "Notes"]
  protectTitle _ := false
  protectUsername _ := false
  protectUrl _ := false
  protectNotes _ := false
  touch now times := { times with lastModification := some now }
  touchMoved now times := { times with locationChanged := some now }
  newEntry now group := { parent := group, times := { creation := some now }, history := some [] }
  newGroup now parent := { parent := some parent, times := { creation := some now } }
  newIcon now bytes := { data := bytes, lastModificationTime := some now }
  parseUrl _ := none
  parseTotp _ := none
  fromTimestamp seconds := some seconds
  touch_eq _ _ := rfl
  newEntry_parent _ _ := rfl
  newEntry_history _ _ := rfl
  newEntry_icon _ _ := rfl
  newGroup_parent _ _ := rfl
  newGroup_groups _ _ := rfl
  newGroup_entries _ _ := rfl
  newGroup_icon _ _ _ := nofun
  newIcon_data _ _ := rfl

/-- What the clock shows and which UUID the library draws during one call. -/
structure Ambient where
  now : Time
  uuid : Uuid
  deriving DecidableEq

namespace Database

/-- The hyphenated lower-case text of a UUID. -/
def uuidText (id : Uuid) : String :=
  let block (start count : Nat) : List Char :=
    (List.range count).map fun i => Nat.digitChar (id.toNat >>> (4 * (31 - (start + i))) % 16)
  String.ofList (block 0 8 ++ ['-'] ++ block 8 4 ++ ['-'] ++ block 12 4 ++ ['-'] ++ block 16 4 ++
    ['-'] ++ block 20 12)

def findEntryId (db : Database V) (id : String) : Except EditError EntryId :=
  match db.entries.keys.find? fun entry => uuidText entry.uuid = id with
  | some entry => .ok entry
  | none => .error .entryNotFound

def findGroupId (db : Database V) (id : String) : Except EditError GroupId :=
  match db.groups.keys.find? fun group => uuidText group.uuid = id with
  | some group => .ok group
  | none => .error .groupNotFound

/-- `custom_icon()`: the icon, when it is a custom one that the database holds. -/
def customIcon (db : Database V) (entry : EntryData V) : Option CustomIcon :=
  match entry.icon with
  | some (.custom id) => db.customIcons[id]?
  | _ => none

/-- `attachment_by_name`. -/
def attachmentByName (db : Database V) (entry : EntryData V) (name : String) :
    Option (Value Bytes) :=
  entry.attachments[name]?.bind fun a => db.attachments[a]?

/-- `attachments_named`. The library iterates in no particular order. -/
def attachmentsNamed (db : Database V) (entry : EntryData V) : List (String × Value Bytes) :=
  entry.attachments.toList.filterMap fun (name, a) =>
    db.attachments[a]?.map fun value => (name, value)

end Database

/-- The value of a field. -/
def EntryData.text (data : EntryData V) (name : String) : Option String :=
  data.fields[name]?.map (·.get)

/-- `set_protected` and `set_unprotected`. -/
def EntryData.setField (data : EntryData V) (name : String) (isProtected : Bool)
    (value : String) : EntryData V :=
  { data with fields := data.fields.insert name ⟨isProtected, value⟩ }

namespace Editing

variable (lib : Editing V) (env : Ambient)

/-- `track_changes()` around an edit of the entry: one snapshot, taken before the edit. -/
def track (edit : EntryData V → EntryData V) (entry : Entry V) : Entry V :=
  let data := edit entry.toEntryData
  { data with
    times := lib.touch env.now data.times
    history := some (entry.toEntryData :: entry.history.getD []) }

/-- `track_changes().edit` on a group, which has no history. -/
def trackGroup (edit : Group V → Group V) (group : Group V) : Group V :=
  { edit group with times := lib.touch env.now (edit group).times }

/-- `add_entry`. -/
def addEntry (db : Database V) (parent : GroupId) : Database V :=
  db.insertEntry parent ⟨env.uuid⟩ (lib.newEntry env.now parent)

/-- `add_group`. -/
def addGroup (db : Database V) (parent : GroupId) : Database V :=
  db.insertGroup parent ⟨env.uuid⟩ (lib.newGroup env.now parent)

/-- `set_icon_custom`, which refuses an icon that the database does not hold. -/
def setIconCustom (db : Database V) (id : EntryId) (icon : CustomIconId) : Option (Database V) :=
  if icon ∈ db.customIcons then
    some (db.editEntry id fun entry => { entry with icon := some (.custom icon) })
  else none

/-- `track_changes().set_icon_custom_new`. -/
def trackIcon (db : Database V) (id : EntryId) (bytes : Bytes) : Database V :=
  let icon : CustomIconId := ⟨env.uuid⟩
  { db.editEntry id (lib.track env fun data => { data with icon := some (.custom icon) }) with
    customIcons := db.customIcons.insert icon (lib.newIcon env.now bytes) }

/-- `track_changes().add_attachment`. -/
def trackAttachment (db : Database V) (id : EntryId) (name : String) (value : Value Bytes) :
    Database V :=
  lib.addAttachment (db.editEntry id (lib.track env fun data => data)) id name value

/-- `track_changes().remove()` on an entry. -/
def trackRemove (db : Database V) (id : EntryId) : Database V :=
  let out := lib.removeEntry db id
  { out with deletedObjects := out.deletedObjects.insert id.uuid (some env.now) }

/-- Everything that goes with the group `id`. -/
def removedWith (db : Database V) (id : GroupId) : List Uuid :=
  (db.subtree id).flatMap fun group => group.uuid :: (db.childEntries group).map (·.uuid)

/-- `track_changes().remove()` on a group: a tombstone for the whole subtree. -/
def trackRemoveGroup (db : Database V) (id : GroupId) : Option (Database V) :=
  if id = db.root then none
  else
    let out := lib.removeGroup db id
    let bury (deleted : Map Uuid (Option Time)) (uuid : Uuid) := deleted.insert uuid (some env.now)
    some { out with deletedObjects := (removedWith db id).foldl bury out.deletedObjects }

/-- `track_changes().move_to` on a group. -/
def trackMoveGroup (db : Database V) (id target : GroupId) : Option (Database V) :=
  (lib.moveGroupTo db id target).map fun out =>
    out.editGroup id fun group => { group with times := lib.touchMoved env.now group.times }

end Editing

/-! ## The document -/

/-- The body of a mutation. -/
abbrev Edit (V α : Type) := Method (KdbxDocument V) EditError α

namespace KdbxDocument

def withDatabase (doc : KdbxDocument V) (db : Database V) : KdbxDocument V :=
  { doc with database := db }

/-- `mark_changed`. -/
def markChanged (doc : KdbxDocument V) : KdbxDocument V :=
  if doc.revision = 2 ^ 64 - 1 then { doc with revisionPermanentlyDirty := true }
  else { doc with revision := doc.revision + 1 }

end KdbxDocument

namespace Edit
open Method

/-- `self.database = candidate; self.mark_changed()`. -/
def commit (candidate : Database V) : Edit V PUnit := do
  modify (·.withDatabase candidate)
  modify KdbxDocument.markChanged

def enforceHistoryPolicyForEntry (id : EntryId) : Edit V PUnit := do
  let doc ← get
  match finiteHistoryLimit doc.database with
  | none => pure ⟨⟩
  | some limit =>
    let _ ← okOr EditError.entryNotFound doc.database.entries[id]?
    modify (·.withDatabase (doc.database.editEntry id (pruneEntryHistory limit)))

/-- How every tracked change of an entry ends: the edited database is in place before the history
policy is enforced, and the revision advances last. -/
def commitTracked (id : EntryId) (edited : Database V) : Edit V PUnit := do
  modify (·.withDatabase edited)
  enforceHistoryPolicyForEntry id
  modify KdbxDocument.markChanged

end Edit

end NianPass.Kdbx
