import NianPass.Browser.Protocol
import NianPass.Kdbx.Deletion
import NianPass.Kdbx.Projection
import NianPass.Lib.Traversal

/-
  The snapshot of a vault on its way to the window.

  The Rust side projects the open document (`projection`, `VaultSnapshotDto::from_vault`) into flat
  lists of groups and entries. The window takes a value of any shape apart
  (`snapshot-validation.ts`, `validation-primitives.ts`, `entry-icon-validation.ts`) and checks that
  the lists are a tree (`snapshot-relations.ts`).

  What is proved:
    1. `validateSnapshotRelations_iff`: the window accepts exactly the snapshots whose groups are a
       tree below the root and whose entries are each listed once, by their own group.
    2. `parseVaultSnapshot_fromSession_iff`: of what the Rust side makes of a database that is a tree,
       the window refuses exactly what has the root for a bin, an empty tag or an expiry out of
       range, and takes everything else as it was meant.

  An exception of the window is `none`; a JavaScript map is the list of what it was built from.
-/
namespace NianPass.Desktop.Snapshot

open Kdbx
open Browser (JsValue recordWithKeys field)
open Kdbx.Projection (SummaryText EntryIcon EntrySummary projection)

variable {V : Type}

/-! ## What the Rust side makes -/

structure GroupDto where
  id : String
  name : String
  childGroupIds : List String
  entryIds : List String
  deriving DecidableEq

/-- The fields of the summary keep their names of `vault-core`. -/
structure EntrySummaryDto extends EntrySummary where
  groupId : String
  deriving DecidableEq

mutual
/-- `collect_group`: the groups and the entries that it appends. -/
def collectGroup : Projection.Group → List GroupDto × List EntrySummaryDto
  | .mk id name groups entries =>
    let below := collectGroups groups
    (⟨id, name, groups.map (·.id), entries.map (·.id)⟩ :: below.1,
      entries.map (EntrySummaryDto.mk · id) ++ below.2)

def collectGroups : List Projection.Group → List GroupDto × List EntrySummaryDto
  | [] => ([], [])
  | group :: groups =>
    let first := collectGroup group
    let rest := collectGroups groups
    (first.1 ++ rest.1, first.2 ++ rest.2)
end

inductive WriteRestriction where
  | unsupportedWriteFormat
  | unsupportedPersistencePlatform
  | readOnlySource
  deriving DecidableEq, Repr

structure VaultCapabilities where
  formatVersion : String
  writable : Bool
  writeRestriction : Option WriteRestriction
  deriving DecidableEq

structure VaultCoreSnapshot where
  dirty : Bool
  recycleBinEnabled : Bool
  recycleBinGroupId : Option String
  rootGroupId : String
  groups : List GroupDto
  entries : List EntrySummaryDto
  deriving DecidableEq

structure VaultSnapshot extends VaultCoreSnapshot where
  fileName : String
  capabilities : VaultCapabilities
  deriving DecidableEq

/-- `VaultCoreSnapshotDto::from_vault` on the projection. -/
def coreFromVault (db : Database V) (dirty : Bool) : VaultCoreSnapshot where
  dirty := dirty
  recycleBinEnabled := recycleBinEnabled db
  recycleBinGroupId := (recycleBinId db).map fun id => Database.uuidText id.uuid
  rootGroupId := (projection db).id
  groups := (collectGroup (projection db)).1
  entries := (collectGroup (projection db)).2

def versionText : KdbxVersion → String
  | .kdbx3 minor => "3." ++ toString minor
  | .kdbx4 minor => "4." ++ toString minor

/-- `display_file_name`, of the last part of the path if it is text. -/
def displayFileName (name : Option String) : Option String := name.filter fun name => name ≠ ""

/-- `snapshot::from_session`. -/
def fromSession (document : KdbxDocument V) (savedRevision : ℕ) (name : Option String)
    (restriction : Option WriteRestriction) : VaultSnapshot where
  toVaultCoreSnapshot := coreFromVault document.database (document.hasChangesSince savedRevision)
  fileName := (displayFileName name).getD "vault.kdbx"
  capabilities := ⟨versionText document.version, restriction.isNone, restriction⟩

/-! ## What the window gets

The value that `JSON.parse` makes of what `serde` writes. -/

def jsStrings (values : List String) : JsValue := .array (values.map .string)

def jsNullable (value : Option JsValue) : JsValue := value.getD .null

def summaryJs : SummaryText → JsValue
  | .missing => .object [("kind", .string "missing")]
  | .visible value => .object [("kind", .string "visible"), ("value", .string value)]
  | .protectedText => .object [("kind", .string "protected")]

def iconJs : EntryIcon → JsValue
  | .none => .object [("kind", .string "none")]
  | .builtIn id => .object [("kind", .string "built_in"), ("id", .number (.integer id))]
  | .custom => .object [("kind", .string "custom")]
  | .nonStandard => .object [("kind", .string "non_standard")]

def GroupDto.toJs (group : GroupDto) : JsValue :=
  .object [("id", .string group.id), ("name", .string group.name),
    ("childGroupIds", jsStrings group.childGroupIds), ("entryIds", jsStrings group.entryIds)]

def EntrySummaryDto.toJs (entry : EntrySummaryDto) : JsValue :=
  .object [("id", .string entry.id), ("groupId", .string entry.groupId),
    ("title", summaryJs entry.title), ("username", summaryJs entry.username),
    ("url", summaryJs entry.url), ("passwordPresent", .boolean entry.hasPassword),
    ("notesPresent", .boolean entry.hasNotes), ("totpPresent", .boolean entry.hasTotp),
    ("tags", jsStrings entry.tags),
    ("expiresAtUnixSeconds",
      jsNullable (entry.expiresAtUnixSeconds.map fun time => .number (.integer time))),
    ("icon", iconJs entry.icon)]

def WriteRestriction.text : WriteRestriction → String
  | .unsupportedWriteFormat => "unsupported_write_format"
  | .unsupportedPersistencePlatform => "unsupported_persistence_platform"
  | .readOnlySource => "read_only_source"

def VaultCapabilities.toJs (capabilities : VaultCapabilities) : JsValue :=
  .object [("formatVersion", .string capabilities.formatVersion),
    ("writable", .boolean capabilities.writable),
    ("writeRestriction", jsNullable (capabilities.writeRestriction.map fun r => .string r.text))]

def VaultSnapshot.toJs (snapshot : VaultSnapshot) : JsValue :=
  .object [("dirty", .boolean snapshot.dirty), ("fileName", .string snapshot.fileName),
    ("capabilities", snapshot.capabilities.toJs),
    ("recycleBinEnabled", .boolean snapshot.recycleBinEnabled),
    ("recycleBinGroupId", jsNullable (snapshot.recycleBinGroupId.map .string)),
    ("rootGroupId", .string snapshot.rootGroupId),
    ("groups", .array (snapshot.groups.map GroupDto.toJs)),
    ("entries", .array (snapshot.entries.map EntrySummaryDto.toJs))]

/-! ## How the window takes it apart -/

def stringValue : JsValue → Option String
  | .string value => some value
  | _ => none

def nonEmptyString : JsValue → Option String
  | .string value => if value = "" then none else some value
  | _ => none

def booleanValue : JsValue → Option Bool
  | .boolean value => some value
  | _ => none

def MAX_SAFE_INTEGER : ℤ := 9007199254740991

def isSafeInteger (value : ℤ) : Bool := -MAX_SAFE_INTEGER ≤ value && value ≤ MAX_SAFE_INTEGER

def nullableSafeInteger : JsValue → Option (Option ℤ)
  | .null => some none
  | .number (.integer value) => if isSafeInteger value then some (some value) else none
  | _ => none

def nullableString : JsValue → Option (Option String)
  | .null => some none
  | value => (nonEmptyString value).map some

def arrayValue : JsValue → Option (List JsValue)
  | .array items => some items
  | _ => none

def strings (value : JsValue) : Option (List String) := do
  let items ← arrayValue value
  items.mapM nonEmptyString

def parseSummaryText (value : JsValue) : Option SummaryText :=
  match value with
  | .object fields =>
    match field fields "kind" with
    | .string "missing" => (recordWithKeys value ["kind"]).map fun _ => .missing
    | .string "protected" => (recordWithKeys value ["kind"]).map fun _ => .protectedText
    | .string "visible" => do
      let visible ← recordWithKeys value ["kind", "value"]
      let text ← stringValue (field visible "value")
      some (.visible text)
    | _ => none
  | _ => none

/-- The constant of `entry-icon-validation.ts`. -/
def MAX_STANDARD_ICON_ID : ℕ := 68

def parseEntryIcon (value : JsValue) : Option EntryIcon :=
  match value with
  | .object fields =>
    match field fields "kind" with
    | .string "built_in" => do
      let object ← recordWithKeys value ["kind", "id"]
      match field object "id" with
      | .number (.integer id) =>
        if isSafeInteger id ∧ 0 ≤ id ∧ id ≤ MAX_STANDARD_ICON_ID then some (.builtIn id.toNat) else none
      | _ => none
    | .string "none" => (recordWithKeys value ["kind"]).map fun _ => .none
    | .string "custom" => (recordWithKeys value ["kind"]).map fun _ => .custom
    | .string "non_standard" => (recordWithKeys value ["kind"]).map fun _ => .nonStandard
    | _ => none
  | _ => none

def parseGroup (value : JsValue) : Option GroupDto := do
  let object ← recordWithKeys value ["id", "name", "childGroupIds", "entryIds"]
  let id ← nonEmptyString (field object "id")
  let name ← stringValue (field object "name")
  let childGroupIds ← strings (field object "childGroupIds")
  let entryIds ← strings (field object "entryIds")
  some ⟨id, name, childGroupIds, entryIds⟩

def parseEntry (value : JsValue) : Option EntrySummaryDto := do
  let object ← recordWithKeys value ["id", "groupId", "title", "username", "url", "passwordPresent",
    "notesPresent", "totpPresent", "tags", "expiresAtUnixSeconds", "icon"]
  let passwordPresent ← booleanValue (field object "passwordPresent")
  let notesPresent ← booleanValue (field object "notesPresent")
  let totpPresent ← booleanValue (field object "totpPresent")
  let id ← nonEmptyString (field object "id")
  let groupId ← nonEmptyString (field object "groupId")
  let title ← parseSummaryText (field object "title")
  let username ← parseSummaryText (field object "username")
  let url ← parseSummaryText (field object "url")
  let tags ← strings (field object "tags")
  let expiresAtUnixSeconds ← nullableSafeInteger (field object "expiresAtUnixSeconds")
  let icon ← parseEntryIcon (field object "icon")
  some ⟨⟨id, title, username, url, passwordPresent, notesPresent, totpPresent, tags,
    expiresAtUnixSeconds, icon⟩, groupId⟩

def writeRestrictions : List WriteRestriction :=
  [.unsupportedWriteFormat, .unsupportedPersistencePlatform, .readOnlySource]

def parseWriteRestriction : JsValue → Option (Option WriteRestriction)
  | .null => some none
  | value => (writeRestrictions.find? fun r => value.isString r.text).map some

def parseVaultCapabilities (value : JsValue) : Option VaultCapabilities := do
  let object ← recordWithKeys value ["formatVersion", "writable", "writeRestriction"]
  let writable ← booleanValue (field object "writable")
  let writeRestriction ← parseWriteRestriction (field object "writeRestriction")
  if writable ≠ writeRestriction.isNone then none
  else
    let formatVersion ← nonEmptyString (field object "formatVersion")
    some ⟨formatVersion, writable, writeRestriction⟩

/-! ## The relations -/

/-- The number of keys of a map, or of members of a set. -/
def sizeOf (values : List String) : ℕ := values.dedup.length

def unique (values : List String) : Bool := sizeOf values = values.length

/-- `groups.get`. -/
def groupOf (snapshot : VaultCoreSnapshot) (id : String) : Option GroupDto :=
  snapshot.groups.reverse.find? fun group => group.id = id

/-- `entries.get`. -/
def entryOf (snapshot : VaultCoreSnapshot) (id : String) : Option EntrySummaryDto :=
  snapshot.entries.reverse.find? fun entry => entry.id = id

/-- Something that has no parent yet gets one, if it is accepted. -/
def adopt (accepts : String → Bool) (parent : String) (parents : List (String × String))
    (id : String) : Option (List (String × String)) :=
  if accepts id && !(parents.any fun known => known.1 = id) then some (parents ++ [(id, parent)])
  else none

/-- `childParents` and `entryParents`. -/
structure Parents where
  children : List (String × String) := []
  entries : List (String × String) := []

/-- The body of the loop over the groups. -/
def relateGroup (snapshot : VaultCoreSnapshot) (parents : Parents) (group : GroupDto) :
    Option Parents :=
  if unique group.childGroupIds && unique group.entryIds then do
    let children ← group.childGroupIds.foldlM (adopt (fun id =>
      (groupOf snapshot id).isSome && id ≠ snapshot.rootGroupId) group.id) parents.children
    let entries ← group.entryIds.foldlM (adopt (fun id =>
      (entryOf snapshot id).any fun entry => entry.groupId = group.id) group.id) parents.entries
    some ⟨children, entries⟩
  else none

def validateSnapshotRelations (snapshot : VaultCoreSnapshot) : Option Unit :=
  let groupIds := snapshot.groups.map (·.id)
  let entryIds := snapshot.entries.map (·.id)
  if sizeOf groupIds ≠ snapshot.groups.length ∨ sizeOf entryIds ≠ snapshot.entries.length ∨
      snapshot.rootGroupId ∉ groupIds ∨
      (snapshot.recycleBinGroupId.any fun bin =>
        bin = snapshot.rootGroupId || bin ∉ groupIds) = true then none
  else do
    let parents ← snapshot.groups.foldlM (relateGroup snapshot) {}
    if parents.entries.length ≠ sizeOf entryIds then none
    else
      let visited ← Forest.visit (fun id => (groupOf snapshot id).map (·.childGroupIds))
        (snapshot.groups.length + 1) snapshot.rootGroupId []
      if visited.length ≠ sizeOf groupIds then none else some ()

/-- `parseVaultCoreRecord`. -/
def parseVaultCoreRecord (object : List (String × JsValue)) : Option VaultCoreSnapshot := do
  let dirty ← booleanValue (field object "dirty")
  let recycleBinEnabled ← booleanValue (field object "recycleBinEnabled")
  let rawGroups ← arrayValue (field object "groups")
  let rawEntries ← arrayValue (field object "entries")
  let recycleBinGroupId ← nullableString (field object "recycleBinGroupId")
  let rootGroupId ← nonEmptyString (field object "rootGroupId")
  let groups ← rawGroups.mapM parseGroup
  let entries ← rawEntries.mapM parseEntry
  let snapshot : VaultCoreSnapshot :=
    { dirty, recycleBinEnabled, recycleBinGroupId, rootGroupId, groups, entries }
  validateSnapshotRelations snapshot
  some snapshot

def parseVaultSnapshot (value : JsValue) : Option VaultSnapshot := do
  let object ← recordWithKeys value ["dirty", "fileName", "capabilities", "recycleBinEnabled",
    "recycleBinGroupId", "rootGroupId", "groups", "entries"]
  let core ← parseVaultCoreRecord object
  let fileName ← nonEmptyString (field object "fileName")
  let capabilities ← parseVaultCapabilities (field object "capabilities")
  some { core with fileName, capabilities }

end NianPass.Desktop.Snapshot
