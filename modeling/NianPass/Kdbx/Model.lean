import Mathlib.Tactic

/-
  The parsed KDBX database: the value types of `keepass-rs` as the merge of
  `crates/kdbx/src/sync.rs` reads and writes them, and `KdbxDocument`.

  Hash maps are extensional ordered maps, so that two maps are equal exactly
  when they hold the same values and a database is a value with decidable
  equality. A group or an entry is held under its identifier and does not
  repeat it. Values the merge only copies and compares (the cipher
  configuration, auto-type settings, custom-data items, colours, the memory
  protection flags) are values of one uninterpreted type `V`.

  A history snapshot has no history of its own, so an `Entry` is an
  `EntryData` with an optional list of them, the newest first.
-/
namespace NianPass.Kdbx

abbrev Uuid := BitVec 128

/-- What a UUID names. -/
inductive Kind where
  | entry
  | group
  | icon
  deriving DecidableEq, Repr

/-- `EntryId`, `GroupId` and `CustomIconId`: a UUID known to name one kind of object. -/
structure ObjectId (k : Kind) where
  uuid : Uuid
  deriving DecidableEq, Repr

abbrev EntryId := ObjectId .entry
abbrev GroupId := ObjectId .group
abbrev CustomIconId := ObjectId .icon

/-- The allocator-local index of an attachment in its database. -/
abbrev AttachmentId := Nat

/-- A `chrono::NaiveDateTime`, in seconds since the Unix epoch. -/
abbrev Time := Int

abbrev Bytes := List UInt8

-- Lists of identifiers and maps over them, or to these values, carry these laws by one name each.
instance : Std.TransOrd Uuid := BitVec.instTransOrd
instance : Std.LawfulEqOrd Uuid := BitVec.instLawfulEqOrd
instance {k : Kind} : LawfulBEq (ObjectId k) := instLawfulBEq
instance : LawfulBEq (Option Time) := Option.instLawfulBEq Time

-- The order of the hyphenated lower-case text of a UUID is the order of its value.
instance {k : Kind} : Ord (ObjectId k) where
  compare a b := compare a.uuid b.uuid

instance {k : Kind} : Std.TransOrd (ObjectId k) where
  eq_swap := Std.OrientedOrd.eq_swap (α := Uuid)
  isLE_trans := Std.TransOrd.isLE_trans (α := Uuid)

instance {k : Kind} : Std.LawfulEqOrd (ObjectId k) where
  eq_of_compare {a b} h := by
    cases a
    cases b
    have := Std.LawfulEqOrd.eq_of_compare (α := Uuid) h
    simp_all

/-- A `HashMap`: which keys hold which values, and nothing else. -/
abbrev Map (κ ν : Type) [Ord κ] := Std.ExtTreeMap κ ν compare

/-- A string or a byte string with its memory-protection flag. -/
structure Value (α : Type) where
  isProtected : Bool
  get : α
  deriving DecidableEq, Repr

instance : LawfulBEq (Value String) := instLawfulBEq
instance : LawfulBEq (Value Bytes) := instLawfulBEq

inductive Icon where
  | builtIn (id : Nat)
  | custom (id : CustomIconId)
  deriving DecidableEq, Repr

structure Times where
  creation : Option Time := none
  lastModification : Option Time := none
  lastAccess : Option Time := none
  expiry : Time := 0
  locationChanged : Option Time := none
  expires : Option Bool := none
  usageCount : Option Nat := none
  deriving DecidableEq, Repr

/-- An entry without its history, which is also what a history snapshot is. -/
structure EntryData (V : Type) where
  fields : Map String (Value String) := ∅
  autotype : Option V := none
  tags : List String := []
  times : Times := {}
  customData : Map String V := ∅
  icon : Option Icon := none
  attachments : Map String AttachmentId := ∅
  foregroundColor : Option V := none
  backgroundColor : Option V := none
  overrideUrl : Option String := none
  qualityCheck : Option Bool := none
  parent : GroupId
  previousParent : Option GroupId := none
  deriving DecidableEq

structure Entry (V : Type) extends EntryData V where
  history : Option (List (EntryData V)) := none
  deriving DecidableEq

/-- A group. `other` is whatever else the library keeps in a group: the merge
never writes it, and equality of groups compares it. -/
structure Group (V : Type) where
  name : String := ""
  notes : Option String := none
  tags : List String := []
  times : Times := {}
  customData : Map String V := ∅
  isExpanded : Bool := false
  defaultAutotypeSequence : Option String := none
  enableAutotype : Option Bool := none
  enableSearching : Option Bool := none
  icon : Option Icon := none
  parent : Option GroupId := none
  previousParent : Option GroupId := none
  groups : List GroupId := []
  entries : List EntryId := []
  other : Option V := none
  deriving DecidableEq

structure CustomIcon where
  name : Option String := none
  lastModificationTime : Option Time := none
  data : Bytes
  deriving DecidableEq

structure Meta (V : Type) where
  generator : Option String := none
  databaseName : Option String := none
  databaseNameChanged : Option Time := none
  databaseDescription : Option String := none
  databaseDescriptionChanged : Option Time := none
  defaultUsername : Option String := none
  defaultUsernameChanged : Option Time := none
  maintenanceHistoryDays : Option Nat := none
  color : Option V := none
  masterKeyChanged : Option Time := none
  masterKeyChangeRec : Option Int := none
  masterKeyChangeForce : Option Int := none
  memoryProtection : Option V := none
  recyclebinEnabled : Option Bool := none
  recyclebinUuid : Option Uuid := none
  recyclebinChanged : Option Time := none
  entryTemplatesGroup : Option Uuid := none
  entryTemplatesGroupChanged : Option Time := none
  lastSelectedGroup : Option Uuid := none
  lastTopVisibleGroup : Option Uuid := none
  historyMaxItems : Option Int := none
  historyMaxSize : Option Int := none
  settingsChanged : Option Time := none
  customData : Map String V := ∅
  deriving DecidableEq

structure Database (V : Type) where
  config : V
  metadata : Meta V := {}
  root : GroupId
  groups : Map GroupId (Group V)
  entries : Map EntryId (Entry V) := ∅
  customIcons : Map CustomIconId CustomIcon := ∅
  attachments : Map AttachmentId (Value Bytes) := ∅
  deletedObjects : Map Uuid (Option Time) := ∅
  deriving DecidableEq

inductive KdbxVersion where
  | kdbx3 (minor : Nat)
  | kdbx4 (minor : Nat)
  deriving DecidableEq, Repr

structure KdbxDocument (V : Type) where
  version : KdbxVersion
  database : Database V
  revision : Nat := 0
  revisionPermanentlyDirty : Bool := false
  deriving DecidableEq

/-- `has_changes_since`. -/
def KdbxDocument.hasChangesSince {V : Type} (document : KdbxDocument V) (savedRevision : Nat) : Bool :=
  document.revisionPermanentlyDirty || document.revision != savedRevision

/-- The error of `crates/kdbx` that the merge can return. -/
inductive KdbxError where
  | syncInvariant
  deriving DecidableEq, Repr

end NianPass.Kdbx
