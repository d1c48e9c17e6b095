import NianPass.Kdbx.Components
import NianPass.Kdbx.Validity

/-
  `KdbxDocument::merge_divergent`: the three-way merge of two generations of a
  vault that left a common base.

  The builder starts from a copy of the local database and carries a list of
  conflicts. Each pass reads the three inputs, edits the copy through the
  library (`Keepass`) and reports conflicts; only `syncInvariant` stops it. The
  loops of the code are folds here, in the code's order: the passes over
  icons, groups and entries go over the identifiers of all three inputs,
  sorted.
-/
namespace NianPass.Kdbx

variable {V : Type}

/-- What the passes change: the candidate and the conflicts found so far. -/
structure MergeState (V : Type) where
  candidate : Database V
  conflicts : List SyncConflict := []

namespace MergeState

def report (st : MergeState V) (conflicts : List SyncConflict) : MergeState V :=
  { st with conflicts := st.conflicts ++ conflicts }

def edit (st : MergeState V) (f : Database V → Database V) : MergeState V :=
  { st with candidate := f st.candidate }

end MergeState

def Group.withIcon (icon : Option Icon) (group : Group V) : Group V := { group with icon := icon }

def Group.withLocationChanged (time : Option Time) (group : Group V) : Group V :=
  { group with times.locationChanged := time }

def Entry.withIcon (icon : Option Icon) (entry : Entry V) : Entry V := { entry with icon := icon }

def Entry.withLocationChanged (time : Option Time) (entry : Entry V) : Entry V :=
  { entry with times.locationChanged := time }

/-- `remote_deleted` and `local_deleted`: the UUID has a tombstone. -/
def isDeleted (db : Database V) (id : Uuid) : Bool := decide (id ∈ db.deletedObjects)

/-- What the loops over groups and entries do with one object. -/
inductive Action (α : Type) where
  | existing (b l r : α)
  | remove
  | add (r : α)
  | keep
  | conflict (kind : SyncConflictKind)

/-- The match that `merge_groups` and `merge_entries` make on the three states of an object. -/
def classify {α : Type} [DecidableEq α] (b l r : Option α) (bDeleted lDeleted rDeleted : Bool) :
    Action α :=
  match b, l, r with
  | some b, some l, some r => .existing b l r
  | some b, some l, none =>
    if !rDeleted then .conflict .unsupportedSemantic
    else if l = b then .remove
    else .conflict .deleteVsModify
  | some b, none, some r =>
    if !lDeleted then .conflict .unsupportedSemantic
    else if r ≠ b then .conflict .deleteVsModify
    else .keep
  | some _, none, none => .keep
  | none, some l, some r => if bDeleted ∨ l ≠ r then .conflict .uuidCollision else .keep
  | none, none, some r => if lDeleted then .conflict .uuidCollision else .add r
  | none, some _, none => if rDeleted then .conflict .uuidCollision else .keep
  | none, none, none => .keep

section Passes
variable (K : Keepass V) (base loc remote : Database V)

/-! ## Roots, identities, configuration and metadata -/

def validateRoots (st : MergeState V) : MergeState V :=
  if loc.root ≠ base.root ∨ remote.root ≠ base.root then
    st.report [databaseConflict .hierarchyCycle]
  else st

def validateInputIdentities (st : MergeState V) : MergeState V :=
  [base, loc, remote].foldl (fun st db =>
    if db.identitiesValid then st else st.report [databaseConflict .uuidCollision]) st

def mergeConfigAndMetadata [DecidableEq V] (st : MergeState V) : MergeState V :=
  let st := match chooseThreeWay base.config loc.config remote.config with
    | some config => st.edit fun db => { db with config := config }
    | none => st.report [databaseConflict .metadata]
  let merged := mergeMeta base.metadata loc.metadata remote.metadata
  (st.report merged.2).edit fun db => { db with metadata := merged.1 }

/-! ## Custom icons -/

def mergeCustomIcon (st : MergeState V) (id : CustomIconId) : MergeState V :=
  let conflict := fun kind => st.report [databaseConflict kind]
  match base.customIcons[id]?, loc.customIcons[id]?, remote.customIcons[id]? with
  | some baseIcon, some locIcon, some remoteIcon =>
    match chooseThreeWay baseIcon locIcon remoteIcon with
    | some merged =>
      if merged = locIcon then st
      else if id ∈ st.candidate.customIcons then
        st.edit fun db => { db with customIcons := db.customIcons.insert id merged }
      else conflict .customIcon
    | none => conflict .customIcon
  | some baseIcon, some locIcon, none =>
    if isDeleted remote id.uuid then
      if locIcon = baseIcon then
        if id ∈ st.candidate.customIcons then st.edit (K.removeCustomIcon · id) else st
      else conflict .deleteVsModify
    else conflict .unsupportedSemantic
  | some baseIcon, none, some remoteIcon =>
    if isDeleted loc id.uuid then
      if remoteIcon ≠ baseIcon then conflict .deleteVsModify else st
    else conflict .unsupportedSemantic
  | some _, none, none => st
  | none, some locIcon, some remoteIcon =>
    if locIcon = remoteIcon ∧ id.uuid ∉ base.deletedObjects then st else conflict .uuidCollision
  | none, none, some _ =>
    -- The library cannot insert an icon under a chosen identifier.
    if isDeleted loc id.uuid then conflict .uuidCollision else conflict .unsupportedSemantic
  | none, some _, none =>
    if isDeleted remote id.uuid then conflict .uuidCollision else st
  | none, none, none => st

def mergeCustomIcons (st : MergeState V) : MergeState V :=
  (allKeys3 base.customIcons loc.customIcons remote.customIcons).foldl
    (mergeCustomIcon K base loc remote) st

/-! ## Groups -/

/-- `set_icon_none`, `set_icon_builtin` and `set_icon_custom` on a group: a custom icon that does
not exist is refused. -/
def setGroupIcon (db : Database V) (id : GroupId) (icon : Option Icon) : Option (Database V) :=
  if db.iconAvailable icon then some (db.editGroup id (Group.withIcon icon))
  else none

/-- The nine assignments of `merge_existing_group`. -/
def Group.assign (merged target : Group V) : Group V :=
  { target with
    name := merged.name, notes := merged.notes, tags := merged.tags, times := merged.times
    customData := merged.customData, isExpanded := merged.isExpanded
    defaultAutotypeSequence := merged.defaultAutotypeSequence
    enableAutotype := merged.enableAutotype, enableSearching := merged.enableSearching }

/-- The probe of `group_change_is_representable`: the base group after the moves, removals and
insertions that would give it the remote parent and the remote children. -/
def probeGroupChange (id : GroupId) (remote : GroupState V) : Option (Group V) := do
  let probe ←
    if base.parentOf id ≠ remote.parent then do
      let parent ← remote.parent
      let probe ←
        if parent ∈ base.groups then some base
        else (K.addGroupWithId base base.root parent).map fun db =>
          db.editGroup parent fun group => { group with name := "" }
      if id ∉ probe.groups ∨ id = base.root then none
      else K.moveGroupTo probe id parent
    else some base
  let target ← probe.groups[id]?
  let probe := target.entries.foldl
    (fun db child => if child ∈ db.entries then K.removeEntry db child else db) probe
  let probe := target.groups.foldl
    (fun db child => if child ∈ db.groups then K.removeGroup db child else db) probe
  let probe ← remote.childGroups.foldlM (fun db child =>
    if child ∈ db.groups then K.moveGroupTo db child id
    else if id ∈ db.groups then K.addGroupWithId db id child else none) probe
  let probe ← remote.childEntries.foldlM (fun db child =>
    if child ∈ db.entries then K.moveEntryTo db child id
    else if id ∈ db.groups then K.addEntryWithId db id child else none) probe
  let target ← probe.groups[id]?
  if probe.iconAvailable remote.group.icon then
    some ((remote.group.assign target).withIcon remote.group.icon)
  else none

def groupChangeIsRepresentable [DecidableEq V] (id : GroupId) (remote : GroupState V) : Bool :=
  decide (probeGroupChange K base id remote = some remote.group)

/-- Writes the merged properties and the merged icon into the candidate's group. -/
def writeGroup (id : GroupId) (merged : Group V) (icon : Option (Option Icon))
    (st : MergeState V) : MergeState V :=
  if id ∈ st.candidate.groups then
    let st := st.edit (·.editGroup id merged.assign)
    match icon with
    | none => st
    | some icon =>
      match setGroupIcon st.candidate id icon with
      | some candidate => { st with candidate := candidate }
      | none => st.report [groupConflict id .customIcon]
  else st

/-- Moves the candidate's group to its merged parent. -/
def moveGroup (id : GroupId) (mergedParent locParent : Option GroupId) (locationChanged : Option Time)
    (st : MergeState V) : Except KdbxError (MergeState V) :=
  if mergedParent = locParent then .ok st
  else match mergedParent with
    | none => .ok (st.report [groupConflict id .hierarchyCycle])
    | some parent =>
      if id ∈ st.candidate.groups then
        match K.moveGroupTo st.candidate id parent with
        | none => .ok (st.report [groupConflict id .hierarchyCycle])
        | some candidate => .ok { st with
            candidate := candidate.editGroup id (Group.withLocationChanged locationChanged) }
      else .error .syncInvariant

/-- The conflicts `merge_existing_group` reports before it writes, in the order it finds them:
both branches moved the group, remote changed it in a way that cannot be rebuilt from base, its
previous parent cannot be kept, its properties conflict. -/
def existingGroupConflicts [DecidableEq V] (id : GroupId) (b l r : GroupState V) :
    List SyncConflict :=
  let parent := mergeProp (groupConflict id .moveVsMove) b.parent l.parent r.parent
  let previous := chooseThreeWay b.previousParent l.previousParent r.previousParent
  parent.2 ++
  (if r.group ≠ b.group ∧ ¬ groupChangeIsRepresentable K base id r then
    [groupConflict id .unsupportedSemantic] else []) ++
  (if previous = none ∨ (parent.1 = l.parent ∧ previous ≠ some l.previousParent) then
    [groupConflict id .unsupportedSemantic] else []) ++
  (mergeGroupProperties id b.group l.group r.group l.group).2

def mergeExistingGroup [DecidableEq V] (id : GroupId) (b l r : GroupState V)
    (st : MergeState V) : Except KdbxError (MergeState V) :=
  let parent := mergeProp (groupConflict id .moveVsMove) b.parent l.parent r.parent
  let icon := chooseThreeWay b.group.icon l.group.icon r.group.icon
  let merged := mergeGroupProperties id b.group l.group r.group l.group
  let st := st.report (existingGroupConflicts K base id b l r)
  moveGroup K id parent.1 l.parent r.group.times.locationChanged
    (writeGroup id merged.1 icon st)

def groupIds : List GroupId := allKeys3 base.groups loc.groups remote.groups

def classifyGroup [DecidableEq V] (id : GroupId) : Action (GroupState V) :=
  classify (groupIndex K base)[id]? (groupIndex K loc)[id]? (groupIndex K remote)[id]?
    (isDeleted base id.uuid) (isDeleted loc id.uuid) (isDeleted remote id.uuid)

/-- One round of the first loop of `merge_groups`, without the two vectors it fills. -/
def mergeGroup [DecidableEq V] (st : MergeState V) (id : GroupId) :
    Except KdbxError (MergeState V) :=
  match classifyGroup K base loc remote id with
  | .existing b l r => mergeExistingGroup K base id b l r st
  | .conflict kind => .ok (st.report [groupConflict id kind])
  | _ => .ok st

/-- The first loop of `merge_groups`, over all group identifiers. -/
def groupLoop [DecidableEq V] (st : MergeState V) : Except KdbxError (MergeState V) :=
  (groupIds base loc remote).foldlM (mergeGroup K base loc remote) st

/-- `remote_additions`, the first vector. -/
def remoteAdditions [DecidableEq V] : List GroupId :=
  (groupIds base loc remote).filter fun id =>
    match classifyGroup K base loc remote id with
    | .add _ => true
    | _ => false

/-- `remote_deletions`, the second vector. -/
def remoteDeletions [DecidableEq V] : List GroupId :=
  (groupIds base loc remote).filter fun id =>
    match classifyGroup K base loc remote id with
    | .remove => true
    | _ => false

/-- The closure of `pending.retain`: adds the group below its remote parent, or keeps it pending
when that parent is not there yet. -/
def addRemoteGroup (acc : MergeState V × List GroupId) (id : GroupId) :
    MergeState V × List GroupId :=
  match remote.groups[id]? with
  | none => acc
  | some source =>
    match source.parent with
    | none => (acc.1.report [groupConflict id .hierarchyCycle], acc.2)
    | some parent =>
      if parent ∈ acc.1.candidate.groups then
        match K.addGroupWithId acc.1.candidate parent id with
        | none => (acc.1.report [groupConflict id .uuidCollision], acc.2)
        | some candidate =>
          ({ acc.1 with candidate := candidate.editGroup id fun _ => source }, acc.2)
      else (acc.1, acc.2 ++ [id])

/-- The loop over `pending`. Every round but the last shortens it, so `fuel` never runs out when
it exceeds the length of `pending`. -/
def addRemoteGroups : Nat → List GroupId → MergeState V → MergeState V
  | 0, _, st => st
  | fuel + 1, pending, st =>
    if pending = [] then st
    else
      let round := pending.foldl (addRemoteGroup K remote) (st, [])
      if round.2.length = pending.length then
        round.1.report (round.2.map (groupConflict · .groupDeleteVsDescendantChange))
      else addRemoteGroups fuel round.2 round.1

def removeGroups (deletions : List GroupId) (st : MergeState V) : MergeState V :=
  deletions.foldl (fun st id =>
    if id ∈ st.candidate.groups then st.edit (K.removeGroup · id) else st) st

def mergeGroups [DecidableEq V] (st : MergeState V) : Except KdbxError (MergeState V) := do
  let st ← groupLoop K base loc remote st
  let pending := remoteAdditions K base loc remote
  let st := addRemoteGroups K remote (pending.length + 1) pending st
  return removeGroups K (remoteDeletions K base loc remote) st

/-! ## Entries -/

/-- The icon setters on an entry: a custom icon that does not exist is refused. -/
def setEntryIcon (db : Database V) (id : EntryId) (icon : Option Icon) : Option (Database V) :=
  if db.iconAvailable icon then some (db.editEntry id (Entry.withIcon icon))
  else none

def addRemoteEntry (id : EntryId) (source : EntryState V) (st : MergeState V) : MergeState V :=
  let conflict := fun kind => st.report [entryConflict id kind]
  if !source.attachments.isEmpty || historyHasAttachments remote id then conflict .binary
  else if !st.candidate.iconAvailable source.entry.icon then conflict .customIcon
  else if source.parent ∈ st.candidate.groups then
    match K.addEntryWithId st.candidate source.parent id with
    | some candidate => { st with candidate := candidate.editEntry id fun _ => source.entry }
    | none => conflict .uuidCollision
  else conflict .groupDeleteVsDescendantChange

/-- Replaces the attachments of the candidate's entry by `attachments`. -/
def replaceAttachments (id : EntryId) (attachments : Map String (Value Bytes))
    (db : Database V) : Database V :=
  let names := match db.entries[id]? with
    | some entry => (namedAttachments db entry.toEntryData).keys
    | none => []
  let db := names.foldl (K.removeAttachmentByName · id ·) db
  attachments.toList.foldl (fun db item => K.addAttachment db id item.1 item.2) db

/-- Moves the candidate's entry to its merged parent. -/
def moveEntry (id : EntryId) (parent locParent : GroupId) (locationChanged : Option Time)
    (st : MergeState V) : Except KdbxError (MergeState V) :=
  if parent = locParent then .ok st
  else if id ∈ st.candidate.entries then
    match K.moveEntryTo st.candidate id parent with
    | none => .ok (st.report [entryConflict id .hierarchyCycle])
    | some candidate => .ok { st with
        candidate := candidate.editEntry id (Entry.withLocationChanged locationChanged) }
  else .error .syncInvariant

/-- The move and the attachments of `merge_existing_entry`, once the merged entry is written. -/
def placeEntry (id : EntryId) (parent : GroupId) (l r : EntryState V)
    (attachments : Map String (Value Bytes)) (st : MergeState V) :
    Except KdbxError (MergeState V) := do
  let st ← moveEntry K id parent l.parent r.entry.times.locationChanged st
  if attachments = l.attachments then .ok st
  else if id ∈ st.candidate.entries then .ok (st.edit (replaceAttachments K id attachments))
  else .error .syncInvariant

/-- The conflicts `merge_existing_entry` reports before it writes, in the order it finds them. -/
def existingEntryConflicts [DecidableEq V] (id : EntryId) (b l r : EntryState V) :
    List SyncConflict :=
  let parent := mergeProp (entryConflict id .moveVsMove) b.parent l.parent r.parent
  let previous := chooseThreeWay b.previousParent l.previousParent r.previousParent
  parent.2 ++
  (if previous = none ∨ (parent.1 = l.parent ∧ previous ≠ some l.previousParent) then
    [entryConflict id .unsupportedSemantic] else []) ++
  (mergeNamedMap b.entry.fields l.entry.fields r.entry.fields).2.map (entryFieldConflict id) ++
  (mergeEntryProperties id b.entry l.entry r.entry l.entry).2 ++
  (mergeNamedMap b.attachments l.attachments r.attachments).2.map
    (fun _ => entryConflict id .binary) ++
  (mergeHistory K base loc remote id).2

/-- The entry `merge_existing_entry` writes, with the local icon, parent and attachments. -/
def mergedEntry [DecidableEq V] (id : EntryId) (b l r : EntryState V) : Entry V :=
  let fields := mergeNamedMap b.entry.fields l.entry.fields r.entry.fields
  let merged := mergeEntryProperties id b.entry l.entry r.entry
    { l.entry with fields := fields.1 }
  { merged.1 with history := (mergeHistory K base loc remote id).1 }

/-- Writes the merged entry and its icon. -/
def writeEntry (id : EntryId) (merged : Entry V) (icon : Option (Option Icon))
    (st : MergeState V) : MergeState V :=
  let st := st.edit (·.editEntry id fun _ => merged)
  match icon with
  | none => st
  | some icon =>
    match setEntryIcon st.candidate id icon with
    | some candidate => { st with candidate := candidate }
    | none => st.report [entryConflict id .customIcon]

def mergeExistingEntry [DecidableEq V] (id : EntryId) (b l r : EntryState V)
    (st : MergeState V) : Except KdbxError (MergeState V) :=
  let parent := mergeProp (entryConflict id .moveVsMove) b.parent l.parent r.parent
  let attachments := mergeNamedMap b.attachments l.attachments r.attachments
  let icon := chooseThreeWay b.entry.icon l.entry.icon r.entry.icon
  let st := st.report (existingEntryConflicts K base loc remote id b l r)
  if id ∈ st.candidate.entries then
    placeEntry K id parent.1 l r attachments.1
      (writeEntry id (mergedEntry K base loc remote id b l r) icon st)
  else .error .syncInvariant

def classifyEntry [DecidableEq V] (id : EntryId) : Action (EntryState V) :=
  classify (entryIndex K base)[id]? (entryIndex K loc)[id]? (entryIndex K remote)[id]?
    (isDeleted base id.uuid) (isDeleted loc id.uuid) (isDeleted remote id.uuid)

def mergeEntry [DecidableEq V] (st : MergeState V) (id : EntryId) :
    Except KdbxError (MergeState V) :=
  match classifyEntry K base loc remote id with
  | .existing b l r => mergeExistingEntry K base loc remote id b l r st
  | .remove => .ok (if id ∈ st.candidate.entries then st.edit (K.removeEntry · id) else st)
  | .add r => .ok (addRemoteEntry K remote id r st)
  | .conflict kind => .ok (st.report [entryConflict id kind])
  | .keep => .ok st

def mergeEntries [DecidableEq V] (st : MergeState V) : Except KdbxError (MergeState V) :=
  (allKeys3 base.entries loc.entries remote.entries).foldlM (mergeEntry K base loc remote) st

/-! ## Tombstones and the final hierarchy -/

/-- The latest deletion time any of the three inputs knows. -/
def latestDeletion (id : Uuid) : Option Time :=
  ([base.deletedObjects[id]?.join, loc.deletedObjects[id]?.join,
    remote.deletedObjects[id]?.join].filterMap fun time => time).max?

def mergeTombstones (st : MergeState V) : MergeState V :=
  (allKeys3 base.deletedObjects loc.deletedObjects remote.deletedObjects).foldl (fun st id =>
    st.edit fun db =>
      { db with deletedObjects := db.deletedObjects.insert id (latestDeletion base loc remote id) })
    st

omit base loc remote in
/-- The loop up the parent pointers that looks for a group met twice; `fuel` exceeds the number
of groups. -/
def meetsCycle (db : Database V) : Nat → List GroupId → Option GroupId → Bool
  | _, _, none => false
  | 0, _, some _ => false
  | fuel + 1, seen, some id =>
    if id ∈ seen then true else meetsCycle db fuel (id :: seen) (db.parentOf id)

omit base loc remote in
def validateFinalHierarchy (st : MergeState V) : MergeState V :=
  st.candidate.groups.keys.foldl (fun st id =>
    let st := if meetsCycle st.candidate (st.candidate.groups.size + 2) [] (some id) then
      st.report [groupConflict id .hierarchyCycle] else st
    if id = st.candidate.root ∧ (st.candidate.parentOf id).isSome then
      st.report [groupConflict id .hierarchyCycle] else st) st

def merge [DecidableEq V] (st : MergeState V) : Except KdbxError (MergeState V) := do
  let st := validateRoots base loc remote st
  let st := validateInputIdentities base loc remote st
  let st := mergeConfigAndMetadata base loc remote st
  let st := mergeCustomIcons K base loc remote st
  let st ← mergeGroups K base loc remote st
  let st ← mergeEntries K base loc remote st
  let st := mergeTombstones base loc remote st
  return validateFinalHierarchy st

end Passes

/-! ## The outcome -/

inductive KdbxDivergentMergeOutcome (V : Type) where
  | merged (document : KdbxDocument V)
  | conflicted (conflicts : List SyncConflict)
  deriving DecidableEq

def finiteHistoryLimit (db : Database V) : Option Nat :=
  db.metadata.historyMaxItems.bind fun value => if 0 ≤ value then some value.toNat else none

def pruneEntryHistory (limit : Nat) (entry : Entry V) : Entry V :=
  match entry.history with
  | none => entry
  | some history =>
    if history.length ≤ limit then entry else { entry with history := some (history.take limit) }

def pruneAllEntryHistory (db : Database V) : Database V :=
  match finiteHistoryLimit db with
  | none => db
  | some limit => { db with entries := db.entries.map fun _ entry => pruneEntryHistory limit entry }

def fromMergedDatabaseWithHistoryPolicy (version : KdbxVersion) (db : Database V) :
    KdbxDocument V :=
  { version := version, database := pruneAllEntryHistory db }

def intoOutcome (version : KdbxVersion) (st : MergeState V) :
    Except KdbxError (KdbxDivergentMergeOutcome V) :=
  if st.conflicts ≠ [] then .ok (.conflicted st.conflicts)
  else if databaseValidForSync st.candidate then
    .ok (.merged (fromMergedDatabaseWithHistoryPolicy version st.candidate))
  else .error .syncInvariant

def mergeDivergent [DecidableEq V] (K : Keepass V) (base loc remote : KdbxDocument V) :
    Except KdbxError (KdbxDivergentMergeOutcome V) := do
  if base.version ≠ loc.version ∨ base.version ≠ remote.version ∨
      base.version ≠ .kdbx4 1 then .error .syncInvariant
  else
    let st ← merge K base.database loc.database remote.database { candidate := loc.database }
    intoOutcome loc.version st

end NianPass.Kdbx
