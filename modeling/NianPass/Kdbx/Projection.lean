import NianPass.Kdbx.RecycleBin
import NianPass.Kdbx.Recycling

/-
  What a vault shows of itself: `projection` of `crates/kdbx`, in the terms of `vault-core`.

  The projection is a tree of groups, with a summary of each entry that holds no secret. What reads
  it goes through the tree in the order of its lists (`collectEntries_projection`); in a database
  that is a tree it shows every entry (`mem_projection`).
-/
namespace NianPass.Kdbx.Projection

variable {V : Type}

/-! ## Summaries -/

inductive SummaryText where
  | missing
  | visible (value : String)
  | protectedText
  deriving DecidableEq

/-- `EntryIconSummary`. -/
inductive EntryIcon where
  | none
  | builtIn (id : Nat)
  | custom
  | nonStandard
  deriving DecidableEq, Repr

structure EntrySummary where
  id : String
  title : SummaryText
  username : SummaryText
  url : SummaryText
  hasPassword : Bool
  hasNotes : Bool
  hasTotp : Bool
  tags : List String
  expiresAtUnixSeconds : Option Int
  icon : EntryIcon
  deriving DecidableEq

inductive Group where
  | mk (id name : String) (groups : List Group) (entries : List EntrySummary)

def Group.id : Group → String
  | .mk id _ _ _ => id

def projectSummaryText : Option (Value String) → SummaryText
  | none => .missing
  | some value => if value.isProtected then .protectedText else .visible value.get

def projectIcon : Option Icon → EntryIcon
  | .none => .none
  | some (.builtIn id) => if id ≤ maxStandardIconId.toNat then .builtIn id else .nonStandard
  | some (.custom _) => .custom

def projectEntrySummary (id : EntryId) (entry : Entry V) : EntrySummary where
  id := Database.uuidText id.uuid
  title := projectSummaryText entry.fields[Fields.title]?
  username := projectSummaryText entry.fields[Fields.username]?
  url := projectSummaryText entry.fields[Fields.url]?
  hasPassword := Fields.password ∈ entry.fields
  hasNotes := Fields.notes ∈ entry.fields
  hasTotp := Fields.totpNames.any fun name => name ∈ entry.fields
  tags := entry.tags
  expiresAtUnixSeconds := if entry.times.expires = some true then some entry.times.expiry else none
  icon := projectIcon entry.icon

/-- The summaries of the entries that the group lists. -/
def summariesIn (db : Database V) (group : GroupId) : List EntrySummary :=
  (db.childEntries group).filterMap fun id => db.entries[id]?.map (projectEntrySummary id)

/-- `convert_group`, as deep as there are groups. -/
def convertGroup (db : Database V) : Nat → GroupId → Group
  | 0, id => .mk (Database.uuidText id.uuid) "" [] []
  | fuel + 1, id =>
    .mk (Database.uuidText id.uuid) ((db.groups[id]?.map (·.name)).getD "")
      ((db.childGroups id).map (convertGroup db fuel)) (summariesIn db id)

/-- The root group of `projection`. -/
def projection (db : Database V) : Group := convertGroup db (db.groups.size + 1) db.root

mutual
def Group.collectEntries : Group → List EntrySummary
  | .mk _ _ groups entries => entries ++ collectFrom groups

def collectFrom : List Group → List EntrySummary
  | [] => []
  | group :: groups => group.collectEntries ++ collectFrom groups
end

mutual
def Group.findEntry (id : String) : Group → Option EntrySummary
  | .mk _ _ groups entries => (entries.find? (·.id = id)).or (findFrom id groups)

def findFrom (id : String) : List Group → Option EntrySummary
  | [] => none
  | group :: groups => (group.findEntry id).or (findFrom id groups)
end

/-! ## What it shows -/

/-- Looking an entry up in the tree is looking it up among all of its entries. -/
theorem findEntry_eq_find? (id : String) (group : Group) :
    group.findEntry id = group.collectEntries.find? (·.id = id) := by
  apply Group.rec (motive_1 := fun group => group.findEntry id = group.collectEntries.find? (·.id = id))
    (motive_2 := fun groups => findFrom id groups = (collectFrom groups).find? (·.id = id))
  · intro _ _ groups entries ih
    rw [Group.findEntry, Group.collectEntries, List.find?_append, ih]
  · rfl
  · intro group groups ih ihs
    rw [findFrom, collectFrom, List.find?_append, ih, ihs]

theorem collectFrom_map {ι : Type} (f : ι → Group) (items : List ι) :
    collectFrom (items.map f) = items.flatMap fun item => (f item).collectEntries := by
  induction items with
  | nil => rfl
  | cons item items ih => rw [List.map_cons, collectFrom, ih, List.flatMap_cons]

theorem collectEntries_convertGroup (db : Database V) (fuel : Nat) (id : GroupId) :
    (convertGroup db (fuel + 1) id).collectEntries =
      (Forest.spread db.childGroups fuel id).flatMap (summariesIn db) := by
  induction fuel generalizing id with
  | zero =>
    rw [convertGroup, Group.collectEntries, collectFrom_map, Forest.spread, List.flatMap_singleton]
    have hnone : ∀ child, (convertGroup db 0 child).collectEntries = [] := fun child => rfl
    simp [hnone]
  | succ fuel ih =>
    rw [convertGroup, Group.collectEntries, collectFrom_map, Forest.spread, List.flatMap_cons,
      List.flatMap_assoc]
    simp only [ih]

theorem collectEntries_projection (db : Database V) :
    (projection db).collectEntries = (db.subtree db.root).flatMap (summariesIn db) :=
  collectEntries_convertGroup db _ _

theorem mem_summariesIn {db : Database V} {group : GroupId} {summary : EntrySummary} :
    summary ∈ summariesIn db group ↔ ∃ id entry, id ∈ db.childEntries group ∧
      db.entries[id]? = some entry ∧ projectEntrySummary id entry = summary := by
  unfold summariesIn
  simp [List.mem_filterMap, Option.map_eq_some_iff]

/-- A summary stands for an entry of the database. -/
theorem exists_of_mem_projection {db : Database V} {summary : EntrySummary}
    (h : summary ∈ (projection db).collectEntries) :
    ∃ id entry, db.entries[id]? = some entry ∧ projectEntrySummary id entry = summary := by
  rw [collectEntries_projection] at h
  obtain ⟨group, -, hsummary⟩ := List.mem_flatMap.mp h
  obtain ⟨id, entry, -, hentry, hproject⟩ := mem_summariesIn.mp hsummary
  exact ⟨id, entry, hentry, hproject⟩

/-- In a tree the projection shows every entry. -/
theorem mem_projection {db : Database V} (htree : IsTree db) {id : EntryId} {entry : Entry V}
    (hentry : db.entries[id]? = some entry) :
    projectEntrySummary id entry ∈ (projection db).collectEntries := by
  have hlisted : id ∈ db.childEntries entry.parent := by
    apply htree.entryListed
    rw [Database.homeOf, hentry, Option.map_some]
  have hparent : entry.parent ∈ db.groups := by
    by_contra hnone
    simp [Database.childEntries, Std.ExtTreeMap.getElem?_eq_none hnone] at hlisted
  rw [collectEntries_projection]
  refine List.mem_flatMap.mpr ⟨entry.parent, ?_, mem_summariesIn.mpr ⟨id, entry, hlisted, hentry, rfl⟩⟩
  rw [Database.mem_subtree, below_iff_above htree]
  exact htree.reach _ hparent

end NianPass.Kdbx.Projection
