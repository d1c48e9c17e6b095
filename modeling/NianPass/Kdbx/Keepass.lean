import NianPass.Kdbx.Model
import NianPass.Lib.Forest

/-
  What the merge relies on from `keepass-rs`, whose source is not in this
  repository.

  The first part states the edits of a database the library documents. The
  children of a group are a set that remembers the order of insertion: moving a
  group or an entry takes it out of the list of its old parent and inserts it
  into the list of the new one, adding inserts, and what is inserted twice keeps
  its first place. Removing a custom icon takes it off every live object that
  used it, and off some snapshots; removing groups clears metadata that name
  them.

  `Keepass V` is the contract: the operations of the library together with the
  laws the proofs use, one field each. Where the library's behaviour is not
  documented (an identifier that already names an object of another kind, the
  removal of the root group, the contents of a freshly added object, the index
  of a new attachment, which snapshots lose a removed icon, which metadata beside
  the recycle bin forget a removed group) the laws say nothing, so every theorem
  holds whatever the library does there. `reference` is one library that keeps
  the contract.
-/
namespace NianPass.Kdbx

variable {V : Type}

/-! ## Parents and children -/

section Children
variable {κ : Type} [DecidableEq κ] {id x : κ} {children : List κ}

/-- `IndexSet::insert`: a child that is listed keeps its place, another one goes to the end. -/
def insertChild (id : κ) (children : List κ) : List κ :=
  if id ∈ children then children else children ++ [id]

theorem insertChild_of_not_mem (h : id ∉ children) : insertChild id children = children ++ [id] :=
  if_neg h

@[simp] theorem mem_insertChild : x ∈ insertChild id children ↔ x ∈ children ∨ x = id := by
  unfold insertChild
  split
  · case isTrue h =>
    constructor
    · exact Or.inl
    · rintro (hx | rfl)
      · exact hx
      · exact h
  · simp

theorem nodup_insertChild (h : children.Nodup) : (insertChild id children).Nodup := by
  unfold insertChild
  split
  · exact h
  · case isFalse hid =>
    refine List.nodup_append.mpr ⟨h, List.nodup_singleton id, ?_⟩
    rintro a ha b hb rfl
    exact hid (List.mem_singleton.mp hb ▸ ha)

/-- The children of the group `x` when `id` leaves the group `old` and joins `target`. -/
def moveChild (id : κ) (old : Option GroupId) (target x : GroupId) (children : List κ) : List κ :=
  let others := if old = some x then children.filter (· ≠ id) else children
  if x = target then insertChild id others else others

theorem mem_moveChild {y : κ} {old : Option GroupId} {target group : GroupId} :
    y ∈ moveChild id old target group children ↔
      y ∈ children ∧ (old = some group → y ≠ id) ∨ y = id ∧ group = target := by
  have hothers : y ∈ (if old = some group then children.filter (· ≠ id) else children) ↔
      y ∈ children ∧ (old = some group → y ≠ id) := by
    split
    · case isTrue h => simp [h]
    · case isFalse h => simp [h]
  unfold moveChild
  dsimp only
  split
  · case isTrue h => rw [mem_insertChild, hothers, and_iff_left h]
  · case isFalse h => rw [hothers, or_iff_left fun hy => h hy.2]

theorem nodup_moveChild {old : Option GroupId} {target group : GroupId} (h : children.Nodup) :
    (moveChild id old target group children).Nodup := by
  have hothers : (if old = some group then children.filter (· ≠ id) else children).Nodup := by
    split
    · exact h.filter _
    · exact h
  unfold moveChild
  dsimp only
  split
  · exact nodup_insertChild hothers
  · exact hothers

/-- A group that the child neither leaves nor joins keeps its children. -/
theorem moveChild_elsewhere {old : Option GroupId} {target group : GroupId}
    (hold : old ≠ some group) (htarget : group ≠ target) :
    moveChild id old target group children = children := by
  unfold moveChild
  rw [if_neg htarget, if_neg hold]

/-- A child that stays in its group goes to the end. -/
theorem moveChild_within {group : GroupId} :
    moveChild id (some group) group group children = children.filter (· ≠ id) ++ [id] := by
  unfold moveChild
  rw [if_pos rfl, if_pos rfl]
  exact insertChild_of_not_mem (by simp)

theorem insertChild_sublist : List.Sublist (insertChild id children) (children ++ [id]) := by
  unfold insertChild
  split
  · exact List.sublist_append_left _ _
  · exact List.Sublist.refl _

theorem moveChild_sublist {old : Option GroupId} {target group : GroupId} :
    List.Sublist (moveChild id old target group children)
      (children ++ if group = target then [id] else []) := by
  have hothers : List.Sublist (if old = some group then children.filter (· ≠ id) else children)
      children := by
    split
    · exact List.filter_sublist
    · exact List.Sublist.refl _
  unfold moveChild
  dsimp only
  split
  · exact insertChild_sublist.trans (hothers.append_right [id])
  · rw [List.append_nil]
    exact hothers

end Children

namespace Group

/-- Rewrites the ordered list of child groups. -/
def mapGroups (f : List GroupId → List GroupId) (group : Group V) : Group V :=
  { group with groups := f group.groups }

/-- Rewrites the ordered list of child entries. -/
def mapEntries (f : List EntryId → List EntryId) (group : Group V) : Group V :=
  { group with entries := f group.entries }

/-- The group without its child lists. -/
def core (group : Group V) : Group V := { group with groups := [], entries := [] }

@[simp] theorem mapGroups_groups (f : List GroupId → List GroupId) (group : Group V) :
    (group.mapGroups f).groups = f group.groups := rfl
@[simp] theorem mapGroups_entries (f : List GroupId → List GroupId) (group : Group V) :
    (group.mapGroups f).entries = group.entries := rfl
@[simp] theorem mapGroups_core (f : List GroupId → List GroupId) (group : Group V) :
    (group.mapGroups f).core = group.core := rfl
@[simp] theorem mapEntries_groups (f : List EntryId → List EntryId) (group : Group V) :
    (group.mapEntries f).groups = group.groups := rfl
@[simp] theorem mapEntries_entries (f : List EntryId → List EntryId) (group : Group V) :
    (group.mapEntries f).entries = f group.entries := rfl
@[simp] theorem mapEntries_core (f : List EntryId → List EntryId) (group : Group V) :
    (group.mapEntries f).core = group.core := rfl
@[simp] theorem core_parent (group : Group V) : group.core.parent = group.parent := rfl
@[simp] theorem core_icon (group : Group V) : group.core.icon = group.icon := rfl

end Group

namespace Database

def parentOf (db : Database V) (id : GroupId) : Option GroupId :=
  db.groups[id]?.bind (·.parent)

def homeOf (db : Database V) (id : EntryId) : Option GroupId :=
  db.entries[id]?.map (·.parent)

/-- The ordered child groups of `id`, none when there is no such group. -/
def childGroups (db : Database V) (id : GroupId) : List GroupId :=
  (db.groups[id]?.map (·.groups)).getD []

/-- The ordered child entries of `id`, none when there is no such group. -/
def childEntries (db : Database V) (id : GroupId) : List EntryId :=
  (db.groups[id]?.map (·.entries)).getD []

/-- `x` is `id` or is met going down the child lists from `id`. -/
def Below (db : Database V) (id x : GroupId) : Prop :=
  ∃ k, Forest.Steps (fun p c => c ∈ db.childGroups p) k id x

/-- Some entry, or some snapshot in an entry's history, names the attachment `a`. -/
def Refers (db : Database V) (a : AttachmentId) : Prop :=
  ∃ (id : EntryId) (entry : Entry V), db.entries[id]? = some entry ∧
    ((∃ name : String, entry.attachments[name]? = some a) ∨
      ∃ snapshot ∈ entry.history.getD [], ∃ name : String, snapshot.attachments[name]? = some a)

/-! ## Edits -/

/-- Rewrites the group `id`, if there is one. -/
def editGroup (db : Database V) (id : GroupId) (f : Group V → Group V) : Database V :=
  { db with groups := db.groups.modify id f }

/-- Rewrites the entry `id`, if there is one. -/
def editEntry (db : Database V) (id : EntryId) (f : Entry V → Entry V) : Database V :=
  { db with entries := db.entries.modify id f }

/-- `move_to` on a group, where it succeeds. -/
def relocateGroup (db : Database V) (id target : GroupId) : Database V :=
  { db with
    groups := db.groups.map fun x group =>
      let group := group.mapGroups (moveChild id (db.parentOf id) target x)
      if x = id then { group with parent := some target, previousParent := db.parentOf id }
      else group }

/-- `add_group_with_id`, where it succeeds: `group` is the new child of `parent`. -/
def insertGroup (db : Database V) (parent id : GroupId) (group : Group V) : Database V :=
  { db with
    groups := (db.groups.modify parent (Group.mapGroups (insertChild id))).insert id group }

/-- `move_to` on an entry, where it succeeds. -/
def relocateEntry (db : Database V) (id : EntryId) (target : GroupId) : Database V :=
  { db with
    groups := db.groups.map fun x group => group.mapEntries (moveChild id (db.homeOf id) target x)
    entries := db.entries.modify id fun entry =>
      { entry with parent := target, previousParent := some entry.parent } }

/-- `add_entry_with_id`, where it succeeds: `entry` is the new child of `parent`. -/
def insertEntry (db : Database V) (parent : GroupId) (id : EntryId) (entry : Entry V) :
    Database V :=
  { db with
    groups := db.groups.modify parent (Group.mapEntries (insertChild id))
    entries := db.entries.insert id entry }

/-- `EntryMut::remove`, attachments aside. -/
def eraseEntry (db : Database V) (id : EntryId) : Database V :=
  { db with
    groups := db.groups.map fun x group => group.mapEntries fun children =>
      if db.homeOf id = some x then children.filter (· ≠ id) else children
    entries := db.entries.erase id }

end Database

/-- An object's icon once the custom icon `id` is gone. -/
def Icon.unless (id : CustomIconId) (icon : Option Icon) : Option Icon :=
  if icon = some (.custom id) then none else icon

namespace Database

/-- `CustomIconMut::remove`: live objects that used the icon have none afterwards, and neither have
the snapshots the library takes it off, those for which `clears` holds. -/
def eraseIcon (db : Database V) (id : CustomIconId) (clears : EntryId → Nat → Bool) : Database V :=
  { db with
    groups := db.groups.map fun _ group => { group with icon := Icon.unless id group.icon }
    entries := db.entries.map fun e entry =>
      { entry with
        icon := Icon.unless id entry.icon
        history := entry.history.map (·.mapIdx fun i snapshot =>
          if clears e i then { snapshot with icon := Icon.unless id snapshot.icon } else snapshot) }
    customIcons := db.customIcons.erase id }

end Database

namespace Meta

/-- The metadata that name a group. -/
def references : List (Meta V → Option Uuid) :=
  [(·.recyclebinUuid), (·.entryTemplatesGroup), (·.lastSelectedGroup), (·.lastTopVisibleGroup)]

/-- The metadata without the names of groups. -/
def plain (metadata : Meta V) : Meta V :=
  { metadata with
    recyclebinUuid := none
    entryTemplatesGroup := none
    lastSelectedGroup := none
    lastTopVisibleGroup := none }

/-- Rewrites the metadata that name a group. -/
def mapReferences (f : Option Uuid → Option Uuid) (metadata : Meta V) : Meta V :=
  { metadata with
    recyclebinUuid := f metadata.recyclebinUuid
    entryTemplatesGroup := f metadata.entryTemplatesGroup
    lastSelectedGroup := f metadata.lastSelectedGroup
    lastTopVisibleGroup := f metadata.lastTopVisibleGroup }

/-- Metadata are what they name and the rest. -/
theorem eq_of_references {metadata out : Meta V} (hplain : out.plain = metadata.plain)
    (h : ∀ reference ∈ references, reference out = reference metadata) : out = metadata := by
  have hnamed := And.intro (h (·.recyclebinUuid) (by simp [references]))
    (And.intro (h (·.entryTemplatesGroup) (by simp [references]))
      (And.intro (h (·.lastSelectedGroup) (by simp [references]))
        (h (·.lastTopVisibleGroup) (by simp [references]))))
  obtain ⟨hbin, htemplates, hselected, hvisible⟩ := hnamed
  cases metadata
  cases out
  simp only [plain, mk.injEq, true_and] at hplain
  simp_all

end Meta

namespace Database

/-- What a database looks like once the group `id` and everything below it is gone. The metadata of
`cleared` forget the groups that are gone. -/
structure WithoutGroup (cleared : List (Meta V → Option Uuid)) (db : Database V) (id : GroupId)
    (out : Database V) : Prop where
  gone : ∀ x, db.Below id x → out.groups[x]? = none
  kept : ∀ x, ¬ db.Below id x → out.groups[x]? = db.groups[x]?.map (Group.mapGroups fun children =>
    if db.parentOf id = some x then children.filter (· ≠ id) else children)
  entriesGone : ∀ x e, db.Below id x → e ∈ db.childEntries x → out.entries[e]? = none
  entriesKept : ∀ e, (∀ x, db.Below id x → e ∉ db.childEntries x) →
    out.entries[e]? = db.entries[e]?
  root : out.root = db.root
  config : out.config = db.config
  references : ∀ reference ∈ Meta.references, ∀ uuid, reference out.metadata = some uuid ↔
    reference db.metadata = some uuid ∧
      ¬ (reference ∈ cleared ∧ ⟨uuid⟩ ∈ db.groups ∧ db.Below id ⟨uuid⟩)
  metadata : out.metadata.plain = db.metadata.plain
  customIcons : out.customIcons = db.customIcons
  deletedObjects : out.deletedObjects = db.deletedObjects

end Database

/-! ## The contract -/

/-- The operations of `keepass-rs` that the merge calls, with what it relies on. -/
structure Keepass (V : Type) where
  /-- `previous_parent()` looks the stored identifier up. -/
  previousParent : Database V → Option GroupId → Option GroupId
  moveGroupTo : Database V → GroupId → GroupId → Option (Database V)
  addGroupWithId : Database V → GroupId → GroupId → Option (Database V)
  removeGroup : Database V → GroupId → Database V
  moveEntryTo : Database V → EntryId → GroupId → Option (Database V)
  addEntryWithId : Database V → GroupId → EntryId → Option (Database V)
  removeEntry : Database V → EntryId → Database V
  removeCustomIcon : Database V → CustomIconId → Database V
  /-- The metadata that forget a removed group. -/
  cleared : List (Meta V → Option Uuid)
  removeAttachmentByName : Database V → EntryId → String → Database V
  addAttachment : Database V → EntryId → String → Value Bytes → Database V
  /-- A stored previous parent that still exists is found. -/
  previousParent_live : ∀ (db : Database V) id, id ∈ db.groups → previousParent db (some id) = some id
  previousParent_none : ∀ db : Database V, previousParent db none = none
  /-- `move_to` fails exactly on a missing target, the root or a cycle. -/
  moveGroupTo_isSome : ∀ (db : Database V) id target, id ∈ db.groups →
    ((moveGroupTo db id target).isSome ↔
      target ∈ db.groups ∧ id ≠ db.root ∧ ¬ Forest.Above db.parentOf id target)
  moveGroupTo_eq : ∀ (db : Database V) id target out, id ∈ db.groups →
    moveGroupTo db id target = some out → out = db.relocateGroup id target
  /-- An identifier that names a group is refused. -/
  addGroupWithId_taken : ∀ (db : Database V) parent id, id ∈ db.groups → addGroupWithId db parent id = none
  /-- An identifier that names nothing is accepted. -/
  addGroupWithId_fresh : ∀ (db : Database V) parent id, parent ∈ db.groups → id ∉ db.groups →
    (⟨id.uuid⟩ : EntryId) ∉ db.entries → (⟨id.uuid⟩ : CustomIconId) ∉ db.customIcons →
    (addGroupWithId db parent id).isSome
  addGroupWithId_eq : ∀ (db : Database V) parent id out, parent ∈ db.groups →
    addGroupWithId db parent id = some out →
    ∃ group : Group V, group.parent = some parent ∧ group.groups = [] ∧ group.entries = [] ∧
      out = db.insertGroup parent id group
  /-- Removing a group removes its whole remaining subtree. -/
  removeGroup_spec : ∀ (db : Database V) id, id ∈ db.groups → id ≠ db.root →
    db.WithoutGroup cleared id (removeGroup db id)
  recyclebinUuid_cleared : Meta.recyclebinUuid ∈ cleared
  removeGroup_attachments : ∀ (db : Database V) id a, (removeGroup db id).Refers a →
    (removeGroup db id).attachments[a]? = db.attachments[a]?
  moveEntryTo_isSome : ∀ (db : Database V) id target, id ∈ db.entries →
    ((moveEntryTo db id target).isSome ↔ target ∈ db.groups)
  moveEntryTo_eq : ∀ (db : Database V) id target out, id ∈ db.entries →
    moveEntryTo db id target = some out → out = db.relocateEntry id target
  addEntryWithId_taken : ∀ (db : Database V) parent id, id ∈ db.entries → addEntryWithId db parent id = none
  addEntryWithId_fresh : ∀ (db : Database V) parent id, parent ∈ db.groups → id ∉ db.entries →
    (⟨id.uuid⟩ : GroupId) ∉ db.groups → (⟨id.uuid⟩ : CustomIconId) ∉ db.customIcons →
    (addEntryWithId db parent id).isSome
  addEntryWithId_eq : ∀ (db : Database V) parent id out, parent ∈ db.groups →
    addEntryWithId db parent id = some out →
    ∃ entry : Entry V, out = db.insertEntry parent id entry
  removeEntry_eq : ∀ (db : Database V) id, id ∈ db.entries →
    ∃ table, removeEntry db id = { db.eraseEntry id with attachments := table }
  removeEntry_attachments : ∀ (db : Database V) id a, (removeEntry db id).Refers a →
    (removeEntry db id).attachments[a]? = db.attachments[a]?
  removeCustomIcon_eq : ∀ (db : Database V) id, ∃ clears, removeCustomIcon db id = db.eraseIcon id clears
  /-- Attachments that are still named somewhere survive the removal of a name. -/
  removeAttachmentByName_eq : ∀ (db : Database V) id name, ∃ table,
    removeAttachmentByName db id name =
      { db.editEntry id fun entry => { entry with attachments := entry.attachments.erase name }
        with attachments := table } ∧
    ∀ a, (removeAttachmentByName db id name).Refers a → table[a]? = db.attachments[a]?
  /-- A new attachment gets an index that holds its value and takes over no index in use. -/
  addAttachment_eq : ∀ (db : Database V) id name value, ∃ a table,
    addAttachment db id name value =
      { db.editEntry id fun entry => { entry with attachments := entry.attachments.insert name a }
        with attachments := table } ∧
    table[a]? = some value ∧ ∀ a', db.Refers a' → table[a']? = db.attachments[a']?

/-! ## A library that keeps the contract -/

namespace Database

/-- Every attachment index that an entry or a snapshot names. -/
def attachmentIds (db : Database V) : List AttachmentId :=
  db.entries.toList.flatMap fun (_, entry) =>
    entry.attachments.toList.map (·.2) ++
      (entry.history.getD []).flatMap fun snapshot => snapshot.attachments.toList.map (·.2)

/-- An attachment index that nothing names. -/
def nextAttachment (db : Database V) : AttachmentId :=
  db.attachmentIds.foldr (fun a next => max (a + 1) next) 0

/-- The groups that go when `id` is removed. -/
def subtree (db : Database V) (id : GroupId) : List GroupId :=
  Forest.spread db.childGroups db.groups.size id

theorem mem_subtree {db : Database V} {id x : GroupId} :
    x ∈ db.subtree id ↔ db.Below id x := by
  apply Forest.mem_spread_of_card (s := db.groups.keys.toFinset)
  · intro z w hw
    simp only [List.mem_toFinset, Std.ExtTreeMap.mem_keys]
    by_contra hz
    simp [childGroups, Std.ExtTreeMap.getElem?_eq_none hz] at hw
  · calc db.groups.keys.toFinset.card ≤ db.groups.keys.length := List.toFinset_card_le _
      _ = db.groups.size := Std.ExtTreeMap.length_keys

/-- One step more than there are groups meets every ancestor. -/
theorem mem_trail_parentOf {db : Database V} {id x : GroupId} :
    id ∈ Forest.trail db.parentOf (db.groups.size + 1) x ↔ Forest.Above db.parentOf id x := by
  apply Forest.mem_trail_of_above (s := db.groups.keys.toFinset)
  · intro z p hz
    simp only [List.mem_toFinset, Std.ExtTreeMap.mem_keys]
    by_contra hmem
    simp [parentOf, Std.ExtTreeMap.getElem?_eq_none hmem] at hz
  · calc db.groups.keys.toFinset.card ≤ db.groups.keys.length := List.toFinset_card_le _
      _ = db.groups.size := Std.ExtTreeMap.length_keys
      _ < db.groups.size + 1 := Nat.lt_succ_self _

theorem lt_foldr_succ {a : Nat} {l : List Nat} (h : a ∈ l) :
    a < l.foldr (fun b next => max (b + 1) next) 0 := by
  induction l with
  | nil => cases h
  | cons b rest ih =>
    simp only [List.foldr_cons]
    rcases List.mem_cons.mp h with rfl | h
    · omega
    · have := ih h
      omega

theorem not_refers_nextAttachment (db : Database V) : ¬ db.Refers db.nextAttachment := by
  rintro ⟨id, entry, he, h⟩
  suffices hmem : db.nextAttachment ∈ db.attachmentIds from
    Nat.lt_irrefl _ (lt_foldr_succ hmem)
  simp only [attachmentIds, List.mem_flatMap, List.mem_append, List.mem_map]
  refine ⟨(id, entry), Std.ExtTreeMap.mem_toList_iff_getElem?_eq_some.mpr he, ?_⟩
  rcases h with ⟨name, hn⟩ | ⟨snapshot, hs, name, hn⟩
  · exact Or.inl ⟨(name, _), Std.ExtTreeMap.mem_toList_iff_getElem?_eq_some.mpr hn, rfl⟩
  · exact Or.inr ⟨snapshot, hs, (name, _), Std.ExtTreeMap.mem_toList_iff_getElem?_eq_some.mpr hn,
      rfl⟩

/-- Removes the subtree of `id` and the entries its groups list. -/
def eraseGroup (db : Database V) (id : GroupId) : Database V :=
  let removed := db.subtree id
  let removedEntries := removed.flatMap db.childEntries
  { db with
    groups := (db.groups.filter fun x _ => x ∉ removed).map fun x group =>
      group.mapGroups fun children =>
        if db.parentOf id = some x then children.filter (· ≠ id) else children
    entries := db.entries.filter fun e _ => e ∉ removedEntries
    metadata := db.metadata.mapReferences (·.filter fun uuid =>
      ¬ ((⟨uuid⟩ : GroupId) ∈ db.groups ∧ ⟨uuid⟩ ∈ removed)) }

theorem eraseGroup_spec (db : Database V) (id : GroupId) :
    db.WithoutGroup Meta.references id (db.eraseGroup id) where
  gone x hx := by
    simp [eraseGroup, mem_subtree, hx]
  kept x hx := by
    simp only [eraseGroup, Std.ExtTreeMap.getElem?_map, Std.ExtTreeMap.getElem?_filter',
      mem_subtree, hx]
    cases db.groups[x]? <;> rfl
  entriesGone x e hx he := by
    have hmem : e ∈ (db.subtree id).flatMap db.childEntries :=
      List.mem_flatMap.mpr ⟨x, mem_subtree.mpr hx, he⟩
    simp [eraseGroup, hmem, -List.mem_flatMap]
  entriesKept e he := by
    have hmem : e ∉ (db.subtree id).flatMap db.childEntries := by
      intro h
      obtain ⟨x, hx, hex⟩ := List.mem_flatMap.mp h
      exact he x (mem_subtree.mp hx) hex
    simp only [eraseGroup, Std.ExtTreeMap.getElem?_filter', hmem]
    cases db.entries[e]? <;> rfl
  root := rfl
  config := rfl
  references reference hreference uuid := by
    have hfilter : ∀ stored : Option Uuid,
        (stored.filter fun uuid => decide
            ¬ ((⟨uuid⟩ : GroupId) ∈ db.groups ∧ ⟨uuid⟩ ∈ db.subtree id)) = some uuid ↔
          stored = some uuid ∧
            ¬ (reference ∈ Meta.references ∧ ⟨uuid⟩ ∈ db.groups ∧ db.Below id ⟨uuid⟩) := by
      intro stored
      rw [Option.filter_eq_some_iff, decide_eq_true_iff, mem_subtree]
      simp only [hreference, true_and]
    simp only [Meta.references, List.mem_cons, List.not_mem_nil, or_false] at hreference
    rcases hreference with rfl | rfl | rfl | rfl <;> exact hfilter _
  metadata := rfl
  customIcons := rfl
  deletedObjects := rfl

end Database

/-- The library at its simplest: attachment values are never collected, a dangling previous
parent is not found, an identifier is refused only for an object of its own kind, every snapshot
loses a removed icon and all metadata forget a removed group. -/
def reference : Keepass V where
  previousParent db id := id.filter (· ∈ db.groups)
  moveGroupTo db id target :=
    if target ∈ db.groups ∧ id ≠ db.root ∧
      id ∉ Forest.trail db.parentOf (db.groups.size + 1) target
    then some (db.relocateGroup id target) else none
  addGroupWithId db parent id :=
    if id ∈ db.groups then none else some (db.insertGroup parent id { parent := some parent })
  removeGroup := Database.eraseGroup
  moveEntryTo db id target := if target ∈ db.groups then some (db.relocateEntry id target) else none
  addEntryWithId db parent id :=
    if id ∈ db.entries then none else some (db.insertEntry parent id { parent := parent })
  removeEntry := Database.eraseEntry
  removeCustomIcon db id := db.eraseIcon id fun _ _ => true
  cleared := Meta.references
  removeAttachmentByName db id name :=
    db.editEntry id fun entry => { entry with attachments := entry.attachments.erase name }
  addAttachment db id name value :=
    let a := db.nextAttachment
    { db.editEntry id fun entry => { entry with attachments := entry.attachments.insert name a }
      with attachments := db.attachments.insert a value }
  previousParent_live db id h := by simp [h]
  previousParent_none db := rfl
  moveGroupTo_isSome db id target _ := by
    have hcycle : id ∈ Forest.trail db.parentOf (db.groups.size + 1) target ↔
        Forest.Above db.parentOf id target := Database.mem_trail_parentOf
    split <;> simp_all
  moveGroupTo_eq db id target out _ h := by
    split at h
    · exact (Option.some.inj h).symm
    · cases h
  addGroupWithId_taken db parent id h := by simp [h]
  addGroupWithId_fresh db parent id _ h _ _ := by simp [h]
  addGroupWithId_eq db parent id out _ h := by
    split at h
    · cases h
    · exact ⟨_, rfl, rfl, rfl, (Option.some.inj h).symm⟩
  removeGroup_spec db id _ _ := db.eraseGroup_spec id
  removeGroup_attachments db id a _ := rfl
  moveEntryTo_isSome db id target _ := by by_cases h : target ∈ db.groups <;> simp [h]
  moveEntryTo_eq db id target out _ h := by
    split at h
    · exact (Option.some.inj h).symm
    · cases h
  addEntryWithId_taken db parent id h := by simp [h]
  addEntryWithId_fresh db parent id _ h _ _ := by simp [h]
  addEntryWithId_eq db parent id out _ h := by
    split at h
    · cases h
    · exact ⟨_, (Option.some.inj h).symm⟩
  removeEntry_eq db id _ := ⟨db.attachments, rfl⟩
  removeEntry_attachments db id a _ := rfl
  recyclebinUuid_cleared := List.mem_cons_self
  removeCustomIcon_eq db id := ⟨fun _ _ => true, rfl⟩
  removeAttachmentByName_eq db id name := ⟨db.attachments, rfl, fun _ _ => rfl⟩
  addAttachment_eq db id name value := by
    refine ⟨db.nextAttachment, _, rfl, by simp, ?_⟩
    intro a ha
    have hne : db.nextAttachment ≠ a := by
      rintro rfl
      exact db.not_refers_nextAttachment ha
    simp [Std.ExtTreeMap.getElem?_insert, hne]

end NianPass.Kdbx
