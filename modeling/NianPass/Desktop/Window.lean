import NianPass.Desktop.Relations

/-
  What becomes of a snapshot between the vault and the window.

  `Reads` says that a parser of the window takes what the Rust side writes for what was meant, if
  it is presentable, and refuses it otherwise. The parts are put together field by field up
  to the snapshot (`reads_snapshot`). The projection of a database that is a tree is proper
  (`proper_coreFromVault`). So the window refuses what has the root for a bin, an empty
  tag or an expiry out of range, and nothing else (`parseVaultSnapshot_fromSession_iff`).
-/
namespace NianPass.Desktop.Snapshot

open Kdbx
open Browser (JsValue recordWithKeys field)
open Kdbx.Projection (EntryIcon EntrySummary projection projectIcon projectEntrySummary
  convertGroup summariesIn mem_summariesIn)

/-! ## Reading what was written -/

/-- The parser takes what was written for what was meant if that is presentable, and refuses it
otherwise. -/
def Reads {α β : Type} (parse : β → Option α) (write : α → β) (P : α → Prop) : Prop :=
  ∀ x y, parse (write x) = some y ↔ P x ∧ y = x

theorem Reads.bind {α β γ : Type} {parse : β → Option α} {write : α → β} {P : α → Prop}
    (h : Reads parse write P) {x : α} {f : α → Option γ} {y : γ} :
    (parse (write x)).bind f = some y ↔ P x ∧ f x = some y := by
  rw [Option.bind_eq_some_iff]
  constructor
  · rintro ⟨read, hread, hf⟩
    obtain ⟨hx, rfl⟩ := (h x read).1 hread
    exact ⟨hx, hf⟩
  · rintro ⟨hx, hf⟩
    exact ⟨x, (h x x).2 ⟨hx, rfl⟩, hf⟩

theorem reads_list {α β : Type} {parse : β → Option α} {write : α → β} {P : α → Prop}
    (h : Reads parse write P) : Reads (List.mapM parse) (List.map write) (∀ item ∈ ·, P item) := by
  intro items read
  show (items.map write).mapM parse = some read ↔ (∀ item ∈ items, P item) ∧ read = items
  induction items generalizing read with
  | nil =>
    constructor
    · intro hread
      exact ⟨(fun _ hitem => nomatch hitem), (Option.some.inj hread).symm⟩
    · rintro ⟨-, rfl⟩
      rfl
  | cons item items ih =>
    rw [List.map_cons, List.mapM_cons, List.forall_mem_cons, Option.bind_eq_bind, h.bind,
      Option.bind_eq_bind, Option.bind_eq_some_iff]
    constructor
    · rintro ⟨hitem, rest, hrest, hread⟩
      obtain ⟨hall, rfl⟩ := (ih rest).1 hrest
      exact ⟨⟨hitem, hall⟩, (Option.some.inj hread).symm⟩
    · rintro ⟨⟨hitem, hall⟩, rfl⟩
      exact ⟨hitem, items, (ih items).2 ⟨hall, rfl⟩, rfl⟩

/-- What may be missing is read like what is there. -/
theorem reads_nullable {α : Type} {parse : JsValue → Option (Option α)} {write : α → JsValue}
    {P : α → Prop} (hnull : parse .null = some none)
    (hsome : ∀ x y, parse (write x) = some y ↔ P x ∧ y = some x) :
    Reads parse (fun x => jsNullable (x.map write)) fun x => ∀ value, x = some value → P value := by
  intro x y
  cases x with
  | none =>
    show parse .null = some y ↔ _
    rw [hnull]
    constructor
    · intro hread
      exact ⟨(fun _ hvalue => nomatch hvalue), (Option.some.inj hread).symm⟩
    · rintro ⟨-, rfl⟩
      rfl
  | some value =>
    show parse (write value) = some y ↔ _
    rw [hsome]
    constructor
    · rintro ⟨hvalue, rfl⟩
      exact ⟨fun _ heq => Option.some.inj heq ▸ hvalue, rfl⟩
    · rintro ⟨hvalue, rfl⟩
      exact ⟨hvalue value rfl, rfl⟩

/-! ### Fields -/

theorem recordWithKeys_object {fields : List (String × JsValue)} {keys : List String}
    (h : fields.map Prod.fst = keys) : recordWithKeys (.object fields) keys = some fields :=
  if_pos (h ▸ List.Perm.refl _)

@[simp] theorem field_cons_self (fields : List (String × JsValue)) (key : String)
    (value : JsValue) : field ((key, value) :: fields) key = value := by
  simp [field]

@[simp] theorem field_cons_ne {fields : List (String × JsValue)} {other key : String}
    (h : other ≠ key) (value : JsValue) :
    field ((other, value) :: fields) key = field fields key := by
  simp [field, h]

/-! ### The parts of a snapshot -/

theorem reads_string : Reads stringValue .string fun _ => True := by
  intro x y
  simp [stringValue, eq_comm]

theorem reads_boolean : Reads booleanValue .boolean fun _ => True := by
  intro x y
  simp [booleanValue, eq_comm]

theorem reads_nonEmptyString : Reads nonEmptyString .string (· ≠ "") := by
  intro x y
  rw [nonEmptyString]
  split
  · next h => simp [h]
  · next h => simp [h, eq_comm]

theorem reads_strings : Reads strings jsStrings (∀ value ∈ ·, value ≠ "") :=
  reads_list reads_nonEmptyString

theorem reads_nullableString :
    Reads nullableString (fun x => jsNullable (x.map .string))
      fun x => ∀ value, x = some value → value ≠ "" := by
  refine reads_nullable rfl fun x y => ?_
  show (nonEmptyString (.string x)).map some = some y ↔ _
  rw [Option.map_eq_some_iff]
  constructor
  · rintro ⟨read, hread, rfl⟩
    obtain ⟨hx, rfl⟩ := (reads_nonEmptyString x read).1 hread
    exact ⟨hx, rfl⟩
  · rintro ⟨hx, rfl⟩
    exact ⟨x, (reads_nonEmptyString x x).2 ⟨hx, rfl⟩, rfl⟩

/-- A number of seconds that the window can count. -/
def Safe (value : ℤ) : Prop := isSafeInteger value = true

theorem reads_expiry :
    Reads nullableSafeInteger (fun x => jsNullable (x.map fun time => .number (.integer time)))
      fun x => ∀ value, x = some value → Safe value := by
  refine reads_nullable rfl fun x y => ?_
  show (if isSafeInteger x then some (some x) else none) = some y ↔ isSafeInteger x = true ∧ _
  by_cases hx : isSafeInteger x = true
  · rw [if_pos hx]
    exact ⟨fun h => ⟨hx, (Option.some.inj h).symm⟩, fun h => congrArg some h.2.symm⟩
  · rw [if_neg hx]
    exact ⟨fun h => (nomatch h), fun h => absurd h.1 hx⟩

theorem reads_summary : Reads parseSummaryText summaryJs fun _ => True := by
  intro x y
  cases x <;> simp [parseSummaryText, summaryJs, recordWithKeys, stringValue, eq_comm]

/-- A standard icon has a small number. -/
def StandardIcon : EntryIcon → Prop
  | .builtIn id => id ≤ MAX_STANDARD_ICON_ID
  | _ => True

theorem reads_icon : Reads parseEntryIcon iconJs StandardIcon := by
  intro x y
  cases x with
  | builtIn id =>
    have hrecord : recordWithKeys (iconJs (.builtIn id)) ["kind", "id"] =
        some [("kind", .string "built_in"), ("id", .number (.integer id))] :=
      recordWithKeys_object rfl
    have hbound : (isSafeInteger id = true ∧ (0 : ℤ) ≤ id ∧ (id : ℤ) ≤ MAX_STANDARD_ICON_ID) ↔
        id ≤ MAX_STANDARD_ICON_ID := by
      simp [isSafeInteger, MAX_SAFE_INTEGER, MAX_STANDARD_ICON_ID]
      omega
    have hparse : parseEntryIcon (iconJs (.builtIn id)) =
        if id ≤ MAX_STANDARD_ICON_ID then some (.builtIn id) else none := by
      rw [iconJs] at hrecord ⊢
      simp only [parseEntryIcon, field_cons_self, hrecord, Option.bind_eq_bind, Option.bind_some,
        ne_eq, String.reduceEq, not_false_eq_true, field_cons_ne, Int.toNat_natCast]
      exact if_congr hbound rfl rfl
    rw [hparse]
    show (if id ≤ MAX_STANDARD_ICON_ID then some (EntryIcon.builtIn id) else none) = some y ↔
      id ≤ MAX_STANDARD_ICON_ID ∧ y = .builtIn id
    split
    · next h =>
      exact ⟨fun heq => ⟨h, (Option.some.inj heq).symm⟩, fun heq => congrArg some heq.2.symm⟩
    · next h => exact ⟨fun heq => (nomatch heq), fun heq => absurd heq.1 h⟩
  | _ => simp [parseEntryIcon, iconJs, recordWithKeys, StandardIcon, eq_comm]

/-- What the window can tell of a group. -/
structure GroupDto.Presentable (group : GroupDto) : Prop where
  id : group.id ≠ ""
  childGroupIds : ∀ id ∈ group.childGroupIds, id ≠ ""
  entryIds : ∀ id ∈ group.entryIds, id ≠ ""

theorem reads_group : Reads parseGroup GroupDto.toJs GroupDto.Presentable := by
  intro x y
  have hrecord : recordWithKeys x.toJs ["id", "name", "childGroupIds", "entryIds"] =
      some [("id", .string x.id), ("name", .string x.name),
        ("childGroupIds", jsStrings x.childGroupIds), ("entryIds", jsStrings x.entryIds)] :=
    recordWithKeys_object rfl
  rw [parseGroup, hrecord]
  simp only [Option.bind_eq_bind, Option.bind_some, field_cons_self, ne_eq, String.reduceEq,
    not_false_eq_true, field_cons_ne, reads_nonEmptyString.bind, reads_string.bind,
    reads_strings.bind]
  constructor
  · rintro ⟨hid, -, hchildren, hentries, hy⟩
    exact ⟨⟨hid, hchildren, hentries⟩, (Option.some.inj hy).symm⟩
  · rintro ⟨h, rfl⟩
    exact ⟨h.id, trivial, h.childGroupIds, h.entryIds, rfl⟩

/-- What the window can tell of an entry. -/
structure EntrySummaryDto.Presentable (entry : EntrySummaryDto) : Prop where
  id : entry.id ≠ ""
  groupId : entry.groupId ≠ ""
  tags : ∀ tag ∈ entry.tags, tag ≠ ""
  expiry : ∀ time, entry.expiresAtUnixSeconds = some time → Safe time
  icon : StandardIcon entry.icon

theorem reads_entry : Reads parseEntry EntrySummaryDto.toJs EntrySummaryDto.Presentable := by
  intro x y
  obtain ⟨object, hobject⟩ : ∃ object, x.toJs = .object object := ⟨_, rfl⟩
  have hrecord : recordWithKeys x.toJs ["id", "groupId", "title", "username", "url",
      "passwordPresent", "notesPresent", "totpPresent", "tags", "expiresAtUnixSeconds", "icon"] =
      some object := by
    rw [hobject]
    cases hobject
    exact recordWithKeys_object rfl
  have hfields : field object "id" = .string x.id ∧ field object "groupId" = .string x.groupId ∧
      field object "title" = summaryJs x.title ∧ field object "username" = summaryJs x.username ∧
      field object "url" = summaryJs x.url ∧
      field object "passwordPresent" = .boolean x.hasPassword ∧
      field object "notesPresent" = .boolean x.hasNotes ∧
      field object "totpPresent" = .boolean x.hasTotp ∧
      field object "tags" = jsStrings x.tags ∧
      field object "expiresAtUnixSeconds" =
        jsNullable (x.expiresAtUnixSeconds.map fun time => .number (.integer time)) ∧
      field object "icon" = iconJs x.icon := by
    cases hobject
    simp [field]
  obtain ⟨hid, hgroup, htitle, husername, hurl, hpassword, hnotes, htotp, htags, hexpiry, hicon⟩ :=
    hfields
  simp only [parseEntry, hrecord, Option.bind_eq_bind, Option.bind_some, hid, hgroup, htitle,
    husername, hurl, hpassword, hnotes, htotp, htags, hexpiry, hicon]
  rw [reads_boolean.bind, reads_boolean.bind, reads_boolean.bind, reads_nonEmptyString.bind,
    reads_nonEmptyString.bind, reads_summary.bind, reads_summary.bind, reads_summary.bind,
    reads_strings.bind, reads_expiry.bind, reads_icon.bind]
  simp only [true_and]
  constructor
  · rintro ⟨hid, hgroup, htags, hexpiry, hicon, hy⟩
    exact ⟨⟨hid, hgroup, htags, hexpiry, hicon⟩, (Option.some.inj hy).symm⟩
  · rintro ⟨h, rfl⟩
    exact ⟨h.id, h.groupId, h.tags, h.expiry, h.icon, rfl⟩

/-! ### The snapshot -/

theorem reads_restriction :
    Reads parseWriteRestriction (fun x => jsNullable (x.map fun r => .string r.text))
      fun _ => True := by
  intro x y
  have hparse : parseWriteRestriction (jsNullable (x.map fun r => .string r.text)) = some x := by
    rcases x with _ | _ | _ | _ <;> decide
  rw [hparse, true_and, eq_comm, Option.some_inj]

structure VaultCapabilities.Presentable (capabilities : VaultCapabilities) : Prop where
  formatVersion : capabilities.formatVersion ≠ ""
  writable : capabilities.writable = capabilities.writeRestriction.isNone

theorem reads_capabilities :
    Reads parseVaultCapabilities VaultCapabilities.toJs VaultCapabilities.Presentable := by
  intro x y
  have hrecord : recordWithKeys x.toJs ["formatVersion", "writable", "writeRestriction"] =
      some [("formatVersion", .string x.formatVersion), ("writable", .boolean x.writable),
        ("writeRestriction", jsNullable (x.writeRestriction.map fun r => .string r.text))] :=
    recordWithKeys_object rfl
  rw [parseVaultCapabilities, hrecord]
  simp only [Option.bind_eq_bind, Option.bind_some, field_cons_self, ne_eq, String.reduceEq,
    not_false_eq_true, field_cons_ne, reads_boolean.bind, reads_restriction.bind, true_and]
  by_cases hwritable : x.writable = x.writeRestriction.isNone
  · rw [if_neg (not_not_intro hwritable), reads_nonEmptyString.bind]
    constructor
    · rintro ⟨hversion, hy⟩
      exact ⟨⟨hversion, hwritable⟩, (Option.some.inj hy).symm⟩
    · rintro ⟨h, rfl⟩
      exact ⟨h.formatVersion, rfl⟩
  · rw [if_pos hwritable]
    exact ⟨fun h => (nomatch h), fun h => absurd h.1.writable hwritable⟩

theorem relations_bind {snapshot : VaultCoreSnapshot} {f : Unit → Option VaultSnapshot}
    {y : VaultSnapshot} : (validateSnapshotRelations snapshot).bind f = some y ↔
      Proper snapshot ∧ f () = some y := by
  rw [Option.bind_eq_some_iff, ← validateSnapshotRelations_iff]
  exact ⟨fun ⟨_, h⟩ => h, fun h => ⟨(), h⟩⟩

/-- What the window can tell of a vault. -/
structure VaultSnapshot.Presentable (snapshot : VaultSnapshot) : Prop where
  fileName : snapshot.fileName ≠ ""
  capabilities : snapshot.capabilities.Presentable
  recycleBinGroupId : ∀ id, snapshot.recycleBinGroupId = some id → id ≠ ""
  rootGroupId : snapshot.rootGroupId ≠ ""
  groups : ∀ group ∈ snapshot.groups, group.Presentable
  entries : ∀ entry ∈ snapshot.entries, entry.Presentable
  relations : Proper snapshot.toVaultCoreSnapshot

theorem reads_snapshot : Reads parseVaultSnapshot VaultSnapshot.toJs VaultSnapshot.Presentable := by
  intro x y
  have hrecord : recordWithKeys x.toJs ["dirty", "fileName", "capabilities", "recycleBinEnabled",
      "recycleBinGroupId", "rootGroupId", "groups", "entries"] =
      some [("dirty", .boolean x.dirty), ("fileName", .string x.fileName),
        ("capabilities", x.capabilities.toJs),
        ("recycleBinEnabled", .boolean x.recycleBinEnabled),
        ("recycleBinGroupId", jsNullable (x.recycleBinGroupId.map .string)),
        ("rootGroupId", .string x.rootGroupId),
        ("groups", .array (x.groups.map GroupDto.toJs)),
        ("entries", .array (x.entries.map EntrySummaryDto.toJs))] :=
    recordWithKeys_object rfl
  have harray (items : List JsValue) : arrayValue (.array items) = some items := rfl
  rw [parseVaultSnapshot, hrecord]
  simp only [parseVaultCoreRecord, Option.bind_eq_bind, Option.bind_some, Option.bind_assoc,
    field_cons_self, ne_eq, String.reduceEq, not_false_eq_true, field_cons_ne, harray,
    reads_boolean.bind, reads_nullableString.bind, reads_nonEmptyString.bind, true_and]
  rw [(reads_list reads_group).bind, (reads_list reads_entry).bind, relations_bind,
    reads_nonEmptyString.bind, reads_capabilities.bind]
  constructor
  · rintro ⟨hbin, hroot, hgroups, hentries, hrelations, hname, hcapabilities, hy⟩
    exact ⟨⟨hname, hcapabilities, hbin, hroot, hgroups, hentries, hrelations⟩,
      (Option.some.inj hy).symm⟩
  · rintro ⟨h, rfl⟩
    exact ⟨h.recycleBinGroupId, h.rootGroupId, h.groups, h.entries, h.relations, h.fileName,
      h.capabilities, rfl⟩

/-! ## The projection of a tree -/

variable {V : Type} {db : Database V}

/-- A group as the window gets it. -/
def groupDto (db : Database V) (id : GroupId) : GroupDto where
  id := Database.uuidText id.uuid
  name := (db.groups[id]?.map (·.name)).getD ""
  childGroupIds := (db.childGroups id).map fun child => Database.uuidText child.uuid
  entryIds := (summariesIn db id).map (·.id)

/-- The entries of a group as the window gets them. -/
def entryDtos (db : Database V) (id : GroupId) : List EntrySummaryDto :=
  (summariesIn db id).map (EntrySummaryDto.mk · (Database.uuidText id.uuid))

theorem id_convertGroup (fuel : ℕ) (id : GroupId) :
    (convertGroup db fuel id).id = Database.uuidText id.uuid := by
  cases fuel <;> rfl

theorem collectGroups_eq (groups : List Projection.Group) : collectGroups groups =
    (groups.flatMap fun group => (collectGroup group).1,
      groups.flatMap fun group => (collectGroup group).2) := by
  induction groups with
  | nil => rfl
  | cons group groups ih => rw [collectGroups, ih, List.flatMap_cons, List.flatMap_cons]

/-- Where no walk down is as long as the fuel, every group below comes with all it has. -/
theorem collectGroup_convertGroup {fuel : ℕ} {id : GroupId}
    (h : ∀ x, ¬ Forest.Steps (fun p c => c ∈ db.childGroups p) fuel id x) :
    collectGroup (convertGroup db fuel id) =
      ((Forest.spread db.childGroups fuel id).map (groupDto db),
        (Forest.spread db.childGroups fuel id).flatMap (entryDtos db)) := by
  induction fuel generalizing id with
  | zero => exact absurd rfl (h id)
  | succ fuel ih =>
    have hchild : ∀ child ∈ db.childGroups id, collectGroup (convertGroup db fuel child) =
        ((Forest.spread db.childGroups fuel child).map (groupDto db),
          (Forest.spread db.childGroups fuel child).flatMap (entryDtos db)) :=
      fun child hchild => ih fun x hsteps => h x ⟨child, hchild, hsteps⟩
    rw [convertGroup, collectGroup, collectGroups_eq, Forest.spread]
    refine Prod.ext ?_ ?_
    · simp only [List.map_cons, List.map_flatMap, List.flatMap_map, groupDto, List.map_map]
      refine congrArg₂ _ ?_ (List.flatMap_congr fun child hmem => ?_)
      · simp only [Function.comp_def, id_convertGroup]
      · rw [hchild child hmem]
    · simp only [List.flatMap_cons, List.flatMap_assoc, List.flatMap_map]
      refine congrArg₂ _ rfl (List.flatMap_congr fun child hmem => ?_)
      rw [hchild child hmem]

/-- The groups in the order in which they are collected. -/
def groupsInOrder (db : Database V) : List GroupId :=
  Forest.spread db.childGroups (db.groups.size + 1) db.root

section Tree

theorem owned_of_mem (htree : IsTree db) (p c : GroupId) (h : c ∈ db.childGroups p) :
    db.parentOf c = some p :=
  (htree.owned p c h).resolve_right id

theorem homeOf_of_mem (htree : IsTree db) {p : GroupId} {e : EntryId}
    (h : e ∈ db.childEntries p) : db.homeOf e = some p :=
  (htree.entryOwned p e h).resolve_right id

theorem mem_groups_of_steps (htree : IsTree db) {k : ℕ} {x : GroupId}
    (h : Forest.Steps (fun p c => c ∈ db.childGroups p) k db.root x) : x ∈ db.groups := by
  cases k with
  | zero => exact h ▸ htree.rootMem
  | succ k =>
    obtain ⟨z, hz, hlast⟩ := Forest.steps_add.1 h
    obtain ⟨y, hy, rfl⟩ := hlast
    exact mem_groups_of_parentOf (owned_of_mem htree z y hy)

theorem mem_groupsInOrder (htree : IsTree db) {x : GroupId} :
    x ∈ groupsInOrder db ↔ x ∈ db.groups := by
  constructor
  · intro hx
    obtain ⟨k, -, hsteps⟩ := Forest.mem_spread.1 hx
    exact mem_groups_of_steps htree hsteps
  · intro hx
    have hbelow : db.Below db.root x := (below_iff_above htree).2 (htree.reach x hx)
    refine (Forest.mem_spread_of_card (s := db.groups.keys.toFinset) ?_ ?_).2 hbelow
    · intro p c hc
      obtain ⟨group, hgroup, -⟩ := mem_childGroups.1 hc
      exact List.mem_toFinset.2 (Std.ExtTreeMap.mem_keys.2 (mem_iff_exists.2 ⟨group, hgroup⟩))
    · have hcard := db.groups.keys.toFinset_card_le
      rw [Std.ExtTreeMap.length_keys] at hcard
      omega

theorem nodup_groupsInOrder (htree : IsTree db) (htidy : Tidy db) : (groupsInOrder db).Nodup :=
  Forest.nodup_spread (owned_of_mem htree) htidy.groups htree.rootTop _
    (show Forest.climb db.parentOf 0 db.root = some db.root from rfl)

/-- A group is listed once, by its parent. -/
theorem nodup_childrenInOrder (htree : IsTree db) (htidy : Tidy db) :
    ((groupsInOrder db).flatMap db.childGroups).Nodup := by
  refine List.nodup_flatMap.2 ⟨fun p _ => htidy.groups p, ?_⟩
  refine (nodup_groupsInOrder htree htidy).imp fun {p q} hne c hp hq => hne ?_
  exact Option.some.inj ((owned_of_mem htree p c hp).symm.trans (owned_of_mem htree q c hq))

theorem nodup_entriesInOrder (htree : IsTree db) (htidy : Tidy db) :
    ((groupsInOrder db).flatMap db.childEntries).Nodup := by
  refine List.nodup_flatMap.2 ⟨fun p _ => htidy.entries p, ?_⟩
  refine (nodup_groupsInOrder htree htidy).imp fun {p q} hne e hp hq => hne ?_
  exact Option.some.inj ((homeOf_of_mem htree hp).symm.trans (homeOf_of_mem htree hq))

/-- No walk from the root is longer than there are groups. -/
theorem no_long_walk (htree : IsTree db) (htidy : Tidy db) (x : GroupId) :
    ¬ Forest.Steps (fun p c => c ∈ db.childGroups p) (db.groups.size + 1) db.root x := by
  intro hsteps
  have hlong := Forest.lt_length_spread hsteps
  have hshort : (groupsInOrder db).length ≤ db.groups.keys.length := by
    refine ((nodup_groupsInOrder htree htidy).subperm fun y hy => ?_).length_le
    exact Std.ExtTreeMap.mem_keys.2 ((mem_groupsInOrder htree).1 hy)
  rw [Std.ExtTreeMap.length_keys, groupsInOrder] at hshort
  omega

theorem collectGroup_projection (htree : IsTree db) (htidy : Tidy db) :
    collectGroup (projection db) =
      ((groupsInOrder db).map (groupDto db), (groupsInOrder db).flatMap (entryDtos db)) :=
  collectGroup_convertGroup (no_long_walk htree htidy)

theorem groups_coreFromVault (htree : IsTree db) (htidy : Tidy db) (dirty : Bool) :
    (coreFromVault db dirty).groups = (groupsInOrder db).map (groupDto db) :=
  congrArg Prod.fst (collectGroup_projection htree htidy)

theorem entries_coreFromVault (htree : IsTree db) (htidy : Tidy db) (dirty : Bool) :
    (coreFromVault db dirty).entries = (groupsInOrder db).flatMap (entryDtos db) :=
  congrArg Prod.snd (collectGroup_projection htree htidy)

/-- Every entry that a group lists is summarised. -/
theorem map_id_summariesIn (htree : IsTree db) (p : GroupId) :
    (summariesIn db p).map (·.id) =
      (db.childEntries p).map fun id => Database.uuidText id.uuid := by
  have hlive : ∀ id ∈ db.childEntries p, ∃ entry, db.entries[id]? = some entry := by
    intro id hid
    obtain ⟨entry, hentry, -⟩ := homeOf_eq_some.1 (homeOf_of_mem htree hid)
    exact ⟨entry, hentry⟩
  unfold summariesIn
  generalize db.childEntries p = ids at hlive ⊢
  induction ids with
  | nil => rfl
  | cons id rest ih =>
    obtain ⟨⟨entry, hentry⟩, hrest⟩ := List.forall_mem_cons.1 hlive
    rw [List.filterMap_cons, hentry, Option.map_some, List.map_cons, List.map_cons, ih hrest]
    rfl

theorem groupIds_coreFromVault (htree : IsTree db) (htidy : Tidy db) (dirty : Bool) :
    (coreFromVault db dirty).groups.map (·.id) =
      (groupsInOrder db).map fun id => Database.uuidText id.uuid := by
  rw [groups_coreFromVault htree htidy, List.map_map]
  rfl

theorem entryIds_coreFromVault (htree : IsTree db) (htidy : Tidy db) (dirty : Bool) :
    (coreFromVault db dirty).entries.map (·.id) =
      ((groupsInOrder db).flatMap db.childEntries).map fun id => Database.uuidText id.uuid := by
  rw [entries_coreFromVault htree htidy, List.map_flatMap, List.map_flatMap]
  refine List.flatMap_congr fun id _ => ?_
  rw [← map_id_summariesIn htree, entryDtos, List.map_map]
  rfl

theorem mem_groups_coreFromVault (htree : IsTree db) (htidy : Tidy db) {dirty : Bool}
    {group : GroupDto} : group ∈ (coreFromVault db dirty).groups ↔
      ∃ id ∈ db.groups, group = groupDto db id := by
  rw [groups_coreFromVault htree htidy, List.mem_map]
  constructor
  · rintro ⟨id, hid, rfl⟩
    exact ⟨id, (mem_groupsInOrder htree).1 hid, rfl⟩
  · rintro ⟨id, hid, rfl⟩
    exact ⟨id, (mem_groupsInOrder htree).2 hid, rfl⟩

theorem groupText_injective :
    Function.Injective fun id : GroupId => Database.uuidText id.uuid := by
  rintro ⟨a⟩ ⟨b⟩ h
  exact congrArg _ (uuidText_injective h)

theorem entryText_injective :
    Function.Injective fun id : EntryId => Database.uuidText id.uuid := by
  rintro ⟨a⟩ ⟨b⟩ h
  exact congrArg _ (uuidText_injective h)

theorem lists_coreFromVault (htree : IsTree db) (htidy : Tidy db) {dirty : Bool}
    {parent child : String} : Lists (coreFromVault db dirty) parent child ↔
      ∃ p c, c ∈ db.childGroups p ∧ Database.uuidText p.uuid = parent ∧
        Database.uuidText c.uuid = child := by
  constructor
  · rintro ⟨group, hgroup, rfl, hchild⟩
    obtain ⟨p, -, rfl⟩ := (mem_groups_coreFromVault htree htidy).1 hgroup
    obtain ⟨c, hc, rfl⟩ := List.mem_map.1 hchild
    exact ⟨p, c, hc, rfl, rfl⟩
  · rintro ⟨p, c, hc, rfl, rfl⟩
    obtain ⟨group, hgroup, -⟩ := mem_childGroups.1 hc
    have hp : p ∈ db.groups := mem_iff_exists.2 ⟨group, hgroup⟩
    exact ⟨groupDto db p, (mem_groups_coreFromVault htree htidy).2 ⟨p, hp, rfl⟩, rfl,
      List.mem_map_of_mem hc⟩

theorem rootGroupId_coreFromVault (db : Database V) (dirty : Bool) :
    (coreFromVault db dirty).rootGroupId = Database.uuidText db.root.uuid := by
  show (convertGroup db (db.groups.size + 1) db.root).id = _
  rw [id_convertGroup]

theorem mem_of_recycleBinId {id : GroupId} (h : recycleBinId db = some id) : id ∈ db.groups := by
  obtain ⟨uuid, -, hbin⟩ := Option.bind_eq_some_iff.1 h
  split at hbin
  · next hmem => exact Option.some.inj hbin ▸ hmem
  · cases hbin

theorem mem_entries_coreFromVault (htree : IsTree db) (htidy : Tidy db) (dirty : Bool)
    (entry : EntrySummaryDto) : entry ∈ (coreFromVault db dirty).entries ↔
      ∃ id ∈ db.groups, ∃ summary ∈ summariesIn db id,
        entry = ⟨summary, Database.uuidText id.uuid⟩ := by
  rw [entries_coreFromVault htree htidy, List.mem_flatMap]
  constructor
  · rintro ⟨id, hid, hentry⟩
    obtain ⟨summary, hsummary, rfl⟩ := List.mem_map.1 hentry
    exact ⟨id, (mem_groupsInOrder htree).1 hid, summary, hsummary, rfl⟩
  · rintro ⟨id, hid, summary, hsummary, rfl⟩
    exact ⟨id, (mem_groupsInOrder htree).2 hid, List.mem_map_of_mem hsummary⟩

/-- The window's tree of a database is proper unless the root is the bin. -/
theorem proper_coreFromVault (htree : IsTree db) (htidy : Tidy db) (dirty : Bool) :
    Proper (coreFromVault db dirty) ↔ recycleBinId db ≠ some db.root := by
  have hroot := rootGroupId_coreFromVault db dirty
  have hgroup : ∀ id : GroupId, id ∈ db.groups →
      ∃ group ∈ (coreFromVault db dirty).groups, group.id = Database.uuidText id.uuid :=
    fun id hid => ⟨groupDto db id, (mem_groups_coreFromVault htree htidy).2 ⟨id, hid, rfl⟩, rfl⟩
  constructor
  · intro h hbin
    have htext : (coreFromVault db dirty).recycleBinGroupId =
        some (Database.uuidText db.root.uuid) := congrArg (Option.map _) hbin
    exact (h.bin _ htext).1 hroot.symm
  · intro hbin
    constructor
    case groupIds =>
      rw [groupIds_coreFromVault htree htidy]
      exact (nodup_groupsInOrder htree htidy).map groupText_injective
    case entryIds =>
      rw [entryIds_coreFromVault htree htidy]
      exact (nodup_entriesInOrder htree htidy).map entryText_injective
    case root =>
      rw [hroot]
      exact hgroup _ htree.rootMem
    case bin =>
      intro bin hsome
      obtain ⟨id, hid, rfl⟩ := Option.map_eq_some_iff.1 hsome
      refine ⟨fun heq => hbin ?_, hgroup id ?_⟩
      · rw [hid, groupText_injective (heq.trans hroot)]
      · exact mem_of_recycleBinId hid
    case child =>
      intro parent child hlists
      obtain ⟨p, c, hc, rfl, rfl⟩ := (lists_coreFromVault htree htidy).1 hlists
      have hparent := owned_of_mem htree p c hc
      refine ⟨fun heq => ?_, hgroup c (mem_groups_of_parentOf hparent)⟩
      have htop := htree.rootTop
      rw [← groupText_injective (heq.trans hroot), hparent] at htop
      cases htop
    case oneParent =>
      rw [groups_coreFromVault htree htidy, List.flatMap_map]
      have := (nodup_childrenInOrder htree htidy).map groupText_injective
      rwa [List.map_flatMap] at this
    case reached =>
      intro group hmem
      obtain ⟨id, hid, rfl⟩ := (mem_groups_coreFromVault htree htidy).1 hmem
      have hbelow : db.Below db.root id := (below_iff_above htree).2 (htree.reach id hid)
      rw [hroot]
      have hstep : ∀ p c : GroupId, c ∈ db.childGroups p → Lists (coreFromVault db dirty)
          (Database.uuidText p.uuid) (Database.uuidText c.uuid) :=
        fun p c hc => (lists_coreFromVault htree htidy).2 ⟨p, c, hc, rfl, rfl⟩
      exact (Forest.exists_steps_iff.1 hbelow).lift _ hstep
    case member =>
      intro group hmem text htext
      obtain ⟨id, hid, rfl⟩ := (mem_groups_coreFromVault htree htidy).1 hmem
      obtain ⟨summary, hsummary, rfl⟩ := List.mem_map.1 htext
      have hentry := (mem_entries_coreFromVault htree htidy dirty _).2
        ⟨id, hid, summary, hsummary, rfl⟩
      exact ⟨_, hentry, rfl, rfl⟩
    case listedOnce =>
      rw [entryIds_coreFromVault htree htidy, groups_coreFromVault htree htidy, List.flatMap_map,
        List.map_flatMap]
      refine List.Perm.of_eq (List.flatMap_congr fun id _ => ?_)
      exact map_id_summariesIn htree id

end Tree

/-! ## From the vault to the window -/

/-- Nothing in the database that the window refuses. -/
structure Shown (db : Database V) : Prop where
  bin : recycleBinId db ≠ some db.root
  tags : ∀ (id : EntryId) (entry : Entry V), db.entries[id]? = some entry →
    ∀ tag ∈ entry.tags, tag ≠ ""
  expiry : ∀ (id : EntryId) (entry : Entry V), db.entries[id]? = some entry →
    entry.times.expires = some true → Safe entry.times.expiry

theorem uuidText_ne_empty (id : Uuid) : Database.uuidText id ≠ "" := by
  intro h
  have hlength := congrArg String.length h
  simp [Database.uuidText] at hlength

theorem versionText_ne_empty (version : KdbxVersion) : versionText version ≠ "" := by
  intro h
  have hlength := congrArg String.length h
  cases version <;> simp [versionText, String.length_append] at hlength

theorem fileName_ne_empty (name : Option String) :
    (displayFileName name).getD "vault.kdbx" ≠ "" := by
  rcases name with _ | name
  · decide
  · by_cases h : name = ""
    · subst h
      decide
    · simp [displayFileName, Option.filter, h]

theorem standard_projectIcon (icon : Option Icon) : StandardIcon (projectIcon icon) := by
  rcases icon with _ | id | id
  · trivial
  · show StandardIcon (if id ≤ maxStandardIconId.toNat then .builtIn id else .nonStandard)
    split
    · next h => exact h
    · trivial
  · trivial

theorem presentable_group (id : GroupId) : (groupDto db id).Presentable where
  id := uuidText_ne_empty _
  childGroupIds := by
    intro text htext
    obtain ⟨child, -, rfl⟩ := List.mem_map.1 htext
    exact uuidText_ne_empty _
  entryIds := by
    intro text htext
    obtain ⟨summary, hsummary, rfl⟩ := List.mem_map.1 htext
    obtain ⟨e, entry, -, -, rfl⟩ := mem_summariesIn.1 hsummary
    exact uuidText_ne_empty _

theorem presentable_entry_iff {id : EntryId} {entry : Entry V} {home : GroupId} :
    (EntrySummaryDto.mk (projectEntrySummary id entry)
        (Database.uuidText home.uuid)).Presentable ↔
      (∀ tag ∈ entry.tags, tag ≠ "") ∧
        (entry.times.expires = some true → Safe entry.times.expiry) := by
  constructor
  · intro h
    refine ⟨h.tags, fun hexpires => h.expiry entry.times.expiry ?_⟩
    exact if_pos hexpires
  · rintro ⟨htags, hexpiry⟩
    refine ⟨uuidText_ne_empty _, uuidText_ne_empty _, htags, fun time htime => ?_,
      standard_projectIcon _⟩
    by_cases hexpires : entry.times.expires = some true
    · rw [projectEntrySummary, if_pos hexpires] at htime
      exact Option.some.inj htime ▸ hexpiry hexpires
    · rw [projectEntrySummary, if_neg hexpires] at htime
      cases htime

theorem presentable_fromSession_iff {document : KdbxDocument V} (htree : IsTree document.database)
    (htidy : Tidy document.database) (savedRevision : ℕ) (name : Option String)
    (restriction : Option WriteRestriction) :
    (fromSession document savedRevision name restriction).Presentable ↔
      Shown document.database := by
  have hentries := mem_entries_coreFromVault htree htidy (document.hasChangesSince savedRevision)
  constructor
  · intro h
    have hshown : ∀ (id : EntryId) (entry : Entry V), document.database.entries[id]? = some entry →
        (∀ tag ∈ entry.tags, tag ≠ "") ∧
          (entry.times.expires = some true → Safe entry.times.expiry) := by
      intro id entry hentry
      have hhome : document.database.homeOf id = some entry.parent :=
        homeOf_eq_some.2 ⟨entry, hentry, rfl⟩
      have hlisted := htree.entryListed id _ hhome
      obtain ⟨group, hgroup, -⟩ := mem_childEntries.1 hlisted
      have hmem := (hentries _).2 ⟨entry.parent, mem_iff_exists.2 ⟨group, hgroup⟩, _,
        mem_summariesIn.2 ⟨id, entry, hlisted, hentry, rfl⟩, rfl⟩
      exact presentable_entry_iff.1 (h.entries _ hmem)
    exact ⟨(proper_coreFromVault htree htidy _).1 h.relations,
      fun id entry hentry => (hshown id entry hentry).1,
      fun id entry hentry => (hshown id entry hentry).2⟩
  · intro h
    refine ⟨fileName_ne_empty name, ⟨versionText_ne_empty _, rfl⟩, ?_, ?_, ?_, ?_, ?_⟩
    · intro bin hbin
      obtain ⟨id, -, rfl⟩ := Option.map_eq_some_iff.1 hbin
      exact uuidText_ne_empty _
    · exact (rootGroupId_coreFromVault _ _).trans_ne (uuidText_ne_empty _)
    · intro group hgroup
      obtain ⟨id, -, rfl⟩ := (mem_groups_coreFromVault htree htidy).1 hgroup
      exact presentable_group id
    · intro dto hdto
      obtain ⟨home, -, summary, hsummary, rfl⟩ := (hentries dto).1 hdto
      obtain ⟨id, entry, -, hentry, rfl⟩ := mem_summariesIn.1 hsummary
      exact presentable_entry_iff.2 ⟨h.tags id entry hentry, h.expiry id entry hentry⟩
    · exact (proper_coreFromVault htree htidy _).2 h.bin

/-- The window takes the snapshot of a tree for what it is, unless there is something in it that
cannot be shown. -/
theorem parseVaultSnapshot_fromSession_iff {document : KdbxDocument V}
    (htree : IsTree document.database) (htidy : Tidy document.database) (savedRevision : ℕ)
    (name : Option String) (restriction : Option WriteRestriction) (read : VaultSnapshot) :
    parseVaultSnapshot (fromSession document savedRevision name restriction).toJs = some read ↔
      Shown document.database ∧ read = fromSession document savedRevision name restriction := by
  rw [reads_snapshot _ _, presentable_fromSession_iff htree htidy]

/-- The bin is the root. -/
def rootBinVault : KdbxDocument Unit :=
  let db := binnedVault.database
  { binnedVault with
    database := { db with metadata := { db.metadata with recyclebinUuid := some db.root.uuid } } }

set_option maxRecDepth 100000 in
theorem parseVaultSnapshot_fromSession_iff_binned :
    parseVaultSnapshot (fromSession binnedVault 0 (some "mail.kdbx") none).toJs =
        some (fromSession binnedVault 0 (some "mail.kdbx") none) ∧
      parseVaultSnapshot (fromSession rootBinVault 0 none (some .readOnlySource)).toJs = none := by
  have hbinned := databaseValidForSync_iff.1
    (show databaseValidForSync binnedVault.database = true by decide +kernel)
  have hroot := databaseValidForSync_iff.1
    (show databaseValidForSync rootBinVault.database = true by decide +kernel)
  have hentries : ∀ pair ∈ binnedVault.database.entries.toList, (∀ tag ∈ pair.2.tags, tag ≠ "") ∧
      (pair.2.times.expires = some true → isSafeInteger pair.2.times.expiry = true) := by
    decide +kernel
  constructor
  · refine (parseVaultSnapshot_fromSession_iff hbinned.tree hbinned.tidy 0 _ none _).2 ⟨?_, rfl⟩
    refine ⟨by decide +kernel, fun id entry hentry => ?_, fun id entry hentry => ?_⟩
    · exact (hentries (id, entry) (Std.ExtTreeMap.mem_toList_iff_getElem?_eq_some.2 hentry)).1
    · exact (hentries (id, entry) (Std.ExtTreeMap.mem_toList_iff_getElem?_eq_some.2 hentry)).2
  · refine Option.eq_none_iff_forall_ne_some.2 fun read hread => ?_
    have hshown := ((parseVaultSnapshot_fromSession_iff hroot.tree hroot.tidy 0 none
      (some .readOnlySource) read).1 hread).1
    exact hshown.bin (by decide +kernel)

end NianPass.Desktop.Snapshot
