import NianPass.Kdbx.Edits

/-
  Every mutation keeps a document mergeable.

  A vault that fails `database_valid_for_sync` refuses every further merge, so
  each kind of change has to keep what the check asks for: the tree, the child
  lists, the icons in use and the identities. `Still.valid` and `Change.valid`
  say so for the changes that draw no identifier.

  A draw keeps the identities only if the identifier is new, neither in use nor
  deleted (`Fresh`). The library draws random identifiers, and nothing in this
  repository looks whether one is taken.
-/
namespace NianPass.Kdbx

open Method

variable {V : Type} {db out : Database V}

/-! ## What the check asks for -/

/-- The icon of a group, of an entry or of a snapshot. -/
inductive IconUsed (db : Database V) : Option Icon → Prop
  | group (id : GroupId) (group : Group V) (h : db.groups[id]? = some group) : IconUsed db group.icon
  | entry (id : EntryId) (entry : Entry V) (h : db.entries[id]? = some entry) : IconUsed db entry.icon
  | snapshot (id : EntryId) (entry : Entry V) (snapshot : EntryData V)
      (h : db.entries[id]? = some entry) (hs : snapshot ∈ entry.history.getD []) :
      IconUsed db snapshot.icon

theorem IconsPresent.of_used (h : IconsPresent db) (hicons : ∀ i ∈ db.customIcons, i ∈ out.customIcons)
    (hused : ∀ icon, IconUsed out icon → HasIcon out icon ∨ IconUsed db icon) : IconsPresent out := by
  have hhas : ∀ icon, IconUsed out icon → HasIcon out icon := by
    intro icon hicon
    rcases hused icon hicon with hhas | hold
    · exact hhas
    · intro i hi
      apply hicons
      cases hold with
      | group id group hgroup => exact h.groups id group hgroup i hi
      | entry id entry hentry => exact h.entries id entry hentry i hi
      | snapshot id entry snapshot hentry hs => exact h.snapshots id entry hentry snapshot hs i hi
  exact ⟨fun id group hgroup => hhas _ (.group id group hgroup),
    fun id entry hentry => hhas _ (.entry id entry hentry),
    fun id entry hentry snapshot hs => hhas _ (.snapshot id entry snapshot hentry hs)⟩

theorem Identified.of_live (h : Identified db) (hlive : ∀ id k, LiveAs out k id → LiveAs db k id)
    (hdeleted : ∀ id k, LiveAs out k id → id ∈ out.deletedObjects → id ∈ db.deletedObjects) :
    Identified out where
  oneKind id k k' hk hk' := h.oneKind id k k' (hlive id k hk) (hlive id k' hk')
  notDeleted id k hk hd := h.notDeleted id k (hlive id k hk) (hdeleted id k hk hd)

/-- The identifier is neither in use nor deleted. -/
structure Fresh (db : Database V) (uuid : Uuid) : Prop where
  live : ∀ k, ¬ LiveAs db k uuid
  deleted : uuid ∉ db.deletedObjects

/-- One more object with a fresh identifier. -/
theorem Identified.of_fresh (h : Identified db) {uuid : Uuid} (kind : Kind) (hfresh : Fresh db uuid)
    (hlive : ∀ id k, LiveAs out k id → LiveAs db k id ∨ id = uuid ∧ k = kind)
    (hdeleted : out.deletedObjects = db.deletedObjects) : Identified out where
  oneKind id k k' hk hk' := by
    rcases hlive id k hk with hold | ⟨rfl, rfl⟩
    · rcases hlive id k' hk' with hold' | ⟨rfl, rfl⟩
      · exact h.oneKind id k k' hold hold'
      · exact absurd hold (hfresh.live k)
    · rcases hlive id k' hk' with hold' | ⟨-, rfl⟩
      · exact absurd hold' (hfresh.live k')
      · rfl
  notDeleted id k hk := by
    rw [hdeleted]
    rcases hlive id k hk with hold | ⟨rfl, -⟩
    · exact h.notDeleted id k hold
    · exact hfresh.deleted

/-! ## Tracked edits -/

section Tracked
variable {id : EntryId} {entry : Entry V} {data : EntryData V}

theorem TrackedEdit.getElem? (h : TrackedEdit db id entry data out) (e : EntryId) :
    out.entries[e]? = if e = id then
      some { data with history := some (db.kept (entry.toEntryData :: entry.history.getD [])) }
      else db.entries[e]? := by
  rw [h.entries, Std.ExtTreeMap.getElem?_insert]
  by_cases he : e = id
  · rw [if_pos he, he, if_pos Std.ReflCmp.compare_self]
  · rw [if_neg he, if_neg fun hc => he (Std.LawfulEqCmp.eq_of_compare hc).symm]

theorem TrackedEdit.sameShape (h : TrackedEdit db id entry data out) : SameShape db out where
  root := h.root
  groups x := by rw [h.groups]
  entries e := by
    unfold Database.homeOf
    rw [h.getElem?]
    split
    · case isTrue he =>
      rw [he, h.found]
      exact congrArg some h.parent
    · rfl

theorem TrackedEdit.iconsPresent (h : TrackedEdit db id entry data out)
    (hicons : ∀ i ∈ db.customIcons, i ∈ out.customIcons) (hvalid : IconsPresent db) :
    IconsPresent out := by
  apply hvalid.of_used hicons
  -- The entry that was edited has its new icon, and its snapshots are older icons of its own.
  intro icon hicon
  cases hicon with
  | group g group hgroup =>
    rw [h.groups] at hgroup
    exact Or.inr (.group g group hgroup)
  | entry e edited hedited =>
    rw [h.getElem?] at hedited
    split at hedited
    · cases hedited
      left
      intro i hi
      rcases h.icon i hi with hentry | hpresent
      · exact hicons i (hvalid.entries id entry h.found i hentry)
      · exact hpresent
    · exact Or.inr (.entry e edited hedited)
  | snapshot e edited snapshot hedited hs =>
    rw [h.getElem?] at hedited
    split at hedited
    · cases hedited
      right
      rcases List.mem_cons.mp (mem_kept hs) with rfl | hs
      · exact .entry id entry h.found
      · exact .snapshot id entry snapshot h.found hs
    · exact Or.inr (.snapshot e edited snapshot hedited hs)

/-- A tracked edit that may bring a new icon with it. -/
theorem TrackedEdit.valid (h : TrackedEdit db id entry data out) (hdb : SyncValid db)
    (hicons : ∀ i ∈ db.customIcons, i ∈ out.customIcons) (hidentified : Identified out) :
    SyncValid out :=
  ⟨h.sameShape.hangs hdb.tree, h.sameShape.tidy hdb.tidy, h.iconsPresent hicons hdb.icons, hidentified⟩

end Tracked

/-! ## The kinds of changes -/

/-- The objects are the same and so are the tombstones. -/
theorem Identified.of_same (h : Identified db) (hshape : SameShape db out)
    (hicons : out.customIcons = db.customIcons) (hdeleted : out.deletedObjects = db.deletedObjects) :
    Identified out := by
  refine h.of_live (fun id k hk => ?_) (fun id k _ hd => hdeleted ▸ hd)
  cases k with
  | entry => exact hshape.mem_entries.mp hk
  | group => exact hshape.mem_groups.mp hk
  | icon =>
    unfold LiveAs at hk ⊢
    rwa [hicons] at hk

/-- Some groups and entries went, and the others have the icons they had or none. -/
theorem IconsPresent.of_fewer (h : IconsPresent db) (hicons : out.customIcons = db.customIcons)
    (hgroups : ∀ (id : GroupId) (group : Group V), out.groups[id]? = some group →
      group.icon = none ∨ IconUsed db group.icon)
    (hentries : ∀ (id : EntryId) (entry : Entry V), out.entries[id]? = some entry →
      IconUsed db entry.icon ∧ ∀ snapshot ∈ entry.history.getD [], IconUsed db snapshot.icon) :
    IconsPresent out := by
  refine h.of_used (fun i hi => hicons ▸ hi) fun icon hicon => ?_
  cases hicon with
  | group id group hgroup =>
    rcases hgroups id group hgroup with hnone | hused
    · left
      intro i hi
      rw [hnone] at hi
      cases hi
    · exact Or.inr hused
  | entry id entry hentry => exact Or.inr (hentries id entry hentry).1
  | snapshot id entry snapshot hentry hs => exact Or.inr ((hentries id entry hentry).2 snapshot hs)

/-- The icons of an entry that was there before. -/
theorem iconUsed_of_entry {id : EntryId} {entry : Entry V} (h : db.entries[id]? = some entry) :
    IconUsed db entry.icon ∧ ∀ snapshot ∈ entry.history.getD [], IconUsed db snapshot.icon :=
  ⟨.entry id entry h, fun snapshot hs => .snapshot id entry snapshot h hs⟩

theorem SameGroups.iconUsed (h : SameGroups db out) {id : GroupId} {group : Group V}
    (hgroup : out.groups[id]? = some group) : IconUsed db group.icon := by
  have hcore := h.core id
  rw [hgroup, Option.map_some] at hcore
  obtain ⟨old, hold, heq⟩ := Option.map_eq_some_iff.mp hcore.symm
  have hicon : group.core.icon = old.core.icon := by rw [heq]
  rw [show group.icon = old.icon from hicon]
  exact .group id old hold

/-- An entry goes, and leaves a tombstone. -/
theorem valid_removeEntry {id : EntryId} {table : Map AttachmentId (Value Bytes)}
    {time : Option Time} (hid : id ∈ db.entries) (hdb : SyncValid db) :
    SyncValid { db.eraseEntry id with
      attachments := table
      deletedObjects := db.deletedObjects.insert id.uuid time } := by
  have hshape : SameShape (db.eraseEntry id) { db.eraseEntry id with
      attachments := table
      deletedObjects := db.deletedObjects.insert id.uuid time } := ⟨rfl, fun _ => rfl, fun _ => rfl⟩
  have hgroups : SameGroups db (db.eraseEntry id) := sameGroups_eraseEntry
  have hlive : ∀ uuid k, LiveAs (db.eraseEntry id) k uuid →
      LiveAs db k uuid ∧ (k = .entry → uuid ≠ id.uuid) := by
    intro uuid k hk
    cases k with
    | entry =>
      obtain ⟨hne, hmem⟩ := Std.ExtTreeMap.mem_erase.mp hk
      refine ⟨hmem, fun _ => ?_⟩
      rintro rfl
      exact hne Std.ReflCmp.compare_self
    | group => exact ⟨hgroups.mem_groups.mp hk, nofun⟩
    | icon => exact ⟨hk, nofun⟩
  refine ⟨hshape.hangs (hangs_eraseEntry hdb.tree), hshape.tidy (tidy_eraseEntry hdb.tidy), ?_, ?_⟩
  · refine hdb.icons.of_fewer rfl (fun g group hgroup => Or.inr (hgroups.iconUsed hgroup)) ?_
    intro e entry hentry
    have herased : (db.eraseEntry id).entries[e]? = some entry := hentry
    rw [getElem?_eraseEntry] at herased
    split at herased
    · cases herased
    · exact iconUsed_of_entry herased
  · refine hdb.identified.of_live (fun uuid k hk => (hlive uuid k hk).1) ?_
    intro uuid k hk hdeleted
    obtain ⟨hold, hne⟩ := hlive uuid k hk
    rcases Std.ExtTreeMap.mem_insert.mp hdeleted with heq | hdeleted
    · -- What is left under the identifier would be another kind of object.
      obtain rfl : id.uuid = uuid := Std.LawfulEqCmp.eq_of_compare heq
      exact absurd rfl (hne (hdb.identified.oneKind id.uuid k .entry hold hid))
    · exact hdeleted

/-- A group goes with everything below it, and leaves tombstones. -/
theorem valid_removeGroup {cleared : List (Meta V → Option Uuid)} {id : GroupId}
    {deleted : Map Uuid (Option Time)} (hid : id ∈ db.groups) (hroot : id ≠ db.root)
    (hwithout : db.WithoutGroup cleared id out)
    (hdeleted : ∀ uuid, uuid ∈ deleted ↔
      uuid ∈ db.deletedObjects ∨ uuid ∈ Editing.removedWith db id) (hdb : SyncValid db) :
    SyncValid { out with deletedObjects := deleted } := by
  have hshape : SameShape out { out with deletedObjects := deleted } :=
    ⟨rfl, fun _ => rfl, fun _ => rfl⟩
  have hentry : ∀ (e : EntryId) (entry : Entry V), out.entries[e]? = some entry → db.entries[e]? = some entry := by
    intro e entry he
    by_cases hgone : ∃ x, db.Below id x ∧ e ∈ db.childEntries x
    · obtain ⟨x, hx, hlisted⟩ := hgone
      rw [hwithout.entriesGone x e hx hlisted] at he
      cases he
    · rw [← hwithout.entriesKept e fun x hx hlisted => hgone ⟨x, hx, hlisted⟩]
      exact he
  have hgroup : ∀ (g : GroupId) (group : Group V), out.groups[g]? = some group →
      ¬ db.Below id g ∧ ∃ old, db.groups[g]? = some old ∧ group.icon = old.icon := by
    intro g group hg
    by_cases hgone : db.Below id g
    · rw [hwithout.gone g hgone] at hg
      cases hg
    · rw [hwithout.kept g hgone] at hg
      obtain ⟨old, hold, rfl⟩ := Option.map_eq_some_iff.mp hg
      exact ⟨hgone, old, hold, rfl⟩
  have hlive : ∀ uuid k, LiveAs { out with deletedObjects := deleted } k uuid → LiveAs db k uuid := by
    intro uuid k hk
    cases k with
    | entry =>
      obtain ⟨entry, he⟩ := mem_iff_exists.mp hk
      exact mem_iff_exists.mpr ⟨entry, hentry _ entry he⟩
    | group =>
      obtain ⟨group, hg⟩ := mem_iff_exists.mp hk
      obtain ⟨-, old, hold, -⟩ := hgroup _ group hg
      exact mem_iff_exists.mpr ⟨old, hold⟩
    | icon =>
      unfold LiveAs at hk ⊢
      rwa [hwithout.customIcons] at hk
  refine ⟨hshape.hangs (hangs_withoutGroup hdb.tree hwithout hroot fun _ _ _ h => h),
    hshape.tidy (tidy_withoutGroup hdb.tree hwithout hdb.tidy), ?_, hdb.identified.of_live hlive ?_⟩
  · refine hdb.icons.of_fewer hwithout.customIcons ?_ fun e entry he =>
      iconUsed_of_entry (hentry e entry he)
    intro g group hg
    obtain ⟨-, old, hold, hicon⟩ := hgroup g group hg
    rw [hicon]
    exact Or.inr (.group g old hold)
  · intro uuid k hk hburied
    rcases (hdeleted uuid).mp hburied with hold | hremoved
    · exact hold
    exfalso
    obtain ⟨x, hx, hnamed⟩ := List.mem_flatMap.mp hremoved
    rw [Database.mem_subtree] at hx
    have hold := hlive uuid k hk
    rcases List.mem_cons.mp hnamed with rfl | hnamed
    · -- a group that went
      have hxlive : LiveAs db .group x.uuid := by
        by_contra hmissing
        have habove := (below_iff_above hdb.tree).mp hx
        rw [Forest.above_top (not_mem_parentOf hmissing)] at habove
        obtain rfl : id = x := habove
        exact hmissing hid
      obtain rfl := hdb.identified.oneKind x.uuid k .group hold hxlive
      obtain ⟨group, hg⟩ := mem_iff_exists.mp hk
      exact (hgroup x group hg).1 hx
    · -- an entry that went
      obtain ⟨e, he, rfl⟩ := List.mem_map.mp hnamed
      have helive : LiveAs db .entry e.uuid := by
        have hhome := (hdb.tree.entryOwned x e he).resolve_right fun h => h
        obtain ⟨entry, hfound, -⟩ := homeOf_eq_some.mp hhome
        exact mem_iff_exists.mpr ⟨entry, hfound⟩
      obtain rfl := hdb.identified.oneKind e.uuid k .entry hold helive
      obtain ⟨entry, hfound⟩ := mem_iff_exists.mp hk
      have hgone := hwithout.entriesGone x e hx he
      change out.entries[e]? = some entry at hfound
      rw [hgone] at hfound
      cases hfound

theorem sameShape_pruneAllEntryHistory (db : Database V) :
    SameShape db (pruneAllEntryHistory db) := by
  obtain ⟨heq, hentries⟩ := pruneAllEntryHistory_spec db
  refine ⟨by rw [heq], fun x => by rw [heq], fun e => ?_⟩
  unfold Database.homeOf
  rcases hentries e with ⟨hnone, hnone'⟩ | ⟨entry, pruned, hentry, hpruned, n, rfl⟩
  · rw [hnone, hnone']
  · rw [hentry, hpruned]
    rfl

/-- Histories get shorter. -/
theorem valid_pruneAllEntryHistory (hdb : SyncValid db) : SyncValid (pruneAllEntryHistory db) := by
  obtain ⟨heq, hentries⟩ := pruneAllEntryHistory_spec db
  have hshape := sameShape_pruneAllEntryHistory db
  have hicons : (pruneAllEntryHistory db).customIcons = db.customIcons := by rw [heq]
  have hdeleted : (pruneAllEntryHistory db).deletedObjects = db.deletedObjects := by rw [heq]
  have hgroups : (pruneAllEntryHistory db).groups = db.groups := by rw [heq]
  refine ⟨hshape.hangs hdb.tree, hshape.tidy hdb.tidy, ?_, hdb.identified.of_same hshape hicons hdeleted⟩
  refine hdb.icons.of_fewer hicons ?_ ?_
  · intro g group hgroup
    rw [hgroups] at hgroup
    exact Or.inr (.group g group hgroup)
  · intro e entry hentry
    rcases hentries e with ⟨-, hnone⟩ | ⟨old, pruned, hold, hpruned, n, hcut⟩
    · rw [hnone] at hentry
      cases hentry
    · obtain rfl := Option.some.inj (hpruned.symm.trans hentry)
      obtain ⟨hicon, hsnapshots⟩ := iconUsed_of_entry hold
      rw [hcut]
      refine ⟨hicon, fun snapshot hs => hsnapshots snapshot ?_⟩
      cases hhistory : old.history with
      | none => simp [hhistory] at hs
      | some history =>
        simp only [hhistory, Option.map_some, Option.getD_some] at hs
        exact List.mem_of_mem_take hs

theorem Still.valid (h : Still db out) (hdb : SyncValid db) : SyncValid out := by
  cases h with
  | tracked id entry data _ h hicons =>
    refine h.valid hdb (fun i hi => hicons ▸ hi) ?_
    exact hdb.identified.of_same h.sameShape hicons h.deletedObjects
  | removeEntry id table time hid => exact valid_removeEntry hid hdb
  | editGroup id edit hparent hprevious hgroups hentries hicon =>
    have hshape : SameShape db (db.editGroup id edit) := by
      refine sameShape_editGroup id edit fun group => ?_
      unfold Group.shape
      rw [hparent, hgroups, hentries]
    refine ⟨hshape.hangs hdb.tree, hshape.tidy hdb.tidy, ?_, hdb.identified.of_same hshape rfl rfl⟩
    refine hdb.icons.of_fewer rfl ?_ fun e entry hentry => iconUsed_of_entry hentry
    intro g group hgroup
    rw [getElem?_editGroup] at hgroup
    split at hgroup
    · obtain ⟨old, hold, rfl⟩ := Option.map_eq_some_iff.mp hgroup
      rcases hicon old with hsame | hnone
      · rw [hsame]
        exact Or.inr (.group g old hold)
      · exact Or.inl hnone
    · exact Or.inr (.group g group hgroup)
  | removeGroup id without deleted hid hroot hwithout hdeleted =>
    obtain ⟨_, hwithout⟩ := hwithout
    exact valid_removeGroup hid hroot hwithout hdeleted hdb
  | settings metadata _ =>
    have hshape : SameShape db { db with metadata := metadata } := ⟨rfl, fun _ => rfl, fun _ => rfl⟩
    exact ⟨hshape.hangs hdb.tree, hshape.tidy hdb.tidy, ⟨hdb.icons.groups, hdb.icons.entries,
      hdb.icons.snapshots⟩, hdb.identified.of_same hshape rfl rfl⟩
  | historyPolicy metadata =>
    have hshape : SameShape db { db with metadata := metadata } := ⟨rfl, fun _ => rfl, fun _ => rfl⟩
    exact valid_pruneAllEntryHistory ⟨hshape.hangs hdb.tree, hshape.tidy hdb.tidy, ⟨hdb.icons.groups,
      hdb.icons.entries, hdb.icons.snapshots⟩, hdb.identified.of_same hshape rfl rfl⟩

/-- No change breaks what the check asks for. -/
theorem Change.valid (h : Change db out) (hdb : SyncValid db) : SyncValid out := by
  cases h with
  | still _ h => exact h.valid hdb
  | moveEntry id target times hid htarget =>
    have hgroups : SameGroups db (db.relocateEntry id target) := sameGroups_relocateEntry
    have hshape : SameShape (db.relocateEntry id target)
        ((db.relocateEntry id target).editEntry id fun entry =>
          { entry with times := times entry.times }) := sameShape_editEntry id _ fun _ _ => rfl
    refine ⟨hshape.hangs (hangs_relocateEntry hdb.tree hid htarget),
      hshape.tidy (tidy_relocateEntry hdb.tidy htarget), ?_, ?_⟩
    · refine hdb.icons.of_fewer rfl (fun g group hgroup => Or.inr (hgroups.iconUsed hgroup)) ?_
      intro e entry hentry
      rw [getElem?_editEntry, getElem?_relocateEntry] at hentry
      by_cases he : id = e
      · rw [if_pos he, if_pos he, Option.map_map] at hentry
        obtain ⟨old, hold, rfl⟩ := Option.map_eq_some_iff.mp hentry
        show IconUsed db old.icon ∧ ∀ snapshot ∈ old.history.getD [], IconUsed db snapshot.icon
        exact iconUsed_of_entry hold
      · rw [if_neg he, if_neg he] at hentry
        exact iconUsed_of_entry hentry
    · refine hdb.identified.of_live (fun uuid k hk => ?_) fun _ _ _ h => h
      cases k with
      | entry => exact mem_editEntry.mp (mem_editEntry.mp hk)
      | group => exact hgroups.mem_groups.mp hk
      | icon => exact hk
  | moveGroup id target hid htarget hroot hcycle =>
    refine ⟨hangs_relocateGroup hdb.tree hid htarget hroot hcycle,
      tidy_relocateGroup hdb.tidy htarget, ?_, ?_⟩
    · refine hdb.icons.of_fewer rfl ?_ fun e entry hentry => iconUsed_of_entry hentry
      intro g group hgroup
      rw [getElem?_relocateGroup] at hgroup
      obtain ⟨old, hold, rfl⟩ := Option.map_eq_some_iff.mp hgroup
      right
      by_cases hg : g = id
      · simp only [if_pos hg]
        exact .group g old hold
      · simp only [if_neg hg]
        exact .group g old hold
    · refine hdb.identified.of_live (fun uuid k hk => ?_) fun _ _ _ h => h
      cases k with
      | entry => exact hk
      | group => exact mem_groups_relocateGroup.mp hk
      | icon => exact hk

/-- What is in a map after an insertion. -/
theorem eq_or_mem_of_insert {k : Kind} {ν : Type} {m : Map (ObjectId k) ν} {uuid other : Uuid} {v : ν}
    (h : (⟨other⟩ : ObjectId k) ∈ m.insert ⟨uuid⟩ v) : (⟨other⟩ : ObjectId k) ∈ m ∨ other = uuid := by
  rcases Std.ExtTreeMap.mem_insert.mp h with heq | hmem
  · exact Or.inr (congrArg ObjectId.uuid (Std.LawfulEqCmp.eq_of_compare heq)).symm
  · exact Or.inl hmem

theorem valid_insertEntry {uuid : Uuid} {parent : GroupId} {entry : Entry V}
    {table : Map AttachmentId (Value Bytes)} (hfresh : Fresh db uuid) (hparent : parent ∈ db.groups)
    (hentry : entry.parent = parent) (hhistory : entry.history.getD [] = [])
    (hicon : ∀ i, entry.icon = some (.custom i) → i ∈ db.customIcons) (hdb : SyncValid db) :
    SyncValid { db.insertEntry parent ⟨uuid⟩ entry with attachments := table } := by
  have hid : (⟨uuid⟩ : EntryId) ∉ db.entries := hfresh.live .entry
  have hgroups : SameGroups db (db.insertEntry parent ⟨uuid⟩ entry) := sameGroups_insertEntry
  have hshape : SameShape (db.insertEntry parent ⟨uuid⟩ entry)
      { db.insertEntry parent ⟨uuid⟩ entry with attachments := table } :=
    ⟨rfl, fun _ => rfl, fun _ => rfl⟩
  have hentries : ∀ (e : EntryId) (found : Entry V),
      (db.insertEntry parent ⟨uuid⟩ entry).entries[e]? = some found →
        found = entry ∨ db.entries[e]? = some found := by
    intro e found hfound
    rw [getElem?_insertEntry] at hfound
    split at hfound
    · exact Or.inl (Option.some.inj hfound).symm
    · exact Or.inr hfound
  refine ⟨hshape.hangs (hangs_insertEntry hdb.tree hparent hid hentry),
    hshape.tidy (tidy_insertEntry hdb.tidy hparent), ?_, ?_⟩
  · refine hdb.icons.of_used (fun _ hi => hi) fun icon hused => ?_
    cases hused with
    | group g group hgroup => exact Or.inr (hgroups.iconUsed hgroup)
    | entry e found hfound =>
      rcases hentries e found hfound with rfl | hold
      · exact Or.inl hicon
      · exact Or.inr (.entry e found hold)
    | snapshot e found snapshot hfound hs =>
      rcases hentries e found hfound with rfl | hold
      · rw [hhistory] at hs
        cases hs
      · exact Or.inr (.snapshot e found snapshot hold hs)
  · refine hdb.identified.of_fresh .entry hfresh (fun other k hk => ?_) rfl
    cases k with
    | entry => exact (eq_or_mem_of_insert hk).imp_right fun h => ⟨h, rfl⟩
    | group => exact Or.inl (hgroups.mem_groups.mp hk)
    | icon => exact Or.inl hk

theorem valid_insertGroup {uuid : Uuid} {parent : GroupId} {group : Group V}
    (hfresh : Fresh db uuid) (hparent : parent ∈ db.groups) (hgroup : group.parent = some parent)
    (hgroups : group.groups = []) (hentries : group.entries = [])
    (hicon : ∀ i, group.icon ≠ some (.custom i)) (hdb : SyncValid db) :
    SyncValid (db.insertGroup parent ⟨uuid⟩ group) := by
  have hid : (⟨uuid⟩ : GroupId) ∉ db.groups := hfresh.live .group
  have hne : parent ≠ ⟨uuid⟩ := by
    rintro rfl
    exact hid hparent
  have htree : IsTree (db.insertGroup parent ⟨uuid⟩ group) := by
    -- The new group brings no children.
    have h := hangs_insertGroup hdb.tree hparent hid hgroup
    rw [hgroups, hentries] at h
    exact { h with
      owned := fun p c hc => (h.owned p c hc).imp_right fun hlate => by simp at hlate
      entryOwned := fun p e he => (h.entryOwned p e he).imp_right fun hlate => by simp at hlate }
  refine ⟨htree, ?_, ?_, ?_⟩
  · exact tidy_insertGroup hdb.tidy hparent hid (by rw [hgroups]; exact List.nodup_nil)
      (by rw [hentries]; exact List.nodup_nil)
  · refine hdb.icons.of_used (fun _ hi => hi) fun icon hused => ?_
    cases hused with
    | group g found hfound =>
      rw [getElem?_insertGroup hne] at hfound
      split at hfound
      · cases hfound
        exact Or.inl fun i hi => absurd hi (hicon i)
      · split at hfound
        · obtain ⟨old, hold, rfl⟩ := Option.map_eq_some_iff.mp hfound
          exact Or.inr (.group g old hold)
        · exact Or.inr (.group g found hfound)
    | entry e found hfound => exact Or.inr (.entry e found hfound)
    | snapshot e found snapshot hfound hs => exact Or.inr (.snapshot e found snapshot hfound hs)
  · refine hdb.identified.of_fresh .group hfresh (fun other k hk => ?_) rfl
    cases k with
    | entry => exact Or.inl hk
    | group =>
      rcases mem_groups_insertGroup.mp hk with hnew | hold
      · exact Or.inr ⟨congrArg ObjectId.uuid hnew, rfl⟩
      · exact Or.inl hold
    | icon => exact Or.inl hk

/-- A draw of a fresh identifier does not break it either. -/
theorem Draw.valid {uuid : Uuid} (h : Draw uuid db out) (hfresh : Fresh db uuid)
    (hdb : SyncValid db) : SyncValid out := by
  cases h with
  | entry parent entry table hparent hentry hhistory hicon =>
    exact valid_insertEntry hfresh hparent hentry hhistory hicon hdb
  | group parent group hparent hgroup hgroups hentries hicon =>
    refine valid_insertGroup hfresh ?_ hgroup hgroups hentries hicon hdb
    rcases hparent with hmem | rfl
    · exact hmem
    · exact hdb.tree.rootMem
  | icon id entry data icon _ h hicons =>
    have hmem : ∀ i ∈ db.customIcons, i ∈ out.customIcons := by
      intro i hi
      rw [hicons]
      exact Std.ExtTreeMap.mem_insert.mpr (Or.inr hi)
    refine h.valid hdb hmem (hdb.identified.of_fresh .icon hfresh ?_ h.deletedObjects)
    intro other k hk
    cases k with
    | entry => exact Or.inl (h.sameShape.mem_entries.mp hk)
    | group => exact Or.inl (h.sameShape.mem_groups.mp hk)
    | icon =>
      unfold LiveAs at hk
      rw [hicons] at hk
      exact (eq_or_mem_of_insert hk).imp_right fun h => ⟨h, rfl⟩

theorem EditsBy.valid {uuid : Uuid} (h : Edits uuid db out) (hfresh : Fresh db uuid)
    (hdb : SyncValid db) : SyncValid out := by
  obtain ⟨mid, hmid, hrest⟩ := h
  have hfirst : SyncValid mid := by
    rcases hmid with rfl | hdraw
    · exact hdb
    · exact hdraw.valid hfresh hdb
  induction hrest with
  | refl => exact hfirst
  | tail _ hstep ih => exact hstep.valid ih

/-! ## Runs -/

/-- Every call draws an identifier that is fresh in the document it is made on. -/
def FreshDraws (lib : Editing V) : KdbxDocument V → List MutationCall → Prop
  | _, [] => True
  | doc, call :: calls =>
    Fresh doc.database call.env.uuid ∧ FreshDraws lib (call.perform lib doc).2 calls

/-- What `Database::new` answers with: a root group and nothing else. -/
structure Database.IsNew (db : Database V) : Prop where
  groups : ∃ group : Group V, db.groups = (∅ : Map GroupId (Group V)).insert db.root group ∧
    group.parent = none ∧ group.groups = [] ∧ group.entries = [] ∧
    ∀ i, group.icon ≠ some (.custom i)
  entries : db.entries = ∅
  customIcons : db.customIcons = ∅
  deletedObjects : db.deletedObjects = ∅

/-- `KdbxDocument::new`, on the database that the library creates. The version is the one that its
configuration names. -/
def KdbxDocument.new (created : Database V) (version : KdbxVersion) (vaultName : String) :
    KdbxDocument V where
  version := version
  database := { created.editGroup created.root ({ · with name := vaultName }) with
    metadata := { created.metadata with recyclebinEnabled := some true } }

/-- A root group without children is a tree, and there is nothing else to check. -/
theorem Database.IsNew.valid (h : db.IsNew) : SyncValid db := by
  obtain ⟨group, heq, hparent, hgroups, hentries, hicon⟩ := h.groups
  have hget : ∀ x : GroupId, db.groups[x]? = if x = db.root then some group else none := by
    intro x
    rw [heq, Std.ExtTreeMap.getElem?_insert]
    by_cases hx : x = db.root
    · rw [if_pos hx, hx, if_pos Std.ReflCmp.compare_self]
    · rw [if_neg hx, if_neg fun hc => hx (Std.LawfulEqCmp.eq_of_compare hc).symm]
      exact Std.ExtTreeMap.getElem?_empty
  have hnoEntry : ∀ e : EntryId, db.entries[e]? = none := by
    intro e
    rw [h.entries]
    exact Std.ExtTreeMap.getElem?_empty
  have hroot : ∀ x, x ∈ db.groups ↔ x = db.root := by
    intro x
    rw [mem_iff_exists, hget]
    split <;> simp_all
  have htop : ∀ x, db.parentOf x = none := by
    intro x
    unfold Database.parentOf
    rw [hget]
    split
    · exact hparent
    · rfl
  have hchildren : ∀ x, db.childGroups x = [] ∧ db.childEntries x = [] := by
    intro x
    unfold Database.childGroups Database.childEntries
    rw [hget]
    split
    · exact ⟨hgroups, hentries⟩
    · exact ⟨rfl, rfl⟩
  have hlive : ∀ id k, LiveAs db k id → k = .group := by
    intro id k hk
    cases k with
    | entry =>
      obtain ⟨entry, hentry⟩ := mem_iff_exists.mp hk
      rw [hnoEntry] at hentry
      cases hentry
    | group => rfl
    | icon =>
      unfold LiveAs at hk
      rw [h.customIcons] at hk
      exact absurd hk Std.ExtTreeMap.not_mem_empty
  refine ⟨⟨(hroot _).mpr rfl, htop _, ?_, ?_, ?_, ?_, ?_⟩, ⟨?_, ?_⟩, ⟨?_, ?_, ?_⟩, ⟨?_, ?_⟩⟩
  · intro x hx
    rw [(hroot x).mp hx]
    exact Forest.above_refl _
  · intro p c hc
    rw [(hchildren p).1] at hc
    cases hc
  · intro c p hp
    rw [htop] at hp
    cases hp
  · intro p e he
    rw [(hchildren p).2] at he
    cases he
  · intro e p hp
    rw [Database.homeOf, hnoEntry] at hp
    cases hp
  · intro p
    rw [(hchildren p).1]
    exact List.nodup_nil
  · intro p
    rw [(hchildren p).2]
    exact List.nodup_nil
  · intro id found hfound i hi
    rw [hget] at hfound
    split at hfound
    · cases hfound
      exact absurd hi (hicon i)
    · cases hfound
  · intro id entry hentry
    rw [hnoEntry] at hentry
    cases hentry
  · intro id entry hentry
    rw [hnoEntry] at hentry
    cases hentry
  · intro id k k' hk hk'
    rw [hlive id k hk, hlive id k' hk']
  · intro id k _ hdeleted
    rw [h.deletedObjects] at hdeleted
    exact Std.ExtTreeMap.not_mem_empty hdeleted

theorem new_valid {created : Database V} (h : created.IsNew) (version : KdbxVersion)
    (vaultName : String) : SyncValid (KdbxDocument.new created version vaultName).database := by
  have hnamed : Still created (created.editGroup created.root ({ · with name := vaultName })) :=
    .editGroup _ _ (fun _ => rfl) (fun _ => rfl) (fun _ => rfl) (fun _ => rfl) fun _ => Or.inl rfl
  have hsettings : Still (created.editGroup created.root ({ · with name := vaultName }))
      (KdbxDocument.new created version vaultName).database :=
    .settings { created.metadata with recyclebinEnabled := some true } rfl
  exact hsettings.valid (hnamed.valid h.valid)

section Runs
variable (lib : Editing V)

theorem perform_valid {call : MutationCall} {doc : KdbxDocument V}
    (hfresh : Fresh doc.database call.env.uuid) (hdoc : SyncValid doc.database) :
    SyncValid (call.perform lib doc).2.database :=
  EditsBy.valid (call.mutation.edits lib call.env doc) hfresh hdoc

theorem performAll_valid {doc : KdbxDocument V} {calls : List MutationCall}
    (hfresh : FreshDraws lib doc calls) (hdoc : SyncValid doc.database) :
    SyncValid (performAll lib doc calls).database := by
  induction calls generalizing doc with
  | nil => exact hdoc
  | cons call calls ih =>
    obtain ⟨hcall, hrest⟩ := hfresh
    exact ih hrest (perform_valid lib hcall hdoc)

/-- A mutation keeps the document mergeable, whether it fails or not, and so does every sequence of
mutations on a new document. -/
theorem mutations_keep_mergeable :
    (∀ (call : MutationCall) (doc : KdbxDocument V), databaseValidForSync doc.database = true →
      Fresh doc.database call.env.uuid →
      databaseValidForSync (call.perform lib doc).2.database = true) ∧
    ∀ (created : Database V) (version : KdbxVersion) (vaultName : String)
      (calls : List MutationCall), created.IsNew →
      FreshDraws lib (KdbxDocument.new created version vaultName) calls →
      databaseValidForSync
        (performAll lib (KdbxDocument.new created version vaultName) calls).database = true := by
  constructor
  · intro call doc hdoc hfresh
    exact databaseValidForSync_iff.mpr
      (perform_valid lib hfresh (databaseValidForSync_iff.mp hdoc))
  · intro created version vaultName calls hnew hfresh
    exact databaseValidForSync_iff.mpr
      (performAll_valid lib hfresh (new_valid hnew version vaultName))

end Runs

/-! ## A new vault -/

theorem fresh_iff {uuid : Uuid} : Fresh db uuid ↔ (⟨uuid⟩ : EntryId) ∉ db.entries ∧
    (⟨uuid⟩ : GroupId) ∉ db.groups ∧ (⟨uuid⟩ : CustomIconId) ∉ db.customIcons ∧
    uuid ∉ db.deletedObjects := by
  constructor
  · exact fun h => ⟨h.live .entry, h.live .group, h.live .icon, h.deleted⟩
  · rintro ⟨hentry, hgroup, hicon, hdeleted⟩
    refine ⟨fun k => ?_, hdeleted⟩
    cases k with
    | entry => exact hentry
    | group => exact hgroup
    | icon => exact hicon

instance (db : Database V) (uuid : Uuid) : Decidable (Fresh db uuid) :=
  decidable_of_iff _ fresh_iff.symm

instance decidableFreshDraws (lib : Editing V) :
    (doc : KdbxDocument V) → (calls : List MutationCall) → Decidable (FreshDraws lib doc calls)
  | _, [] => inferInstanceAs (Decidable True)
  | doc, call :: calls =>
    have := decidableFreshDraws lib (call.perform lib doc).2 calls
    inferInstanceAs (Decidable (Fresh doc.database call.env.uuid ∧
      FreshDraws lib (call.perform lib doc).2 calls))

/-- A root group and nothing else. -/
def emptyVault : Database Unit where
  config := ()
  root := ⟨1⟩
  groups := mapOf [(⟨1⟩, {})]

/-- A group, an entry in it, and the entry goes to the bin. -/
def firstCalls : List MutationCall :=
  [⟨.createGroup (Database.uuidText 1) "Mail", ⟨5, 2⟩⟩,
    ⟨.createEntry (Database.uuidText 2) { title := "Post", username := "", url := "", password := none }, ⟨6, 3⟩⟩,
    ⟨.trashEntry (Database.uuidText 3), ⟨7, 4⟩⟩]

set_option maxRecDepth 100000 in
theorem mutations_keep_mergeable_first :
    databaseValidForSync (performAll Editing.reference
      (KdbxDocument.new emptyVault (.kdbx4 1) "Vault") firstCalls).database = true ∧
    (performAll Editing.reference
      (KdbxDocument.new emptyVault (.kdbx4 1) "Vault") firstCalls).database.homeOf ⟨3⟩ = some ⟨4⟩ := by
  have hnew : emptyVault.IsNew := ⟨⟨{}, Std.ExtTreeMap.ofList_singleton, rfl, rfl, rfl, nofun⟩, rfl, rfl, rfl⟩
  refine ⟨?_, by decide +kernel⟩
  exact (mutations_keep_mergeable Editing.reference).2 emptyVault (.kdbx4 1) "Vault" firstCalls hnew
    (by decide +kernel)

end NianPass.Kdbx
