import NianPass.Kdbx.Run

/-
  What a merged document is.

  `merged_isThreeWay_iff`: every component of a merged document is the three-way
  choice of the component in base, local and remote, except that metadata forget
  a group that is removed. They are merged before the groups are, and the library
  clears those that name a group it removes.

  `merged_preserves_iff`: nothing is lost and nothing comes back, except that
  what only local added loses its custom icon when remote has deleted that icon.
  The pass over icons removes it from every object of the candidate and reports
  nothing, because it compares icons and not their users. In histories the
  snapshots that pruning leaves count.
-/
namespace NianPass.Kdbx

variable {V : Type}

/-! ## Pruning -/

section Prune
variable {db : Database V}

/-- An entry as it was, but for old snapshots. -/
def Entry.prunedFrom (entry out : Entry V) : Prop :=
  ∃ n, out = { entry with history := entry.history.map (·.take n) }

theorem prunedFrom_refl (entry : Entry V) : entry.prunedFrom entry := by
  obtain ⟨data, history⟩ := entry
  cases history with
  | none => exact ⟨0, rfl⟩
  | some history => exact ⟨history.length, by simp⟩

theorem pruneEntryHistory_prunedFrom (limit : Nat) (entry : Entry V) :
    entry.prunedFrom (pruneEntryHistory limit entry) := by
  obtain ⟨data, history⟩ := entry
  unfold pruneEntryHistory
  cases history with
  | none => exact prunedFrom_refl _
  | some history =>
    simp only
    split
    · exact prunedFrom_refl _
    · exact ⟨limit, rfl⟩

/-- Pruning changes the histories of entries and nothing else. -/
theorem pruneAllEntryHistory_spec (db : Database V) :
    pruneAllEntryHistory db = { db with entries := (pruneAllEntryHistory db).entries } ∧
    ∀ e : EntryId, (db.entries[e]? = none ∧ (pruneAllEntryHistory db).entries[e]? = none) ∨
      ∃ entry out, db.entries[e]? = some entry ∧
        (pruneAllEntryHistory db).entries[e]? = some out ∧ entry.prunedFrom out := by
  unfold pruneAllEntryHistory
  cases finiteHistoryLimit db with
  | none =>
    refine ⟨rfl, fun e => ?_⟩
    cases db.entries[e]? with
    | none => exact Or.inl ⟨rfl, rfl⟩
    | some entry => exact Or.inr ⟨entry, entry, rfl, rfl, prunedFrom_refl entry⟩
  | some limit =>
    refine ⟨rfl, fun e => ?_⟩
    cases h : db.entries[e]? with
    | none => exact Or.inl ⟨rfl, by simp [h]⟩
    | some entry =>
      exact Or.inr ⟨entry, pruneEntryHistory limit entry, rfl, by simp [h],
        pruneEntryHistory_prunedFrom limit entry⟩

theorem mem_entries_prune {e : EntryId} :
    e ∈ (pruneAllEntryHistory db).entries ↔ e ∈ db.entries := by
  rw [mem_iff_exists, mem_iff_exists]
  rcases (pruneAllEntryHistory_spec db).2 e with ⟨h, h'⟩ | ⟨entry, out, h, h', _⟩
  · simp [h, h']
  · simp [h, h']

theorem attachmentsAt_prune (e : EntryId) :
    attachmentsAt (pruneAllEntryHistory db) e = attachmentsAt db e := by
  have htable : (pruneAllEntryHistory db).attachments = db.attachments := by
    rw [(pruneAllEntryHistory_spec db).1]
  unfold attachmentsAt
  rcases (pruneAllEntryHistory_spec db).2 e with ⟨h, h'⟩ | ⟨entry, out, h, h', n, rfl⟩
  · rw [h, h']
  · rw [h, h']
    exact namedAttachments_congr fun name a _ => by rw [htable]

theorem finiteHistoryLimit_prune :
    finiteHistoryLimit (pruneAllEntryHistory db) = finiteHistoryLimit db := by
  rw [(pruneAllEntryHistory_spec db).1]
  rfl

/-- With a finite limit the newest snapshots of every entry are kept. -/
theorem history_prune {limit : Nat} (hlimit : finiteHistoryLimit db = some limit) (e : EntryId) :
    (pruneAllEntryHistory db).entries[e]?.map (·.history) =
      db.entries[e]?.map fun entry => entry.history.map (·.take limit) := by
  rw [pruneAllEntryHistory, hlimit]
  dsimp only
  rw [Std.ExtTreeMap.getElem?_map, Option.map_map]
  congr 1
  funext entry
  show (pruneEntryHistory limit entry).history = _
  rw [pruneEntryHistory]
  cases hhistory : entry.history with
  | none => exact hhistory
  | some history =>
    dsimp only
    split
    · next hshort => rw [hhistory, Option.map_some, List.take_of_length_le hshort]
    · rfl

end Prune

/-! ## From the outcome to the run -/

/-- What `m` takes over from the last state of the run. -/
structure Concludes (base loc remote last m : Database V) : Prop where
  config : m.config = last.config
  metadata : m.metadata = last.metadata
  groups : m.groups = last.groups
  customIcons : m.customIcons = last.customIcons
  deletedObjects : ∀ id, m.deletedObjects[id]? =
    if id ∈ base.deletedObjects ∨ id ∈ loc.deletedObjects ∨ id ∈ remote.deletedObjects then
      some (latestDeletion base loc remote id) else last.deletedObjects[id]?
  mem_entries : ∀ e : EntryId, e ∈ m.entries ↔ e ∈ last.entries
  entries : ∀ (e : EntryId) (entry : Entry V), last.entries[e]? = some entry →
    ∃ out, m.entries[e]? = some out ∧ entry.prunedFrom out
  histories : ∀ limit, finiteHistoryLimit m = some limit → ∀ e : EntryId,
    m.entries[e]?.map (·.history) = last.entries[e]?.map fun entry => entry.history.map (·.take limit)
  unpruned : finiteHistoryLimit m = none → m.entries = last.entries
  attachments : ∀ e : EntryId, attachmentsAt m e = attachmentsAt last e

/-- Each entry keeps its newest snapshots, as many as the limit allows. -/
theorem Concludes.pruned {base loc remote last m : Database V} (h : Concludes base loc remote last m)
    {id : EntryId} {entry : Entry V} (hentry : last.entries[id]? = some entry) :
    ∃ n, m.entries[id]? = some { entry with history := entry.history.map (·.take n) } ∧
      ∀ i < (entry.history.getD []).length,
        i < n ↔ ∀ limit, finiteHistoryLimit m = some limit → i < limit := by
  cases hlimit : finiteHistoryLimit m with
  | none =>
    refine ⟨(entry.history.getD []).length, ?_, fun i hi => by simp [hi]⟩
    rw [h.unpruned hlimit, hentry, Option.some.injEq]
    obtain ⟨data, history⟩ := entry
    cases history <;> simp
  | some limit =>
    refine ⟨limit, ?_, fun i _ => by simp⟩
    obtain ⟨out, hout, n, rfl⟩ := h.entries id entry hentry
    have hhistory := h.histories limit hlimit id
    rw [hout, hentry, Option.map_some, Option.map_some, Option.some.injEq] at hhistory
    rw [hout, ← hhistory]

section Merged
variable [DecidableEq V] {K : Keepass V} {base loc remote m : KdbxDocument V}

theorem mergeDivergent_merged (h : mergeDivergent K base loc remote = .ok (.merged m)) :
    ∃ (st : MergeState V) (run : Run K base.database loc.database remote.database st),
      Quiet run.merged ∧
      Concludes base.database loc.database remote.database run.merged.candidate m.database ∧
      Identified m.database ∧
      SyncValid { run.merged.candidate with deletedObjects := m.database.deletedObjects } := by
  unfold mergeDivergent at h
  split at h
  · cases h
  simp only [bind, Except.bind] at h
  split at h
  · cases h
  case h_2 st hrun =>
  unfold intoOutcome at h
  split at h
  · cases h
  case isFalse hquiet =>
  split at h
  swap
  · cases h
  case isTrue hvalid =>
  cases h
  obtain ⟨run⟩ := merge_eq_ok hrun
  refine ⟨st, run, run.quiet_merged (not_not.mp hquiet), ?_⟩
  obtain ⟨conflicts, hreport⟩ := validateFinalHierarchy_report
    (mergeTombstones base.database loc.database remote.database run.merged)
  obtain ⟨deleted, hcandidate, hdeleted⟩ := mergeTombstones_candidate base.database
    loc.database remote.database run.merged
  have hst : st.candidate = { run.merged.candidate with deletedObjects := deleted } :=
    ((congrArg MergeState.candidate (run.out_eq.trans hreport)).trans candidate_report).trans
      hcandidate
  obtain ⟨hkept, hentries⟩ := pruneAllEntryHistory_spec st.candidate
  have hids := (databaseValidForSync_iff.mp hvalid).identified
  unfold fromMergedDatabaseWithHistoryPolicy
  refine ⟨⟨?_, ?_, ?_, ?_, ?_, ?_, ?_, ?_, ?_, ?_⟩, ?_, ?_⟩
  · rw [hkept, hst]
  · rw [hkept, hst]
  · rw [hkept, hst]
  · rw [hkept, hst]
  · rw [hkept, hst]
    exact hdeleted
  · intro e
    rw [mem_entries_prune, hst]
  · intro e entry he
    rcases hentries e with ⟨hnone, _⟩ | ⟨entry', out, hsome, hout, hpruned⟩
    · rw [hst] at hnone
      rw [hnone] at he
      cases he
    · rw [hst] at hsome
      obtain rfl := Option.some.inj (hsome.symm.trans he)
      exact ⟨out, hout, hpruned⟩
  · intro limit hlimit e
    rw [history_prune (finiteHistoryLimit_prune.symm.trans hlimit), hst]
  · intro hlimit
    rw [pruneAllEntryHistory, finiteHistoryLimit_prune.symm.trans hlimit, hst]
  · intro e
    rw [attachmentsAt_prune, hst]
    rfl
  · have hlive : ∀ k id, LiveAs (pruneAllEntryHistory st.candidate) k id ↔
        LiveAs st.candidate k id := by
      intro k id
      cases k with
      | entry => exact mem_entries_prune
      | group => rw [hkept]; rfl
      | icon => rw [hkept]; rfl
    refine ⟨fun id k k' hk hk' => hids.oneKind id k k' ((hlive k id).mp hk) ((hlive k' id).mp hk'),
      fun id k hk => ?_⟩
    rw [hkept]
    exact hids.notDeleted id k ((hlive k id).mp hk)
  · have hdeleted : (pruneAllEntryHistory st.candidate).deletedObjects = deleted := by
      rw [hkept, hst]
    rw [hdeleted, ← hst]
    exact databaseValidForSync_iff.mp hvalid

end Merged

/-! ## Three-way choices -/

/-- Every component of `m` is the three-way choice of what the inputs have there; where all three
differ there is no choice, so there is no such `m`. -/
structure DocumentMerged (base loc remote m : Database V) : Prop where
  config : IsThreeWay base.config loc.config remote.config m.config
  metadata : MetaMerged base.metadata loc.metadata remote.metadata m.metadata
  groups : ∀ (id : GroupId) (b l r g : Group V), base.groups[id]? = some b →
    loc.groups[id]? = some l → remote.groups[id]? = some r → m.groups[id]? = some g →
    GroupMerged b l r g
  entries : ∀ (id : EntryId) (b l r e : Entry V), base.entries[id]? = some b →
    loc.entries[id]? = some l → remote.entries[id]? = some r → m.entries[id]? = some e →
    EntryMerged b l r e ∧ ∀ name : String, IsThreeWay (attachmentsAt base id)[name]?
      (attachmentsAt loc id)[name]? (attachmentsAt remote id)[name]? (attachmentsAt m id)[name]?

/-- Where the library clears a reference to a removed group, the three-way choice of the reference
does not name a group that base and local have and remote has not. -/
def ReferencesKept (K : Keepass V) (base loc remote : Database V) : Prop :=
  ∀ reference ∈ Meta.references, reference ∈ K.cleared → ∀ uuid,
    IsThreeWay (reference base.metadata) (reference loc.metadata) (reference remote.metadata)
      (some uuid) →
    ¬ ((⟨uuid⟩ : GroupId) ∈ base.groups ∧ ⟨uuid⟩ ∈ loc.groups ∧ ⟨uuid⟩ ∉ remote.groups)

section ThreeWay
variable [DecidableEq V] {K : Keepass V} {base loc remote m : KdbxDocument V}

omit [DecidableEq V] in
theorem entryMerged_prunedFrom {b l r e out : Entry V} (h : EntryMerged b l r e)
    (hout : e.prunedFrom out) : EntryMerged b l r out := by
  obtain ⟨n, rfl⟩ := hout
  exact ⟨h.fields, h.parent, h.tags, h.icon, h.foregroundColor, h.backgroundColor, h.overrideUrl,
    h.qualityCheck, h.autotype, h.customData, h.times⟩

/-- The metadata of a document without a conflict are chosen three ways, but for those of
`K.cleared` that name a group that goes. -/
theorem Run.metadata_isThreeWay {base loc remote m : Database V} {st : MergeState V}
    (run : Run K base loc remote st) (hb : SyncValid base) (hl : SyncValid loc)
    (hr : SyncValid remote) (hq : Quiet run.merged)
    (hend : Concludes base loc remote run.merged.candidate m) :
    MetaMerged base.metadata loc.metadata remote.metadata m.metadata ↔
      ReferencesKept K base loc remote := by
  have hmeta := (run.config_merged hq).2
  obtain ⟨hreferences, hplain⟩ := run.metadata_merged hb hl hr hq
  rw [hend.metadata]
  have hremoved : ∀ x : GroupId, x ∈ remoteDeletions K base loc remote ↔
      x ∈ base.groups ∧ x ∈ loc.groups ∧ x ∉ remote.groups := by
    intro x
    constructor
    · intro hx
      obtain ⟨hxl, heq, hxr, _⟩ := mem_remoteDeletions.mp hx
      simp only [getElem?_groupIndex] at heq
      exact ⟨(mem_iff_of_map_eq heq).mp hxl, hxl, hxr⟩
    · rintro ⟨hxb, hxl, hxr⟩
      obtain ⟨hdel, heq⟩ := (run.groups_reconciled hl hq x).remoteLost (by simpa using hxb)
        (by simpa using hxl) (by simpa using hxr)
      exact mem_remoteDeletions.mpr ⟨hxl, heq, hxr, by simpa [isDeleted] using hdel⟩
  constructor
  · intro hmerged reference hreference hcleared uuid hchoice hgone
    -- The choice is unique, so the merged document should name the group.
    have hnames := (hmerged.named hreference).unique hchoice
    exact ((hreferences reference hreference uuid).mp hnames).2
      ⟨hcleared, (hremoved ⟨uuid⟩).mpr hgone⟩
  · intro hkept
    have hsame : run.merged.candidate.metadata = run.settled.candidate.metadata := by
      refine Meta.eq_of_references hplain fun reference hreference => Option.ext fun uuid => ?_
      rw [hreferences reference hreference uuid]
      refine and_iff_left_of_imp fun hnames => ?_
      rintro ⟨hcleared, hgone⟩
      have hchoice := hmeta.named hreference
      rw [hnames] at hchoice
      exact hkept reference hreference hcleared uuid hchoice ((hremoved ⟨uuid⟩).mp hgone)
    rw [hsame]
    exact hmeta

theorem merged_isThreeWay_iff (hb : databaseValidForSync base.database = true)
    (hl : databaseValidForSync loc.database = true)
    (hr : databaseValidForSync remote.database = true)
    (h : mergeDivergent K base loc remote = .ok (.merged m)) :
    DocumentMerged base.database loc.database remote.database m.database ↔
      ReferencesKept K base.database loc.database remote.database := by
  rw [databaseValidForSync_iff] at hb hl hr
  obtain ⟨st, run, hq, hend, _⟩ := mergeDivergent_merged h
  refine ⟨fun hm => (run.metadata_isThreeWay hb hl hr hq hend).mp hm.metadata, fun hkept => ?_⟩
  refine ⟨?_, (run.metadata_isThreeWay hb hl hr hq hend).mpr hkept, ?_, ?_⟩
  · rw [hend.config, (run.settings hb hl hr hq).config]
    exact (run.config_merged hq).1
  · intro id b l r g hb' hl' hr' hg
    obtain ⟨g', hg', hmerged, _⟩ := run.group_merged hb hl hr hq hb' hl' hr'
    rw [hend.groups, hg'] at hg
    exact Option.some.inj hg ▸ hmerged
  · intro id b l r e hb' hl' hr' he
    obtain ⟨e', he', hmerged, _, _, _, hattachments⟩ := run.entry_merged hb hl hr hq hb' hl' hr'
    obtain ⟨out, hout, hpruned⟩ := hend.entries id e' he'
    rw [hout] at he
    obtain rfl := Option.some.inj he
    refine ⟨entryMerged_prunedFrom hmerged hpruned, fun name => ?_⟩
    rw [hend.attachments]
    exact hattachments name

end ThreeWay

/-! ## A small vault -/

def mapOf {κ ν : Type} [Ord κ] [Std.TransOrd κ] (items : List (κ × ν)) : Map κ ν :=
  .ofList items compare

/-- A document of version 4.1. -/
def document (db : Database Unit) : KdbxDocument Unit := { version := .kdbx4 1, database := db }

def titled (title : String) : Map String (Value String) := mapOf [("Title", ⟨false, title⟩)]

/-- One entry and one empty group below the root, and a custom icon nobody uses. -/
def smallVault : Database Unit where
  config := ()
  root := ⟨1⟩
  groups := mapOf [(⟨1⟩, { name := "Root", groups := [⟨2⟩], entries := [⟨10⟩] }),
    (⟨2⟩, { name := "Mail", parent := some ⟨1⟩ })]
  entries := mapOf [(⟨10⟩, { parent := ⟨1⟩, fields := titled "old" })]
  customIcons := mapOf [(⟨20⟩, { data := [] })]

/-- Local gives the entry a new title. -/
def retitled : Database Unit :=
  smallVault.editEntry ⟨10⟩ fun entry => { entry with fields := titled "new" }

/-- Remote moves the entry into the group and renames the group. -/
def sorted : Database Unit :=
  (smallVault.relocateEntry ⟨10⟩ ⟨2⟩).editGroup ⟨2⟩ fun group => { group with name := "Post" }

/-- Remote adds a group with a group and an entry in it, and moves the old entry there. -/
def nested : Database Unit :=
  (((smallVault.insertGroup ⟨1⟩ ⟨3⟩ { name := "Home", parent := some ⟨1⟩ }).insertGroup ⟨3⟩ ⟨4⟩
    { name := "Bills", parent := some ⟨3⟩ }).insertEntry ⟨4⟩ ⟨12⟩ { parent := ⟨4⟩ }).relocateEntry
    ⟨10⟩ ⟨3⟩

/-- The document that the three merge to, and local if they do not merge. -/
def mergedOr (base loc remote : Database Unit) : KdbxDocument Unit :=
  match mergeDivergent reference (document base) (document loc) (document remote) with
  | .ok (.merged m) => m
  | _ => document loc

def smallMerge (loc remote : Database Unit) : KdbxDocument Unit := mergedOr smallVault loc remote

/-- The small vault with the group as its recycle bin. -/
def binned : Database Unit :=
  { smallVault with metadata := { recyclebinUuid := some 2 } }

/-- Local gives the entry a new title. -/
def binnedRetitled : Database Unit :=
  binned.editEntry ⟨10⟩ fun entry => { entry with fields := titled "new" }

/-- Remote deletes the group and still names it. -/
def unbinned : Database Unit :=
  { binned.eraseGroup ⟨2⟩ with
    metadata := binned.metadata
    deletedObjects := mapOf [(2, none)] }

set_option maxRecDepth 100000 in
theorem merged_isThreeWay_iff_sorted :
    mergeDivergent reference (document smallVault) (document retitled) (document sorted) =
      .ok (.merged (smallMerge retitled sorted)) ∧
    (DocumentMerged smallVault retitled sorted (smallMerge retitled sorted).database ↔
      ReferencesKept reference smallVault retitled sorted) :=
  have h : mergeDivergent reference (document smallVault) (document retitled) (document sorted) =
      .ok (.merged (smallMerge retitled sorted)) := by decide +kernel
  ⟨h, merged_isThreeWay_iff (by decide +kernel) (by decide +kernel) (by decide +kernel) h⟩

set_option maxRecDepth 100000 in
/-- All three name the same recycle bin, and the merged document names none. -/
theorem merged_forgets_bin :
    databaseValidForSync binned = true ∧ databaseValidForSync binnedRetitled = true ∧
    databaseValidForSync unbinned = true ∧
    mergeDivergent reference (document binned) (document binnedRetitled) (document unbinned) =
      .ok (.merged (mergedOr binned binnedRetitled unbinned)) ∧
    ¬ DocumentMerged binned binnedRetitled unbinned
      (mergedOr binned binnedRetitled unbinned).database := by
  refine ⟨by decide +kernel, by decide +kernel, by decide +kernel, by decide +kernel, fun h => ?_⟩
  have hagreed := h.metadata.recyclebinUuid.agreed rfl
  have hlost : (mergedOr binned binnedRetitled unbinned).database.metadata.recyclebinUuid ≠
      binnedRetitled.metadata.recyclebinUuid := by decide +kernel
  exact hlost hagreed

/-! ## Nothing lost, nothing brought back -/

/-- Live on both sides, or on exactly one side and not in base. -/
def ShouldLive (inBase inLocal inRemote : Prop) : Prop :=
  (inLocal ∧ inRemote) ∨ (Xor inLocal inRemote ∧ ¬ inBase)

/-- Whatever a side has and the merge does not was in base, is unchanged on that side and has a
tombstone on the other side. -/
def RightlyLost {α : Type} (b l r : Option α) (lDeleted rDeleted : Prop) : Prop :=
  (l.isSome → b.isSome ∧ l = b ∧ rDeleted) ∧ (r.isSome → b.isSome ∧ r = b ∧ lDeleted)

/-- The group is in `m` as it is in `db`, child lists aside. -/
def GroupAppears (db m : Database V) (id : GroupId) : Prop :=
  ∃ g g', db.groups[id]? = some g ∧ m.groups[id]? = some g' ∧ g'.core = g.core

/-- The entry is in `m` as it is in `db`, attachments and pruned snapshots aside. -/
def EntryAppears (db m : Database V) (id : EntryId) : Prop :=
  ∃ e e' pruned, db.entries[id]? = some e ∧ m.entries[id]? = some e' ∧ e.prunedFrom pruned ∧
    e'.sansAttachments = pruned.sansAttachments

/-- The library finds every attachment the entry names. -/
def AttachmentsFound (db : Database V) (id : EntryId) : Prop :=
  ∀ entry : Entry V, db.entries[id]? = some entry →
    ∀ (name : String) a, entry.attachments[name]? = some a → a ∈ db.attachments

/-- `time` is the latest deletion time that one of the databases knows for `id`. -/
def IsLatest (dbs : List (Database V)) (id : Uuid) (time : Option Time) : Prop :=
  (∀ db ∈ dbs, ∀ t, db.deletedObjects[id]? = some (some t) → ∃ t', time = some t' ∧ t ≤ t') ∧
  ∀ t, time = some t → ∃ db ∈ dbs, db.deletedObjects[id]? = some (some t)

structure Preserved (K : Keepass V) (base loc remote m : Database V) : Prop where
  groups : ∀ id : GroupId, id ∈ m.groups ↔
    ShouldLive (id ∈ base.groups) (id ∈ loc.groups) (id ∈ remote.groups)
  entries : ∀ id : EntryId, id ∈ m.entries ↔
    ShouldLive (id ∈ base.entries) (id ∈ loc.entries) (id ∈ remote.entries)
  /-- A UUID that both sides use names the same kind of object on both. -/
  kinds : ∀ id k k', LiveAs loc k id → LiveAs remote k' id → k = k'
  groupsLost : ∀ id : GroupId, id ∉ m.groups →
    RightlyLost (groupIndex K base)[id]? (groupIndex K loc)[id]? (groupIndex K remote)[id]?
      (id.uuid ∈ loc.deletedObjects) (id.uuid ∈ remote.deletedObjects)
  entriesLost : ∀ id : EntryId, id ∉ m.entries →
    RightlyLost (entryIndex K base)[id]? (entryIndex K loc)[id]? (entryIndex K remote)[id]?
      (id.uuid ∈ loc.deletedObjects) (id.uuid ∈ remote.deletedObjects)
  groupsAddedLocally : ∀ id : GroupId, id ∉ base.groups → id ∈ loc.groups → id ∉ remote.groups →
    GroupAppears loc m id
  groupsAddedRemotely : ∀ id : GroupId, id ∉ base.groups → id ∉ loc.groups →
    id ∈ remote.groups → GroupAppears remote m id
  entriesAddedLocally : ∀ id : EntryId, id ∉ base.entries → id ∈ loc.entries →
    id ∉ remote.entries → EntryAppears loc m id ∧ attachmentsAt m id = attachmentsAt loc id
  entriesAddedRemotely : ∀ id : EntryId, id ∉ base.entries → id ∉ loc.entries →
    id ∈ remote.entries → EntryAppears remote m id ∧
      (AttachmentsFound remote id → attachmentsAt m id = attachmentsAt remote id)
  tombstones : ∀ id, (id ∈ m.deletedObjects ↔
      id ∈ base.deletedObjects ∨ id ∈ loc.deletedObjects ∨ id ∈ remote.deletedObjects) ∧
    ∀ time, m.deletedObjects[id]? = some time → IsLatest [base, loc, remote] id time
  disjoint : ∀ id k, LiveAs m k id → id ∉ m.deletedObjects

/-- The icon is a custom one that base has and remote has not. -/
def IconDeleted (base remote : Database V) (icon : Option Icon) : Prop :=
  ∃ c, icon = some (.custom c) ∧ c ∈ base.customIcons ∧ c ∉ remote.customIcons

/-- The number of snapshots that the three agree to keep spares the one in place `i`. -/
def SparedByLimit (base loc remote : Database V) (i : Nat) : Prop :=
  ∀ limit : Int, 0 ≤ limit → IsThreeWay base.metadata.historyMaxItems loc.metadata.historyMaxItems
    remote.metadata.historyMaxItems (some limit) → i < limit

/-- Nothing that only local added uses a custom icon that remote deleted, neither an object nor a
snapshot that pruning leaves. -/
structure IconsUndisturbed (base loc remote : Database V) : Prop where
  groups : ∀ (id : GroupId) (g : Group V), id ∉ base.groups → id ∉ remote.groups →
    loc.groups[id]? = some g → ¬ IconDeleted base remote g.icon
  entries : ∀ (id : EntryId) (e : Entry V), id ∉ base.entries → id ∉ remote.entries →
    loc.entries[id]? = some e → ¬ IconDeleted base remote e.icon
  snapshots : ∀ (id : EntryId) (e : Entry V), id ∉ base.entries → id ∉ remote.entries →
    loc.entries[id]? = some e → ∀ i snapshot, (e.history.getD [])[i]? = some snapshot →
      SparedByLimit base loc remote i → ¬ IconDeleted base remote snapshot.icon

section Icons
variable {gone : CustomIconId → Bool} {e out : Entry V}

/-- The entry without the icons of `gone`, snapshots included. -/
def Entry.sansIcons (gone : CustomIconId → Bool) (e : Entry V) : Entry V where
  toEntryData := { e.toEntryData with icon := keptIcon gone e.icon }
  history := e.history.map (·.map fun snapshot =>
    { snapshot with icon := keptIcon gone snapshot.icon })

theorem Entry.sansIcons_history : (e.sansIcons gone).history = e.history.map (·.map fun snapshot =>
    { snapshot with icon := keptIcon gone snapshot.icon }) := rfl

theorem SnapshotLeft.eq_kept {snapshot out : EntryData V} (h : SnapshotLeft gone snapshot out)
    (hpresent : ∀ c, out.icon = some (.custom c) → gone c = false) :
    out = { snapshot with icon := keptIcon gone snapshot.icon } := by
  rcases h with rfl | rfl
  · have hicon : keptIcon gone out.icon = out.icon := by
      unfold keptIcon
      split
      · case h_1 c hc => simp [hpresent c hc]
      · rfl
    rw [hicon]
  · rfl

/-- The library may leave removed icons on snapshots. Where it did not, it took off all of them. -/
theorem EntryLeft.eq_sansIcons (h : EntryLeft gone e out)
    (hpresent : ∀ snapshot ∈ out.history.getD [], ∀ c, snapshot.icon = some (.custom c) →
      gone c = false) :
    out = e.sansIcons gone := by
  obtain ⟨data, history⟩ := out
  obtain ⟨rfl, hhistory⟩ := h
  simp only [Entry.sansIcons, Entry.mk.injEq, true_and]
  generalize e.history = before at hhistory ⊢
  cases hhistory with
  | none => rfl
  | some hsnapshots =>
    simp only [Option.getD_some] at hpresent
    rw [Option.map_some, Option.some.injEq]
    induction hsnapshots with
    | nil => rfl
    | cons hleft _ ih =>
      obtain ⟨hhead, hrest⟩ := List.forall_mem_cons.mp hpresent
      rw [List.map_cons, ih hrest, hleft.eq_kept hhead]

/-- Nothing happens to an entry that uses no icon of `gone`, the snapshots pruning takes aside. -/
theorem Entry.sansIcons_pruned {n : Nat} (hicon : keptIcon gone e.icon = e.icon)
    (hsnapshots : ∀ (i : Nat) snapshot, (e.history.getD [])[i]? = some snapshot → i < n →
      keptIcon gone snapshot.icon = snapshot.icon) :
    ({ e.sansIcons gone with history := (e.sansIcons gone).history.map (·.take n) } : Entry V) =
      { e with history := e.history.map (·.take n) } := by
  have hdata : (e.sansIcons gone).toEntryData = e.toEntryData :=
    congrArg (fun icon => { e.toEntryData with icon := icon }) hicon
  show Entry.mk (e.sansIcons gone).toEntryData ((e.sansIcons gone).history.map (·.take n)) =
    Entry.mk e.toEntryData (e.history.map (·.take n))
  rw [hdata, Entry.sansIcons_history, Entry.mk.injEq]
  refine ⟨rfl, ?_⟩
  generalize e.history = history at hsnapshots ⊢
  cases history with
  | none => rfl
  | some history =>
    simp only [Option.map_some, Option.some.injEq, Option.getD_some] at hsnapshots ⊢
    refine List.ext_getElem? fun i => ?_
    rw [List.getElem?_take, List.getElem?_take]
    split
    · case isTrue hi =>
      rw [List.getElem?_map]
      cases hsnapshot : history[i]? with
      | none => rfl
      | some snapshot => rw [Option.map_some, hsnapshots i snapshot hsnapshot hi]
    · rfl

end Icons

section Preserve
variable [DecidableEq V] {K : Keepass V} {base loc remote m : KdbxDocument V}

omit [DecidableEq V] in
theorem shouldLive_iff {b l r : Prop} : ShouldLive b l r ↔ (l ∧ r) ∨ ¬ b ∧ (l ∨ r) := by
  unfold ShouldLive Xor
  tauto

omit [DecidableEq V] in
theorem latestDeletion_isLatest (base loc remote : Database V) (id : Uuid) :
    IsLatest [base, loc, remote] id (latestDeletion base loc remote id) := by
  have hmem : ∀ t, t ∈ ([base.deletedObjects[id]?.join, loc.deletedObjects[id]?.join,
      remote.deletedObjects[id]?.join].filterMap fun time => time) ↔
      ∃ db ∈ [base, loc, remote], db.deletedObjects[id]? = some (some t) := by
    intro t
    simp [List.mem_filterMap, eq_comm (a := some t), Option.join_eq_some_iff]
  unfold latestDeletion
  constructor
  · intro db hdb t ht
    have hin := (hmem t).mpr ⟨db, hdb, ht⟩
    obtain ⟨t', ht'⟩ := Option.isSome_iff_exists.mp
      (List.isSome_max?_iff.mpr (List.ne_nil_of_mem hin))
    exact ⟨t', ht', (List.max?_eq_some_iff.mp ht').2 t hin⟩
  · intro t ht
    exact (hmem t).mp (List.max?_mem ht)

omit [DecidableEq V] in
theorem Reconciled.rightlyLost {α : Type} {b l r : Option α} {bDeleted lDeleted rDeleted : Prop}
    (h : Reconciled b l r bDeleted lDeleted rDeleted)
    (hlost : ¬ ShouldLive (b.isSome = true) (l.isSome = true) (r.isSome = true)) :
    RightlyLost b l r lDeleted rDeleted := by
  rw [shouldLive_iff] at hlost
  constructor
  · intro hl
    have hr : r = none := by
      by_contra hr
      exact hlost (Or.inl ⟨hl, Option.isSome_iff_ne_none.mpr hr⟩)
    have hb : b.isSome = true := by
      by_contra hb
      exact hlost (Or.inr ⟨hb, Or.inl hl⟩)
    obtain ⟨hdel, heq⟩ := h.remoteLost hb hl hr
    exact ⟨hb, heq, hdel⟩
  · intro hr
    have hl : l = none := by
      by_contra hl
      exact hlost (Or.inl ⟨Option.isSome_iff_ne_none.mpr hl, hr⟩)
    have hb : b.isSome = true := by
      by_contra hb
      exact hlost (Or.inr ⟨hb, Or.inr hr⟩)
    obtain ⟨hdel, heq⟩ := h.localLost hb hl hr
    exact ⟨hb, heq, hdel⟩

section Run
variable {base loc remote m : Database V} {st : MergeState V} (run : Run K base loc remote st)
  (hb : SyncValid base) (hl : SyncValid loc) (hr : SyncValid remote) (hq : Quiet run.merged)
  (hend : Concludes base loc remote run.merged.candidate m)
  (hicons : IconsPresent run.merged.candidate)
include hb hl hr hq hend

/-- What only local has and remote did not delete stays. -/
theorem Run.liveAs_local {id : Uuid} {k : Kind} (hk : LiveAs loc k id)
    (hother : ¬ LiveAs remote k id) (hdel : id ∉ remote.deletedObjects) : LiveAs m k id := by
  cases k with
  | entry =>
    simp only [LiveAs] at hk hother ⊢
    refine (hend.mem_entries _).mpr ((run.mem_entries_merged hb hl hr hq).mpr
      (Or.inr ⟨fun hbase => hdel ?_, Or.inl hk⟩))
    simpa [isDeleted] using ((run.entries_reconciled hq ⟨id⟩).remoteLost (by simpa using hbase)
      (by simpa using hk) (by simpa using hother)).1
  | group =>
    simp only [LiveAs, hend.groups] at hk hother ⊢
    refine (run.mem_groups_live hb hl hr hq).mpr
      (Or.inr ⟨fun hbase => hdel ?_, Or.inl hk⟩)
    simpa [isDeleted] using ((run.groups_reconciled hl hq ⟨id⟩).remoteLost (by simpa using hbase)
      (by simpa using hk) (by simpa using hother)).1
  | icon =>
    simp only [LiveAs, hend.customIcons] at hk hother ⊢
    refine (run.mem_customIcons hb hl hr hq).mpr ⟨hk, ?_⟩
    rw [← Bool.not_eq_true]
    intro hremoves
    obtain ⟨_, _, _, _, hdel'⟩ := removesIcon_iff.mp hremoves
    exact hdel (by simpa [isDeleted] using hdel')

/-- What only remote has and local did not delete is added. -/
theorem Run.liveAs_remote {id : Uuid} {k : Kind} (hk : LiveAs remote k id)
    (hother : ¬ LiveAs loc k id) (hdel : id ∉ loc.deletedObjects) : LiveAs m k id := by
  cases k with
  | entry =>
    simp only [LiveAs] at hk hother ⊢
    refine (hend.mem_entries _).mpr ((run.mem_entries_merged hb hl hr hq).mpr
      (Or.inr ⟨fun hbase => hdel ?_, Or.inr hk⟩))
    simpa [isDeleted] using ((run.entries_reconciled hq ⟨id⟩).localLost (by simpa using hbase)
      (by simpa using hother) (by simpa using hk)).1
  | group =>
    simp only [LiveAs, hend.groups] at hk hother ⊢
    refine (run.mem_groups_live hb hl hr hq).mpr
      (Or.inr ⟨fun hbase => hdel ?_, Or.inr hk⟩)
    simpa [isDeleted] using ((run.groups_reconciled hl hq ⟨id⟩).localLost (by simpa using hbase)
      (by simpa using hother) (by simpa using hk)).1
  | icon =>
    have hsettled := (run.quiet_passes hq).2.2.2
    rw [run.settled_eq] at hsettled
    have := ((mergeCustomIcons_quiet hsettled).2.2.1 ⟨id⟩ hk hother).2
    exact absurd (by simpa [isDeleted] using this) hdel

theorem Run.kinds (hids : Identified m) {id : Uuid} {k k' : Kind} (hk : LiveAs loc k id)
    (hk' : LiveAs remote k' id) : k = k' := by
  by_contra hne
  have hother : ¬ LiveAs remote k id := fun h => hne (hr.identified.oneKind id k k' h hk')
  have hother' : ¬ LiveAs loc k' id := fun h => hne (hl.identified.oneKind id k k' hk h)
  exact hne (hids.oneKind id k k'
    (run.liveAs_local hb hl hr hq hend hk hother (hr.identified.notDeleted id k' hk'))
    (run.liveAs_remote hb hl hr hq hend hk' hother' (hl.identified.notDeleted id k hk)))

/-- A group that only local added, in `m`. -/
theorem Run.group_local_core {id : GroupId} {g : Group V} (hid : id ∉ base.groups)
    (hg : loc.groups[id]? = some g) : ∃ g', m.groups[id]? = some g' ∧
      g'.core = (g.withIcon (keptIcon (removesIcon base loc remote) g.icon)).core := by
  apply Option.map_eq_some_iff.mp
  rw [hend.groups]
  exact run.group_local hb hl hr hq hid hg

include hicons in
/-- An entry that only local added, in `m`. -/
theorem Run.entry_local_pruned {id : EntryId} {e : Entry V} (hid : id ∉ base.entries)
    (he : loc.entries[id]? = some e) :
    (∃ e' n, m.entries[id]? = some e' ∧
      e' = { e.sansIcons (removesIcon base loc remote) with
        history := (e.sansIcons (removesIcon base loc remote)).history.map (·.take n) } ∧
      ∀ i < (e.history.getD []).length, i < n ↔ SparedByLimit base loc remote i) ∧
    attachmentsAt m id = attachmentsAt loc id := by
  obtain ⟨entry, hmerged, hleft, _, hattachments⟩ := run.entry_local hb hl hr hq hid he
  -- A snapshot that still names a removed icon would not have passed the check.
  have hentry : entry = e.sansIcons (removesIcon base loc remote) := by
    refine hleft.eq_sansIcons fun snapshot hsnapshot c hc => ?_
    exact ((run.mem_customIcons hb hl hr hq).mp (hicons.snapshots id entry hmerged snapshot hsnapshot
      c hc)).2
  subst hentry
  obtain ⟨n, hm, hn⟩ := hend.pruned hmerged
  refine ⟨⟨_, n, hm, rfl, fun i hi => ?_⟩, (hend.attachments id).trans hattachments⟩
  have hlength : ((e.sansIcons (removesIcon base loc remote)).history.getD []).length =
      (e.history.getD []).length := by
    rw [Entry.sansIcons_history]
    cases e.history <;> simp
  rw [hn i (hlength ▸ hi)]
  have hchoice := (run.config_merged hq).2.historyMaxItems
  have hmax : m.metadata.historyMaxItems = run.settled.candidate.metadata.historyMaxItems := by
    rw [hend.metadata]
    exact (congrArg Meta.historyMaxItems (run.metadata_merged hb hl hr hq).2 :)
  rw [← hmax] at hchoice
  constructor
  · intro hspared limit hnonneg hlimit
    have hfinite : finiteHistoryLimit m = some limit.toNat := by
      rw [finiteHistoryLimit, hchoice.unique hlimit]
      simp [hnonneg]
    have := hspared _ hfinite
    omega
  · intro hspared limit hlimit
    obtain ⟨value, hvalue, hfinite⟩ := Option.bind_eq_some_iff.mp hlimit
    rw [hvalue] at hchoice
    split at hfinite
    · case isTrue hnonneg =>
      have := hspared value hnonneg hchoice
      have := Option.some.inj hfinite
      omega
    · cases hfinite

omit hb hl hr hend in
/-- An icon that local uses is taken away exactly if base has it and remote does not. -/
theorem Run.keptIcon_eq {icon : Option Icon} (hicon : HasIcon loc icon) :
    keptIcon (removesIcon base loc remote) icon = icon ↔ ¬ IconDeleted base remote icon := by
  unfold IconDeleted
  match icon with
  | none => simp [keptIcon]
  | some (.builtIn n) => simp [keptIcon]
  | some (.custom c) =>
    have hremoves := run.removesIcon_eq hq (hicon c rfl)
    by_cases hgone : removesIcon base loc remote c = true
    · have hdeleted := hremoves.mp hgone
      simp [keptIcon, hgone, hdeleted]
    · simp only [keptIcon, hgone, Bool.false_eq_true, if_false, true_iff]
      rintro ⟨c', hc', hbase, hremote⟩
      cases hc'
      exact hgone (hremoves.mpr ⟨hbase, hremote⟩)

include hicons in
/-- Everything that has to be preserved is, the icons of local additions apart. -/
theorem Run.preserved (hids : Identified m) (hsame : IconsUndisturbed base loc remote) :
    Preserved K base loc remote m := by
  have hgroups : ∀ id : GroupId, id ∈ m.groups ↔
      ShouldLive (id ∈ base.groups) (id ∈ loc.groups) (id ∈ remote.groups) := by
    intro id
    rw [shouldLive_iff, hend.groups]
    exact run.mem_groups_live hb hl hr hq
  have hentries : ∀ id : EntryId, id ∈ m.entries ↔
      ShouldLive (id ∈ base.entries) (id ∈ loc.entries) (id ∈ remote.entries) := by
    intro id
    rw [shouldLive_iff, hend.mem_entries]
    exact run.mem_entries_merged hb hl hr hq
  refine ⟨hgroups, hentries, fun id k k' hk hk' => run.kinds hb hl hr hq hend hids hk hk',
    ?_, ?_, ?_, ?_, ?_, ?_, ?_, hids.notDeleted⟩
  · intro id hid
    have hlost := (run.groups_reconciled hl hq id).rightlyLost
    simp only [getElem?_groupIndex, Option.isSome_map, Std.ExtTreeMap.isSome_getElem?_iff_mem,
      isDeleted, decide_eq_true_eq] at hlost ⊢
    exact hlost fun hlive => hid ((hgroups id).mpr hlive)
  · intro id hid
    have hlost := (run.entries_reconciled hq id).rightlyLost
    simp only [getElem?_entryIndex, Option.isSome_map, Std.ExtTreeMap.isSome_getElem?_iff_mem,
      isDeleted, decide_eq_true_eq] at hlost ⊢
    exact hlost fun hlive => hid ((hentries id).mpr hlive)
  · intro id hbase hloc hremote
    obtain ⟨g, hg⟩ := mem_iff_exists.mp hloc
    obtain ⟨g', hg', hcore⟩ := run.group_local_core hb hl hr hq hend hbase hg
    rw [(run.keptIcon_eq hq (hl.icons.groups id g hg)).mpr
      (hsame.groups id g hbase hremote hg)] at hcore
    exact ⟨g, g', hg, hg', hcore⟩
  · intro id hbase hloc hremote
    have hnew := (run.groups_reconciled hl hq id).addedRemotely (by simpa using hbase)
      (by simpa using hloc) (by simpa using hremote)
    obtain ⟨_, hcore⟩ := run.group_remote hb hl hr hq (mem_remoteAdditions.mpr
      ⟨hbase, hloc, hremote, by simpa [isDeleted] using hnew⟩)
    obtain ⟨g, hg⟩ := mem_iff_exists.mp hremote
    rw [hg, Option.map_some, Option.map_eq_some_iff, ← hend.groups] at hcore
    obtain ⟨g', hg', hcore⟩ := hcore
    exact ⟨g, g', hg, hg', hcore⟩
  · intro id hbase hloc hremote
    obtain ⟨e, he⟩ := mem_iff_exists.mp hloc
    obtain ⟨⟨e', n, he', rfl, hspared⟩, hattachments⟩ :=
      run.entry_local_pruned hb hl hr hq hend hicons hbase he
    refine ⟨⟨e, _, _, he, he', ⟨n, ?_⟩, rfl⟩, hattachments⟩
    refine Entry.sansIcons_pruned ((run.keptIcon_eq hq (hl.icons.entries id e he)).mpr
      (hsame.entries id e hbase hremote he)) fun i snapshot hsnapshot hi => ?_
    have hlength := (List.getElem?_eq_some_iff.mp hsnapshot).1
    have hmem := List.mem_of_getElem? hsnapshot
    exact (run.keptIcon_eq hq (hl.icons.snapshots id e he snapshot hmem)).mpr
      (hsame.snapshots id e hbase hremote he i snapshot hsnapshot ((hspared i hlength).mp hi))
  · intro id hbase hloc hremote
    obtain ⟨e, he⟩ := mem_iff_exists.mp hremote
    obtain ⟨hm, hempty, _⟩ := run.entry_remote hq hbase hloc he
    obtain ⟨e', he', hpruned⟩ := hend.entries id e hm
    refine ⟨⟨e, e', e', he, he', hpruned, rfl⟩, fun hfound => ?_⟩
    rw [hend.attachments, attachmentsAt_of_getElem? hm, attachmentsAt_of_getElem? he]
    rw [attachmentsAt_of_getElem? he] at hempty
    -- Remote finds whatever the entry names, and finds nothing.
    refine namedAttachments_congr fun name a ha => absurd (hfound e he name a ha) fun hmem => ?_
    obtain ⟨value, hvalue⟩ := mem_iff_exists.mp hmem
    have hsome : (namedAttachments remote e.toEntryData)[name]? = some value := by
      rw [getElem?_namedAttachments, ha]
      exact hvalue
    rw [Std.ExtTreeMap.isEmpty_iff.mp hempty] at hsome
    simp at hsome
  · intro id
    have hdeleted := hend.deletedObjects id
    have hloc : run.merged.candidate.deletedObjects = loc.deletedObjects :=
      (run.settings hb hl hr hq).deletedObjects.trans run.withoutIcons.deletedObjects
    rw [hloc] at hdeleted
    split at hdeleted
    · case isTrue hknown =>
      refine ⟨iff_of_true (mem_iff_exists.mpr ⟨_, hdeleted⟩) hknown, fun time htime => ?_⟩
      rw [hdeleted] at htime
      exact Option.some.inj htime ▸ latestDeletion_isLatest base loc remote id
    · case isFalse hunknown =>
      have hnone : loc.deletedObjects[id]? = none :=
        Std.ExtTreeMap.getElem?_eq_none fun h => hunknown (Or.inr (Or.inl h))
      rw [hnone] at hdeleted
      refine ⟨iff_of_false (by simp [mem_iff_exists, hdeleted]) hunknown, fun time htime => ?_⟩
      rw [hdeleted] at htime
      cases htime

include hicons in
/-- What only local added keeps its icon only if remote kept the icon. -/
theorem Run.iconsUndisturbed (hm : Preserved K base loc remote m) :
    IconsUndisturbed base loc remote where
  groups id g hbase hremote hg hdeleted := by
    obtain ⟨g₀, g', hg₀, hg', hcore⟩ :=
      hm.groupsAddedLocally id hbase (mem_iff_exists.mpr ⟨g, hg⟩) hremote
    obtain rfl := Option.some.inj (hg.symm.trans hg₀)
    obtain ⟨g'', hg'', hkept⟩ := run.group_local_core hb hl hr hq hend hbase hg
    obtain rfl := Option.some.inj (hg'.symm.trans hg'')
    have hicon := congrArg Group.icon (hcore.symm.trans hkept)
    exact (run.keptIcon_eq hq (hl.icons.groups id g hg)).mp hicon.symm hdeleted
  entries id e hbase hremote he hdeleted := by
    obtain ⟨⟨e₀, e', pruned, he₀, he', ⟨n, rfl⟩, hdata⟩, _⟩ :=
      hm.entriesAddedLocally id hbase (mem_iff_exists.mpr ⟨e, he⟩) hremote
    obtain rfl := Option.some.inj (he.symm.trans he₀)
    obtain ⟨⟨e'', n', he'', rfl, _⟩, _⟩ := run.entry_local_pruned hb hl hr hq hend hicons hbase he
    obtain rfl := Option.some.inj (he'.symm.trans he'')
    have hicon := congrArg (fun entry : Entry V => entry.icon) hdata
    exact (run.keptIcon_eq hq (hl.icons.entries id e he)).mp hicon hdeleted
  snapshots id e hbase hremote he i snapshot hsnapshot hspared hdeleted := by
    obtain ⟨⟨e₀, e', pruned, he₀, he', ⟨n, rfl⟩, hdata⟩, _⟩ :=
      hm.entriesAddedLocally id hbase (mem_iff_exists.mpr ⟨e, he⟩) hremote
    obtain rfl := Option.some.inj (he.symm.trans he₀)
    obtain ⟨⟨e'', n', he'', rfl, hn⟩, _⟩ := run.entry_local_pruned hb hl hr hq hend hicons hbase he
    obtain rfl := Option.some.inj (he'.symm.trans he'')
    have hlength := (List.getElem?_eq_some_iff.mp hsnapshot).1
    have hplace := (hn i hlength).mpr hspared
    have hhistory := congrArg (fun entry : Entry V => (entry.history.getD [])[i]?) hdata
    obtain ⟨history, hhistory'⟩ : ∃ history, e.history = some history := by
      cases hnone : e.history with
      | none => simp [hnone] at hsnapshot
      | some history => exact ⟨history, rfl⟩
    simp only [Entry.sansAttachments, Entry.sansIcons_history, hhistory', Option.map_some,
      Option.getD_some, List.getElem?_take, List.getElem?_map, hplace, if_true] at hhistory hsnapshot
    rw [hsnapshot, Option.map_some] at hhistory
    split at hhistory
    · have hicon := congrArg EntryData.icon (Option.some.inj hhistory)
      exact (run.keptIcon_eq hq (hl.icons.snapshots id e he snapshot
        (List.mem_of_getElem? (by rw [hhistory']; exact hsnapshot)))).mp hicon hdeleted
    · cases hhistory

end Run

theorem merged_preserves_iff (hb : databaseValidForSync base.database = true)
    (hl : databaseValidForSync loc.database = true)
    (hr : databaseValidForSync remote.database = true)
    (h : mergeDivergent K base loc remote = .ok (.merged m)) :
    Preserved K base.database loc.database remote.database m.database ↔
      IconsUndisturbed base.database loc.database remote.database := by
  rw [databaseValidForSync_iff] at hb hl hr
  obtain ⟨st, run, hq, hend, hids, hvalid⟩ := mergeDivergent_merged h
  have hicons : IconsPresent run.merged.candidate :=
    ⟨hvalid.icons.groups, hvalid.icons.entries, hvalid.icons.snapshots⟩
  exact ⟨run.iconsUndisturbed hb hl hr hq hend hicons,
    run.preserved hb hl hr hq hend hicons hids⟩

/-- Local adds an entry that uses the icon. -/
def decorated : Database Unit :=
  smallVault.insertEntry ⟨1⟩ ⟨11⟩ { parent := ⟨1⟩, icon := some (.custom ⟨20⟩) }

/-- Remote deletes the icon. -/
def undecorated : Database Unit :=
  { smallVault.eraseIcon ⟨20⟩ (fun _ _ => true) with deletedObjects := mapOf [(20, none)] }

set_option maxRecDepth 100000 in
theorem merged_preserves_iff_nested :
    mergeDivergent reference (document smallVault) (document retitled) (document nested) =
      .ok (.merged (smallMerge retitled nested)) ∧
    (Preserved reference smallVault retitled nested (smallMerge retitled nested).database ↔
      IconsUndisturbed smallVault retitled nested) :=
  have h : mergeDivergent reference (document smallVault) (document retitled) (document nested) =
      .ok (.merged (smallMerge retitled nested)) := by decide +kernel
  ⟨h, merged_preserves_iff (by decide +kernel) (by decide +kernel) (by decide +kernel) h⟩

set_option maxRecDepth 100000 in
/-- The entry that local added loses its icon, and the merge reports no conflict. -/
theorem merged_loses_icon :
    databaseValidForSync smallVault = true ∧ databaseValidForSync decorated = true ∧
    databaseValidForSync undecorated = true ∧
    mergeDivergent reference (document smallVault) (document decorated) (document undecorated) =
      .ok (.merged (smallMerge decorated undecorated)) ∧
    ¬ Preserved reference smallVault decorated undecorated
      (smallMerge decorated undecorated).database := by
  refine ⟨by decide +kernel, by decide +kernel, by decide +kernel, by decide +kernel, fun h => ?_⟩
  obtain ⟨⟨e, e', pruned, he, he', ⟨n, rfl⟩, hdata⟩, _⟩ :=
    h.entriesAddedLocally ⟨11⟩ (by decide +kernel) (by decide +kernel) (by decide +kernel)
  have hicon : e.icon = some (.custom ⟨20⟩) := by
    have hlocal : decorated.entries[(⟨11⟩ : EntryId)]?.map (fun entry => entry.icon) =
        some (some (.custom ⟨20⟩)) := by decide +kernel
    rw [he] at hlocal
    exact Option.some.inj hlocal
  have hicon' : e'.icon = none := by
    have hmerged : (smallMerge decorated undecorated).database.entries[(⟨11⟩ : EntryId)]?.map
        (fun entry => entry.icon) = some none := by decide +kernel
    rw [he'] at hmerged
    exact Option.some.inj hmerged
  have hsame := congrArg (fun entry : Entry Unit => entry.icon) hdata
  simp only [Entry.sansAttachments, hicon, hicon'] at hsame
  cases hsame

end Preserve

end NianPass.Kdbx
