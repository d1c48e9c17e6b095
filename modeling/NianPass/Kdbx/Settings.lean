import NianPass.Kdbx.EntryPass

/-
  The passes of the merge that do not walk the tree: configuration, metadata,
  custom icons, tombstones and the final look at the hierarchy.

  Removing a custom icon takes it off every live object of the candidate, also
  off those that no later pass writes again, and off the snapshots the library
  has on record. `keptIcon` is the icon an object of local is left with, and
  `mergeCustomIcons_kept` says that this is all the pass does to groups and
  entries.
-/
namespace NianPass.Kdbx

variable {V : Type}

/-! ## Configuration and metadata -/

/-- The three-way choices that make the metadata of a database. -/
structure MetaMerged (b l r m : Meta V) : Prop where
  generator : IsThreeWay b.generator l.generator r.generator m.generator
  databaseName : IsThreeWay b.databaseName l.databaseName r.databaseName m.databaseName
  databaseNameChanged : IsThreeWay b.databaseNameChanged l.databaseNameChanged
    r.databaseNameChanged m.databaseNameChanged
  databaseDescription : IsThreeWay b.databaseDescription l.databaseDescription
    r.databaseDescription m.databaseDescription
  databaseDescriptionChanged : IsThreeWay b.databaseDescriptionChanged
    l.databaseDescriptionChanged r.databaseDescriptionChanged m.databaseDescriptionChanged
  defaultUsername :
    IsThreeWay b.defaultUsername l.defaultUsername r.defaultUsername m.defaultUsername
  defaultUsernameChanged : IsThreeWay b.defaultUsernameChanged l.defaultUsernameChanged
    r.defaultUsernameChanged m.defaultUsernameChanged
  maintenanceHistoryDays : IsThreeWay b.maintenanceHistoryDays l.maintenanceHistoryDays
    r.maintenanceHistoryDays m.maintenanceHistoryDays
  color : IsThreeWay b.color l.color r.color m.color
  masterKeyChanged :
    IsThreeWay b.masterKeyChanged l.masterKeyChanged r.masterKeyChanged m.masterKeyChanged
  masterKeyChangeRec : IsThreeWay b.masterKeyChangeRec l.masterKeyChangeRec
    r.masterKeyChangeRec m.masterKeyChangeRec
  masterKeyChangeForce : IsThreeWay b.masterKeyChangeForce l.masterKeyChangeForce
    r.masterKeyChangeForce m.masterKeyChangeForce
  memoryProtection :
    IsThreeWay b.memoryProtection l.memoryProtection r.memoryProtection m.memoryProtection
  recyclebinEnabled : IsThreeWay b.recyclebinEnabled l.recyclebinEnabled
    r.recyclebinEnabled m.recyclebinEnabled
  recyclebinUuid : IsThreeWay b.recyclebinUuid l.recyclebinUuid r.recyclebinUuid m.recyclebinUuid
  recyclebinChanged : IsThreeWay b.recyclebinChanged l.recyclebinChanged
    r.recyclebinChanged m.recyclebinChanged
  entryTemplatesGroup : IsThreeWay b.entryTemplatesGroup l.entryTemplatesGroup
    r.entryTemplatesGroup m.entryTemplatesGroup
  entryTemplatesGroupChanged : IsThreeWay b.entryTemplatesGroupChanged
    l.entryTemplatesGroupChanged r.entryTemplatesGroupChanged m.entryTemplatesGroupChanged
  lastSelectedGroup : IsThreeWay b.lastSelectedGroup l.lastSelectedGroup
    r.lastSelectedGroup m.lastSelectedGroup
  lastTopVisibleGroup : IsThreeWay b.lastTopVisibleGroup l.lastTopVisibleGroup
    r.lastTopVisibleGroup m.lastTopVisibleGroup
  historyMaxItems :
    IsThreeWay b.historyMaxItems l.historyMaxItems r.historyMaxItems m.historyMaxItems
  historyMaxSize : IsThreeWay b.historyMaxSize l.historyMaxSize r.historyMaxSize m.historyMaxSize
  settingsChanged :
    IsThreeWay b.settingsChanged l.settingsChanged r.settingsChanged m.settingsChanged
  customData : ∀ key : String, IsThreeWay b.customData[key]? l.customData[key]?
    r.customData[key]? m.customData[key]?

theorem MetaMerged.named {b l r m : Meta V} (h : MetaMerged b l r m)
    {reference : Meta V → Option Uuid} (hreference : reference ∈ Meta.references) :
    IsThreeWay (reference b) (reference l) (reference r) (reference m) := by
  simp only [Meta.references, List.mem_cons, List.not_mem_nil, or_false] at hreference
  rcases hreference with rfl | rfl | rfl | rfl
  · exact h.recyclebinUuid
  · exact h.entryTemplatesGroup
  · exact h.lastSelectedGroup
  · exact h.lastTopVisibleGroup

section Config
variable [DecidableEq V] {base loc remote : Database V} {st : MergeState V}

theorem mergeMeta_quiet {b l r : Meta V} (h : (mergeMeta b l r).2 = []) :
    MetaMerged b l r (mergeMeta b l r).1 := by
  simp only [mergeMeta, List.append_eq_nil_iff, List.map_eq_nil_iff, and_assoc] at h
  obtain ⟨h1, h2, h3, h4, h5, h6, h7, h8, h9, h10, h11, h12, h13, h14, h15, h16, h17, h18, h19,
    h20, h21, h22, h23, hcustom⟩ := h
  exact ⟨mergeProp_quiet h1, mergeProp_quiet h2, mergeProp_quiet h3, mergeProp_quiet h4,
    mergeProp_quiet h5, mergeProp_quiet h6, mergeProp_quiet h7, mergeProp_quiet h8,
    mergeProp_quiet h9, mergeProp_quiet h10, mergeProp_quiet h11, mergeProp_quiet h12,
    mergeProp_quiet h13, mergeProp_quiet h14, mergeProp_quiet h15, mergeProp_quiet h16,
    mergeProp_quiet h17, mergeProp_quiet h18, mergeProp_quiet h19, mergeProp_quiet h20,
    mergeProp_quiet h21, mergeProp_quiet h22, mergeProp_quiet h23, mergeNamedMap_spec hcustom⟩

/-- The candidate's configuration and metadata are written, and nothing else. -/
theorem mergeConfigAndMetadata_only (base loc remote : Database V) (st : MergeState V) :
    ∃ config metadata, (mergeConfigAndMetadata base loc remote st).candidate =
      { st.candidate with config := config, metadata := metadata } := by
  unfold mergeConfigAndMetadata
  cases chooseThreeWay base.config loc.config remote.config with
  | none => exact ⟨_, _, rfl⟩
  | some config => exact ⟨config, _, rfl⟩

theorem mergeConfigAndMetadata_quiet (h : Quiet (mergeConfigAndMetadata base loc remote st)) :
    Quiet st ∧
    IsThreeWay base.config loc.config remote.config
      (mergeConfigAndMetadata base loc remote st).candidate.config ∧
    MetaMerged base.metadata loc.metadata remote.metadata
      (mergeConfigAndMetadata base loc remote st).candidate.metadata := by
  unfold mergeConfigAndMetadata at h ⊢
  cases hchoice : chooseThreeWay base.config loc.config remote.config with
  | none => simp [hchoice] at h
  | some config =>
    simp only [hchoice, quiet_edit, quiet_report] at h
    exact ⟨h.1, chooseThreeWay_eq_some.mp hchoice, mergeMeta_quiet h.2⟩

end Config

/-! ## Roots and identities -/

theorem validateRoots_quiet {base loc remote : Database V} {st : MergeState V}
    (h : Quiet (validateRoots base loc remote st)) :
    Quiet st ∧ loc.root = base.root ∧ remote.root = base.root := by
  unfold validateRoots at h
  split at h
  · simp at h
  · case isFalse hroots =>
    simp only [not_or, not_not] at hroots
    exact ⟨h, hroots⟩

@[simp] theorem candidate_validateRoots {base loc remote : Database V} {st : MergeState V} :
    (validateRoots base loc remote st).candidate = st.candidate := by
  unfold validateRoots
  split <;> rfl

@[simp] theorem candidate_validateInputIdentities {base loc remote : Database V}
    {st : MergeState V} :
    (validateInputIdentities base loc remote st).candidate = st.candidate := by
  have hstep : ∀ (st : MergeState V) (db : Database V),
      (if db.identitiesValid then st else st.report [databaseConflict .uuidCollision]).candidate =
        st.candidate := by
    intro st db
    split <;> rfl
  simp only [validateInputIdentities, List.foldl_cons, List.foldl_nil, hstep]

theorem quiet_of_validateInputIdentities {base loc remote : Database V} {st : MergeState V}
    (h : Quiet (validateInputIdentities base loc remote st)) : Quiet st := by
  have hstep : ∀ (st : MergeState V) (db : Database V),
      Quiet (if db.identitiesValid then st else st.report [databaseConflict .uuidCollision]) →
        Quiet st := by
    intro st db hq
    split at hq
    · exact hq
    · exact (quiet_report.mp hq).1
  exact hstep _ _ (hstep _ _ (hstep _ _ h))

/-! ## Custom icons -/

/-- Remote deleted an icon that local left alone. -/
def removesIcon (base loc remote : Database V) (id : CustomIconId) : Bool :=
  decide (id ∈ loc.customIcons ∧ base.customIcons[id]? = loc.customIcons[id]? ∧
    id ∉ remote.customIcons ∧ id.uuid ∈ remote.deletedObjects)

/-- The icon an object of local is left with when the icons of `gone` are removed. -/
def keptIcon (gone : CustomIconId → Bool) (icon : Option Icon) : Option Icon :=
  match icon with
  | some (.custom id) => if gone id then none else icon
  | _ => icon

/-- A snapshot when the icons of `gone` are removed, which the library takes off some snapshots
and leaves on others. -/
def SnapshotLeft (gone : CustomIconId → Bool) (snapshot out : EntryData V) : Prop :=
  out = snapshot ∨ out = { snapshot with icon := keptIcon gone snapshot.icon }

/-- An entry when the icons of `gone` are removed. -/
structure EntryLeft (gone : CustomIconId → Bool) (entry out : Entry V) : Prop where
  data : out.toEntryData = { entry.toEntryData with icon := keptIcon gone entry.icon }
  history : Option.Rel (List.Forall₂ (SnapshotLeft gone)) entry.history out.history

/-- The database without the icons of `gone`. -/
structure WithoutIcons (gone : CustomIconId → Bool) (db out : Database V) : Prop where
  groups : out.groups = db.groups.map fun _ group => group.withIcon (keptIcon gone group.icon)
  entries : ∀ e : EntryId, Option.Rel (EntryLeft gone) db.entries[e]? out.entries[e]?
  icons : ∀ id, id ∈ out.customIcons ↔ id ∈ db.customIcons ∧ gone id = false
  root : out.root = db.root
  attachments : out.attachments = db.attachments
  deletedObjects : out.deletedObjects = db.deletedObjects

section Icons
variable {K : Keepass V} {base loc remote : Database V} {id : CustomIconId} {st : MergeState V}

theorem keptIcon_none (icon : Option Icon) : keptIcon (fun _ => false) icon = icon := by
  unfold keptIcon
  split <;> rfl

theorem keptIcon_erase (gone : CustomIconId → Bool) (id : CustomIconId) (icon : Option Icon) :
    Icon.unless id (keptIcon gone icon) = keptIcon (fun c => gone c || decide (c = id)) icon := by
  unfold Icon.unless
  match icon with
  | none => simp [keptIcon]
  | some (.builtIn n) => simp [keptIcon]
  | some (.custom c) =>
    by_cases hgone : gone c = true
    · simp [keptIcon, hgone]
    · by_cases hc : c = id
      · simp [keptIcon, hc]
      · simp [keptIcon, hgone, hc]

theorem keptIcon_of_ne_none {gone : CustomIconId → Bool} {icon : Option Icon}
    (h : keptIcon gone icon ≠ none) : keptIcon gone icon = icon := by
  match icon with
  | none => rfl
  | some (.builtIn n) => rfl
  | some (.custom c) =>
    by_cases hgone : gone c = true
    · simp [keptIcon, hgone] at h
    · simp [keptIcon, hgone]

theorem snapshotLeft_erase {gone : CustomIconId → Bool} {snapshot mid : EntryData V}
    (h : SnapshotLeft gone snapshot mid) (id : CustomIconId) (clears : Bool) :
    SnapshotLeft (fun c => gone c || decide (c = id)) snapshot
      (if clears then { mid with icon := Icon.unless id mid.icon } else mid) := by
  rcases h with rfl | rfl
  · by_cases hicon : mid.icon = some (.custom id)
    · split
      · refine Or.inr ?_
        simp [Icon.unless, keptIcon, hicon]
      · exact Or.inl rfl
    · -- Another icon stays, whether it should be gone already or not.
      refine Or.inl ?_
      simp [Icon.unless, hicon]
  · by_cases hgone : keptIcon gone snapshot.icon = some (.custom id)
    · split
      · exact Or.inr (congrArg (fun icon => { snapshot with icon := icon })
          (keptIcon_erase gone id snapshot.icon))
      · -- An icon that is left is the one it was.
        exact Or.inl (by rw [keptIcon_of_ne_none (hgone ▸ Option.some_ne_none _)])
    · refine Or.inr ?_
      rw [← keptIcon_erase]
      simp [Icon.unless, hgone]

theorem forall₂_mapIdx {α β : Type} {R R' : α → β → Prop} {l : List α} {l' : List β}
    (h : List.Forall₂ R l l') (f : Nat → β → β) (hf : ∀ i a b, R a b → R' a (f i b)) :
    List.Forall₂ R' l (l'.mapIdx f) := by
  induction h generalizing f with
  | nil => exact .nil
  | cons hab _ ih =>
    rw [List.mapIdx_cons]
    exact .cons (hf 0 _ _ hab) (ih (fun i => f (i + 1)) fun i => hf (i + 1))

theorem WithoutIcons.refl (db : Database V) : WithoutIcons (fun _ => false) db db where
  groups := by
    ext x : 1
    cases h : db.groups[x]? <;> simp [h, keptIcon_none, Group.withIcon]
  entries e := by
    cases db.entries[e]? with
    | none => exact .none
    | some entry =>
      refine .some ⟨by rw [keptIcon_none], ?_⟩
      cases entry.history with
      | none => exact .none
      | some history => exact .some (List.forall₂_same.mpr fun _ _ => Or.inl rfl)
  icons := by simp
  root := rfl
  attachments := rfl
  deletedObjects := rfl

theorem WithoutIcons.eraseIcon {gone : CustomIconId → Bool} {db out : Database V}
    (h : WithoutIcons gone db out) (id : CustomIconId) (clears : EntryId → Nat → Bool) :
    WithoutIcons (fun c => gone c || decide (c = id)) db (out.eraseIcon id clears) where
  groups := by
    ext x : 1
    simp only [Database.eraseIcon, h.groups, Std.ExtTreeMap.getElem?_map, Option.map_map]
    congr 1
    funext group
    exact congrArg (group.withIcon ·) (keptIcon_erase gone id group.icon)
  entries e := by
    simp only [Database.eraseIcon, Std.ExtTreeMap.getElem?_map]
    have hleft := h.entries e
    generalize db.entries[e]? = before at hleft ⊢
    generalize out.entries[e]? = after at hleft ⊢
    cases hleft with
    | none => exact .none
    | @some entry mid hleft =>
      refine .some ⟨?_, ?_⟩
      · show { mid.toEntryData with icon := Icon.unless id mid.icon } = _
        rw [hleft.data, keptIcon_erase]
      · show Option.Rel _ entry.history (mid.history.map _)
        have hhistory := hleft.history
        generalize entry.history = before at hhistory ⊢
        generalize mid.history = after at hhistory ⊢
        cases hhistory with
        | none => exact .none
        | some hsnapshots =>
          exact .some (forall₂_mapIdx hsnapshots _ fun i _ _ h => snapshotLeft_erase h id (clears e i))
  icons c := by
    simp only [Database.eraseIcon, Std.ExtTreeMap.mem_erase, h.icons]
    by_cases hc : c = id
    · simp [hc]
    · simp [hc, Ne.symm hc]
  root := h.root
  attachments := h.attachments
  deletedObjects := h.deletedObjects

/-- Replacing the contents of an icon that is there. -/
theorem WithoutIcons.insert {gone : CustomIconId → Bool} {db out : Database V}
    (h : WithoutIcons gone db out) {icon : CustomIcon} (hid : id ∈ out.customIcons) :
    WithoutIcons gone db { out with customIcons := out.customIcons.insert id icon } where
  groups := h.groups
  entries := h.entries
  icons c := by
    rw [Std.ExtTreeMap.mem_insert, ← h.icons]
    constructor
    · rintro (hc | hc)
      · rw [← Std.LawfulEqOrd.compare_eq_iff_eq.mp hc]
        exact hid
      · exact hc
    · exact Or.inr
  root := h.root
  attachments := h.attachments
  deletedObjects := h.deletedObjects

theorem WithoutIcons.congr {gone gone' : CustomIconId → Bool} {db out : Database V}
    (h : WithoutIcons gone db out) (heq : gone = gone') : WithoutIcons gone' db out := heq ▸ h

theorem removesIcon_iff : removesIcon base loc remote id = true ↔
    ∃ icon, base.customIcons[id]? = some icon ∧ loc.customIcons[id]? = some icon ∧
      remote.customIcons[id]? = none ∧ isDeleted remote id.uuid = true := by
  simp only [removesIcon, isDeleted, decide_eq_true_eq, mem_iff_exists]
  constructor
  · rintro ⟨⟨icon, hl⟩, hb, hr, hdel⟩
    exact ⟨icon, hb.trans hl, hl, Option.eq_none_iff_forall_ne_some.mpr (not_exists.mp hr), hdel⟩
  · rintro ⟨icon, hb, hl, hr, hdel⟩
    exact ⟨⟨icon, hl⟩, hb.trans hl.symm, by simp [hr], hdel⟩

theorem mergeCustomIcon_removes (h : removesIcon base loc remote id = true)
    (hid : id ∈ st.candidate.customIcons) :
    ∃ clears, mergeCustomIcon K base loc remote st id = st.edit (·.eraseIcon id clears) := by
  obtain ⟨icon, hb, hl, hr, hdel⟩ := removesIcon_iff.mp h
  obtain ⟨clears, heq⟩ := K.removeCustomIcon_eq st.candidate id
  exact ⟨clears, by simp [mergeCustomIcon, hb, hl, hr, hdel, hid, MergeState.edit, heq]⟩

/-- Any other round reports conflicts or rewrites an icon. -/
theorem mergeCustomIcon_keeps (K : Keepass V) (st : MergeState V)
    (h : removesIcon base loc remote id = false) :
    (∃ conflicts, mergeCustomIcon K base loc remote st id = st.report conflicts) ∨
    ∃ icon, id ∈ st.candidate.customIcons ∧ mergeCustomIcon K base loc remote st id =
      st.edit fun db => { db with customIcons := db.customIcons.insert id icon } := by
  have hstay : st = st.report [] := by simp [MergeState.report]
  unfold mergeCustomIcon
  split
  · -- In all three: the choice, if there is one, is written over the local icon.
    split
    · split
      · exact Or.inl ⟨[], hstay⟩
      · split
        · case isTrue hid => exact Or.inr ⟨_, hid, rfl⟩
        · exact Or.inl ⟨_, rfl⟩
    · exact Or.inl ⟨_, rfl⟩
  · -- Lost by remote: a removal would contradict `h`.
    case h_2 b l hb hl hr =>
    split
    · case isTrue hdel =>
      split
      · case isTrue heq =>
        subst heq
        rw [removesIcon_iff.mpr ⟨l, hb, hl, hr, hdel⟩] at h
        cases h
      · exact Or.inl ⟨_, rfl⟩
    · exact Or.inl ⟨_, rfl⟩
  · split
    · split
      · exact Or.inl ⟨_, rfl⟩
      · exact Or.inl ⟨[], hstay⟩
    · exact Or.inl ⟨_, rfl⟩
  · exact Or.inl ⟨[], hstay⟩
  · split
    · exact Or.inl ⟨[], hstay⟩
    · exact Or.inl ⟨_, rfl⟩
  · split
    · exact Or.inl ⟨_, rfl⟩
    · exact Or.inl ⟨_, rfl⟩
  · split
    · exact Or.inl ⟨_, rfl⟩
    · exact Or.inl ⟨[], hstay⟩
  · exact Or.inl ⟨[], hstay⟩

theorem withoutIcons_round (K : Keepass V) (id : CustomIconId) {gone : CustomIconId → Bool}
    (h : WithoutIcons gone loc st.candidate) :
    WithoutIcons (fun c => gone c || (decide (c = id) && removesIcon base loc remote c)) loc
      (mergeCustomIcon K base loc remote st id).candidate := by
  by_cases hremoves : removesIcon base loc remote id = true
  · have hgone : (fun c => gone c || (decide (c = id) && removesIcon base loc remote c)) =
        fun c => gone c || decide (c = id) := by
      funext c
      by_cases hc : c = id
      · simp [hc, hremoves]
      · simp [hc]
    rw [hgone]
    by_cases hid : id ∈ st.candidate.customIcons
    · obtain ⟨clears, heq⟩ := mergeCustomIcon_removes (K := K) hremoves hid
      rw [heq]
      exact h.eraseIcon id clears
    · -- It has been removed before.
      obtain ⟨icon, hb, hl, hr, hdel⟩ := removesIcon_iff.mp hremoves
      have halready : gone id = true := by
        have hloc : id ∈ loc.customIcons := mem_iff_exists.mpr ⟨icon, hl⟩
        simpa [h.icons, hloc] using hid
      have hst : mergeCustomIcon K base loc remote st id = st := by
        simp [mergeCustomIcon, hb, hl, hr, hdel, hid]
      rw [hst]
      refine h.congr ?_
      funext c
      by_cases hc : c = id
      · simp [hc, halready]
      · simp [hc]
  · have hgone : (fun c => gone c || (decide (c = id) && removesIcon base loc remote c)) = gone := by
      funext c
      by_cases hc : c = id
      · simp [hc, hremoves]
      · simp [hc]
    rw [hgone]
    rcases mergeCustomIcon_keeps K st (by simpa using hremoves) with
      ⟨conflicts, heq⟩ | ⟨icon, hid, heq⟩
    · rw [heq]
      exact h
    · rw [heq]
      exact h.insert hid

theorem foldl_withoutIcons (ids : List CustomIconId)
    (h : WithoutIcons (fun _ => false) loc st.candidate) :
    WithoutIcons (fun c => decide (c ∈ ids) && removesIcon base loc remote c) loc
      (ids.foldl (mergeCustomIcon K base loc remote) st).candidate := by
  induction ids using List.reverseRecOn with
  | nil => exact h.congr (by simp)
  | append_singleton ids id ih =>
    rw [List.foldl_append]
    refine (withoutIcons_round K id ih).congr ?_
    funext c
    simp only [List.mem_append, List.mem_singleton, Bool.decide_or, Bool.and_or_distrib_right]

/-- What the pass does to groups and entries. -/
theorem mergeCustomIcons_kept (h : WithoutIcons (fun _ => false) loc st.candidate) :
    WithoutIcons (removesIcon base loc remote) loc
      (mergeCustomIcons K base loc remote st).candidate := by
  refine (foldl_withoutIcons _ h).congr ?_
  funext c
  by_cases hremoves : removesIcon base loc remote c = true
  · obtain ⟨icon, hb, _⟩ := removesIcon_iff.mp hremoves
    have hmem : c ∈ allKeys3 base.customIcons loc.customIcons remote.customIcons :=
      mem_allKeys3.mpr (Or.inl (mem_iff_exists.mpr ⟨icon, hb⟩))
    simp [hmem]
  · simp [hremoves]

theorem quiet_of_mergeCustomIcon (h : Quiet (mergeCustomIcon K base loc remote st id)) :
    Quiet st := by
  by_cases hremoves : removesIcon base loc remote id = true
  · obtain ⟨icon, hb, hl, hr, hdel⟩ := removesIcon_iff.mp hremoves
    simp only [mergeCustomIcon, hb, hl, hr, hdel, if_true] at h
    split at h
    · exact h
    · exact h
  · rcases mergeCustomIcon_keeps K st (by simpa using hremoves) with
      ⟨conflicts, heq⟩ | ⟨icon, _, heq⟩
    · rw [heq] at h
      exact (quiet_report.mp h).1
    · rw [heq] at h
      exact h

theorem mergeCustomIcon_settings (K : Keepass V) (base loc remote : Database V)
    (st : MergeState V) (id : CustomIconId) :
    (mergeCustomIcon K base loc remote st id).candidate.config = st.candidate.config ∧
    (mergeCustomIcon K base loc remote st id).candidate.metadata = st.candidate.metadata := by
  by_cases hremoves : removesIcon base loc remote id = true
  · obtain ⟨icon, hb, hl, hr, hdel⟩ := removesIcon_iff.mp hremoves
    simp only [mergeCustomIcon, hb, hl, hr, hdel, if_true]
    split
    · obtain ⟨clears, heq⟩ := K.removeCustomIcon_eq st.candidate id
      rw [candidate_edit, heq]
      exact ⟨rfl, rfl⟩
    · exact ⟨rfl, rfl⟩
  · rcases mergeCustomIcon_keeps K st (by simpa using hremoves) with
      ⟨conflicts, heq⟩ | ⟨icon, _, heq⟩
    · rw [heq]
      exact ⟨rfl, rfl⟩
    · rw [heq]
      exact ⟨rfl, rfl⟩

theorem mergeCustomIcons_settings :
    (mergeCustomIcons K base loc remote st).candidate.config = st.candidate.config ∧
    (mergeCustomIcons K base loc remote st).candidate.metadata = st.candidate.metadata := by
  unfold mergeCustomIcons
  generalize allKeys3 base.customIcons loc.customIcons remote.customIcons = ids
  induction ids generalizing st with
  | nil => exact ⟨rfl, rfl⟩
  | cons id ids ih =>
    obtain ⟨hconfig, hmeta⟩ := mergeCustomIcon_settings K base loc remote st id
    rw [List.foldl_cons]
    exact ⟨ih.1.trans hconfig, ih.2.trans hmeta⟩

/-- A quiet pass had a quiet round for every icon. -/
theorem foldl_mergeCustomIcon_quiet {ids : List CustomIconId}
    (h : Quiet (ids.foldl (mergeCustomIcon K base loc remote) st)) :
    Quiet st ∧ ∀ id ∈ ids, ∃ u, Quiet (mergeCustomIcon K base loc remote u id) := by
  induction ids using List.reverseRecOn with
  | nil => exact ⟨h, by simp⟩
  | append_singleton ids id ih =>
    rw [List.foldl_append] at h
    obtain ⟨hst, hids⟩ := ih (quiet_of_mergeCustomIcon h)
    refine ⟨hst, fun c hc => ?_⟩
    rcases List.mem_append.mp hc with hc | hc
    · exact hids c hc
    · rw [List.mem_singleton.mp hc]
      exact ⟨_, h⟩

/-- Without a conflict, an icon that remote lost is removed, one that only remote has was deleted
by local, and one that is new is not known as deleted. -/
theorem mergeCustomIcons_quiet (h : Quiet (mergeCustomIcons K base loc remote st)) :
    Quiet st ∧
    (∀ id, id ∈ base.customIcons → id ∈ loc.customIcons → id ∉ remote.customIcons →
      removesIcon base loc remote id = true) ∧
    (∀ id, id ∈ remote.customIcons → id ∉ loc.customIcons →
      id ∈ base.customIcons ∧ isDeleted loc id.uuid = true) ∧
    ∀ id, id ∈ loc.customIcons → id ∉ base.customIcons →
      (id ∈ remote.customIcons → id.uuid ∉ base.deletedObjects) ∧
      (id ∉ remote.customIcons → isDeleted remote id.uuid = false) := by
  obtain ⟨hst, hrounds⟩ := foldl_mergeCustomIcon_quiet h
  refine ⟨hst, ?_, ?_, ?_⟩
  · intro id hb hl hr
    obtain ⟨u, hu⟩ := hrounds id (mem_allKeys3.mpr (Or.inl hb))
    obtain ⟨b, hb⟩ := mem_iff_exists.mp hb
    obtain ⟨l, hl⟩ := mem_iff_exists.mp hl
    have hr := Std.ExtTreeMap.getElem?_eq_none hr
    by_cases hdel : isDeleted remote id.uuid = true
    · by_cases heq : l = b
      · subst heq
        exact removesIcon_iff.mpr ⟨l, hb, hl, hr, hdel⟩
      · simp [mergeCustomIcon, hb, hl, hr, hdel, heq] at hu
    · simp [mergeCustomIcon, hb, hl, hr, hdel] at hu
  · intro id hr hl
    obtain ⟨u, hu⟩ := hrounds id (mem_allKeys3.mpr (Or.inr (Or.inr hr)))
    obtain ⟨r, hr⟩ := mem_iff_exists.mp hr
    have hl := Std.ExtTreeMap.getElem?_eq_none hl
    cases hb : base.customIcons[id]? with
    | none =>
      by_cases hdel : isDeleted loc id.uuid = true
      · simp [mergeCustomIcon, hb, hl, hr, hdel] at hu
      · simp [mergeCustomIcon, hb, hl, hr, hdel] at hu
    | some b =>
      refine ⟨mem_iff_exists.mpr ⟨b, hb⟩, ?_⟩
      by_contra hdel
      simp [mergeCustomIcon, hb, hl, hr, hdel] at hu
  · intro id hl hb
    obtain ⟨u, hu⟩ := hrounds id (mem_allKeys3.mpr (Or.inr (Or.inl hl)))
    obtain ⟨l, hl⟩ := mem_iff_exists.mp hl
    have hb := Std.ExtTreeMap.getElem?_eq_none hb
    constructor
    · intro hr hdel
      obtain ⟨r, hr⟩ := mem_iff_exists.mp hr
      simp [mergeCustomIcon, hb, hl, hr, hdel] at hu
    · intro hr
      have hr := Std.ExtTreeMap.getElem?_eq_none hr
      rw [← Bool.not_eq_true]
      intro hdel
      simp [mergeCustomIcon, hb, hl, hr, hdel] at hu

/-- The tree does not change. -/
theorem WithoutIcons.sameShape {gone : CustomIconId → Bool} {db out : Database V}
    (h : WithoutIcons gone db out) : SameShape db out where
  root := h.root
  groups x := by
    rw [h.groups, Std.ExtTreeMap.getElem?_map, Option.map_map]
    rfl
  entries e := by
    unfold Database.homeOf
    have hleft := h.entries e
    generalize db.entries[e]? = before at hleft
    generalize out.entries[e]? = after at hleft
    cases hleft with
    | none => rfl
    | some hleft => exact congrArg (fun data => some data.parent) hleft.data

end Icons

/-! ## Tombstones and the final hierarchy -/

section Tombstones
variable {base loc remote : Database V} {st : MergeState V}

/-- The tombstones the pass leaves. -/
theorem mergeTombstones_candidate (base loc remote : Database V) (st : MergeState V) :
    ∃ deleted : Map Uuid (Option Time),
      (mergeTombstones base loc remote st).candidate = { st.candidate with deletedObjects := deleted } ∧
      ∀ id, deleted[id]? =
        if id ∈ base.deletedObjects ∨ id ∈ loc.deletedObjects ∨ id ∈ remote.deletedObjects then
          some (latestDeletion base loc remote id) else st.candidate.deletedObjects[id]? := by
  have hfold : ∀ ids : List Uuid, ∃ deleted : Map Uuid (Option Time),
      (ids.foldl (fun st id => st.edit fun db =>
          { db with
            deletedObjects := db.deletedObjects.insert id (latestDeletion base loc remote id) })
        st).candidate = { st.candidate with deletedObjects := deleted } ∧
      ∀ id, deleted[id]? = if id ∈ ids then some (latestDeletion base loc remote id)
        else st.candidate.deletedObjects[id]? := by
    intro ids
    induction ids using List.reverseRecOn with
    | nil => exact ⟨_, rfl, by simp⟩
    | append_singleton ids id ih =>
      obtain ⟨deleted, heq, hget⟩ := ih
      refine ⟨deleted.insert id (latestDeletion base loc remote id), ?_, ?_⟩
      · rw [List.foldl_append, List.foldl_cons, List.foldl_nil, candidate_edit, heq]
      · intro x
        rw [Std.ExtTreeMap.getElem?_insert, hget]
        by_cases hx : id = x
        · simp [hx]
        · simp [hx, Ne.symm hx]
  obtain ⟨deleted, heq, hget⟩ :=
    hfold (allKeys3 base.deletedObjects loc.deletedObjects remote.deletedObjects)
  exact ⟨deleted, heq, fun id => by rw [hget, if_congr mem_allKeys3 rfl rfl]⟩

@[simp] theorem conflicts_mergeTombstones (base loc remote : Database V) (st : MergeState V) :
    (mergeTombstones base loc remote st).conflicts = st.conflicts := by
  unfold mergeTombstones
  induction allKeys3 base.deletedObjects loc.deletedObjects remote.deletedObjects
    generalizing st with
  | nil => rfl
  | cons id ids ih => rw [List.foldl_cons, ih]; rfl

/-- The last pass only reports. -/
theorem validateFinalHierarchy_report (st : MergeState V) :
    ∃ conflicts, validateFinalHierarchy st = st.report conflicts := by
  have hround : ∀ (st : MergeState V) (id : GroupId), ∃ conflicts,
      (let st := if meetsCycle st.candidate (st.candidate.groups.size + 2) [] (some id) then
        st.report [groupConflict id .hierarchyCycle] else st
      if id = st.candidate.root ∧ (st.candidate.parentOf id).isSome then
        st.report [groupConflict id .hierarchyCycle] else st) = st.report conflicts := by
    intro st id
    have hnil : st = st.report [] := by simp [MergeState.report]
    dsimp only
    split <;> split
    · exact ⟨_ ++ _, by simp only [MergeState.report, List.append_assoc]; rfl⟩
    · exact ⟨_, rfl⟩
    · exact ⟨_, rfl⟩
    · exact ⟨[], hnil⟩
  unfold validateFinalHierarchy
  generalize st.candidate.groups.keys = ids
  induction ids generalizing st with
  | nil => exact ⟨[], by simp [MergeState.report]⟩
  | cons id ids ih =>
    rw [List.foldl_cons]
    obtain ⟨conflicts, heq⟩ := hround st id
    rw [heq]
    obtain ⟨rest, hrest⟩ := ih (st.report conflicts)
    exact ⟨conflicts ++ rest, by rw [hrest]; simp [MergeState.report]⟩

end Tombstones

end NianPass.Kdbx
