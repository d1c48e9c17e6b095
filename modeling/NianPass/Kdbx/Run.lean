import NianPass.Kdbx.Settings

/-
  A whole run of the merge, pass by pass.

  `GroupRun` and `Run` name the candidate between the passes. Their first facts
  hold in every run. The others hold when the run ends without a conflict: then a
  group that remote deleted takes along only groups that remote deleted too
  (`Run.mem_deletions_of_parentOf`), because local left the child list of a
  deleted group alone, and a group that remote added has only children that
  remote added (`Run.parentOf_late`), because a move into a group that is not
  there yet is a conflict.
-/
namespace NianPass.Kdbx

variable {V : Type} [DecidableEq V]

/-- `merge` up to the groups: roots and identities are checked, and the copy of local gets the
merged configuration, metadata and icons. -/
def settle (K : Keepass V) (base loc remote : Database V) : MergeState V :=
  mergeCustomIcons K base loc remote (mergeConfigAndMetadata base loc remote
    (validateInputIdentities base loc remote (validateRoots base loc remote { candidate := loc })))

/-- The states a run of `merge` from `loc` goes through until entries are looked at. -/
structure GroupRun (K : Keepass V) (base loc remote : Database V) where
  /-- after configuration, metadata and icons -/
  settled : MergeState V
  /-- after the first loop over groups -/
  moved : MergeState V
  /-- after the remote additions -/
  added : MergeState V
  /-- after the remote deletions -/
  removed : MergeState V
  settled_eq : settled = settle K base loc remote
  moved_eq : groupLoop K base loc remote settled = .ok moved
  added_eq : added = addRemoteGroups K remote
    ((remoteAdditions K base loc remote).length + 1) (remoteAdditions K base loc remote) moved
  removed_eq : removed = removeGroups K (remoteDeletions K base loc remote) added

/-- The states of a whole run, and the one it ends in. -/
structure Run (K : Keepass V) (base loc remote : Database V) (out : MergeState V) extends
    GroupRun K base loc remote where
  /-- after the entries -/
  merged : MergeState V
  merged_eq : mergeEntries K base loc remote removed = .ok merged
  out_eq : out = validateFinalHierarchy (mergeTombstones base loc remote merged)

variable {K : Keepass V} {base loc remote : Database V} {out : MergeState V}

theorem merge_eq_ok (h : merge K base loc remote { candidate := loc } = .ok out) :
    Nonempty (Run K base loc remote out) := by
  unfold merge mergeGroups at h
  simp only [bind, Except.bind, pure, Except.pure] at h
  split at h
  · cases h
  · case h_2 groups hgroups =>
    split at hgroups
    · cases hgroups
    · case h_2 moved hmoved =>
      cases hgroups
      split at h
      · cases h
      · case h_2 entries hentries =>
        cases h
        exact ⟨⟨⟨_, moved, _, _, rfl, hmoved, rfl, rfl⟩, entries, hentries, rfl⟩⟩

section Classified
variable {id : GroupId}

theorem mem_remoteAdditions : id ∈ remoteAdditions K base loc remote ↔
    id ∉ base.groups ∧ id ∉ loc.groups ∧ id ∈ remote.groups ∧ id.uuid ∉ loc.deletedObjects := by
  have hfilter : id ∈ remoteAdditions K base loc remote ↔
      id ∈ groupIds base loc remote ∧ ∃ r, classifyGroup K base loc remote id = .add r := by
    unfold remoteAdditions
    rw [List.mem_filter]
    cases classifyGroup K base loc remote id <;> simp
  rw [hfilter, mem_groupIds]
  simp only [classifyGroup, classify_add, getElem?_groupIndex, Option.map_eq_none_iff,
    Option.map_eq_some_iff, isDeleted, decide_eq_false_iff_not]
  constructor
  · rintro ⟨_, r, hb, hl, ⟨g, hg, _⟩, hdel⟩
    exact ⟨by simpa using hb, by simpa using hl, mem_iff_exists.mpr ⟨g, hg⟩, hdel⟩
  · rintro ⟨hb, hl, hr, hdel⟩
    obtain ⟨g, hg⟩ := mem_iff_exists.mp hr
    exact ⟨Or.inr (Or.inr hr), _, by simpa using hb, by simpa using hl, ⟨g, hg, rfl⟩, hdel⟩

theorem mem_remoteDeletions : id ∈ remoteDeletions K base loc remote ↔
    id ∈ loc.groups ∧ (groupIndex K loc)[id]? = (groupIndex K base)[id]? ∧ id ∉ remote.groups ∧
      id.uuid ∈ remote.deletedObjects := by
  have hfilter : id ∈ remoteDeletions K base loc remote ↔
      id ∈ groupIds base loc remote ∧ classifyGroup K base loc remote id = .remove := by
    unfold remoteDeletions
    rw [List.mem_filter]
    cases classifyGroup K base loc remote id <;> simp
  rw [hfilter, mem_groupIds, classifyGroup, classify_remove]
  simp only [getElem?_groupIndex, Option.isSome_map, Std.ExtTreeMap.isSome_getElem?_iff_mem,
    Option.map_eq_none_iff, isDeleted, decide_eq_true_eq]
  constructor
  · rintro ⟨_, hb, heq, hr, hdel⟩
    exact ⟨(mem_iff_of_map_eq heq).mpr hb, heq, by simpa using hr, hdel⟩
  · rintro ⟨hl, heq, hr, hdel⟩
    exact ⟨Or.inr (Or.inl hl), (mem_iff_of_map_eq heq).mp hl, heq, by simpa using hr, hdel⟩

/-- A deleted group lists the same children in local as in base. -/
theorem childGroups_deleted (h : id ∈ remoteDeletions K base loc remote) :
    loc.childGroups id = base.childGroups id ∧ loc.childEntries id = base.childEntries id := by
  obtain ⟨_, heq, _⟩ := mem_remoteDeletions.mp h
  simp only [getElem?_groupIndex] at heq
  have hgroups := congrArg (Option.map (·.childGroups)) heq
  have hentries := congrArg (Option.map (·.childEntries)) heq
  simp only [Option.map_map, Function.comp_def, groupState] at hgroups hentries
  exact ⟨congrArg (Option.getD · []) hgroups, congrArg (Option.getD · []) hentries⟩

end Classified

/-! ## Every run -/

theorem settled_withoutIcons (K : Keepass V) (base loc remote : Database V) :
    WithoutIcons (removesIcon base loc remote) loc (settle K base loc remote).candidate := by
  obtain ⟨config, metadata, heq⟩ := mergeConfigAndMetadata_only base loc remote
    (validateInputIdentities base loc remote (validateRoots base loc remote { candidate := loc }))
  apply mergeCustomIcons_kept
  rw [heq]
  simp only [candidate_validateInputIdentities, candidate_validateRoots]
  obtain ⟨hgroups, hentries, hicons, hroot, hattachments, hdeleted⟩ := WithoutIcons.refl loc
  exact ⟨hgroups, hentries, hicons, hroot, hattachments, hdeleted⟩

namespace GroupRun
variable (run : GroupRun K base loc remote)
include run

theorem withoutIcons :
    WithoutIcons (removesIcon base loc remote) loc run.settled.candidate := by
  rw [run.settled_eq]
  exact settled_withoutIcons K base loc remote

theorem groupLoopStart (hl : SyncValid loc) :
    GroupLoopInv loc run.settled.candidate run.settled.candidate := by
  have hshape := run.withoutIcons.sameShape
  exact ⟨rfl, fun x => hshape.mem_groups, hshape.hangs hl.tree, hshape.tidy hl.tidy, fun _ => rfl⟩

theorem groupLoopInv (hl : SyncValid loc) :
    GroupLoopInv loc run.settled.candidate run.moved.candidate :=
  groupLoop_keeps (run.groupLoopStart hl) run.moved_eq

theorem additionsStart (hl : SyncValid loc) :
    AdditionsInv remote run.moved.candidate (remoteAdditions K base loc remote)
      run.moved.candidate :=
  ⟨rfl, fun _ _ => rfl, fun _ hx hnot => absurd hx hnot,
    (run.groupLoopInv hl).tree.mono (fun _ _ h => h.elim) (fun _ _ h => h.elim), fun _ h => h⟩

theorem additionsInv (hl : SyncValid loc) :
    AdditionsInv remote run.moved.candidate (remoteAdditions K base loc remote)
      run.added.candidate := by
  rw [run.added_eq]
  exact addRemoteGroups_keeps (fun x hx => (mem_remoteAdditions.mp hx).2.2.1) (fun x hx => hx)
    (run.additionsStart hl)

theorem onlyGroups (hl : SyncValid loc) :
    OnlyGroups run.settled.candidate run.added.candidate :=
  (run.groupLoopInv hl).only.trans (run.additionsInv hl).only

theorem entries_added (hl : SyncValid loc) :
    run.added.candidate.entries = run.settled.candidate.entries := by
  rw [run.onlyGroups hl]

/-- Entries are where local has them until the entries are merged. -/
theorem homeOf_added (hl : SyncValid loc) (e : EntryId) :
    run.added.candidate.homeOf e = loc.homeOf e := by
  rw [← run.withoutIcons.sameShape.entries e]
  unfold Database.homeOf
  rw [run.entries_added hl]

theorem mem_groups_moved (hl : SyncValid loc) {x : GroupId} :
    x ∈ run.moved.candidate.groups ↔ x ∈ loc.groups := (run.groupLoopInv hl).mem_groups x

theorem mem_added (hl : SyncValid loc) {x : GroupId} (hx : x ∈ run.added.candidate.groups) :
    x ∈ loc.groups ∨ x ∈ remoteAdditions K base loc remote := by
  by_cases hmoved : x ∈ run.moved.candidate.groups
  · exact Or.inl ((run.mem_groups_moved hl).mp hmoved)
  · exact Or.inr ((run.additionsInv hl).new x hx hmoved).1

theorem parentOf_moved (hl : SyncValid loc) {x : GroupId} (hx : x ∈ loc.groups) :
    run.added.candidate.parentOf x = run.moved.candidate.parentOf x := by
  have hcore := (run.additionsInv hl).old x ((run.mem_groups_moved hl).mpr hx)
  have := congrArg (Option.bind · (·.parent)) hcore
  simpa [Database.parentOf, Option.bind_map, Function.comp_def] using this

theorem parentOf_new (hl : SyncValid loc) {x : GroupId} (hx : x ∈ run.added.candidate.groups)
    (hnew : x ∉ loc.groups) : run.added.candidate.parentOf x = remote.parentOf x := by
  have hcore := ((run.additionsInv hl).new x hx
    fun h => hnew ((run.mem_groups_moved hl).mp h)).2
  have := congrArg (Option.bind · (·.parent)) hcore
  simpa [Database.parentOf, Option.bind_map, Function.comp_def] using this

end GroupRun

namespace Run
variable (run : Run K base loc remote out)
include run

theorem quiet_merged (hq : Quiet out) : Quiet run.merged := by
  obtain ⟨conflicts, heq⟩ := validateFinalHierarchy_report
    (mergeTombstones base loc remote run.merged)
  rw [run.out_eq, heq, quiet_report] at hq
  exact (conflicts_mergeTombstones base loc remote run.merged).symm.trans hq.1

/-- The conflicts of a run only grow. -/
theorem quiet_passes (hq : Quiet run.merged) :
    Quiet run.removed ∧ Quiet run.added ∧ Quiet run.moved ∧ Quiet run.settled := by
  have hremoved := quiet_of_mergeEntries run.merged_eq hq
  have hadded : Quiet run.added := by
    have hconflicts : (removeGroups K (remoteDeletions K base loc remote) run.added).conflicts =
        run.added.conflicts := by
      unfold removeGroups
      generalize remoteDeletions K base loc remote = deletions
      generalize run.added = st
      induction deletions generalizing st with
      | nil => rfl
      | cons id rest ih =>
        rw [List.foldl_cons, ih]
        split <;> rfl
    rw [run.removed_eq] at hremoved
    exact hconflicts.symm.trans hremoved
  have hmoved : Quiet run.moved := by
    rw [run.added_eq] at hadded
    exact quiet_of_addRemoteGroups (fun x hx => (mem_remoteAdditions.mp hx).2.2.1)
      (fun x hx => hx) hadded
  exact ⟨hremoved, hadded, hmoved, quiet_of_groupLoop run.moved_eq hmoved⟩

/-! ## Runs without a conflict -/

section Quiet
variable (hb : SyncValid base) (hl : SyncValid loc) (hr : SyncValid remote) (hq : Quiet run.merged)
include hq

theorem config_merged :
    IsThreeWay base.config loc.config remote.config run.settled.candidate.config ∧
    MetaMerged base.metadata loc.metadata remote.metadata run.settled.candidate.metadata := by
  have hsettled := (run.quiet_passes hq).2.2.2
  rw [run.settled_eq, settle] at hsettled ⊢
  rw [mergeCustomIcons_settings.1, mergeCustomIcons_settings.2]
  exact (mergeConfigAndMetadata_quiet (mergeCustomIcons_quiet hsettled).1).2

theorem roots : loc.root = base.root ∧ remote.root = base.root := by
  have hsettled := (run.quiet_passes hq).2.2.2
  rw [run.settled_eq, settle] at hsettled
  have hconfig := (mergeCustomIcons_quiet hsettled).1
  have hidentities := (mergeConfigAndMetadata_quiet hconfig).1
  exact (validateRoots_quiet (quiet_of_validateInputIdentities hidentities)).2

include hl

theorem groups_reconciled (id : GroupId) :
    Reconciled (groupIndex K base)[id]? (groupIndex K loc)[id]? (groupIndex K remote)[id]?
      (isDeleted base id.uuid) (isDeleted loc id.uuid) (isDeleted remote id.uuid) :=
  groupLoop_reconciled (run.groupLoopStart hl) run.moved_eq (run.quiet_passes hq).2.2.1 id

omit hl in
theorem entries_reconciled (id : EntryId) :
    Reconciled (entryIndex K base)[id]? (entryIndex K loc)[id]? (entryIndex K remote)[id]?
      (isDeleted base id.uuid) (isDeleted loc id.uuid) (isDeleted remote id.uuid) :=
  mergeEntries_reconciled run.merged_eq hq id

/-- A group of all three inputs, after the first loop. -/
theorem group_moved {id : GroupId} {b l r : Group V} (hb : base.groups[id]? = some b)
    (hl' : loc.groups[id]? = some l) (hr : remote.groups[id]? = some r) :
    ∃ m, run.moved.candidate.groups[id]? = some m ∧ GroupMerged b l r m ∧
      HasIcon run.settled.candidate m.icon :=
  groupLoop_merged (run.groupLoopStart hl) run.withoutIcons.sameShape run.moved_eq
    (run.quiet_passes hq).2.2.1 hb hl' hr

/-- A group that is not in all three inputs, after the first loop. -/
theorem group_kept {id : GroupId}
    (hid : ¬ (id ∈ base.groups ∧ id ∈ loc.groups ∧ id ∈ remote.groups)) :
    run.moved.candidate.groups[id]?.map Group.core =
      run.settled.candidate.groups[id]?.map Group.core :=
  groupLoop_kept (run.groupLoopStart hl) run.moved_eq (run.quiet_passes hq).2.2.1 hid

/-- A group of all three inputs has a three-way parent. -/
theorem parentOf_merged {id : GroupId} (hb : id ∈ base.groups) (hl' : id ∈ loc.groups)
    (hr : id ∈ remote.groups) :
    IsThreeWay (base.parentOf id) (loc.parentOf id) (remote.parentOf id)
      (run.moved.candidate.parentOf id) := by
  obtain ⟨b, hb⟩ := mem_iff_exists.mp hb
  obtain ⟨l, hl'⟩ := mem_iff_exists.mp hl'
  obtain ⟨r, hr⟩ := mem_iff_exists.mp hr
  obtain ⟨m, hm, hmerged, _⟩ := run.group_moved hl hq hb hl' hr
  simpa [Database.parentOf, hb, hl', hr, hm] using hmerged.parent

theorem parentOf_kept {id : GroupId}
    (hid : ¬ (id ∈ base.groups ∧ id ∈ loc.groups ∧ id ∈ remote.groups)) :
    run.moved.candidate.parentOf id = loc.parentOf id := by
  have hcore := congrArg (Option.bind · (·.parent)) (run.group_kept hl hq hid)
  rw [← congrFun run.withoutIcons.sameShape.parentOf id]
  simpa [Database.parentOf, Option.bind_map, Function.comp_def] using hcore

theorem mem_groups_added {x : GroupId} : x ∈ run.added.candidate.groups ↔
    x ∈ loc.groups ∨ x ∈ remoteAdditions K base loc remote := by
  refine ⟨run.mem_added hl, fun hx => ?_⟩
  have hadded := (run.quiet_passes hq).2.1
  rw [run.added_eq] at hadded ⊢
  refine addRemoteGroups_added (fun x hx => (mem_remoteAdditions.mp hx).2.2.1)
    (Nat.lt_succ_self _) (fun x hx => hx) (run.additionsStart hl) hadded x ?_
  rw [or_comm, run.mem_groups_moved hl]
  exact hx

include hb hr

/-- What hangs below a group that remote deleted was deleted by remote too. -/
theorem mem_deletions_of_parentOf {x d : GroupId}
    (hx : run.added.candidate.parentOf x = some d)
    (hd : d ∈ remoteDeletions K base loc remote) : x ∈ remoteDeletions K base loc remote := by
  have hgone : remote.parentOf x ≠ some d := fun h =>
    (mem_remoteDeletions.mp hd).2.2.1 (hr.tree.parent_mem h)
  have hmem := mem_groups_of_parentOf hx
  by_cases hxl : x ∈ loc.groups
  · rw [run.parentOf_moved hl hxl] at hx
    -- Whoever local has below `d` was there in base.
    have hbase : loc.parentOf x = some d → base.parentOf x = some d := by
      intro h
      have hchild := hl.tree.listed x d h
      rw [(childGroups_deleted hd).1] at hchild
      simpa using hb.tree.owned d x hchild
    by_cases hall : x ∈ base.groups ∧ x ∈ loc.groups ∧ x ∈ remote.groups
    · have hparent := run.parentOf_merged hl hq hall.1 hall.2.1 hall.2.2
      rw [hx] at hparent
      rcases hparent.eq_or with h | h
      · exact absurd (hparent.remoteChange (h.symm.trans (hbase h.symm).symm)).symm hgone
      · exact absurd h.symm hgone
    · rw [run.parentOf_kept hl hq hall] at hx
      have hxb := mem_groups_of_parentOf (hbase hx)
      have hxr : x ∉ remote.groups := fun h => hall ⟨hxb, hxl, h⟩
      obtain ⟨hdel, heq⟩ := (run.groups_reconciled hl hq x).remoteLost (by simpa using hxb)
        (by simpa using hxl) (by simpa using hxr)
      exact mem_remoteDeletions.mpr ⟨hxl, heq, hxr, by simpa [isDeleted] using hdel⟩
  · rw [run.parentOf_new hl hmem hxl] at hx
    exact absurd hx hgone

theorem mem_deletions_of_doomed {x : GroupId}
    (hx : Doomed run.added.candidate (remoteDeletions K base loc remote) x) :
    x ∈ remoteDeletions K base loc remote := by
  obtain ⟨g, hg, k, hk⟩ := hx
  induction k generalizing x with
  | zero =>
    simp only [Forest.climb, Option.some.injEq] at hk
    exact hk ▸ hg
  | succ k ih =>
    obtain ⟨p, hp, hk⟩ := Option.bind_eq_some_iff.mp hk
    exact run.mem_deletions_of_parentOf hb hl hr hq hp (ih hk)

/-- The children of a group that remote added are below it. -/
theorem parentOf_late {p c : GroupId}
    (h : LateGroup remote (remoteAdditions K base loc remote) p c) :
    run.added.candidate.parentOf c = some p := by
  obtain ⟨hp, hc⟩ := h
  obtain ⟨hpb, hpl, hpr, _⟩ := mem_remoteAdditions.mp hp
  have hparent : remote.parentOf c = some p := by simpa using hr.tree.owned p c hc
  have hcr := mem_groups_of_parentOf hparent
  have hrec := run.groups_reconciled hl hq c
  -- A group known to base or to local would have its parent there.
  have hcb : c ∉ base.groups := by
    intro hcb
    by_cases hcl : c ∈ loc.groups
    · have hchoice := run.parentOf_merged hl hq hcb hcl hcr
      have hbase : remote.parentOf c ≠ base.parentOf c := fun heq =>
        hpb (hb.tree.parent_mem (heq.symm.trans hparent))
      have hagree : loc.parentOf c ≠ remote.parentOf c := fun heq =>
        hpl (hl.tree.parent_mem (heq.trans hparent))
      have hloc := (hchoice.decided.resolve_left hagree).resolve_right hbase
      have hmoved := (hchoice.remoteChange hloc).trans hparent
      exact hpl ((run.mem_groups_moved hl).mp ((run.groupLoopInv hl).tree.parent_mem hmoved))
    · obtain ⟨_, heq⟩ := hrec.localLost (by simpa using hcb) (by simpa using hcl)
        (by simpa using hcr)
      have hparents := congrArg (Option.bind · (·.parent)) heq
      simp only [getElem?_groupIndex, Option.bind_map, Function.comp_def, groupState] at hparents
      exact hpb (hb.tree.parent_mem (hparents.symm.trans hparent))
  have hcl : c ∉ loc.groups := by
    intro hcl
    obtain ⟨_, heq⟩ := hrec.addedTwice (by simpa using hcb) (by simpa using hcl)
      (by simpa using hcr)
    have hparents := congrArg (Option.bind · (·.parent)) heq
    simp only [getElem?_groupIndex, Option.bind_map, Function.comp_def, groupState] at hparents
    exact hpl (hl.tree.parent_mem (hparents.trans hparent))
  have hnew := hrec.addedRemotely (by simpa using hcb) (by simpa using hcl) (by simpa using hcr)
  have hmem : c ∈ run.added.candidate.groups := (run.mem_groups_added hl hq).mpr
    (Or.inr (mem_remoteAdditions.mpr ⟨hcb, hcl, hcr, by simpa [isDeleted] using hnew⟩))
  rw [run.parentOf_new hl hmem hcl]
  exact hparent

omit hb in
theorem root_not_deleted : run.added.candidate.root ∉ remoteDeletions K base loc remote := by
  have hroot : run.added.candidate.root = loc.root := by
    rw [run.onlyGroups hl]
    exact run.withoutIcons.root
  obtain ⟨hlb, hrb⟩ := run.roots hq
  rw [hroot, hlb, ← hrb]
  intro h
  exact (mem_remoteDeletions.mp h).2.2.1 hr.tree.rootMem

/-- The third loop over groups, in full. -/
theorem removalInv :
    RemovalInv K.cleared (LateEntry remote (remoteAdditions K base loc remote)) run.added.candidate
      (remoteDeletions K base loc remote) run.removed.candidate ∧
    ∀ x, x ∈ run.removed.candidate.groups ↔
      x ∈ run.added.candidate.groups ∧ x ∉ remoteDeletions K base loc remote := by
  have hinv := run.additionsInv hl
  have hstart : RemovalInv K.cleared (LateEntry remote (remoteAdditions K base loc remote))
      run.added.candidate (remoteDeletions K base loc remote) run.added.candidate := by
    refine ⟨SameSettings.refl _, Forgets.refl _ _, fun _ _ => rfl, fun _ hx _ => hx, ?_,
      fun _ _ => rfl, ?_, fun _ _ => rfl, fun _ _ => rfl, id, fun _ hx => hx⟩
    · refine ⟨hinv.hangs.rootMem, hinv.hangs.rootTop, hinv.hangs.reach, fun p c hc => ?_,
        hinv.hangs.listed, hinv.hangs.entryOwned, hinv.hangs.entryListed⟩
      exact Or.inl ((hinv.hangs.owned p c hc).elim id (run.parentOf_late hb hl hr hq))
    · intro e p he _
      obtain ⟨entry, hentry, _⟩ := homeOf_eq_some.mp he
      exact mem_iff_exists.mpr ⟨entry, hentry⟩
  have hlate : ∀ x e, Doomed run.added.candidate (remoteDeletions K base loc remote) x →
      ¬ LateEntry remote (remoteAdditions K base loc remote) x e := by
    rintro x e hdoomed ⟨hx, _⟩
    have hdel := run.mem_deletions_of_doomed hb hl hr hq hdoomed
    exact (mem_remoteAdditions.mp hx).2.1 (mem_remoteDeletions.mp hdel).1
  obtain ⟨hend, hgone, hsub, _⟩ := removeGroups_spec (K := K) hlate
    (run.root_not_deleted hl hr hq) (fun g hg => hg) hstart
  rw [← run.removed_eq] at hend hgone hsub
  refine ⟨hend, fun x => ⟨fun hx => ⟨hsub x hx, fun hd => hgone x hd hx⟩, ?_⟩⟩
  rintro ⟨hx, hnot⟩
  exact hend.spared x hx fun hdoomed => hnot (run.mem_deletions_of_doomed hb hl hr hq hdoomed)

/-! ## What a run without a conflict ends with -/

theorem mem_groups_merged {x : GroupId} : x ∈ run.merged.candidate.groups ↔
    (x ∈ loc.groups ∨ x ∈ remoteAdditions K base loc remote) ∧
      x ∉ remoteDeletions K base loc remote := by
  rw [(mergeEntries_keeps run.merged_eq).groups.mem_groups, (run.removalInv hb hl hr hq).2,
    run.mem_groups_added hl hq]

/-- Neither removals nor entries change a group that is left. -/
theorem core_merged {x : GroupId} (hx : x ∈ run.merged.candidate.groups) :
    run.merged.candidate.groups[x]?.map Group.core =
      run.added.candidate.groups[x]?.map Group.core := by
  have hgroups := (mergeEntries_keeps run.merged_eq).groups
  rw [hgroups.core]
  exact (run.removalInv hb hl hr hq).1.core x (hgroups.mem_groups.mp hx)

/-- A group of local that is left. -/
theorem core_local {x : GroupId} (hx : x ∈ run.merged.candidate.groups) (hxl : x ∈ loc.groups) :
    run.merged.candidate.groups[x]?.map Group.core =
      run.moved.candidate.groups[x]?.map Group.core := by
  rw [run.core_merged hb hl hr hq hx]
  exact (run.additionsInv hl).old x ((run.mem_groups_moved hl).mpr hxl)

theorem group_merged {id : GroupId} {b l r : Group V} (hb' : base.groups[id]? = some b)
    (hl' : loc.groups[id]? = some l) (hr' : remote.groups[id]? = some r) :
    ∃ m, run.merged.candidate.groups[id]? = some m ∧ GroupMerged b l r m ∧
      HasIcon run.settled.candidate m.icon := by
  have hmem : id ∈ run.merged.candidate.groups := (run.mem_groups_merged hb hl hr hq).mpr
    ⟨Or.inl (mem_iff_exists.mpr ⟨l, hl'⟩), fun hd =>
      (mem_remoteDeletions.mp hd).2.2.1 (mem_iff_exists.mpr ⟨r, hr'⟩)⟩
  obtain ⟨m, hm, hmerged, hicon⟩ := run.group_moved hl hq hb' hl' hr'
  have hcore := run.core_local hb hl hr hq hmem (mem_iff_exists.mpr ⟨l, hl'⟩)
  rw [hm, Option.map_some, Option.map_eq_some_iff] at hcore
  obtain ⟨m', hm', heq⟩ := hcore
  refine ⟨m', hm', groupMerged_core.mp ?_, ?_⟩
  · rw [heq]
    exact groupMerged_core.mpr hmerged
  · rw [← Group.core_icon, heq]
    exact hicon

/-- A group that only local added keeps all but a removed icon. -/
theorem group_local {id : GroupId} {l : Group V} (hid : id ∉ base.groups)
    (hl' : loc.groups[id]? = some l) :
    run.merged.candidate.groups[id]?.map Group.core =
      some (l.withIcon (keptIcon (removesIcon base loc remote) l.icon)).core := by
  have hmem : id ∈ loc.groups := mem_iff_exists.mpr ⟨l, hl'⟩
  have hlive : id ∈ run.merged.candidate.groups := by
    refine (run.mem_groups_merged hb hl hr hq).mpr ⟨Or.inl hmem, fun hd => hid ?_⟩
    obtain ⟨_, heq, _⟩ := mem_remoteDeletions.mp hd
    simp only [getElem?_groupIndex] at heq
    exact (mem_iff_of_map_eq heq).mp hmem
  rw [run.core_local hb hl hr hq hlive hmem, run.group_kept hl hq (fun h => hid h.1),
    run.withoutIcons.groups, Std.ExtTreeMap.getElem?_map, hl']
  rfl

/-- A group that only remote added is as remote has it. -/
theorem group_remote {id : GroupId} (hid : id ∈ remoteAdditions K base loc remote) :
    id ∈ run.merged.candidate.groups ∧ run.merged.candidate.groups[id]?.map Group.core =
      remote.groups[id]?.map Group.core := by
  have hnot := (mem_remoteAdditions.mp hid).2.1
  have hmem : id ∈ run.merged.candidate.groups := (run.mem_groups_merged hb hl hr hq).mpr
    ⟨Or.inr hid, fun hd => hnot (mem_remoteDeletions.mp hd).1⟩
  refine ⟨hmem, ?_⟩
  rw [run.core_merged hb hl hr hq hmem]
  exact ((run.additionsInv hl).new id ((run.mem_groups_added hl hq).mpr (Or.inr hid))
    fun h => hnot ((run.mem_groups_moved hl).mp h)).2

/-- The entries that are left once the groups are removed. -/
theorem mem_entries_removed {e : EntryId} : e ∈ run.removed.candidate.entries ↔
    ∃ p, loc.homeOf e = some p ∧ p ∉ remoteDeletions K base loc remote := by
  obtain ⟨hinv, hgroups⟩ := run.removalInv hb hl hr hq
  constructor
  · intro he
    obtain ⟨entry, hentry⟩ := mem_iff_exists.mp he
    have hhome : run.removed.candidate.homeOf e = some entry.parent :=
      homeOf_eq_some.mpr ⟨entry, hentry, rfl⟩
    refine ⟨entry.parent, ?_, ((hgroups _).mp (hinv.hangs.home_mem hhome)).2⟩
    rw [← run.homeOf_added hl]
    exact hinv.homeOf hhome
  · rintro ⟨p, hp, hnot⟩
    rw [← run.homeOf_added hl] at hp
    exact hinv.entriesSpared e p hp fun hdoomed =>
      hnot (run.mem_deletions_of_doomed hb hl hr hq hdoomed)

/-- An entry that is left is as local has it, removed icons aside. -/
theorem entry_removed {e : EntryId} {l : Entry V} (hl' : loc.entries[e]? = some l)
    (he : e ∈ run.removed.candidate.entries) :
    ∃ entry, run.removed.candidate.entries[e]? = some entry ∧
      EntryLeft (removesIcon base loc remote) l entry ∧
      attachmentsAt run.removed.candidate e = attachmentsAt loc e := by
  have hinv := (run.removalInv hb hl hr hq).1
  have hview := keepsAttachments_view hinv.attachments (hinv.entries e he)
  obtain ⟨entry, hentry⟩ := mem_iff_exists.mp he
  have hsettled : run.settled.candidate.entries[e]? = some entry := by
    rw [← run.entries_added hl, ← hinv.entries e he, hentry]
  have hleft := run.withoutIcons.entries e
  rw [hl', hsettled] at hleft
  cases hleft with
  | some hleft =>
    refine ⟨entry, hentry, hleft, ?_⟩
    have hadded : run.added.candidate.entries[e]? = some entry := by
      rw [run.entries_added hl, hsettled]
    simp only [entryView, hentry, hadded, Option.map_some, Option.some.injEq, Prod.mk.injEq,
      true_and] at hview
    have htable : run.added.candidate.attachments = loc.attachments := by
      rw [run.onlyGroups hl]
      exact run.withoutIcons.attachments
    rw [hview, attachmentsAt_of_getElem? hadded, attachmentsAt_of_getElem? hl', hleft.data]
    exact namedAttachments_congr fun name a _ => by rw [htable]

/-- An entry of all three inputs. -/
theorem entry_merged {id : EntryId} {b l r : Entry V} (hb' : base.entries[id]? = some b)
    (hl' : loc.entries[id]? = some l) (hr' : remote.entries[id]? = some r) :
    ∃ m, run.merged.candidate.entries[id]? = some m ∧ EntryMerged b l r m ∧
      HasIcon run.removed.candidate m.icon ∧ m.history = (mergeHistory K base loc remote id).1 ∧
      PreviousMerged (entryState K base b) (entryState K loc l) (entryState K remote r) m ∧
      ∀ name : String, IsThreeWay (attachmentsAt base id)[name]? (attachmentsAt loc id)[name]?
        (attachmentsAt remote id)[name]? (attachmentsAt run.merged.candidate id)[name]? := by
  obtain ⟨u, v, hkeeps, hround, hqv, hbefore, hafter⟩ := mergeEntries_visit
    run.merged_eq hq (Or.inl (mem_iff_exists.mpr ⟨b, hb'⟩))
  have hclass : classifyEntry K base loc remote id =
      .existing (entryState K base b) (entryState K loc l) (entryState K remote r) :=
    classify_existing.mpr (by simp [hb', hl', hr'])
  rw [mergeEntry, hclass] at hround
  have hleft := mergeEntries_spared run.merged_eq (mem_iff_exists.mpr ⟨b, hb'⟩)
    (mem_iff_exists.mpr ⟨l, hl'⟩) (mem_iff_exists.mpr ⟨r, hr'⟩)
  obtain ⟨entry, hremoved, hstripped, hcontents⟩ := run.entry_removed hb hl hr hq hl' hleft
  obtain ⟨current, hentry⟩ := mem_iff_exists.mp ((mem_entries_of_view hbefore).mpr hleft)
  simp only [entryView, hentry, hremoved, Option.map_some, Option.some.injEq, Prod.mk.injEq]
    at hbefore
  obtain ⟨rfl, hview⟩ := hbefore
  have hnames : current.attachments = l.attachments := by rw [hstripped.data]
  obtain ⟨m, hm, hmerged, hicon, hhistory, hprevious, hattachments⟩ := mergeExistingEntry_quiet hentry
    hnames (hview.trans (hcontents.trans (attachmentsAt_of_getElem? hl'))) rfl rfl rfl hround hqv
  simp only [entryView, hm, Option.map_some, Option.map_eq_some_iff, Prod.mk.injEq] at hafter
  obtain ⟨m', hm', rfl, hattachments'⟩ := hafter
  have hpresent : HasIcon run.removed.candidate m'.icon := by
    intro c hc
    rw [← hkeeps.settings.customIcons]
    exact hicon c hc
  refine ⟨m', hm', hmerged, hpresent, hhistory, hprevious, fun name => ?_⟩
  rw [hattachments', attachmentsAt_of_getElem? hb', attachmentsAt_of_getElem? hl',
    attachmentsAt_of_getElem? hr']
  exact hattachments name

/-- An entry that local added is kept, removed icons aside. -/
theorem entry_local {id : EntryId} {l : Entry V} (hid : id ∉ base.entries)
    (hl' : loc.entries[id]? = some l) :
    ∃ entry, run.merged.candidate.entries[id]? = some entry ∧
      EntryLeft (removesIcon base loc remote) l entry ∧
      run.settled.candidate.entries[id]? = some entry ∧
      attachmentsAt run.merged.candidate id = attachmentsAt loc id := by
  have hhome : loc.homeOf id = some l.parent := homeOf_eq_some.mpr ⟨l, hl', rfl⟩
  have hleft : id ∈ run.removed.candidate.entries := by
    refine (run.mem_entries_removed hb hl hr hq).mpr ⟨l.parent, hhome, fun hd => hid ?_⟩
    -- What local lists below a group that remote deleted was there in base.
    have hchild := hl.tree.entryListed id l.parent hhome
    rw [(childGroups_deleted hd).2] at hchild
    have hbase : base.homeOf id = some l.parent := by
      simpa using hb.tree.entryOwned l.parent id hchild
    obtain ⟨b, hb', _⟩ := homeOf_eq_some.mp hbase
    exact mem_iff_exists.mpr ⟨b, hb'⟩
  obtain ⟨entry, hremoved, hstripped, hcontents⟩ := run.entry_removed hb hl hr hq hl' hleft
  have hsettled : run.settled.candidate.entries[id]? = some entry := by
    rw [← run.entries_added hl, ← (run.removalInv hb hl hr hq).1.entries id hleft, hremoved]
  obtain ⟨u, v, _, hround, hqv, hbefore, hafter⟩ := mergeEntries_visit run.merged_eq hq
    (Or.inr (Or.inl (mem_iff_exists.mpr ⟨l, hl'⟩)))
  have hnone : base.entries[id]? = none := Std.ExtTreeMap.getElem?_eq_none hid
  have hkeep : v = u := by
    unfold mergeEntry at hround
    split at hround
    · case h_1 hclass =>
      have := (classify_existing.mp hclass).1
      simp [hnone] at this
    · case h_2 hclass =>
      have := (classify_remove.mp hclass).1
      simp [hnone] at this
    · case h_3 hclass =>
      have := (classify_add.mp hclass).2.1
      simp [hl'] at this
    · cases hround
      simp at hqv
    · cases hround
      rfl
  rw [hkeep, hbefore] at hafter
  simp only [entryView, hremoved, Option.map_some, Option.map_eq_some_iff, Prod.mk.injEq] at hafter
  obtain ⟨_, hmerged, rfl, hsame⟩ := hafter
  exact ⟨_, hmerged, hstripped, hsettled, hsame.trans hcontents⟩

omit hb hl hr in
/-- An entry that only remote added is as remote has it, and remote has no attachments there. -/
theorem entry_remote {id : EntryId} {r : Entry V} (hb' : id ∉ base.entries)
    (hl' : id ∉ loc.entries) (hr' : remote.entries[id]? = some r) :
    run.merged.candidate.entries[id]? = some r ∧ (attachmentsAt remote id).isEmpty = true ∧
      historyHasAttachments remote id = false ∧ HasIcon run.merged.candidate r.icon ∧
      r.parent ∈ run.merged.candidate.groups := by
  obtain ⟨u, v, hkeeps, hround, hqv, _, hafter⟩ := mergeEntries_visit
    run.merged_eq hq (Or.inr (Or.inr (mem_iff_exists.mpr ⟨r, hr'⟩)))
  have hkeeps' := mergeEntries_keeps run.merged_eq
  have hnew := (run.entries_reconciled hq id).addedRemotely (by simpa using hb')
    (by simpa using hl') (by simp [hr'])
  have hclass : classifyEntry K base loc remote id = .add (entryState K remote r) :=
    classify_add.mpr (by simpa [hb', hl', hr'] using hnew)
  rw [mergeEntry, hclass] at hround
  cases hround
  rcases addRemoteEntry_cases K remote id (entryState K remote r) u with
    ⟨kind, heq⟩ | ⟨hempty, hhistory, hicon, hparent, _, heq⟩
  · rw [heq] at hqv
    simp at hqv
  · rw [heq] at hafter
    have hentry := congrArg (Option.map Prod.fst) hafter
    simp only [entryView, Option.map_map, candidate_edit, getElem?_insertEntry, if_true] at hentry
    refine ⟨by simpa [entryState] using hentry, ?_, hhistory, ?_, ?_⟩
    · rw [attachmentsAt_of_getElem? hr']
      exact hempty
    · intro c hc
      rw [hkeeps'.settings.customIcons, ← hkeeps.settings.customIcons]
      exact hicon c hc
    · rw [hkeeps'.groups.mem_groups, ← hkeeps.groups.mem_groups]
      exact hparent

/-- An entry that a branch lost is gone. -/
theorem entry_lost {id : EntryId} (hb' : id ∈ base.entries)
    (hlost : id ∉ loc.entries ∨ id ∉ remote.entries) :
    id ∉ run.merged.candidate.entries := by
  obtain ⟨u, v, _, hround, hqv, hbefore, hafter⟩ := mergeEntries_visit run.merged_eq hq
    (Or.inl hb')
  rw [mem_entries_of_view hafter]
  have hleft : id ∈ u.candidate.entries → id ∈ loc.entries := by
    rw [mem_entries_of_view hbefore, run.mem_entries_removed hb hl hr hq]
    rintro ⟨p, hp, _⟩
    obtain ⟨l, hl', _⟩ := homeOf_eq_some.mp hp
    exact mem_iff_exists.mpr ⟨l, hl'⟩
  unfold mergeEntry at hround
  split at hround
  · case h_1 hclass =>
    obtain ⟨_, hl', hr'⟩ := classify_existing.mp hclass
    simp only [getElem?_entryIndex, Option.map_eq_some_iff] at hl' hr'
    obtain ⟨l, hl', _⟩ := hl'
    obtain ⟨r, hr', _⟩ := hr'
    exact absurd hlost (not_or.mpr ⟨not_not.mpr (mem_iff_exists.mpr ⟨l, hl'⟩),
      not_not.mpr (mem_iff_exists.mpr ⟨r, hr'⟩)⟩)
  · cases hround
    split
    · case isTrue hmem =>
      obtain ⟨table, heq⟩ := K.removeEntry_eq u.candidate id hmem
      simp [heq, Database.eraseEntry]
    · assumption
  · case h_3 hclass =>
    have hnone := (classify_add.mp hclass).1
    simp only [getElem?_entryIndex, Option.map_eq_none_iff] at hnone
    simp [hnone, mem_iff_exists] at hb'
  · cases hround
    simp at hqv
  · case h_5 hclass =>
    cases hround
    intro hmem
    -- Without a conflict, an entry that remote lost is to be removed.
    have hl' := hleft hmem
    have hr' := hlost.resolve_left (not_not.mpr hl')
    obtain ⟨hdel, heq⟩ := (run.entries_reconciled hq id).remoteLost (by simpa using hb')
      (by simpa using hl') (by simpa using hr')
    have hremove : classifyEntry K base loc remote id = .remove :=
      classify_remove.mpr ⟨by simpa using hb', heq, by simpa using hr', by simpa using hdel⟩
    rw [hremove] at hclass
    cases hclass

theorem mem_entries_merged {id : EntryId} : id ∈ run.merged.candidate.entries ↔
    (id ∈ loc.entries ∧ id ∈ remote.entries) ∨
      id ∉ base.entries ∧ (id ∈ loc.entries ∨ id ∈ remote.entries) := by
  by_cases hb' : id ∈ base.entries
  · by_cases hlost : id ∉ loc.entries ∨ id ∉ remote.entries
    · have := run.entry_lost hb hl hr hq hb' hlost
      simp only [this, false_iff, not_or, not_and]
      tauto
    · simp only [not_or, not_not] at hlost
      obtain ⟨b, hb'⟩ := mem_iff_exists.mp hb'
      obtain ⟨l, hl'⟩ := mem_iff_exists.mp hlost.1
      obtain ⟨r, hr'⟩ := mem_iff_exists.mp hlost.2
      obtain ⟨m, hm, _⟩ := run.entry_merged hb hl hr hq hb' hl' hr'
      exact iff_of_true (mem_iff_exists.mpr ⟨m, hm⟩) (Or.inl hlost)
  · by_cases hl' : id ∈ loc.entries
    · obtain ⟨l, hentry⟩ := mem_iff_exists.mp hl'
      obtain ⟨m, hm, _⟩ := run.entry_local hb hl hr hq hb' hentry
      exact iff_of_true (mem_iff_exists.mpr ⟨m, hm⟩) (Or.inr ⟨hb', Or.inl hl'⟩)
    · by_cases hr' : id ∈ remote.entries
      · obtain ⟨r, hr''⟩ := mem_iff_exists.mp hr'
        obtain ⟨hm, _⟩ := run.entry_remote hq hb' hl' hr''
        exact iff_of_true (mem_iff_exists.mpr ⟨r, hm⟩) (Or.inr ⟨hb', Or.inr hr'⟩)
      · rw [mem_entries_of_view (mergeEntries_other run.merged_eq (by simp [hb', hl', hr'])),
          run.mem_entries_removed hb hl hr hq]
        simp [hb', hl', hr', Database.homeOf]

theorem mem_groups_live {id : GroupId} : id ∈ run.merged.candidate.groups ↔
    (id ∈ loc.groups ∧ id ∈ remote.groups) ∨
      id ∉ base.groups ∧ (id ∈ loc.groups ∨ id ∈ remote.groups) := by
  have hrec := run.groups_reconciled hl hq id
  rw [run.mem_groups_merged hb hl hr hq, mem_remoteAdditions, mem_remoteDeletions]
  by_cases hl' : id ∈ loc.groups
  · by_cases hr' : id ∈ remote.groups
    · simp [hl', hr']
    · by_cases hb' : id ∈ base.groups
      · obtain ⟨hdel, heq⟩ := hrec.remoteLost (by simpa using hb') (by simpa using hl')
          (by simpa using hr')
        have hdel : id.uuid ∈ remote.deletedObjects := by simpa [isDeleted] using hdel
        simp [hl', hr', hb', heq, hdel]
      · simp [hl', hr', hb']
  · by_cases hr' : id ∈ remote.groups
    · by_cases hb' : id ∈ base.groups
      · simp [hl', hb']
      · have hdel := hrec.addedRemotely (by simpa using hb') (by simpa using hl')
          (by simpa using hr')
        have hdel : id.uuid ∉ loc.deletedObjects := by simpa [isDeleted] using hdel
        simp [hl', hr', hb', hdel]
    · simp [hl', hr']

/-- Configuration, icons and tombstones are settled before the tree is walked. -/
theorem settings : SameSettings run.settled.candidate run.merged.candidate :=
  ((run.onlyGroups hl).settings.trans (run.removalInv hb hl hr hq).1.settings).trans
    (mergeEntries_keeps run.merged_eq).settings

/-- So are the metadata, but for the names of groups that go. -/
theorem metadata_merged :
    (∀ reference ∈ Meta.references, ∀ uuid, reference run.merged.candidate.metadata = some uuid ↔
      reference run.settled.candidate.metadata = some uuid ∧
        ¬ (reference ∈ K.cleared ∧ ⟨uuid⟩ ∈ remoteDeletions K base loc remote)) ∧
    run.merged.candidate.metadata.plain = run.settled.candidate.metadata.plain := by
  obtain ⟨hinv, hmem⟩ := run.removalInv hb hl hr hq
  have hadded : run.added.candidate.metadata = run.settled.candidate.metadata := by
    rw [run.onlyGroups hl]
  have hgone : ∀ x, x ∈ run.added.candidate.groups ∧ x ∉ run.removed.candidate.groups ↔
      x ∈ remoteDeletions K base loc remote := by
    intro x
    rw [hmem, run.mem_groups_added hl hq]
    constructor
    · rintro ⟨hx, hnot⟩
      exact not_not.mp fun hkept => hnot ⟨hx, hkept⟩
    · intro hx
      exact ⟨Or.inl (mem_remoteDeletions.mp hx).1, fun h => h.2 hx⟩
  rw [(mergeEntries_keeps run.merged_eq).metadata, ← hadded]
  refine ⟨fun reference hreference uuid => ?_, hinv.forgets.metadata⟩
  rw [hinv.forgets.references reference hreference, hgone]

/-- The icons that are left. -/
theorem mem_customIcons {c : CustomIconId} : c ∈ run.merged.candidate.customIcons ↔
    c ∈ loc.customIcons ∧ removesIcon base loc remote c = false := by
  rw [(run.settings hb hl hr hq).customIcons]
  exact run.withoutIcons.icons c

omit hb hl hr in
/-- An icon of local is removed exactly if base has it and remote does not. -/
theorem removesIcon_eq {c : CustomIconId} (hc : c ∈ loc.customIcons) :
    removesIcon base loc remote c = true ↔ c ∈ base.customIcons ∧ c ∉ remote.customIcons := by
  have hsettled := (run.quiet_passes hq).2.2.2
  rw [run.settled_eq, settle] at hsettled
  constructor
  · intro h
    obtain ⟨icon, hb, _, hr, _⟩ := removesIcon_iff.mp h
    exact ⟨mem_iff_exists.mpr ⟨icon, hb⟩, by simp [mem_iff_exists, hr]⟩
  · rintro ⟨hb, hr⟩
    exact (mergeCustomIcons_quiet hsettled).2.1 c hb hc hr

end Quiet

end Run

end NianPass.Kdbx
