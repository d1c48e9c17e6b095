import NianPass.Kdbx.Outcome

/-
  When the merge ends without an error.

  The merge of three valid documents can fail in two ways. The pass over
  entries fails when an entry of all three inputs is gone, which happens when
  it lay below a group that remote deleted: groups are removed before entries
  are looked at, so an entry that remote moved out of a group it then deleted
  goes with the group. And a candidate without a conflict can fail the final
  check: two objects can share a UUID, a tombstone of base can name a live
  object, and a custom icon in use can be missing.

  A removal goes down the child lists, and a group that remote added has its
  lists before its children are there. `Exposed` collects what a removal can
  reach, and `MergeSafe` lists what has to be excluded. `mergeDivergent_total`
  says that the merge ends with a document or with conflicts if it is, that it
  never ends with a document if it is not, and that it always fails where an
  entry goes with a deleted group, whatever conflicts have been found by then.
-/
namespace NianPass.Kdbx

variable {V : Type}

/-! ## Where groups end up -/

open Classical in
/-- The parents after the move of one group, which stays if it cannot move. -/
noncomputable def moveParent (loc : Database V) (parent : GroupId → Option GroupId)
    (id : GroupId) (target : Option GroupId) : GroupId → Option GroupId :=
  match target with
  | none => parent
  | some t =>
    if t ∈ loc.groups ∧ id ≠ loc.root ∧ ¬ Forest.Above parent id t then
      Function.update parent id (some t) else parent

/-- The parents of local's groups once each of them has moved to where remote wants it, one after
another, where it can. -/
noncomputable def movedParents (base loc remote : Database V) : GroupId → Option GroupId :=
  (groupIds base loc remote).foldl
    (fun parent id => moveParent loc parent id (groupMove base loc remote id)) loc.parentOf

section Moves
variable {base loc remote : Database V} {id : GroupId} {target : Option GroupId}
  {db out : Database V}

theorem MovesGroup.parentOf (h : MovesGroup id target db out)
    (hmem : ∀ x, x ∈ db.groups ↔ x ∈ loc.groups) (hroot : db.root = loc.root)
    (hid : target ≠ none → id ∈ db.groups) :
    out.parentOf = moveParent loc db.parentOf id target := by
  unfold moveParent
  obtain ⟨mid, hedit, ⟨hstay, hcannot⟩ | ⟨t, rfl, hcan, hmove⟩⟩ := h
  · rw [hstay.shape.parentOf, hedit.shape.parentOf]
    cases target with
    | none => rfl
    | some t =>
      have hnot := hcannot t rfl
      unfold CanMove at hnot
      rw [hmem, hroot] at hnot
      simp only [if_neg hnot]
  · unfold CanMove at hcan
    rw [hmem, hroot] at hcan
    simp only [if_pos hcan]
    have hmid : id ∈ mid.groups := hedit.shape.mem_groups.mpr (hid (by simp))
    rw [hmove.shape.parentOf]
    funext x
    rw [parentOf_relocateGroup hmid, Function.update_apply, hedit.shape.parentOf]

end Moves

section Run
variable [DecidableEq V] {K : Keepass V} {base loc remote : Database V} {out : MergeState V}

theorem foldlM_parentOf {ids : List GroupId} {start : Database V} {st st' : MergeState V}
    (hinv : GroupLoopInv loc start st.candidate) (hroot : start.root = loc.root)
    (h : ids.foldlM (mergeGroup K base loc remote) st = .ok st') :
    st'.candidate.parentOf = ids.foldl
      (fun parent id => moveParent loc parent id (groupMove base loc remote id))
      st.candidate.parentOf := by
  induction ids generalizing st with
  | nil =>
    cases h
    rfl
  | cons id ids ih =>
    obtain ⟨u, hu, hrest⟩ := Loop.foldlM_cons_ok.mp h
    rw [ih (mergeGroup_keeps hinv hu) hrest, List.foldl_cons]
    have hrootHere : st.candidate.root = loc.root := by
      rw [hinv.only]
      exact hroot
    rw [(mergeGroup_moves hinv.mem_groups hu).parentOf hinv.mem_groups hrootHere
      fun hne => (hinv.mem_groups id).mpr (groupMove_mem hne)]

theorem GroupRun.parentOf_movedParents (run : GroupRun K base loc remote) (hl : SyncValid loc) :
    run.moved.candidate.parentOf = movedParents base loc remote := by
  rw [foldlM_parentOf (run.groupLoopStart hl) run.withoutIcons.root run.moved_eq,
    run.withoutIcons.sameShape.parentOf]
  rfl

end Run

/-! ## The condition -/

/-- Once the icons that remote deleted are gone, the icon is there. -/
def IconSurvives (base loc remote : Database V) (icon : Option Icon) : Prop :=
  ∀ c, icon = some (.custom c) →
    c ∈ loc.customIcons ∧ ¬ (c ∈ base.customIcons ∧ c ∉ remote.customIcons)

/-- The groups a removal can reach: those that remote deleted and what they list, once groups have
moved and remote's groups are there. -/
inductive Exposed [DecidableEq V] (K : Keepass V) (base loc remote : Database V) : GroupId → Prop
  | deleted {d : GroupId} (h : d ∈ remoteDeletions K base loc remote) :
      Exposed K base loc remote d
  | moved {p c : GroupId} (h : Exposed K base loc remote p)
      (hc : movedParents base loc remote c = some p) : Exposed K base loc remote c
  | added {p c : GroupId} (h : Exposed K base loc remote p) (hc : remote.parentOf c = some p)
      (hnew : p ∈ remoteAdditions K base loc remote ∨ c ∈ remoteAdditions K base loc remote) :
      Exposed K base loc remote c

/-- No entry of all three inputs is listed by an exposed group. -/
def HomesKept [DecidableEq V] (K : Keepass V) (base loc remote : Database V) : Prop :=
  ∀ e ∈ base.entries, e ∈ loc.entries → e ∈ remote.entries → ∀ p, Exposed K base loc remote p →
    loc.homeOf e ≠ some p ∧ (p ∈ remoteAdditions K base loc remote → remote.homeOf e ≠ some p)

/-- An entry of all three inputs lies below a group that remote deleted, once groups have moved. -/
def HomeLost [DecidableEq V] (K : Keepass V) (base loc remote : Database V) : Prop :=
  ∃ e p, e ∈ base.entries ∧ loc.homeOf e = some p ∧ e ∈ remote.entries ∧
    ∃ d ∈ remoteDeletions K base loc remote, Forest.Above (movedParents base loc remote) d p

structure MergeSafe [DecidableEq V] (K : Keepass V) (base loc remote : Database V) : Prop where
  homes : HomesKept K base loc remote
  /-- Remote did not delete local's root. -/
  root : loc.root ∉ remoteDeletions K base loc remote
  /-- A UUID names the same kind of object in local and in remote. -/
  kinds : ∀ id k k', LiveAs loc k id → LiveAs remote k' id → k = k'
  /-- What base has a tombstone for is live on both sides or has one on the other side. -/
  recreatedLocally : ∀ id k, id ∈ base.deletedObjects → LiveAs loc k id →
    LiveAs remote k id ∨ id ∈ remote.deletedObjects
  recreatedRemotely : ∀ id k, id ∈ base.deletedObjects → LiveAs remote k id →
    LiveAs loc k id ∨ id ∈ loc.deletedObjects
  /-- The icons of groups that remote added exist in local. -/
  groupIcons : ∀ (id : GroupId) (g : Group V), id ∈ remoteAdditions K base loc remote →
    remote.groups[id]? = some g → HasIcon loc g.icon
  /-- The icons of snapshots survive. -/
  mergedSnapshots : ∀ id : EntryId, id ∈ base.entries → id ∈ loc.entries → id ∈ remote.entries →
    ∀ snapshot ∈ (mergeHistory K base loc remote id).1.getD [],
      IconSurvives base loc remote snapshot.icon
  localSnapshots : ∀ (id : EntryId) (entry : Entry V), id ∉ base.entries →
    (settle K base loc remote).candidate.entries[id]? = some entry →
    ∀ snapshot ∈ entry.history.getD [], IconSurvives base loc remote snapshot.icon
  remoteSnapshots : ∀ (id : EntryId) (entry : Entry V), id ∉ base.entries → id ∉ loc.entries →
    remote.entries[id]? = some entry → ∀ snapshot ∈ entry.history.getD [],
      HasIcon loc snapshot.icon

/-! ## No pass fails -/

section Passes
variable [DecidableEq V] {K : Keepass V} {base loc remote : Database V}

/-- The round for a group fails only if the group is not there. -/
theorem mergeGroup_ok (K : Keepass V) (base remote : Database V) {st : MergeState V}
    (hmem : ∀ x, x ∈ st.candidate.groups ↔ x ∈ loc.groups) (id : GroupId) :
    ∃ st', mergeGroup K base loc remote st id = .ok st' := by
  unfold mergeGroup
  split
  · case h_1 b l r hclass =>
    obtain ⟨_, hl, _⟩ := classify_existing.mp hclass
    rw [getElem?_groupIndex, Option.map_eq_some_iff] at hl
    obtain ⟨g, hg, _⟩ := hl
    unfold mergeExistingGroup moveGroup
    simp only
    split
    · exact ⟨_, rfl⟩
    · split
      · exact ⟨_, rfl⟩
      · rw [if_pos]
        · split
          · exact ⟨_, rfl⟩
          · exact ⟨_, rfl⟩
        · rw [(editsGroup_writeGroup id _ _ _).shape.mem_groups]
          exact (hmem id).mpr (mem_iff_exists.mpr ⟨g, hg⟩)
  · exact ⟨_, rfl⟩
  · exact ⟨_, rfl⟩

theorem exists_groupRun (K : Keepass V) (base remote : Database V) (hl : SyncValid loc) :
    Nonempty (GroupRun K base loc remote) := by
  have hshape := (settled_withoutIcons K base loc remote).sameShape
  obtain ⟨moved, hmoved⟩ := Loop.foldlM_total (f := mergeGroup K base loc remote)
    (P := fun _ st => GroupLoopInv loc (mergeCustomIcons K base loc remote
      (mergeConfigAndMetadata base loc remote (validateInputIdentities base loc remote
        (validateRoots base loc remote { candidate := loc })))).candidate st.candidate)
    (fun id _ st hinv => by
      obtain ⟨st', hst'⟩ := mergeGroup_ok K base remote hinv.mem_groups id
      exact ⟨st', hst', mergeGroup_keeps hinv hst'⟩)
    ⟨rfl, fun x => hshape.mem_groups, hshape.hangs hl.tree, hshape.tidy hl.tidy, fun _ => rfl⟩
  exact ⟨⟨_, moved, _, _, rfl, hmoved, rfl, rfl⟩⟩

theorem mergeExistingEntry_ok {st : MergeState V} {id : EntryId} {b l r : EntryState V}
    (hid : id ∈ st.candidate.entries) :
    ∃ st', mergeExistingEntry K base loc remote id b l r st = .ok st' := by
  unfold mergeExistingEntry
  simp only [candidate_report, hid, if_true]
  generalize hwritten : writeEntry id _ _ _ = written
  have hmem : id ∈ written.candidate.entries := by
    rw [← hwritten]
    exact writeEntry_mem (by simpa using hid)
  unfold placeEntry
  have hmoved : ∀ parent, ∃ mid, moveEntry K id parent l.parent r.entry.times.locationChanged
      written = .ok mid := by
    intro parent
    unfold moveEntry
    by_cases hstay : parent = l.parent
    · exact ⟨_, if_pos hstay⟩
    · rw [if_neg hstay, if_pos hmem]
      split
      · exact ⟨_, rfl⟩
      · exact ⟨_, rfl⟩
  obtain ⟨mid, hmid⟩ := hmoved (mergeProp (entryConflict id .moveVsMove) b.parent l.parent r.parent).1
  have hmidMem := (moveEntry_edits hmem hmid).2.2
  rw [hmid]
  simp only [bind, Except.bind, hmidMem, if_true]
  split
  · exact ⟨_, rfl⟩
  · exact ⟨_, rfl⟩

/-- The round for an entry fails only if the entry is in all three inputs and not there. -/
theorem mergeEntry_ok {st : MergeState V} {id : EntryId}
    (hid : id ∈ base.entries → id ∈ loc.entries → id ∈ remote.entries →
      id ∈ st.candidate.entries) :
    ∃ st', mergeEntry K base loc remote st id = .ok st' := by
  unfold mergeEntry
  split
  · case h_1 b l r hclass =>
    obtain ⟨hb, hl, hr⟩ := classify_existing.mp hclass
    simp only [getElem?_entryIndex, Option.map_eq_some_iff] at hb hl hr
    obtain ⟨b', hb, _⟩ := hb
    obtain ⟨l', hl, _⟩ := hl
    obtain ⟨r', hr, _⟩ := hr
    exact mergeExistingEntry_ok (hid (mem_iff_exists.mpr ⟨b', hb⟩) (mem_iff_exists.mpr ⟨l', hl⟩)
      (mem_iff_exists.mpr ⟨r', hr⟩))
  · exact ⟨_, rfl⟩
  · exact ⟨_, rfl⟩
  · exact ⟨_, rfl⟩
  · exact ⟨_, rfl⟩

theorem mergeEntries_ok {st : MergeState V}
    (h : ∀ e, e ∈ base.entries → e ∈ loc.entries → e ∈ remote.entries →
      e ∈ st.candidate.entries) :
    ∃ st', mergeEntries K base loc remote st = .ok st' := by
  -- Rounds for other entries do not touch an entry whose round is still to come.
  refine Loop.foldlM_total (P := fun rest (st : MergeState V) => rest.Nodup ∧
    ∀ e ∈ rest, e ∈ base.entries → e ∈ loc.entries → e ∈ remote.entries →
      e ∈ st.candidate.entries) ?_ ⟨nodup_allKeys3 _ _ _, fun e _ => h e⟩
  rintro id rest u ⟨hnodup, hrest⟩
  obtain ⟨hid, hnodup⟩ := List.nodup_cons.mp hnodup
  obtain ⟨v, hv⟩ := mergeEntry_ok (K := K) (hrest id List.mem_cons_self)
  refine ⟨v, hv, hnodup, fun e he hb hl hr => ?_⟩
  have hne : e ≠ id := fun heq => hid (heq ▸ he)
  rw [mem_entries_of_view ((mergeEntry_edits hv).other e hne)]
  exact hrest e (List.mem_cons_of_mem id he) hb hl hr

end Passes

/-! ## What removals leave -/

section Removal
variable {K : Keepass V} {cleared : List (Meta V → Option Uuid)} {start db out : Database V}
  {deletions done : List GroupId} {id d p : GroupId} {e : EntryId} {st : MergeState V}

/-- Child lists only lose members. -/
structure Shrinks (start db : Database V) : Prop where
  root : db.root = start.root
  groups : ∀ x, db.childGroups x ⊆ start.childGroups x
  entries : ∀ x, db.childEntries x ⊆ start.childEntries x

theorem Shrinks.refl (db : Database V) : Shrinks db db := ⟨rfl, fun _ _ h => h, fun _ _ h => h⟩

theorem Shrinks.below (h : Shrinks start db) {x : GroupId} (hx : db.Below id x) :
    start.Below id x := by
  obtain ⟨k, hk⟩ := hx
  exact ⟨k, Forest.steps_mono (fun p c hc => h.groups p hc) hk⟩

theorem childGroups_kept (hw : db.WithoutGroup cleared id out) {x : GroupId}
    (hx : ¬ db.Below id x) : out.childGroups x =
      if db.parentOf id = some x then (db.childGroups x).filter (· ≠ id) else db.childGroups x := by
  unfold Database.childGroups
  rw [hw.kept x hx]
  cases db.groups[x]? with
  | none => simp
  | some group => rfl

theorem childEntries_kept (hw : db.WithoutGroup cleared id out) {x : GroupId}
    (hx : ¬ db.Below id x) : out.childEntries x = db.childEntries x := by
  unfold Database.childEntries
  rw [hw.kept x hx]
  cases db.groups[x]? <;> rfl

theorem shrinks_withoutGroup (hw : db.WithoutGroup cleared id out) : Shrinks db out where
  root := hw.root
  groups x c hc := by
    by_cases hx : db.Below id x
    · simp [Database.childGroups, hw.gone x hx] at hc
    · rw [childGroups_kept hw hx] at hc
      split at hc
      · exact (List.mem_filter.mp hc).1
      · exact hc
  entries x e he := by
    by_cases hx : db.Below id x
    · simp [Database.childEntries, hw.gone x hx] at he
    · rwa [childEntries_kept hw hx] at he

theorem Shrinks.trans (h : Shrinks start db) (h' : Shrinks db out) : Shrinks start out :=
  ⟨h'.root.trans h.root, fun x _ hc => h.groups x (h'.groups x hc),
    fun x _ he => h.entries x (h'.entries x he)⟩

theorem removeGroups_cons : removeGroups K (id :: done) st =
    removeGroups K done (if id ∈ st.candidate.groups then st.edit (K.removeGroup · id) else st) :=
  rfl

/-- An entry that no group below a removed one lists stays. -/
theorem removeGroups_unlisted (hroot : start.root ∉ done) (h : Shrinks start st.candidate)
    (hunlisted : ∀ d ∈ done, ∀ x, start.Below d x → e ∉ start.childEntries x)
    (he : e ∈ st.candidate.entries) : e ∈ (removeGroups K done st).candidate.entries := by
  induction done generalizing st with
  | nil => exact he
  | cons id rest ih =>
    obtain ⟨hid, hrest⟩ := by simpa using hroot
    obtain ⟨hunlistedHere, hunlistedRest⟩ := List.forall_mem_cons.mp hunlisted
    rw [removeGroups_cons]
    by_cases hmem : id ∈ st.candidate.groups
    · rw [if_pos hmem]
      have hw := K.removeGroup_spec st.candidate id hmem fun heq => hid (h.root.symm.trans heq.symm)
      have hsame := hw.entriesKept e fun x hx hlisted =>
        hunlistedHere x (h.below hx) (h.entries x hlisted)
      obtain ⟨entry, hentry⟩ := mem_iff_exists.mp he
      exact ih hrest (h.trans (shrinks_withoutGroup hw)) hunlistedRest
        (mem_iff_exists.mpr ⟨entry, hsame.trans hentry⟩)
    · rw [if_neg hmem]
      exact ih hrest h hunlistedRest he

/-- The entry is in the child lists below `d`, in that of `p`. -/
def Listed (db : Database V) (d p : GroupId) (e : EntryId) : Prop :=
  db.Below d p ∧ e ∈ db.childEntries p

theorem Listed.mem (h : Listed db d p e) : d ∈ db.groups := by
  obtain ⟨⟨k, hk⟩, he⟩ := h
  by_contra hnot
  have hnone := Std.ExtTreeMap.getElem?_eq_none hnot
  cases k with
  | zero =>
    obtain rfl : d = p := hk
    simp [Database.childEntries, hnone] at he
  | succ k =>
    obtain ⟨c, hc, _⟩ := hk
    simp [Database.childGroups, hnone] at hc

theorem mem_of_withoutGroup (hw : db.WithoutGroup cleared id out) (he : e ∈ out.entries) :
    e ∈ db.entries ∧ ∀ x, db.Below id x → e ∉ db.childEntries x := by
  have hunlisted : ∀ x, db.Below id x → e ∉ db.childEntries x := fun x hx hlisted => by
    simp [mem_iff_exists, hw.entriesGone x e hx hlisted] at he
  obtain ⟨entry, hentry⟩ := mem_iff_exists.mp he
  rw [hw.entriesKept e hunlisted] at hentry
  exact ⟨mem_iff_exists.mpr ⟨entry, hentry⟩, hunlisted⟩

theorem mem_of_removeGroups (hroot : st.candidate.root ∉ done)
    (he : e ∈ (removeGroups K done st).candidate.entries) : e ∈ st.candidate.entries := by
  induction done generalizing st with
  | nil => exact he
  | cons id rest ih =>
    obtain ⟨hid, hrest⟩ := List.ne_and_not_mem_of_not_mem_cons hroot
    rw [removeGroups_cons] at he
    by_cases hmem : id ∈ st.candidate.groups
    · rw [if_pos hmem] at he
      have hw := K.removeGroup_spec st.candidate id hmem (Ne.symm hid)
      have hrest' : (st.edit (K.removeGroup · id)).candidate.root ∉ rest := hw.root ▸ hrest
      exact (mem_of_withoutGroup hw (ih hrest' he)).1
    · rw [if_neg hmem] at he
      exact ih hrest he

/-- Where an entry is listed below `d`, removing another group takes the whole way down to it or
none of it. -/
theorem listed_withoutGroup (hw : db.WithoutGroup cleared id out)
    (h : e ∈ db.entries → Listed db d p e) :
    (e ∈ out.entries → Listed out d p e) ∧ (id = d → e ∉ out.entries) := by
  constructor
  · intro he
    obtain ⟨hmem, hunlisted⟩ := mem_of_withoutGroup hw he
    obtain ⟨⟨k, hk⟩, hlisted⟩ := h hmem
    have hp : ¬ db.Below id p := fun hp => hunlisted p hp hlisted
    refine ⟨⟨k, ?_⟩, by rwa [childEntries_kept hw hp]⟩
    -- No group on the way down is below the removed one, or `p` would be.
    clear h
    induction k generalizing d with
    | zero => exact hk
    | succ k ih =>
      obtain ⟨c, hc, hrest⟩ := hk
      have hcnot : ¬ db.Below id c := by
        rintro ⟨j, hj⟩
        exact hp ⟨j + k, Forest.steps_add.mpr ⟨c, hj, hrest⟩⟩
      have hdnot : ¬ db.Below id d := by
        rintro ⟨j, hj⟩
        exact hcnot ⟨j + 1, Forest.steps_add.mpr ⟨d, hj, c, hc, rfl⟩⟩
      refine ⟨c, ?_, ih hrest⟩
      show c ∈ out.childGroups d
      rw [childGroups_kept hw hdnot]
      split
      · refine List.mem_filter.mpr ⟨hc, decide_eq_true fun heq => hcnot ⟨0, heq.symm⟩⟩
      · exact hc
  · rintro rfl he
    obtain ⟨hmem, hunlisted⟩ := mem_of_withoutGroup hw he
    obtain ⟨hbelow, hlisted⟩ := h hmem
    exact hunlisted p hbelow hlisted

/-- An entry listed below a group stays listed there until it goes, and goes with the group. -/
theorem removeGroups_listed (hroot : st.candidate.root ∉ done)
    (h : e ∈ st.candidate.entries → Listed st.candidate d p e) :
    (e ∈ (removeGroups K done st).candidate.entries →
      Listed (removeGroups K done st).candidate d p e) ∧
    (d ∈ done → e ∉ (removeGroups K done st).candidate.entries) := by
  induction done generalizing st with
  | nil => exact ⟨h, by simp⟩
  | cons id rest ih =>
    obtain ⟨hid, hrest⟩ := List.ne_and_not_mem_of_not_mem_cons hroot
    rw [removeGroups_cons]
    by_cases hmem : id ∈ st.candidate.groups
    · rw [if_pos hmem]
      have hw := K.removeGroup_spec st.candidate id hmem (Ne.symm hid)
      obtain ⟨hlisted, hgone⟩ := listed_withoutGroup hw h
      have hnext := @ih (st.edit (K.removeGroup · id)) (hw.root ▸ hrest) hlisted
      refine ⟨hnext.1, fun hd he => ?_⟩
      rcases List.mem_cons.mp hd with rfl | hd
      · exact hgone rfl (mem_of_removeGroups (hw.root ▸ hrest) he)
      · exact hnext.2 hd he
    · rw [if_neg hmem]
      have hnext := ih hrest h
      refine ⟨hnext.1, fun hd he => ?_⟩
      rcases List.mem_cons.mp hd with rfl | hd
      · exact hmem (h (mem_of_removeGroups hrest he)).mem
      · exact hnext.2 hd he

end Removal

/-! ## A safe merge ends -/

section Safe
variable [DecidableEq V] {K : Keepass V} {base loc remote : Database V}

namespace GroupRun
variable (run : GroupRun K base loc remote) (hl : SyncValid loc)
include hl

/-- The groups of local hang the same before and after the remote additions. -/
theorem above_movedParents {d p : GroupId} (hp : p ∈ loc.groups) :
    Forest.Above run.added.candidate.parentOf d p ↔
      Forest.Above (movedParents base loc remote) d p := by
  rw [← run.parentOf_movedParents hl]
  have hclosed : ∀ z q, z ∈ loc.groups → run.moved.candidate.parentOf z = some q →
      q ∈ loc.groups := fun z q _ hz =>
    (run.mem_groups_moved hl).mp ((run.groupLoopInv hl).tree.parent_mem hz)
  constructor
  · intro h
    exact Forest.above_of_closed (P := (· ∈ loc.groups))
      (fun z hz => (run.parentOf_moved hl hz).symm)
      (fun z q hz hq => hclosed z q hz ((run.parentOf_moved hl hz).symm.trans hq)) hp h
  · intro h
    exact Forest.above_of_closed (P := (· ∈ loc.groups)) (fun z hz => run.parentOf_moved hl hz)
      hclosed hp h

/-- Whatever is below a deleted group when groups are removed is exposed. -/
theorem exposed_of_below (hr : SyncValid remote) {d x : GroupId}
    (hd : d ∈ remoteDeletions K base loc remote) (hx : run.added.candidate.Below d x) :
    Exposed K base loc remote x := by
  obtain ⟨k, hk⟩ := hx
  have hinv := run.additionsInv hl
  have hstep : ∀ p c, Exposed K base loc remote p → c ∈ run.added.candidate.childGroups p →
      Exposed K base loc remote c := by
    intro p c hp hc
    rcases hinv.hangs.owned p c hc with hparent | ⟨hadded, hlisted⟩
    · by_cases hloc : c ∈ loc.groups
      · rw [run.parentOf_moved hl hloc, run.parentOf_movedParents hl] at hparent
        exact .moved hp hparent
      · have hmem := mem_groups_of_parentOf hparent
        rw [run.parentOf_new hl hmem hloc] at hparent
        exact .added hp hparent (Or.inr ((run.mem_added hl hmem).resolve_left hloc))
    · have hparent : remote.parentOf c = some p := by simpa using hr.tree.owned p c hlisted
      exact .added hp hparent (Or.inl hadded)
  have hwalk : ∀ k a, Exposed K base loc remote a →
      Forest.Steps (fun p c => c ∈ run.added.candidate.childGroups p) k a x →
      Exposed K base loc remote x := by
    intro k
    induction k with
    | zero =>
      rintro a ha rfl
      exact ha
    | succ k ih =>
      rintro a ha ⟨c, hc, hrest⟩
      exact ih c (hstep a c ha hc) hrest
  exact hwalk k d (.deleted hd) hk

theorem root_added : run.added.candidate.root = loc.root := by
  rw [run.onlyGroups hl]
  exact run.withoutIcons.root

variable (hroot : loc.root ∉ remoteDeletions K base loc remote)
include hroot

/-- An entry below a group that remote deleted is gone. -/
theorem not_mem_removed {e : EntryId} {p d : GroupId} (hhome : loc.homeOf e = some p)
    (hd : d ∈ remoteDeletions K base loc remote)
    (habove : Forest.Above (movedParents base loc remote) d p) :
    e ∉ run.removed.candidate.entries := by
  have hinv := run.additionsInv hl
  rw [← run.above_movedParents hl (hl.tree.home_mem hhome)] at habove
  have hlisted : Listed run.added.candidate d p e := by
    exact ⟨below_of_above hinv.hangs habove,
      hinv.hangs.entryListed e p ((run.homeOf_added hl e).trans hhome)⟩
  have hgone := (removeGroups_listed (K := K) ((run.root_added hl).symm ▸ hroot)
    fun _ => hlisted).2 hd
  rwa [← run.removed_eq] at hgone

variable (hr : SyncValid remote) (hhomes : HomesKept K base loc remote)
include hr hhomes

theorem mem_removed_safe {e : EntryId} (hb' : e ∈ base.entries) (hl' : e ∈ loc.entries)
    (hr' : e ∈ remote.entries) : e ∈ run.removed.candidate.entries := by
  have hinv := run.additionsInv hl
  rw [run.removed_eq]
  refine removeGroups_unlisted ((run.root_added hl).symm ▸ hroot) (Shrinks.refl _) ?_ ?_
  · intro d hd x hx hlisted
    obtain ⟨hloc, hremote⟩ := hhomes e hb' hl' hr' x (run.exposed_of_below hl hr hd hx)
    rcases hinv.hangs.entryOwned x e hlisted with hhome | ⟨hadded, hchild⟩
    · exact hloc ((run.homeOf_added hl e).symm.trans hhome)
    · exact hremote hadded (by simpa using hr.tree.entryOwned x e hchild)
  · obtain ⟨entry, hentry⟩ := mem_iff_exists.mp hl'
    have hhome : run.added.candidate.homeOf e = some entry.parent :=
      (run.homeOf_added hl e).trans (homeOf_eq_some.mpr ⟨entry, hentry, rfl⟩)
    obtain ⟨here, hhere, _⟩ := homeOf_eq_some.mp hhome
    exact mem_iff_exists.mpr ⟨here, hhere⟩

end GroupRun

theorem exists_run (hl : SyncValid loc) (hr : SyncValid remote) (hsafe : MergeSafe K base loc remote) :
    ∃ out, merge K base loc remote { candidate := loc } = .ok out ∧
      Nonempty (Run K base loc remote out) := by
  obtain ⟨run⟩ := exists_groupRun K base remote hl
  obtain ⟨merged, hmerged⟩ := mergeEntries_ok (K := K)
    fun e hb hl' hr' => run.mem_removed_safe hl hsafe.root hr hsafe.homes hb hl' hr'
  suffices h : ∃ out, merge K base loc remote { candidate := loc } = .ok out from
    h.imp fun out hout => ⟨hout, merge_eq_ok hout⟩
  have hmoved := run.moved_eq
  rw [run.settled_eq, settle] at hmoved
  rw [run.removed_eq, run.added_eq] at hmerged
  refine ⟨validateFinalHierarchy (mergeTombstones base loc remote merged), ?_⟩
  simp only [merge, mergeGroups, bind, Except.bind, pure, Except.pure, hmoved, hmerged]

namespace Run
variable {out : MergeState V} (run : Run K base loc remote out) (hb : SyncValid base)
  (hl : SyncValid loc) (hr : SyncValid remote) (hq : Quiet run.merged)
include hb hl hr hq

theorem hasIcon_merged {icon : Option Icon} :
    HasIcon run.merged.candidate icon ↔ IconSurvives base loc remote icon := by
  unfold HasIcon IconSurvives
  refine forall_congr' fun c => imp_congr_right fun _ => ?_
  rw [run.mem_customIcons hb hl hr hq]
  refine and_congr_right fun hc => ?_
  rw [← run.removesIcon_eq hq hc, Bool.not_eq_true]

/-- An icon that both local and remote have survives. -/
theorem hasIcon_shared {icon : Option Icon} (hloc : HasIcon loc icon) (hremote : HasIcon remote icon) :
    HasIcon run.merged.candidate icon :=
  (run.hasIcon_merged hb hl hr hq).mpr fun c hc => ⟨hloc c hc, fun h => h.2 (hremote c hc)⟩

theorem hasIcon_keptIcon {icon : Option Icon} (hloc : HasIcon loc icon) :
    HasIcon run.merged.candidate (keptIcon (removesIcon base loc remote) icon) := by
  intro c hc
  rw [run.mem_customIcons hb hl hr hq]
  match icon with
  | none => simp [keptIcon] at hc
  | some (.builtIn n) => simp [keptIcon] at hc
  | some (.custom c') =>
    by_cases hremoves : removesIcon base loc remote c' = true
    · simp [keptIcon, hremoves] at hc
    · simp only [keptIcon, hremoves, Bool.false_eq_true, if_false, Option.some.injEq,
        Icon.custom.injEq] at hc
      subst hc
      exact ⟨hloc c' rfl, by simpa using hremoves⟩

theorem live_cases {k : Kind} {id : Uuid} (h : LiveAs run.merged.candidate k id) :
    (LiveAs loc k id ∧ LiveAs remote k id) ∨
      ¬ LiveAs base k id ∧ (LiveAs loc k id ∨ LiveAs remote k id) := by
  cases k with
  | entry => exact (run.mem_entries_merged hb hl hr hq).mp h
  | group => exact (run.mem_groups_live hb hl hr hq).mp h
  | icon =>
    obtain ⟨hloc, hkept⟩ := (run.mem_customIcons hb hl hr hq).mp h
    have hnot : ¬ (⟨id⟩ ∈ base.customIcons ∧ ⟨id⟩ ∉ remote.customIcons) := by
      rw [← run.removesIcon_eq hq hloc, hkept]
      simp
    by_cases hbase : (⟨id⟩ : CustomIconId) ∈ base.customIcons
    · exact Or.inl ⟨hloc, by_contra fun hremote => hnot ⟨hbase, hremote⟩⟩
    · exact Or.inr ⟨hbase, Or.inl hloc⟩

omit hb hr in
/-- What is new is not known as deleted. -/
theorem new_not_deleted {k : Kind} {id : Uuid} (hbase : ¬ LiveAs base k id) :
    (LiveAs loc k id → LiveAs remote k id → id ∉ base.deletedObjects) ∧
    (LiveAs loc k id → ¬ LiveAs remote k id → id ∉ remote.deletedObjects) ∧
    (¬ LiveAs loc k id → LiveAs remote k id → id ∉ loc.deletedObjects) := by
  cases k with
  | entry =>
    have hrec := run.entries_reconciled hq ⟨id⟩
    simp only [LiveAs] at hbase ⊢
    refine ⟨fun h h' => ?_, fun h h' => ?_, fun h h' => ?_⟩
    · simpa [isDeleted] using
        (hrec.addedTwice (by simpa using hbase) (by simpa using h) (by simpa using h')).1
    · simpa [isDeleted] using
        hrec.addedLocally (by simpa using hbase) (by simpa using h) (by simpa using h')
    · simpa [isDeleted] using
        hrec.addedRemotely (by simpa using hbase) (by simpa using h) (by simpa using h')
  | group =>
    have hrec := run.groups_reconciled hl hq ⟨id⟩
    simp only [LiveAs] at hbase ⊢
    refine ⟨fun h h' => ?_, fun h h' => ?_, fun h h' => ?_⟩
    · simpa [isDeleted] using
        (hrec.addedTwice (by simpa using hbase) (by simpa using h) (by simpa using h')).1
    · simpa [isDeleted] using
        hrec.addedLocally (by simpa using hbase) (by simpa using h) (by simpa using h')
    · simpa [isDeleted] using
        hrec.addedRemotely (by simpa using hbase) (by simpa using h) (by simpa using h')
  | icon =>
    have hsettled := (run.quiet_passes hq).2.2.2
    rw [run.settled_eq] at hsettled
    obtain ⟨_, _, honly, hnew⟩ := mergeCustomIcons_quiet hsettled
    simp only [LiveAs] at hbase ⊢
    refine ⟨fun h h' => (hnew _ h hbase).1 h', fun h h' => ?_, fun h h' => ?_⟩
    · simpa [isDeleted] using (hnew _ h hbase).2 h'
    · exact absurd (honly _ h' h).1 hbase

/-- Where a group of the result comes from. -/
theorem group_cases {id : GroupId} {g : Group V}
    (hg : run.merged.candidate.groups[id]? = some g) :
    (id ∈ base.groups ∧ id ∈ loc.groups ∧ id ∈ remote.groups) ∨
    (id ∉ base.groups ∧ id ∈ loc.groups) ∨ id ∈ remoteAdditions K base loc remote := by
  rcases run.live_cases hb hl hr hq (k := .group) (mem_iff_exists.mpr ⟨g, hg⟩) with
    ⟨hloc, hremote⟩ | ⟨hbase, hone⟩
  · by_cases hbase : id ∈ base.groups
    · exact Or.inl ⟨hbase, hloc, hremote⟩
    · exact Or.inr (Or.inl ⟨hbase, hloc⟩)
  · by_cases hloc : id ∈ loc.groups
    · exact Or.inr (Or.inl ⟨hbase, hloc⟩)
    · have hremote := hone.resolve_left hloc
      exact Or.inr (Or.inr (mem_remoteAdditions.mpr ⟨hbase, hloc, hremote,
        (run.new_not_deleted hl hq (k := .group) hbase).2.2 hloc hremote⟩))

/-- Where an entry of the result comes from. -/
theorem entry_cases {id : EntryId} {e : Entry V}
    (he : run.merged.candidate.entries[id]? = some e) :
    (id ∈ base.entries ∧ id ∈ loc.entries ∧ id ∈ remote.entries) ∨
    (id ∉ base.entries ∧ ∃ l, loc.entries[id]? = some l ∧
      EntryLeft (removesIcon base loc remote) l e ∧
      (settle K base loc remote).candidate.entries[id]? = some e) ∨
    (id ∉ base.entries ∧ id ∉ loc.entries ∧ remote.entries[id]? = some e) := by
  have hlocal : id ∉ base.entries → id ∈ loc.entries → ∃ l, loc.entries[id]? = some l ∧
      EntryLeft (removesIcon base loc remote) l e ∧
      (settle K base loc remote).candidate.entries[id]? = some e := by
    intro hbase hloc
    obtain ⟨l, hl'⟩ := mem_iff_exists.mp hloc
    obtain ⟨e', he', hleft, hsettled, _⟩ := run.entry_local hb hl hr hq hbase hl'
    obtain rfl := Option.some.inj (he.symm.trans he')
    exact ⟨l, hl', hleft, run.settled_eq ▸ hsettled⟩
  rcases run.live_cases hb hl hr hq (k := .entry) (mem_iff_exists.mpr ⟨e, he⟩) with
    ⟨hloc, hremote⟩ | ⟨hbase, hone⟩
  · by_cases hbase : id ∈ base.entries
    · exact Or.inl ⟨hbase, hloc, hremote⟩
    · exact Or.inr (Or.inl ⟨hbase, hlocal hbase hloc⟩)
  · by_cases hloc : id ∈ loc.entries
    · exact Or.inr (Or.inl ⟨hbase, hlocal hbase hloc⟩)
    · obtain ⟨r, hr'⟩ := mem_iff_exists.mp (hone.resolve_left hloc)
      obtain ⟨hm, _⟩ := run.entry_remote hq hbase hloc hr'
      exact Or.inr (Or.inr ⟨hbase, hloc, hr'.trans (hm.symm.trans he)⟩)

/-- The icon and the history of an entry of all three inputs. -/
theorem entry_three {id : EntryId} {e : Entry V}
    (he : run.merged.candidate.entries[id]? = some e) (hbase : id ∈ base.entries)
    (hloc : id ∈ loc.entries) (hremote : id ∈ remote.entries) :
    HasIcon run.merged.candidate e.icon ∧ e.history = (mergeHistory K base loc remote id).1 := by
  obtain ⟨b, hb'⟩ := mem_iff_exists.mp hbase
  obtain ⟨l, hl'⟩ := mem_iff_exists.mp hloc
  obtain ⟨r, hr'⟩ := mem_iff_exists.mp hremote
  obtain ⟨m, hm, _, hicon, hhistory, _⟩ := run.entry_merged hb hl hr hq hb' hl' hr'
  obtain rfl := Option.some.inj (hm.symm.trans he)
  refine ⟨fun c hc => ?_, hhistory⟩
  rw [(mergeEntries_keeps run.merged_eq).settings.customIcons]
  exact hicon c hc

/-- Whatever a group that remote added lists ends up there. -/
theorem homeOf_late {x : GroupId} {e : EntryId}
    (h : LateEntry remote (remoteAdditions K base loc remote) x e) :
    run.merged.candidate.homeOf e = some x := by
  obtain ⟨hx, he⟩ := h
  obtain ⟨hxb, hxl, _, _⟩ := mem_remoteAdditions.mp hx
  have hhome : remote.homeOf e = some x := by simpa using hr.tree.entryOwned x e he
  obtain ⟨r, hr', hrx⟩ := homeOf_eq_some.mp hhome
  have hrec := run.entries_reconciled hq e
  by_cases hbase : e ∈ base.entries
  · obtain ⟨b, hb'⟩ := mem_iff_exists.mp hbase
    have hbx : b.parent ≠ x := fun h => hxb (hb.tree.home_mem (homeOf_eq_some.mpr ⟨b, hb', h⟩))
    by_cases hloc : e ∈ loc.entries
    · -- Remote moved it here.
      obtain ⟨l, hl'⟩ := mem_iff_exists.mp hloc
      have hlx : l.parent ≠ x := fun h => hxl (hl.tree.home_mem (homeOf_eq_some.mpr ⟨l, hl', h⟩))
      obtain ⟨m, hm, hmerged, _⟩ := run.entry_merged hb hl hr hq hb' hl' hr'
      have hchoice := hmerged.parent
      rw [hrx] at hchoice
      have hstay := (hchoice.decided.resolve_left hlx).resolve_right (Ne.symm hbx)
      exact homeOf_eq_some.mpr ⟨m, hm, hchoice.remoteChange hstay⟩
    · -- It would be as it was in base.
      obtain ⟨_, heq⟩ := hrec.localLost (by simpa using hbase) (by simpa using hloc)
        (by simp [hr'])
      simp only [getElem?_entryIndex, hr', hb', Option.map_some, Option.some.injEq] at heq
      exact absurd ((congrArg EntryState.parent heq).symm.trans hrx) hbx
  · by_cases hloc : e ∈ loc.entries
    · obtain ⟨l, hl'⟩ := mem_iff_exists.mp hloc
      obtain ⟨_, heq⟩ := hrec.addedTwice (by simpa using hbase) (by simpa using hloc)
        (by simp [hr'])
      simp only [getElem?_entryIndex, hr', hl', Option.map_some, Option.some.injEq] at heq
      have hlx := (congrArg EntryState.parent heq).trans hrx
      exact absurd (hl.tree.home_mem (homeOf_eq_some.mpr ⟨l, hl', hlx⟩)) hxl
    · exact homeOf_eq_some.mpr ⟨r, (run.entry_remote hq hbase hloc hr').1, hrx⟩

/-- The result is a tree: all children have arrived where they are listed. -/
theorem isTree_merged : IsTree run.merged.candidate ∧ Tidy run.merged.candidate := by
  obtain ⟨hinv, _⟩ := run.removalInv hb hl hr hq
  have hhome : ∀ e p, run.removed.candidate.homeOf e = some p → loc.homeOf e = some p := by
    intro e p h
    rw [← run.homeOf_added hl]
    exact hinv.homeOf h
  obtain ⟨htree, htidy⟩ := keepsTree_mergeEntries hhome run.merged_eq _ hinv.hangs
    (hinv.tidy ((run.additionsInv hl).tidy hr.tidy (run.groupLoopInv hl).tidy))
  refine ⟨⟨htree.rootMem, htree.rootTop, htree.reach, htree.owned, htree.listed, fun x e he => ?_,
    htree.entryListed⟩, htidy⟩
  exact Or.inl ((htree.entryOwned x e he).elim id (run.homeOf_late hb hl hr hq))

variable (hsafe : MergeSafe K base loc remote)
include hsafe

theorem iconsPresent_safe : IconsPresent run.merged.candidate where
  groups id g hg := by
    rcases run.group_cases hb hl hr hq hg with ⟨hbase, hloc, hremote⟩ | ⟨hbase, hloc⟩ | hadded
    · obtain ⟨b, hb'⟩ := mem_iff_exists.mp hbase
      obtain ⟨l, hl'⟩ := mem_iff_exists.mp hloc
      obtain ⟨r, hr'⟩ := mem_iff_exists.mp hremote
      obtain ⟨m, hm, _, hicon⟩ := run.group_merged hb hl hr hq hb' hl' hr'
      obtain rfl := Option.some.inj (hm.symm.trans hg)
      intro c hc
      rw [(run.settings hb hl hr hq).customIcons]
      exact hicon c hc
    · obtain ⟨l, hl'⟩ := mem_iff_exists.mp hloc
      have hcore := run.group_local hb hl hr hq hbase hl'
      rw [hg, Option.map_some, Option.some.injEq] at hcore
      have hicon := congrArg Group.icon hcore
      simp only [Group.core_icon] at hicon
      rw [hicon]
      exact run.hasIcon_keptIcon hb hl hr hq (hl.icons.groups id l hl')
    · obtain ⟨r, hr'⟩ := mem_iff_exists.mp (mem_remoteAdditions.mp hadded).2.2.1
      have hcore := (run.group_remote hb hl hr hq hadded).2
      rw [hg, hr', Option.map_some, Option.map_some, Option.some.injEq] at hcore
      have hicon := congrArg Group.icon hcore
      simp only [Group.core_icon] at hicon
      rw [hicon]
      exact run.hasIcon_shared hb hl hr hq (hsafe.groupIcons id r hadded hr')
        (hr.icons.groups id r hr')
  entries id e he := by
    rcases run.entry_cases hb hl hr hq he with
      ⟨hbase, hloc, hremote⟩ | ⟨hbase, l, hl', hleft, _⟩ | ⟨hbase, hloc, hr'⟩
    · exact (run.entry_three hb hl hr hq he hbase hloc hremote).1
    · rw [hleft.data]
      exact run.hasIcon_keptIcon hb hl hr hq (hl.icons.entries id l hl')
    · exact (run.entry_remote hq hbase hloc hr').2.2.2.1
  snapshots id e he snapshot hsnapshot := by
    rcases run.entry_cases hb hl hr hq he with
      ⟨hbase, hloc, hremote⟩ | ⟨hbase, l, _, _, hsettled⟩ | ⟨hbase, hloc, hr'⟩
    · rw [(run.entry_three hb hl hr hq he hbase hloc hremote).2] at hsnapshot
      exact (run.hasIcon_merged hb hl hr hq).mpr
        (hsafe.mergedSnapshots id hbase hloc hremote snapshot hsnapshot)
    · exact (run.hasIcon_merged hb hl hr hq).mpr
        (hsafe.localSnapshots id e hbase hsettled snapshot hsnapshot)
    · exact run.hasIcon_shared hb hl hr hq
        (hsafe.remoteSnapshots id e hbase hloc hr' snapshot hsnapshot)
        (hr.icons.snapshots id e hr' snapshot hsnapshot)

/-- No tombstone of any input names a live object. -/
theorem not_deleted_safe {k : Kind} {id : Uuid} (h : LiveAs run.merged.candidate k id) :
    id ∉ base.deletedObjects ∧ id ∉ loc.deletedObjects ∧ id ∉ remote.deletedObjects := by
  rcases run.live_cases hb hl hr hq h with ⟨hloc, hremote⟩ | ⟨hbase, hone⟩
  · refine ⟨?_, hl.identified.notDeleted id k hloc, hr.identified.notDeleted id k hremote⟩
    by_cases hbase : LiveAs base k id
    · exact hb.identified.notDeleted id k hbase
    · exact (run.new_not_deleted hl hq hbase).1 hloc hremote
  · obtain ⟨hboth, honlyLoc, honlyRemote⟩ := run.new_not_deleted hl hq hbase
    by_cases hloc : LiveAs loc k id
    · by_cases hremote : LiveAs remote k id
      · exact ⟨hboth hloc hremote, hl.identified.notDeleted id k hloc,
          hr.identified.notDeleted id k hremote⟩
      · have hdel := honlyLoc hloc hremote
        refine ⟨fun hbaseDel => ?_, hl.identified.notDeleted id k hloc, hdel⟩
        exact (hsafe.recreatedLocally id k hbaseDel hloc).elim hremote hdel
    · have hremote := hone.resolve_left hloc
      have hdel := honlyRemote hloc hremote
      refine ⟨fun hbaseDel => ?_, hdel, hr.identified.notDeleted id k hremote⟩
      exact (hsafe.recreatedRemotely id k hbaseDel hremote).elim hloc hdel

theorem oneKind_safe {k k' : Kind} {id : Uuid} (h : LiveAs run.merged.candidate k id)
    (h' : LiveAs run.merged.candidate k' id) : k = k' := by
  have hside : ∀ {k : Kind}, LiveAs run.merged.candidate k id →
      LiveAs loc k id ∨ LiveAs remote k id := by
    intro k hk
    rcases run.live_cases hb hl hr hq hk with ⟨hloc, _⟩ | ⟨_, hone⟩
    · exact Or.inl hloc
    · exact hone
  rcases hside h with hloc | hremote
  · rcases hside h' with hloc' | hremote'
    · exact hl.identified.oneKind id k k' hloc hloc'
    · exact hsafe.kinds id k k' hloc hremote'
  · rcases hside h' with hloc' | hremote'
    · exact (hsafe.kinds id k' k hloc' hremote).symm
    · exact hr.identified.oneKind id k k' hremote hremote'

/-- A safe merge without a conflict passes the final check. -/
theorem syncValid_safe {deleted : Map Uuid (Option Time)}
    (hdeleted : ∀ id, id ∈ deleted →
      id ∈ base.deletedObjects ∨ id ∈ loc.deletedObjects ∨ id ∈ remote.deletedObjects) :
    SyncValid { run.merged.candidate with deletedObjects := deleted } := by
  obtain ⟨htree, htidy⟩ := run.isTree_merged hb hl hr hq
  have hshape : SameShape run.merged.candidate
      { run.merged.candidate with deletedObjects := deleted } := ⟨rfl, fun _ => rfl, fun _ => rfl⟩
  have hlive : ∀ k id, LiveAs { run.merged.candidate with deletedObjects := deleted } k id →
      LiveAs run.merged.candidate k id := by
    intro k id h
    cases k <;> exact h
  obtain ⟨hgroups, hentries, hsnapshots⟩ := run.iconsPresent_safe hb hl hr hq hsafe
  refine ⟨hshape.hangs htree, hshape.tidy htidy, ⟨hgroups, hentries, hsnapshots⟩, ?_, ?_⟩
  · intro id k k' h h'
    exact run.oneKind_safe hb hl hr hq hsafe (hlive k id h) (hlive k' id h')
  · intro id k h hdel
    obtain ⟨hbase, hloc, hremote⟩ := run.not_deleted_safe hb hl hr hq hsafe (hlive k id h)
    rcases hdeleted id hdel with h | h | h
    · exact hbase h
    · exact hloc h
    · exact hremote h

end Run

end Safe

/-! ## A merge that ends with a document was safe -/

section Necessary
variable [DecidableEq V] {K : Keepass V} {base loc remote : Database V}

namespace Run
variable {out : MergeState V} (run : Run K base loc remote out) (hb : SyncValid base)
  (hl : SyncValid loc) (hr : SyncValid remote) (hq : Quiet run.merged)
include hb hl hr hq

/-- Without a conflict only groups that remote deleted are exposed. -/
theorem mem_deletions_of_exposed {x : GroupId} (hx : Exposed K base loc remote x) :
    x ∈ remoteDeletions K base loc remote := by
  induction hx with
  | deleted h => exact h
  | moved _ hc ih =>
    rename_i p c _
    rw [← run.parentOf_movedParents hl] at hc
    have hloc := (run.mem_groups_moved hl).mp (mem_groups_of_parentOf hc)
    exact run.mem_deletions_of_parentOf hb hl hr hq ((run.parentOf_moved hl hloc).trans hc) ih
  | added _ hc _ ih => exact absurd (hr.tree.parent_mem hc) (mem_remoteDeletions.mp ih).2.2.1

variable {deleted : Map Uuid (Option Time)}
  (hvalid : SyncValid { run.merged.candidate with deletedObjects := deleted })
include hvalid

theorem mergeSafe {m : Database V} (hend : Concludes base loc remote run.merged.candidate m)
    (hids : Identified m) : MergeSafe K base loc remote := by
  -- The icons and tombstones of the candidate are those of the result.
  have hsurvives : ∀ icon, HasIcon run.merged.candidate icon → IconSurvives base loc remote icon :=
    fun icon => (run.hasIcon_merged hb hl hr hq).mp
  have hdeleted : ∀ id, id ∈ base.deletedObjects → id ∈ m.deletedObjects := by
    intro id hid
    have h := hend.deletedObjects id
    rw [if_pos (Or.inl hid)] at h
    exact mem_iff_exists.mpr ⟨_, h⟩
  refine ⟨?_, ?_, fun id k k' hk hk' => run.kinds hb hl hr hq hend hids hk hk',
    ?_, ?_, ?_, ?_, ?_, ?_⟩
  · intro e hbase hloc hremote p hp
    have hdel := run.mem_deletions_of_exposed hb hl hr hq hp
    refine ⟨fun hhome => ?_, fun hadded => ?_⟩
    · have hspared := mergeEntries_spared run.merged_eq hbase hloc hremote
      obtain ⟨p', hp', hnot⟩ := (run.mem_entries_removed hb hl hr hq).mp hspared
      obtain rfl := Option.some.inj (hhome.symm.trans hp')
      exact hnot hdel
    · exact absurd (mem_remoteDeletions.mp hdel).1 (mem_remoteAdditions.mp hadded).2.1
  · obtain ⟨hlb, hrb⟩ := run.roots hq
    rw [hlb, ← hrb]
    exact fun h => (mem_remoteDeletions.mp h).2.2.1 hr.tree.rootMem
  · intro id k hbase hloc
    by_contra hnot
    rw [not_or] at hnot
    exact hids.notDeleted id k (run.liveAs_local hb hl hr hq hend hloc hnot.1 hnot.2)
      (hdeleted id hbase)
  · intro id k hbase hremote
    by_contra hnot
    rw [not_or] at hnot
    exact hids.notDeleted id k (run.liveAs_remote hb hl hr hq hend hremote hnot.1 hnot.2)
      (hdeleted id hbase)
  · intro id g hadded hg c hc
    have hcore := (run.group_remote hb hl hr hq hadded).2
    rw [hg, Option.map_some, Option.map_eq_some_iff] at hcore
    obtain ⟨g', hg', hcore⟩ := hcore
    have hicon := hvalid.icons.groups id g' hg'
    rw [← Group.core_icon, hcore, Group.core_icon] at hicon
    exact (hsurvives g.icon hicon c hc).1
  · intro id hbase hloc hremote snapshot hsnapshot
    have hmem : id ∈ run.merged.candidate.entries :=
      (run.mem_entries_merged hb hl hr hq).mpr (Or.inl ⟨hloc, hremote⟩)
    obtain ⟨e, he⟩ := mem_iff_exists.mp hmem
    rw [← (run.entry_three hb hl hr hq he hbase hloc hremote).2] at hsnapshot
    exact hsurvives snapshot.icon (hvalid.icons.snapshots id e he snapshot hsnapshot)
  · intro id e hbase hsettled snapshot hsnapshot
    rw [← run.settled_eq] at hsettled
    obtain ⟨l, hl'⟩ : ∃ l, loc.entries[id]? = some l := by
      have hleft := run.withoutIcons.entries id
      rw [hsettled] at hleft
      generalize loc.entries[id]? = before at hleft ⊢
      cases hleft with
      | some _ => exact ⟨_, rfl⟩
    obtain ⟨e', he', _, hsettled', _⟩ := run.entry_local hb hl hr hq hbase hl'
    obtain rfl := Option.some.inj (hsettled.symm.trans hsettled')
    exact hsurvives snapshot.icon (hvalid.icons.snapshots id e he' snapshot hsnapshot)
  · intro id r hbase hloc hr' snapshot hsnapshot c hc
    obtain ⟨he, _⟩ := run.entry_remote hq hbase hloc hr'
    exact (hsurvives snapshot.icon (hvalid.icons.snapshots id r he snapshot hsnapshot) c hc).1

end Run

end Necessary

/-! ## Totality -/

section Total
variable [DecidableEq V] {K : Keepass V} {base loc remote : KdbxDocument V}

/-- A safe merge ends with a document or with conflicts. -/
theorem mergeDivergent_ok (hversion : base.version = .kdbx4 1)
    (hlocVersion : loc.version = .kdbx4 1) (hremoteVersion : remote.version = .kdbx4 1)
    (hb : SyncValid base.database) (hl : SyncValid loc.database) (hr : SyncValid remote.database)
    (hsafe : MergeSafe K base.database loc.database remote.database) :
    ∃ outcome, mergeDivergent K base loc remote = .ok outcome := by
  obtain ⟨out, hout, ⟨run⟩⟩ := exists_run hl hr hsafe
  unfold mergeDivergent
  rw [if_neg (by simp [hversion, hlocVersion, hremoteVersion]), hout]
  simp only [bind, Except.bind]
  unfold intoOutcome
  by_cases hquiet : out.conflicts = []
  · obtain ⟨deleted, hcandidate, hdeleted⟩ := mergeTombstones_candidate base.database loc.database
      remote.database run.merged
    obtain ⟨conflicts, hreport⟩ := validateFinalHierarchy_report
      (mergeTombstones base.database loc.database remote.database run.merged)
    have hout : out.candidate = { run.merged.candidate with deletedObjects := deleted } :=
      ((congrArg MergeState.candidate (run.out_eq.trans hreport)).trans candidate_report).trans
        hcandidate
    have hq := run.quiet_merged hquiet
    have hloc : run.merged.candidate.deletedObjects = loc.database.deletedObjects :=
      (run.settings hb hl hr hq).deletedObjects.trans run.withoutIcons.deletedObjects
    have hvalid : databaseValidForSync out.candidate = true := by
      rw [hout, databaseValidForSync_iff]
      refine run.syncValid_safe hb hl hr hq hsafe fun id hid => ?_
      by_contra hunknown
      obtain ⟨time, htime⟩ := mem_iff_exists.mp hid
      rw [hdeleted, if_neg hunknown, hloc] at htime
      exact hunknown (Or.inr (Or.inl (mem_iff_exists.mpr ⟨time, htime⟩)))
    rw [if_neg (not_not.mpr hquiet), if_pos hvalid]
    exact ⟨_, rfl⟩
  · rw [if_pos hquiet]
    exact ⟨_, rfl⟩

/-- An entry that goes with a deleted group makes the merge fail. -/
theorem mergeDivergent_not_ok (hl : SyncValid loc.database)
    (hroot : loc.database.root ∉
      remoteDeletions K base.database loc.database remote.database)
    (hlost : HomeLost K base.database loc.database remote.database) :
    mergeDivergent K base loc remote = .error .syncInvariant := by
  cases hresult : mergeDivergent K base loc remote with
  | error e =>
    cases e
    rfl
  | ok outcome =>
    exfalso
    unfold mergeDivergent at hresult
    split at hresult
    · cases hresult
    simp only [bind, Except.bind] at hresult
    split at hresult
    · cases hresult
    case h_2 st hrun =>
    obtain ⟨run⟩ := merge_eq_ok hrun
    obtain ⟨e, p, hbase, hhome, hremote, d, hd, habove⟩ := hlost
    obtain ⟨entry, hentry, _⟩ := homeOf_eq_some.mp hhome
    exact run.not_mem_removed hl hroot hhome hd habove
      (mergeEntries_spared run.merged_eq hbase (mem_iff_exists.mpr ⟨entry, hentry⟩) hremote)

end Total

/-- One entry in a group, another one below the root. -/
def folderVault : Database Unit where
  config := ()
  root := ⟨1⟩
  groups := mapOf [(⟨1⟩, { name := "Root", groups := [⟨2⟩], entries := [⟨11⟩] }),
    (⟨2⟩, { name := "Mail", parent := some ⟨1⟩, entries := [⟨10⟩] })]
  entries := mapOf [(⟨10⟩, { parent := ⟨2⟩ }), (⟨11⟩, { parent := ⟨1⟩ })]

/-- Local tags the entry below the root. -/
def tagged : Database Unit := folderVault.editEntry ⟨11⟩ fun entry => { entry with tags := ["new"] }

/-- Remote moves the other entry out of the group and deletes the group. -/
def emptied : Database Unit :=
  { (folderVault.relocateEntry ⟨10⟩ ⟨1⟩).eraseGroup ⟨2⟩ with deletedObjects := mapOf [(2, none)] }

set_option maxRecDepth 100000 in
/-- Nothing is deleted, no UUID is used twice, and there are no snapshots. -/
theorem mergeSafe_nested : MergeSafe reference smallVault retitled nested := by
  have hdeletions : remoteDeletions reference smallVault retitled nested = [] := by
    decide +kernel
  have hexposed : ∀ p, ¬ Exposed reference smallVault retitled nested p := by
    intro p hp
    induction hp with
    | deleted h => simp [hdeletions] at h
    | moved _ _ ih => exact ih
    | added _ _ _ ih => exact ih
  have hbare : ∀ db ∈ [nested, (settle reference smallVault retitled nested).candidate],
      ∀ x ∈ db.entries.toList, x.2.history.getD [] = [] := by decide +kernel
  have hsnapshots : ∀ db ∈ [nested, (settle reference smallVault retitled nested).candidate],
      ∀ (id : EntryId) (entry : Entry Unit), db.entries[id]? = some entry →
        entry.history.getD [] = [] := fun db hdb id entry h =>
    hbare db hdb (id, entry) (Std.ExtTreeMap.mem_toList_iff_getElem?_eq_some.mpr h)
  refine ⟨fun _ _ _ _ p hp => absurd hp (hexposed p), by simp [hdeletions], ?_, ?_, ?_, ?_, ?_,
    ?_, ?_⟩
  · have hentries : ∀ id ∈ nested.entries.keys, (⟨id.uuid⟩ : GroupId) ∉ retitled.groups ∧
        (⟨id.uuid⟩ : CustomIconId) ∉ retitled.customIcons := by decide +kernel
    have hgroups : ∀ id ∈ nested.groups.keys, (⟨id.uuid⟩ : EntryId) ∉ retitled.entries ∧
        (⟨id.uuid⟩ : CustomIconId) ∉ retitled.customIcons := by decide +kernel
    have hicons : ∀ id ∈ nested.customIcons.keys, (⟨id.uuid⟩ : EntryId) ∉ retitled.entries ∧
        (⟨id.uuid⟩ : GroupId) ∉ retitled.groups := by decide +kernel
    intro id k k' hk hk'
    cases k' with
    | entry =>
      obtain ⟨hgroup, hicon⟩ := hentries ⟨id⟩ (Std.ExtTreeMap.mem_keys.mpr hk')
      cases k with
      | entry => rfl
      | group => exact absurd hk hgroup
      | icon => exact absurd hk hicon
    | group =>
      obtain ⟨hentry, hicon⟩ := hgroups ⟨id⟩ (Std.ExtTreeMap.mem_keys.mpr hk')
      cases k with
      | entry => exact absurd hk hentry
      | group => rfl
      | icon => exact absurd hk hicon
    | icon =>
      obtain ⟨hentry, hgroup⟩ := hicons ⟨id⟩ (Std.ExtTreeMap.mem_keys.mpr hk')
      cases k with
      | entry => exact absurd hk hentry
      | group => exact absurd hk hgroup
      | icon => rfl
  · exact fun id k hid => absurd hid Std.ExtTreeMap.not_mem_empty
  · exact fun id k hid => absurd hid Std.ExtTreeMap.not_mem_empty
  · have hicons : ∀ x ∈ nested.groups.toList, x.2.icon = none := by decide +kernel
    intro id g _ hg c hc
    rw [hicons (id, g) (Std.ExtTreeMap.mem_toList_iff_getElem?_eq_some.mpr hg)] at hc
    cases hc
  · have hmerged : ∀ id ∈ smallVault.entries.keys,
        (mergeHistory reference smallVault retitled nested id).1.getD [] = [] := by decide +kernel
    intro id hbase _ _ snapshot hsnapshot
    simp [hmerged id (Std.ExtTreeMap.mem_keys.mpr hbase)] at hsnapshot
  · intro id entry _ h snapshot hsnapshot
    simp [hsnapshots _ (by simp) id entry h] at hsnapshot
  · intro id entry _ _ h snapshot hsnapshot
    simp [hsnapshots _ (by simp) id entry h] at hsnapshot

end NianPass.Kdbx
