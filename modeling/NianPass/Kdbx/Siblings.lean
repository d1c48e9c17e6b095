import NianPass.Kdbx.Outcome
import NianPass.Lib.Precedence

/-
  The order of siblings after a merge.

  The candidate starts as a copy of local, and no pass sorts a child list: a
  pass takes children out, or appends one. So the children a group has in both
  local and the merged document stand first, in local's order, and whoever came
  from remote stands behind them in the order in which the loops visited the
  identifiers, which is ascending.

  A reorder by remote is therefore lost unless local made it too, and that is
  what `remoteReorderWouldBeLost` reports. It compares the orders of shared
  children only, so additions, removals and moves do not set it off.
-/
namespace NianPass.Kdbx

open Precedence

variable {V : Type}

/-! ## The test for a lost reorder -/

section Order
variable {α : Type} [DecidableEq α] {base loc remote : List α} {a b : α}

theorem mem_relativeOrder {order keep : List α} :
    a ∈ relativeOrder order keep ↔ a ∈ order ∧ a ∈ keep := by
  simp [relativeOrder]

/-- Restricting a list keeps its order. -/
theorem precedes_relativeOrder {order keep : List α} (h : order.Nodup)
    (ha : a ∈ relativeOrder order keep) (hb : b ∈ relativeOrder order keep) (hne : a ≠ b) :
    Precedes (relativeOrder order keep) a b ↔ Precedes order a b :=
  precedes_sublist List.filter_sublist h ha hb hne

/-- The branch keeps the order of the children it shares with base. -/
def KeepsOrder (base branch : List α) : Prop :=
  ∀ a b, a ∈ base → a ∈ branch → b ∈ base → b ∈ branch →
    (Precedes branch a b ↔ Precedes base a b)

theorem orderChangedRelativeToBase_iff (hb : base.Nodup) (hr : remote.Nodup) :
    orderChangedRelativeToBase base remote = false ↔ KeepsOrder base remote := by
  have hshared : ∀ x, x ∈ relativeOrder remote base ↔ x ∈ relativeOrder base remote := by
    intro x
    rw [mem_relativeOrder, mem_relativeOrder, and_comm]
  unfold orderChangedRelativeToBase
  rw [decide_eq_false_iff_not, not_not]
  constructor
  · intro heq x y hxb hxr hyb hyr
    by_cases hxy : x = y
    · subst hxy
      have hself : ∀ {l : List α}, l.Nodup → ¬ Precedes l x x := fun hl h =>
        precedes_asymm hl h h
      exact iff_of_false (hself hr) (hself hb)
    · have hx := mem_relativeOrder.mpr ⟨hxr, hxb⟩
      have hy := mem_relativeOrder.mpr ⟨hyr, hyb⟩
      rw [← precedes_relativeOrder hr hx hy hxy, heq,
        precedes_relativeOrder hb ((hshared x).mp hx) ((hshared y).mp hy) hxy]
  · intro hkeeps
    refine eq_of_precedes (hr.filter _) (hb.filter _) hshared fun x hx y hy hxy hprec => ?_
    have hprec := (precedes_relativeOrder hr hx hy hxy).mp hprec
    obtain ⟨hxr, hxb⟩ := mem_relativeOrder.mp hx
    obtain ⟨hyr, hyb⟩ := mem_relativeOrder.mp hy
    exact (precedes_relativeOrder hb ((hshared x).mp hx) ((hshared y).mp hy) hxy).mpr
      ((hkeeps x y hxb hxr hyb hyr).mp hprec)

/-- Changes of membership alone lose nothing. -/
theorem remoteReorderWouldBeLost_of_keepsOrder (loc : List α) (hb : base.Nodup)
    (hr : remote.Nodup) (h : KeepsOrder base remote) :
    remoteReorderWouldBeLost base loc remote = false := by
  have hsame := (orderChangedRelativeToBase_iff hb hr).mpr h
  simp [remoteReorderWouldBeLost, hsame]

/-- Where remote reordered two children and nothing is lost, local has them in the same order. -/
theorem precedes_of_not_lost (hb : base.Nodup) (hl : loc.Nodup) (hr : remote.Nodup)
    (h : remoteReorderWouldBeLost base loc remote = false)
    (ha : a ∈ base ∧ a ∈ loc ∧ a ∈ remote) (hb' : b ∈ base ∧ b ∈ loc ∧ b ∈ remote) (hne : a ≠ b)
    (hchanged : ¬ (Precedes remote a b ↔ Precedes base a b)) :
    Precedes loc a b ↔ Precedes remote a b := by
  unfold remoteReorderWouldBeLost at h
  split at h
  · case isTrue hkept =>
    rw [Bool.not_eq_true', orderChangedRelativeToBase_iff hb hr] at hkept
    exact absurd (hkept a b ha.1 ha.2.2 hb'.1 hb'.2.2) hchanged
  · simp only [Bool.or_eq_false_iff, decide_eq_false_iff_not, not_not] at h
    have hmem : ∀ {x}, x ∈ base ∧ x ∈ loc ∧ x ∈ remote →
        x ∈ base.filter fun id => id ∈ loc ∧ id ∈ remote := fun hx =>
      List.mem_filter.mpr ⟨hx.1, decide_eq_true hx.2⟩
    have hall : ∀ {order : List α} {x}, x ∈ order → x ∈ base ∧ x ∈ loc ∧ x ∈ remote →
        x ∈ relativeOrder order (base.filter fun id => id ∈ loc ∧ id ∈ remote) := fun ho hx =>
      mem_relativeOrder.mpr ⟨ho, hmem hx⟩
    rw [← precedes_relativeOrder hl (hall ha.2.1 ha) (hall hb'.2.1 hb') hne, h.2,
      precedes_relativeOrder hr (hall ha.2.2 ha) (hall hb'.2.2 hb') hne]

end Order

/-! ## The order of the keys -/

/-- Ascending UUID order. -/
def Ascending {k : Kind} (ids : List (ObjectId k)) : Prop :=
  ids.Pairwise fun a b => a.uuid < b.uuid

theorem Ascending.sublist {k : Kind} {ids out : List (ObjectId k)} (h : Ascending ids)
    (hout : out.Sublist ids) : Ascending out := List.Pairwise.sublist hout h

theorem ascending_allKeys3 {k : Kind} {ν : Type} (base loc remote : Map (ObjectId k) ν) :
    Ascending (allKeys3 base loc remote) := by
  refine List.Pairwise.imp (fun {a b} h => ?_) Std.ExtTreeSet.ordered_toList
  exact compareOfLessAndEq_eq_lt.mp h

/-! ## One round of each pass -/

section Rounds
variable [DecidableEq V] {K : Keepass V} {base loc remote : Database V} {st st' : MergeState V}

/-- The first loop over groups appends a group only to a list it is not on. -/
theorem mergeGroup_grows {id : GroupId} (hl : IsTree loc)
    (hmem : ∀ x, x ∈ st.candidate.groups ↔ x ∈ loc.groups)
    (h : mergeGroup K base loc remote st id = .ok st') (g : GroupId) :
    (st'.candidate.childGroups g).Sublist (st.candidate.childGroups g ++
      [id].filter fun c => decide (c ∈ loc.groups ∧ c ∉ loc.childGroups g)) := by
  obtain ⟨mid, hedit, ⟨hstay, _⟩ | ⟨t, ht, hcan, hmove⟩⟩ := mergeGroup_moves hmem h
  · rw [hstay.shape.childGroups, hedit.shape.childGroups]
    exact List.sublist_append_left _ _
  · have hknown : id ∈ loc.groups := groupMove_mem (by rw [ht]; exact Option.some_ne_none t)
    have htarget : t ∈ mid.groups := hedit.shape.mem_groups.mpr hcan.1
    rw [hmove.shape.childGroups, childGroups_relocateGroup htarget, hedit.shape.childGroups]
    refine moveChild_sublist.trans (List.Sublist.append_left ?_ _)
    split
    · case isTrue hg =>
      -- Whoever local has below `g` already does not move there.
      have hnot : id ∉ loc.childGroups g := by
        intro hlisted
        have hparent : loc.parentOf id = some g := (hl.owned g id hlisted).resolve_right not_false
        unfold groupMove at ht
        split at ht
        · dsimp only at ht
          split at ht
          · cases ht
          · case isFalse hne => exact hne (ht.trans (hg ▸ hparent.symm))
        · cases ht
      simp [hknown, hnot]
    · exact List.nil_sublist _

omit [DecidableEq V] in
/-- An entry that local does not have below `p` may be appended there. -/
theorem appended_sublist {id : EntryId} {p : GroupId} (hl : IsTree loc)
    (hp : loc.homeOf id ≠ some p) (g : GroupId) :
    (if g = p then [id] else []).Sublist
      ([id].filter fun e => decide (e ∉ loc.childEntries g)) := by
  split
  · case isTrue hg =>
    have hnot : id ∉ loc.childEntries g := fun hlisted => hp (hg ▸ hl.homeOf_iff.mp hlisted)
    simp [hnot]
  · exact List.nil_sublist _

omit [DecidableEq V] in
theorem moveEntry_grows {id : EntryId} {parent locParent : GroupId} {time : Option Time}
    (hl : IsTree loc) (hhome : loc.homeOf id = some locParent) (hid : id ∈ st.candidate.entries)
    (h : moveEntry K id parent locParent time st = .ok st') (g : GroupId) :
    (st'.candidate.childEntries g).Sublist (st.candidate.childEntries g ++
      [id].filter fun e => decide (e ∉ loc.childEntries g)) := by
  rcases moveEntry_cases hid h with ⟨_, rfl⟩ | ⟨kind, rfl⟩ | ⟨hparent, hne, rfl⟩
  · exact List.sublist_append_left _ _
  · exact List.sublist_append_left _ _
  · show ((st.candidate.relocateEntry id parent).childEntries g).Sublist _
    rw [childEntries_relocateEntry hparent]
    refine moveChild_sublist.trans (List.Sublist.append_left (appended_sublist hl ?_ g) _)
    rw [hhome]
    exact fun heq => hne (Option.some.inj heq).symm

omit [DecidableEq V] in
theorem removeEntry_shrinks {id : EntryId} (hid : id ∈ st.candidate.entries) (g : GroupId) :
    ((K.removeEntry st.candidate id).childEntries g).Sublist (st.candidate.childEntries g) := by
  obtain ⟨table, heq⟩ := K.removeEntry_eq st.candidate id hid
  rw [heq]
  show ((st.candidate.eraseEntry id).childEntries g).Sublist _
  rw [childEntries_eraseEntry]
  split
  · exact List.filter_sublist
  · exact List.Sublist.refl _

/-- The pass over entries appends an entry only to a list it is not on in local. -/
theorem mergeEntry_grows {id : EntryId} (hl : IsTree loc)
    (h : mergeEntry K base loc remote st id = .ok st') (g : GroupId) :
    (st'.candidate.childEntries g).Sublist (st.candidate.childEntries g ++
      [id].filter fun e => decide (e ∉ loc.childEntries g)) := by
  unfold mergeEntry at h
  split at h
  · case h_1 b l r hclass =>
    obtain ⟨_, hstate, _⟩ := classify_existing.mp hclass
    rw [getElem?_entryIndex, Option.map_eq_some_iff] at hstate
    obtain ⟨entry, hentry, rfl⟩ := hstate
    have hhome : loc.homeOf id = some entry.parent := homeOf_eq_some.mpr ⟨entry, hentry, rfl⟩
    obtain ⟨hid, mid, hmove, hmid, hlast⟩ := mergeExistingEntry_cases h
    have hattached : st'.candidate.childEntries g = mid.candidate.childEntries g := by
      rcases hlast with ⟨_, rfl⟩ | ⟨_, rfl⟩
      · rfl
      · exact (replaceAttachments_sets hmid _).shape.childEntries g
    have hmoved := moveEntry_grows hl hhome (writeEntry_mem (by simpa using hid)) hmove g
    rw [hattached]
    unfold Database.childEntries at hmoved ⊢
    rwa [groups_writeEntry, candidate_report] at hmoved
  · cases h
    split
    · case isTrue hid => exact (removeEntry_shrinks hid g).trans (List.sublist_append_left _ _)
    · exact List.sublist_append_left _ _
  · case h_3 r hclass =>
    cases h
    have hnew : loc.entries[id]? = none := by simpa using (classify_add.mp hclass).2.1
    rcases addRemoteEntry_cases K remote id r st with ⟨kind, heq⟩ | ⟨_, _, _, hparent, _, heq⟩
    · rw [heq]
      exact List.sublist_append_left _ _
    · rw [heq, candidate_edit, childEntries_insertEntry hparent]
      have happended := appended_sublist (p := r.parent) hl
        (show loc.homeOf id ≠ some r.parent by simp [Database.homeOf, hnew]) g
      refine List.Sublist.trans ?_ (happended.append_left _)
      split
      · exact insertChild_sublist
      · exact List.sublist_append_left _ _
  · cases h
    exact List.sublist_append_left _ _
  · cases h
    exact List.sublist_append_left _ _

omit [DecidableEq V] in
/-- One sweep over the pending groups: what is added below `g` is appended there, and nothing
that belongs below `g` is left pending. -/
theorem sweep_grows {g : GroupId} {pending : List GroupId}
    (hpending : ∀ x ∈ pending, x ∈ remote.groups) (acc : MergeState V × List GroupId)
    (hg : g ∈ acc.1.candidate.groups) (hleft : ∀ x ∈ acc.2, remote.parentOf x ≠ some g) :
    let done := pending.foldl (addRemoteGroup K remote) acc
    g ∈ done.1.candidate.groups ∧ (∀ x ∈ done.2, remote.parentOf x ≠ some g) ∧
    done.1.candidate.childEntries g = acc.1.candidate.childEntries g ∧
    (done.1.candidate.childGroups g).Sublist (acc.1.candidate.childGroups g ++
      pending.filter fun x => decide (remote.parentOf x = some g)) := by
  induction pending generalizing acc with
  | nil => exact ⟨hg, hleft, rfl, List.sublist_append_left _ _⟩
  | cons id rest ih =>
    obtain ⟨source, hsource⟩ := mem_iff_exists.mp (hpending id List.mem_cons_self)
    have hparentOf : remote.parentOf id = source.parent := by
      simp [Database.parentOf, hsource]
    have hrest := ih (fun x hx => hpending x (List.mem_cons_of_mem id hx))
    have hskip : (rest.filter fun x => decide (remote.parentOf x = some g)).Sublist
        ((id :: rest).filter fun x => decide (remote.parentOf x = some g)) :=
      (List.sublist_cons_self id rest).filter _
    rw [List.foldl_cons]
    rcases addRemoteGroup_cases (K := K) acc hsource with
      ⟨p, hp, hmissing, heq⟩ | ⟨kind, heq⟩ | ⟨p, hp, hpmem, hnew, heq⟩
    · rw [heq]
      obtain ⟨hmem, hkept, hentries, hgroups⟩ := hrest (acc.1, acc.2 ++ [id]) hg (by
        intro x hx
        rcases List.mem_append.mp hx with hx | hx
        · exact hleft x hx
        · -- The parent it waits for is not there, and `g` is.
          obtain rfl := List.mem_singleton.mp hx
          rw [hparentOf, hp]
          rintro heq
          exact hmissing (Option.some.inj heq ▸ hg))
      exact ⟨hmem, hkept, hentries, hgroups.trans (hskip.append_left _)⟩
    · rw [heq]
      obtain ⟨hmem, hkept, hentries, hgroups⟩ :=
        hrest (acc.1.report [groupConflict id kind], acc.2) hg hleft
      exact ⟨hmem, hkept, hentries, hgroups.trans (hskip.append_left _)⟩
    · rw [heq]
      have hne : p ≠ id := fun h => hnew (h ▸ hpmem)
      have hgne : g ≠ id := fun h => hnew (h ▸ hg)
      obtain ⟨hmem, hkept, hentries, hgroups⟩ := hrest
        ({ acc.1 with candidate := acc.1.candidate.insertGroup p id source }, acc.2)
        (mem_groups_insertGroup.mpr (Or.inr hg)) hleft
      refine ⟨hmem, hkept, hentries.trans ?_, hgroups.trans ?_⟩
      · exact (childEntries_insertGroup hne g).trans (if_neg hgne)
      · show List.Sublist ((acc.1.candidate.insertGroup p id source).childGroups g ++ _) _
        rw [childGroups_insertGroup hne hpmem, if_neg hgne, List.filter_cons, hparentOf, hp]
        by_cases hgp : g = p
        · subst hgp
          have hsub : List.Sublist (insertChild id (acc.1.candidate.childGroups g))
              (acc.1.candidate.childGroups g ++ [id]) := insertChild_sublist
          simpa using hsub.append_right _
        · simp [hgp, Ne.symm hgp]

omit [DecidableEq V] in
theorem addRemoteGroups_grows {g : GroupId} {fuel : Nat} {pending : List GroupId}
    (hpending : ∀ x ∈ pending, x ∈ remote.groups) (hg : g ∈ st.candidate.groups) :
    let done := addRemoteGroups K remote fuel pending st
    done.candidate.childEntries g = st.candidate.childEntries g ∧
    (done.candidate.childGroups g).Sublist (st.candidate.childGroups g ++
      pending.filter fun x => decide (remote.parentOf x = some g)) := by
  induction fuel generalizing pending st with
  | zero => exact ⟨rfl, List.sublist_append_left _ _⟩
  | succ fuel ih =>
    unfold addRemoteGroups
    split
    · exact ⟨rfl, List.sublist_append_left _ _⟩
    · obtain ⟨hmem, hkept, hentries, hgroups⟩ :=
        sweep_grows (K := K) hpending (st, []) hg (by simp)
      obtain ⟨kept, heq, hsub⟩ := sweep_pending (K := K) hpending (fun x hx => hx) (st, [])
      dsimp only
      split
      · exact ⟨hentries, hgroups⟩
      · -- What is still pending goes below other groups.
        have hnone : (pending.foldl (addRemoteGroup K remote) (st, [])).2.filter
            (fun x => decide (remote.parentOf x = some g)) = [] := by
          rw [List.filter_eq_nil_iff]
          intro x hx
          simpa using hkept x hx
        have hstill : ∀ x ∈ (pending.foldl (addRemoteGroup K remote) (st, [])).2,
            x ∈ remote.groups := by
          intro x hx
          rw [heq, List.nil_append] at hx
          exact hpending x (hsub.subset hx)
        obtain ⟨hentries', hgroups'⟩ := ih hstill hmem
        rw [hnone, List.append_nil] at hgroups'
        exact ⟨hentries'.trans hentries, hgroups'.trans hgroups⟩

omit [DecidableEq V] in
theorem removeGroups_shrinks {done : List GroupId} (hroot : st.candidate.root ∉ done)
    (g : GroupId) :
    ((removeGroups K done st).candidate.childGroups g).Sublist (st.candidate.childGroups g) := by
  induction done generalizing st with
  | nil => exact List.Sublist.refl _
  | cons id rest ih =>
    obtain ⟨hne, hrest⟩ := not_or.mp (mt List.mem_cons.mpr hroot)
    rw [show removeGroups K (id :: rest) st = removeGroups K rest
      (if id ∈ st.candidate.groups then st.edit (K.removeGroup · id) else st) from rfl]
    split
    · case isTrue hid =>
      have hw := K.removeGroup_spec st.candidate id hid (Ne.symm hne)
      have hroot' : (st.edit (K.removeGroup · id)).candidate.root ∉ rest := hw.root ▸ hrest
      refine (ih hroot').trans ?_
      show ((K.removeGroup st.candidate id).childGroups g).Sublist _
      unfold Database.childGroups
      by_cases hbelow : st.candidate.Below id g
      · rw [hw.gone g hbelow]
        exact List.nil_sublist _
      · rw [hw.kept g hbelow]
        cases st.candidate.groups[g]? with
        | none => exact List.Sublist.refl _
        | some group =>
          show (if _ then group.groups.filter _ else group.groups).Sublist group.groups
          split
          · exact List.filter_sublist
          · exact List.Sublist.refl _
    · exact ih hrest

end Rounds

/-! ## The child lists after a run -/

section Run
variable [DecidableEq V] {K : Keepass V} {base loc remote : Database V} {out : MergeState V}
  (run : Run K base loc remote out) (hb : SyncValid base) (hl : SyncValid loc)
  (hr : SyncValid remote) (hq : Quiet run.merged)
include run hb hl hr hq

omit hb hr hq in
theorem Run.added_grows {g : GroupId} (hgl : g ∈ loc.groups) :
    run.added.candidate.childEntries g = run.moved.candidate.childEntries g ∧
    (run.added.candidate.childGroups g).Sublist (run.moved.candidate.childGroups g ++
      (remoteAdditions K base loc remote).filter fun c => decide (remote.parentOf c = some g)) := by
  have hmoved : g ∈ run.moved.candidate.groups := (run.mem_groups_moved hl).mpr hgl
  have hknown : ∀ x ∈ remoteAdditions K base loc remote, x ∈ remote.groups :=
    fun x hx => (mem_remoteAdditions.mp hx).2.2.1
  rw [run.added_eq]
  exact addRemoteGroups_grows hknown hmoved

/-- The child entries of a group that local and the merged candidate share. -/
theorem Run.childEntries_grows {g : GroupId} (hgl : g ∈ loc.groups)
    (hg : g ∈ run.merged.candidate.groups) :
    (run.merged.candidate.childEntries g).Sublist (loc.childEntries g ++
      (allKeys3 base.entries loc.entries remote.entries).filter
        fun e => decide (e ∉ loc.childEntries g)) := by
  have hentries := foldlM_grows (fun st : MergeState V => st.candidate.childEntries g)
    (fun e => decide (e ∉ loc.childEntries g)) (fun _ => True) (fun _ _ _ _ _ _ => trivial)
    (fun _ _ _ _ _ h => mergeEntry_grows hl.tree h g) run.merged_eq trivial
  have hremoved : g ∈ run.removed.candidate.groups :=
    (mergeEntries_keeps run.merged_eq).groups.mem_groups.mp hg
  have hstart : run.removed.candidate.childEntries g = loc.childEntries g :=
    calc run.removed.candidate.childEntries g
        = run.added.candidate.childEntries g :=
          (run.removalInv hb hl hr hq).1.entriesListed g hremoved
      _ = run.moved.candidate.childEntries g := (run.added_grows hl hgl).1
      _ = run.settled.candidate.childEntries g := (run.groupLoopInv hl).childEntries g
      _ = loc.childEntries g := run.withoutIcons.sameShape.childEntries g
  rwa [hstart] at hentries

omit hb in
/-- The child groups of a group that local and the merged candidate share. -/
theorem Run.childGroups_grows {g : GroupId} (hgl : g ∈ loc.groups) :
    (run.merged.candidate.childGroups g).Sublist (loc.childGroups g ++
      ((groupIds base loc remote).filter
          (fun c => decide (c ∈ loc.groups ∧ c ∉ loc.childGroups g)) ++
        (remoteAdditions K base loc remote).filter
          fun c => decide (remote.parentOf c = some g))) := by
  have hmoves := foldlM_grows (fun st : MergeState V => st.candidate.childGroups g)
    (fun c => decide (c ∈ loc.groups ∧ c ∉ loc.childGroups g))
    (fun st => GroupLoopInv loc run.settled.candidate st.candidate)
    (fun _ _ _ _ hinv h => mergeGroup_keeps hinv h)
    (fun _ _ _ _ hinv h => mergeGroup_grows hl.tree hinv.mem_groups h g) run.moved_eq
    (run.groupLoopStart hl)
  have hremoved := removeGroups_shrinks (K := K) (run.root_not_deleted hl hr hq) g
  rw [← run.removed_eq] at hremoved
  have hsettled := run.withoutIcons.sameShape.childGroups g
  rw [hsettled] at hmoves
  rw [(mergeEntries_keeps run.merged_eq).groups.childGroups, ← List.append_assoc]
  exact hremoved.trans ((run.added_grows hl hgl).2.trans (hmoves.append_right _))

omit hb hr in
/-- Without a conflict no reorder by remote is lost. -/
theorem Run.order_quiet {g : GroupId} (hgb : g ∈ base.groups) (hgl : g ∈ loc.groups)
    (hgr : g ∈ remote.groups) :
    remoteReorderWouldBeLost (base.childGroups g) (loc.childGroups g) (remote.childGroups g) =
      false ∧
    remoteReorderWouldBeLost (base.childEntries g) (loc.childEntries g) (remote.childEntries g) =
      false := by
  obtain ⟨b, hb'⟩ := mem_iff_exists.mp hgb
  obtain ⟨l, hl'⟩ := mem_iff_exists.mp hgl
  obtain ⟨r, hr'⟩ := mem_iff_exists.mp hgr
  obtain ⟨u, v, _, hround, hqv, _⟩ := groupLoop_visit (run.groupLoopStart hl) run.moved_eq
    (run.quiet_passes hq).2.2.1 (mem_groupIds.mpr (Or.inl hgb))
  have hclass : classifyGroup K base loc remote g =
      .existing (groupState K base b) (groupState K loc l) (groupState K remote r) :=
    classify_existing.mpr (by simp [hb', hl', hr'])
  rw [mergeGroup, hclass] at hround
  have hquiet := quiet_of_writeGroup (quiet_of_moveGroup hround hqv)
  simp only [quiet_report, existingGroupConflicts, List.append_eq_nil_iff] at hquiet
  obtain ⟨_, _, hprops⟩ := hquiet
  simp only [mergeGroupProperties, List.append_eq_nil_iff, ite_eq_right_iff, List.cons_ne_nil,
    imp_false, Bool.not_eq_true] at hprops
  obtain ⟨⟨_, hgroups⟩, hentries⟩ := hprops
  simp only [Database.childGroups, Database.childEntries, hb', hl', hr', Option.map_some,
    Option.getD_some]
  exact ⟨hgroups, hentries⟩

end Run

/-! ## The order of siblings -/

/-- Remote added the entry below `g`. -/
def EntryAddedTo (base loc remote : Database V) (g : GroupId) (e : EntryId) : Prop :=
  e ∉ base.entries ∧ e ∉ loc.entries ∧ remote.homeOf e = some g

/-- Remote moved the entry to `g`, where neither base nor local has it. -/
def EntryMovedTo (base loc remote : Database V) (g : GroupId) (e : EntryId) : Prop :=
  e ∈ base.entries ∧ e ∈ loc.entries ∧ base.homeOf e ≠ some g ∧ loc.homeOf e ≠ some g ∧
    remote.homeOf e = some g

/-- Remote added the group `c` below `g`. -/
def GroupAddedTo (base loc remote : Database V) (g c : GroupId) : Prop :=
  c ∉ base.groups ∧ c ∉ loc.groups ∧ remote.parentOf c = some g

/-- Remote moved the group `c` to `g`, where neither base nor local has it. -/
def GroupMovedTo (base loc remote : Database V) (g c : GroupId) : Prop :=
  c ∈ base.groups ∧ c ∈ loc.groups ∧ base.parentOf c ≠ some g ∧ loc.parentOf c ≠ some g ∧
    remote.parentOf c = some g

/-- Two children that all four lists name stand in remote's order if remote changed it, and in
local's order otherwise. -/
def PairsMerged {α : Type} (base loc remote merged : List α) : Prop :=
  ∀ a b, (∀ l ∈ [base, loc, remote, merged], a ∈ l ∧ b ∈ l) → a ≠ b →
    (¬ (Precedes remote a b ↔ Precedes base a b) →
      (Precedes merged a b ↔ Precedes remote a b)) ∧
    ((Precedes remote a b ↔ Precedes base a b) → (Precedes merged a b ↔ Precedes loc a b))

/-- How the children of `g` stand in the merged document. -/
structure SiblingsMerged (base loc remote m : Database V) (g : GroupId) : Prop where
  entries : ∃ arrived, m.childEntries g =
      (loc.childEntries g).filter (fun e => decide (m.homeOf e = some g)) ++ arrived ∧
    Ascending arrived ∧
    ∀ e, e ∈ arrived ↔ EntryAddedTo base loc remote g e ∨ EntryMovedTo base loc remote g e
  groups : ∃ moved added, m.childGroups g =
      (loc.childGroups g).filter (fun c => decide (m.parentOf c = some g)) ++ moved ++ added ∧
    Ascending moved ∧ Ascending added ∧
    ∀ c, (c ∈ moved ↔ GroupMovedTo base loc remote g c) ∧
      (c ∈ added ↔ GroupAddedTo base loc remote g c)
  entryPairs : PairsMerged (base.childEntries g) (loc.childEntries g) (remote.childEntries g)
    (m.childEntries g)
  groupPairs : PairsMerged (base.childGroups g) (loc.childGroups g) (remote.childGroups g)
    (m.childGroups g)

theorem pairsMerged_of_append {α : Type} [DecidableEq α] {base loc remote arrived : List α}
    {p : α → Bool} (hb : base.Nodup) (hl : loc.Nodup) (hr : remote.Nodup)
    (hm : (loc.filter p ++ arrived).Nodup) (hnew : ∀ x ∈ arrived, x ∉ loc)
    (h : remoteReorderWouldBeLost base loc remote = false) :
    PairsMerged base loc remote (loc.filter p ++ arrived) := by
  intro a b hall hne
  simp only [List.mem_cons, List.not_mem_nil, or_false, forall_eq_or_imp, forall_eq] at hall
  obtain ⟨⟨hab, hbb⟩, ⟨hal, hbl⟩, ⟨har, hbr⟩, ham, hbm⟩ := hall
  -- Both stand in the part that comes from local.
  have hkept : ∀ x, x ∈ loc → x ∈ loc.filter p ++ arrived → x ∈ loc.filter p := fun x hx hmem =>
    (List.mem_append.mp hmem).resolve_right fun hx' => hnew x hx' hx
  have hlocal : Precedes (loc.filter p ++ arrived) a b ↔ Precedes loc a b :=
    (precedes_sublist (List.sublist_append_left _ _) hm (hkept a hal ham) (hkept b hbl hbm)
      hne).symm.trans
      (precedes_sublist List.filter_sublist hl (hkept a hal ham) (hkept b hbl hbm) hne)
  exact ⟨fun hchanged => hlocal.trans (precedes_of_not_lost hb hl hr h ⟨hab, hal, har⟩
    ⟨hbb, hbl, hbr⟩ hne hchanged), fun _ => hlocal⟩

section Merged
variable [DecidableEq V] {K : Keepass V} {base loc remote m : Database V} {out : MergeState V}
  (run : Run K base loc remote out) (hb : SyncValid base) (hl : SyncValid loc)
  (hr : SyncValid remote) (hq : Quiet run.merged)

omit [DecidableEq V] in
theorem IsTree.parentOf_iff {db : Database V} (hd : IsTree db) {c p : GroupId} :
    c ∈ db.childGroups p ↔ db.parentOf c = some p :=
  ⟨fun h => (hd.owned p c h).resolve_right not_false, hd.listed c p⟩

include run hb hl hr hq

/-- Whoever is below `g` and is not there in local came from remote. -/
theorem Run.entry_arrived (e : EntryId) (g : GroupId) :
    run.merged.candidate.homeOf e = some g ∧ loc.homeOf e ≠ some g ↔
      EntryAddedTo base loc remote g e ∨ EntryMovedTo base loc remote g e := by
  by_cases hbase : e ∈ base.entries
  · by_cases hlive : e ∈ loc.entries ∧ e ∈ remote.entries
    · obtain ⟨b, hb'⟩ := mem_iff_exists.mp hbase
      obtain ⟨l, hl'⟩ := mem_iff_exists.mp hlive.1
      obtain ⟨r, hr'⟩ := mem_iff_exists.mp hlive.2
      obtain ⟨e', he', hmerged, _⟩ := run.entry_merged hb hl hr hq hb' hl' hr'
      have hparent := hmerged.parent
      simp only [EntryAddedTo, EntryMovedTo, Database.homeOf, hb', hl', hr', he', hbase, hlive.1,
        Option.map_some, ne_eq, Option.some.injEq, not_true_eq_false, false_and, false_or,
        true_and]
      constructor
      · rintro ⟨rfl, hne⟩
        have hremote := hparent.eq_or.resolve_left (Ne.symm hne)
        refine ⟨fun hsame => hne ?_, hne, hremote.symm⟩
        exact (hparent.localChange (hremote.symm.trans hsame.symm)).symm
      · rintro ⟨hmoved, hne, rfl⟩
        rcases hparent.decided with heq | heq | heq
        · exact absurd heq hne
        · exact ⟨hparent.remoteChange heq, hne⟩
        · exact absurd heq.symm hmoved
    · have hlost := run.entry_lost hb hl hr hq hbase (by tauto)
      refine iff_of_false (fun h => ?_) ?_
      · obtain ⟨entry, hentry, _⟩ := homeOf_eq_some.mp h.1
        exact hlost (mem_iff_exists.mpr ⟨entry, hentry⟩)
      · rintro (⟨hnot, _⟩ | ⟨_, hloc, _, _, hremote⟩)
        · exact hnot hbase
        · obtain ⟨entry, hentry, _⟩ := homeOf_eq_some.mp hremote
          exact hlive ⟨hloc, mem_iff_exists.mpr ⟨entry, hentry⟩⟩
  · have hnotMoved : ¬ EntryMovedTo base loc remote g e := fun h => hbase h.1
    by_cases hloc : e ∈ loc.entries
    · obtain ⟨l, hl'⟩ := mem_iff_exists.mp hloc
      obtain ⟨m, hm, hleft, _⟩ := run.entry_local hb hl hr hq hbase hl'
      have hhome : run.merged.candidate.homeOf e = loc.homeOf e := by
        rw [homeOf_eq_some.mpr ⟨m, hm, rfl⟩, homeOf_eq_some.mpr ⟨l, hl', rfl⟩, hleft.data]
      refine iff_of_false (fun h => h.2 (hhome.symm.trans h.1)) ?_
      exact fun h => h.elim (fun h => h.2.1 hloc) hnotMoved
    · by_cases hremote : e ∈ remote.entries
      · obtain ⟨r, hr'⟩ := mem_iff_exists.mp hremote
        obtain ⟨hm, _⟩ := run.entry_remote hq hbase hloc hr'
        simp [EntryAddedTo, EntryMovedTo, Database.homeOf, hbase, hloc, hm, hr']
      · have hgone : e ∉ run.merged.candidate.entries := by
          rw [run.mem_entries_merged hb hl hr hq]
          tauto
        simp [EntryAddedTo, EntryMovedTo, Database.homeOf, hbase,
          Std.ExtTreeMap.getElem?_eq_none hgone, Std.ExtTreeMap.getElem?_eq_none hremote]

/-- Whoever is below `g` and is not there in local came from remote: a group that local has was
moved, any other was added. -/
theorem Run.group_arrived (c g : GroupId) :
    (run.merged.candidate.parentOf c = some g ∧ loc.parentOf c ≠ some g ∧ c ∈ loc.groups ↔
      GroupMovedTo base loc remote g c) ∧
    (run.merged.candidate.parentOf c = some g ∧ c ∉ loc.groups ↔
      GroupAddedTo base loc remote g c) := by
  have hlive : c ∈ run.merged.candidate.groups ↔ (c ∈ loc.groups ∧ c ∈ remote.groups) ∨
      c ∉ base.groups ∧ (c ∈ loc.groups ∨ c ∈ remote.groups) := run.mem_groups_live hb hl hr hq
  have hparent_of_core : ∀ {db out : Database V},
      out.groups[c]?.map Group.core = db.groups[c]?.map Group.core →
        out.parentOf c = db.parentOf c := by
    intro db out hcore
    have := congrArg (Option.bind · (·.parent)) hcore
    simpa [Database.parentOf, Option.bind_map, Function.comp_def] using this
  by_cases hloc : c ∈ loc.groups
  · refine ⟨?_, iff_of_false (fun h => h.2 hloc) fun h => h.2.1 hloc⟩
    by_cases hmem : c ∈ run.merged.candidate.groups
    · have hparent := hparent_of_core (run.core_local hb hl hr hq hmem hloc)
      by_cases hall : c ∈ base.groups ∧ c ∈ loc.groups ∧ c ∈ remote.groups
      · have hchoice := run.parentOf_merged hl hq hall.1 hloc hall.2.2
        rw [← hparent] at hchoice
        simp only [GroupMovedTo, hall.1, hloc, true_and, and_true]
        constructor
        · rintro ⟨hplace, hne⟩
          have hremote : run.merged.candidate.parentOf c = remote.parentOf c :=
            hchoice.eq_or.resolve_left fun h => hne (h.symm.trans hplace)
          refine ⟨fun hsame => hne ?_, hne, hremote.symm.trans hplace⟩
          exact (hchoice.localChange (hremote.symm.trans (hplace.trans hsame.symm))).symm.trans
            hplace
        · rintro ⟨hmoved, hne, hremote⟩
          rcases hchoice.decided with heq | heq | heq
          · exact absurd (heq.trans hremote) hne
          · exact ⟨(hchoice.remoteChange heq).trans hremote, hne⟩
          · exact absurd (heq.symm.trans hremote) hmoved
      · rw [hparent, run.parentOf_kept hl hq hall]
        refine iff_of_false (fun h => h.2.1 h.1) fun h => hall ⟨h.1, hloc, ?_⟩
        exact mem_groups_of_parentOf h.2.2.2.2
    · refine iff_of_false (fun h => hmem (mem_groups_of_parentOf h.1)) fun h => hmem ?_
      exact hlive.mpr (Or.inl ⟨hloc, mem_groups_of_parentOf h.2.2.2.2⟩)
  · refine ⟨iff_of_false (fun h => hloc h.2.2) fun h => hloc h.2.1, ?_⟩
    constructor
    · rintro ⟨hplace, _⟩
      have hmem := mem_groups_of_parentOf hplace
      have hadded := ((run.mem_groups_merged hb hl hr hq).mp hmem).1.resolve_left hloc
      have hparent := hparent_of_core (run.group_remote hb hl hr hq hadded).2
      exact ⟨(mem_remoteAdditions.mp hadded).1, hloc, hparent.symm.trans hplace⟩
    · rintro ⟨hbase, _, hplace⟩
      have hremote := mem_groups_of_parentOf hplace
      have hnew := (run.groups_reconciled hl hq c).addedRemotely (by simpa using hbase)
        (by simpa using hloc) (by simpa using hremote)
      have hadded : c ∈ remoteAdditions K base loc remote :=
        mem_remoteAdditions.mpr ⟨hbase, hloc, hremote, by simpa [isDeleted] using hnew⟩
      exact ⟨(hparent_of_core (run.group_remote hb hl hr hq hadded).2).trans hplace, hloc⟩

variable (htree : IsTree run.merged.candidate) (htidy : Tidy run.merged.candidate) {g : GroupId}
  (hgb : g ∈ base.groups) (hgl : g ∈ loc.groups) (hgr : g ∈ remote.groups)
  (hgm : g ∈ run.merged.candidate.groups)
include htree htidy hgb hgl hgr

include hgm in
theorem Run.entry_siblings : (∃ arrived, run.merged.candidate.childEntries g =
      (loc.childEntries g).filter (fun e => decide (run.merged.candidate.homeOf e = some g)) ++
        arrived ∧ Ascending arrived ∧
      ∀ e, e ∈ arrived ↔ EntryAddedTo base loc remote g e ∨ EntryMovedTo base loc remote g e) ∧
    PairsMerged (base.childEntries g) (loc.childEntries g) (remote.childEntries g)
      (run.merged.candidate.childEntries g) := by
  obtain ⟨arrived, hsub, heq, hmem⟩ := sublist_append_split
    (run.childEntries_grows hb hl hr hq hgl hgm) (hl.tidy.entries g)
    fun e he => by simpa using (List.mem_filter.mp he).2
  have hascending : Ascending arrived := ((ascending_allKeys3 _ _ _).sublist
    List.filter_sublist).sublist hsub
  have hpairs := pairsMerged_of_append (hb.tidy.entries g) (hl.tidy.entries g)
    (hr.tidy.entries g) (heq ▸ htidy.entries g) (fun e he => ((hmem e).mp he).2)
    (run.order_quiet hl hq hgb hgl hgr).2
  refine ⟨⟨arrived, ?_, hascending, fun e => ?_⟩, heq ▸ hpairs⟩
  · simpa only [htree.homeOf_iff] using heq
  · rw [hmem, htree.homeOf_iff, hl.tree.homeOf_iff]
    exact run.entry_arrived hb hl hr hq e g

theorem Run.group_siblings : (∃ moved added, run.merged.candidate.childGroups g =
      (loc.childGroups g).filter (fun c => decide (run.merged.candidate.parentOf c = some g)) ++
        moved ++ added ∧ Ascending moved ∧ Ascending added ∧
      ∀ c, (c ∈ moved ↔ GroupMovedTo base loc remote g c) ∧
        (c ∈ added ↔ GroupAddedTo base loc remote g c)) ∧
    PairsMerged (base.childGroups g) (loc.childGroups g) (remote.childGroups g)
      (run.merged.candidate.childGroups g) := by
  have hlater : ∀ c ∈ (remoteAdditions K base loc remote).filter
      (fun c => decide (remote.parentOf c = some g)), c ∉ loc.groups := fun c hc =>
    (mem_remoteAdditions.mp (List.mem_filter.mp hc).1).2.1
  have hearlier : ∀ c ∈ (groupIds base loc remote).filter
      (fun c => decide (c ∈ loc.groups ∧ c ∉ loc.childGroups g)),
      c ∈ loc.groups ∧ c ∉ loc.childGroups g := fun c hc => by
    simpa using (List.mem_filter.mp hc).2
  have hlisted : ∀ c, c ∉ loc.groups → c ∉ loc.childGroups g := fun c hc hmem =>
    hc (mem_groups_of_parentOf (hl.tree.parentOf_iff.mp hmem))
  obtain ⟨arrived, hsub, heq, hmem⟩ := sublist_append_split
    (run.childGroups_grows hl hr hq hgl) (hl.tidy.groups g)
    fun c hc => (List.mem_append.mp hc).elim (fun hc => (hearlier c hc).2)
      fun hc => hlisted c (hlater c hc)
  obtain ⟨moved, added, rfl, hmoved, hadded⟩ := List.sublist_append_iff.mp hsub
  have hpairs := pairsMerged_of_append (hb.tidy.groups g) (hl.tidy.groups g)
    (hr.tidy.groups g) (heq ▸ htidy.groups g) (fun c hc => ((hmem c).mp hc).2)
    (run.order_quiet hl hq hgb hgl hgr).1
  have hsorted : Ascending (groupIds base loc remote) := ascending_allKeys3 _ _ _
  refine ⟨⟨moved, added, ?_, (hsorted.sublist List.filter_sublist).sublist hmoved,
    ((hsorted.sublist List.filter_sublist).sublist List.filter_sublist).sublist hadded,
    fun c => ⟨?_, ?_⟩⟩, heq ▸ hpairs⟩
  · rw [List.append_assoc]
    simpa only [htree.parentOf_iff] using heq
  · rw [← (run.group_arrived hb hl hr hq c g).1, ← htree.parentOf_iff, ne_eq,
      ← hl.tree.parentOf_iff, ← and_assoc, ← hmem, List.mem_append]
    refine ⟨fun hc => ⟨Or.inl hc, (hearlier c (hmoved.subset hc)).1⟩, fun hc => ?_⟩
    exact hc.1.resolve_right fun h => hlater c (hadded.subset h) hc.2
  · rw [← (run.group_arrived hb hl hr hq c g).2, ← htree.parentOf_iff]
    constructor
    · intro hc
      exact ⟨((hmem c).mp (List.mem_append_right moved hc)).1, hlater c (hadded.subset hc)⟩
    · rintro ⟨hc, hnew⟩
      have hin := (hmem c).mpr ⟨hc, hlisted c hnew⟩
      exact (List.mem_append.mp hin).resolve_left fun h => hnew (hearlier c (hmoved.subset h)).1

end Merged

section Siblings
variable [DecidableEq V] {K : Keepass V} {base loc remote m : KdbxDocument V}

/-- The order of siblings: local's children first, in local's order, then what came from remote,
ascending; and no reorder by remote is lost. -/
theorem merged_siblings (hb : databaseValidForSync base.database = true)
    (hl : databaseValidForSync loc.database = true)
    (hr : databaseValidForSync remote.database = true) :
    (∀ m, mergeDivergent K base loc remote = .ok (.merged m) →
      ∀ g : GroupId, g ∈ base.database.groups → g ∈ loc.database.groups →
        g ∈ remote.database.groups → g ∈ m.database.groups →
        SiblingsMerged base.database loc.database remote.database m.database g) ∧
    ∀ g : GroupId,
      (KeepsOrder (base.database.childEntries g) (remote.database.childEntries g) →
        remoteReorderWouldBeLost (base.database.childEntries g) (loc.database.childEntries g)
          (remote.database.childEntries g) = false) ∧
      (KeepsOrder (base.database.childGroups g) (remote.database.childGroups g) →
        remoteReorderWouldBeLost (base.database.childGroups g) (loc.database.childGroups g)
          (remote.database.childGroups g) = false) := by
  rw [databaseValidForSync_iff] at hb hl hr
  refine ⟨?_, fun g => ⟨remoteReorderWouldBeLost_of_keepsOrder _ (hb.tidy.entries g)
    (hr.tidy.entries g), remoteReorderWouldBeLost_of_keepsOrder _ (hb.tidy.groups g)
    (hr.tidy.groups g)⟩⟩
  intro m h g hgb hgl hgr hgm
  obtain ⟨st, run, hq, hend, _, hvalid⟩ := mergeDivergent_merged h
  have hlists : m.database.childEntries g = run.merged.candidate.childEntries g ∧
      m.database.childGroups g = run.merged.candidate.childGroups g := by
    unfold Database.childEntries Database.childGroups
    rw [hend.groups]
    exact ⟨rfl, rfl⟩
  have hparents : m.database.parentOf = run.merged.candidate.parentOf := by
    funext c
    unfold Database.parentOf
    rw [hend.groups]
  have hhomes : ∀ e, m.database.homeOf e = run.merged.candidate.homeOf e := by
    intro e
    by_cases he : e ∈ run.merged.candidate.entries
    · obtain ⟨entry, hentry⟩ := mem_iff_exists.mp he
      obtain ⟨pruned, hpruned, n, rfl⟩ := hend.entries e entry hentry
      simp [Database.homeOf, hentry, hpruned]
    · have he' := mt (hend.mem_entries e).mp he
      simp [Database.homeOf, Std.ExtTreeMap.getElem?_eq_none he,
        Std.ExtTreeMap.getElem?_eq_none he']
  have htree : IsTree run.merged.candidate :=
    ⟨hvalid.tree.rootMem, hvalid.tree.rootTop, hvalid.tree.reach, hvalid.tree.owned,
      hvalid.tree.listed, hvalid.tree.entryOwned, hvalid.tree.entryListed⟩
  have htidy : Tidy run.merged.candidate := ⟨hvalid.tidy.groups, hvalid.tidy.entries⟩
  have hlive : g ∈ run.merged.candidate.groups := by rwa [hend.groups] at hgm
  obtain ⟨hentries, hentryPairs⟩ :=
    run.entry_siblings hb hl hr hq htree htidy hgb hgl hgr hlive
  obtain ⟨hgroups, hgroupPairs⟩ := run.group_siblings hb hl hr hq htree htidy hgb hgl hgr
  constructor
  · rw [hlists.1]
    simpa only [hhomes] using hentries
  · rw [hlists.2, hparents]
    exact hgroups
  · rw [hlists.1]
    exact hentryPairs
  · rw [hlists.2]
    exact hgroupPairs

end Siblings

set_option maxRecDepth 100000 in
theorem merged_siblings_nested :
    mergeDivergent reference (document smallVault) (document decorated) (document nested) =
      .ok (.merged (smallMerge decorated nested)) ∧
    SiblingsMerged smallVault decorated nested (smallMerge decorated nested).database ⟨1⟩ :=
  have h : mergeDivergent reference (document smallVault) (document decorated) (document nested) =
      .ok (.merged (smallMerge decorated nested)) := by decide +kernel
  ⟨h, (merged_siblings (by decide +kernel) (by decide +kernel) (by decide +kernel)).1 _ h ⟨1⟩
    (by decide +kernel) (by decide +kernel) (by decide +kernel) (by decide +kernel)⟩

end NianPass.Kdbx
