import NianPass.Kdbx.Merge
import NianPass.Kdbx.Shape
import NianPass.Lib.Loop

/-
  The first loop of `merge_groups`: what one round does to the candidate, and
  what the whole loop does.

  A round for `id` rewrites the properties of that group and may move it. It
  touches no other group except for the child lists of the two parents, and
  nothing but groups. `Quiet` runs, those that end without a conflict, decide
  every property by a three-way choice (`GroupMerged`).
-/
namespace NianPass.Kdbx

variable {V : Type}

/-! ## Conflicts are never taken back -/

/-- No conflict has been reported. -/
def Quiet (st : MergeState V) : Prop := st.conflicts = []

@[simp] theorem quiet_report {st : MergeState V} {conflicts : List SyncConflict} :
    Quiet (st.report conflicts) ↔ Quiet st ∧ conflicts = [] := by
  simp [Quiet, MergeState.report]

@[simp] theorem quiet_edit {st : MergeState V} {f : Database V → Database V} :
    Quiet (st.edit f) ↔ Quiet st := Iff.rfl

@[simp] theorem candidate_report {st : MergeState V} {conflicts : List SyncConflict} :
    (st.report conflicts).candidate = st.candidate := rfl

@[simp] theorem candidate_edit {st : MergeState V} {f : Database V → Database V} :
    (st.edit f).candidate = f st.candidate := rfl

theorem mergeProp_quiet {α : Type} [DecidableEq α] {c : SyncConflict} {b l r : α}
    (h : (mergeProp c b l r).2 = []) : IsThreeWay b l r (mergeProp c b l r).1 := by
  unfold mergeProp at h ⊢
  cases hchoice : chooseThreeWay b l r with
  | none => simp [hchoice] at h
  | some value => exact chooseThreeWay_eq_some.mp hchoice

/-! ## Times -/

/-- The times of a merged object: three-way choices, and the later of the two modifications. -/
structure TimesMerged (b l r m : Times) : Prop where
  creation : IsThreeWay b.creation l.creation r.creation m.creation
  lastAccess : IsThreeWay b.lastAccess l.lastAccess r.lastAccess m.lastAccess
  expiry : IsThreeWay b.expiry l.expiry r.expiry m.expiry
  expires : IsThreeWay b.expires l.expires r.expires m.expires
  usageCount : IsThreeWay b.usageCount l.usageCount r.usageCount m.usageCount
  lastModification : m.lastModification = max l.lastModification r.lastModification

theorem mergeTimes_quiet {c : SyncConflict} {b l r : Times} (h : (mergeTimes c b l r).2 = []) :
    TimesMerged b l r (mergeTimes c b l r).1 := by
  simp only [mergeTimes, List.append_eq_nil_iff] at h
  obtain ⟨⟨⟨⟨hcreation, haccess⟩, hexpiry⟩, hexpires⟩, husage⟩ := h
  exact ⟨mergeProp_quiet hcreation, mergeProp_quiet haccess, mergeProp_quiet hexpiry,
    mergeProp_quiet hexpires, mergeProp_quiet husage, rfl⟩

/-! ## One group -/

/-- The three-way choices that make a group. -/
structure GroupMerged (b l r m : Group V) : Prop where
  name : IsThreeWay b.name l.name r.name m.name
  notes : IsThreeWay b.notes l.notes r.notes m.notes
  parent : IsThreeWay b.parent l.parent r.parent m.parent
  tags : IsThreeWay b.tags l.tags r.tags m.tags
  icon : IsThreeWay b.icon l.icon r.icon m.icon
  customData : IsThreeWay b.customData l.customData r.customData m.customData
  isExpanded : IsThreeWay b.isExpanded l.isExpanded r.isExpanded m.isExpanded
  enableAutotype : IsThreeWay b.enableAutotype l.enableAutotype r.enableAutotype m.enableAutotype
  enableSearching :
    IsThreeWay b.enableSearching l.enableSearching r.enableSearching m.enableSearching
  defaultAutotypeSequence : IsThreeWay b.defaultAutotypeSequence l.defaultAutotypeSequence
    r.defaultAutotypeSequence m.defaultAutotypeSequence
  times : TimesMerged b.times l.times r.times m.times

/-- Nothing but groups differs. -/
def OnlyGroups (db out : Database V) : Prop := out = { db with groups := out.groups }

theorem OnlyGroups.trans {db mid out : Database V} (h : OnlyGroups db mid)
    (h' : OnlyGroups mid out) : OnlyGroups db out := by
  unfold OnlyGroups at *
  rw [h', h]

/-- One group is rewritten, its place in the tree aside. -/
structure EditsGroup (id : GroupId) (db out : Database V) : Prop where
  only : OnlyGroups db out
  shape : SameShape db out
  other : ∀ x : GroupId, x ≠ id → out.groups[x]? = db.groups[x]?

namespace EditsGroup
variable {id : GroupId} {db mid out : Database V}

theorem refl (id : GroupId) (db : Database V) : EditsGroup id db db :=
  ⟨rfl, SameShape.refl db, fun _ _ => rfl⟩

theorem trans (h : EditsGroup id db mid) (h' : EditsGroup id mid out) : EditsGroup id db out :=
  ⟨h.only.trans h'.only, h.shape.trans h'.shape,
    fun x hx => (h'.other x hx).trans (h.other x hx)⟩

theorem editGroup (f : Group V → Group V) (hf : ∀ g, (f g).shape = g.shape) :
    EditsGroup id db (db.editGroup id f) :=
  ⟨rfl, sameShape_editGroup id f hf, fun x hx => by
    rw [getElem?_editGroup, if_neg (Ne.symm hx)]⟩

end EditsGroup

theorem editsGroup_writeGroup (id : GroupId) (merged : Group V) (icon : Option (Option Icon))
    (st : MergeState V) : EditsGroup id st.candidate (writeGroup id merged icon st).candidate := by
  unfold writeGroup setGroupIcon
  have hwrite : EditsGroup id st.candidate (st.candidate.editGroup id merged.assign) :=
    EditsGroup.editGroup _ fun _ => rfl
  split
  · cases icon with
    | none => exact hwrite
    | some icon =>
      by_cases hicon : (st.candidate.editGroup id merged.assign).iconAvailable icon = true
      · simpa [hicon] using hwrite.trans (EditsGroup.editGroup (Group.withIcon icon) fun _ => rfl)
      · simpa [hicon] using hwrite
  · exact EditsGroup.refl id _

theorem writeGroup_quiet {id : GroupId} {merged : Group V} {icon : Option Icon}
    {st : MergeState V} (hid : id ∈ st.candidate.groups)
    (h : Quiet (writeGroup id merged (some icon) st)) :
    HasIcon st.candidate icon ∧ (writeGroup id merged (some icon) st).candidate =
      (st.candidate.editGroup id merged.assign).editGroup id (Group.withIcon icon) := by
  unfold writeGroup setGroupIcon at *
  simp only [hid, if_true, candidate_edit] at h ⊢
  by_cases hicon : (st.candidate.editGroup id merged.assign).iconAvailable icon = true
  · simp only [hicon, if_true]
    exact ⟨iconAvailable_iff.mp hicon, trivial⟩
  · simp [hicon] at h

theorem quiet_of_writeGroup {id : GroupId} {merged : Group V} {icon : Option (Option Icon)}
    {st : MergeState V} (h : Quiet (writeGroup id merged icon st)) : Quiet st := by
  unfold writeGroup at h
  split at h
  · cases icon with
    | none => exact h
    | some icon =>
      simp only at h
      split at h
      · exact h
      · exact (quiet_report.mp h).1
  · exact h

/-- `move_to` succeeds: the target exists, and the group is neither the root nor above it. -/
def CanMove (db : Database V) (id target : GroupId) : Prop :=
  target ∈ db.groups ∧ id ≠ db.root ∧ ¬ Forest.Above db.parentOf id target

section Move
variable {K : Keepass V} {id : GroupId} {mergedParent locParent : Option GroupId}
  {time : Option Time} {st st' : MergeState V}

theorem quiet_of_moveGroup (h : moveGroup K id mergedParent locParent time st = .ok st')
    (hq : Quiet st') : Quiet st := by
  unfold moveGroup at h
  split at h
  · cases h
    exact hq
  · split at h
    · cases h
      exact (quiet_report.mp hq).1
    · split at h
      · split at h
        · cases h
          exact (quiet_report.mp hq).1
        · cases h
          exact hq
      · cases h

/-- A group that is to move does so exactly if it can. -/
theorem moveGroup_spec (hid : id ∈ st.candidate.groups)
    (h : moveGroup K id mergedParent locParent time st = .ok st') :
    (st'.candidate = st.candidate ∧
      ∀ t, mergedParent = some t → mergedParent ≠ locParent → ¬ CanMove st.candidate id t) ∨
    ∃ t, mergedParent = some t ∧ mergedParent ≠ locParent ∧ CanMove st.candidate id t ∧
      st'.candidate = (st.candidate.relocateGroup id t).editGroup id
        (Group.withLocationChanged time) := by
  unfold moveGroup at h
  split at h
  · case isTrue heq =>
    cases h
    exact Or.inl ⟨rfl, fun t _ hne => absurd heq hne⟩
  · case isFalse hne =>
    split at h
    · cases h
      exact Or.inl ⟨rfl, fun t ht => nomatch ht⟩
    · case h_2 t =>
      have hcan := K.moveGroupTo_isSome st.candidate id t hid
      cases hmove : K.moveGroupTo st.candidate id t with
      | none =>
        rw [hmove] at h hcan
        cases h
        refine Or.inl ⟨rfl, ?_⟩
        rintro _ ⟨⟩ _ hmay
        exact absurd (hcan.mpr hmay) (by simp)
      | some out =>
        rw [hmove] at h hcan
        cases h
        refine Or.inr ⟨t, rfl, hne, hcan.mp rfl, ?_⟩
        rw [K.moveGroupTo_eq _ _ _ _ hid hmove]

/-- Without a conflict the group is where it is to be. -/
theorem moveGroup_quiet (hid : id ∈ st.candidate.groups)
    (h : moveGroup K id mergedParent locParent time st = .ok st') (hq : Quiet st') :
    (mergedParent = locParent ∧ st' = st) ∨
    ∃ t, mergedParent = some t ∧ mergedParent ≠ locParent ∧ CanMove st.candidate id t ∧
      st'.candidate = (st.candidate.relocateGroup id t).editGroup id
        (Group.withLocationChanged time) := by
  rcases moveGroup_spec hid h with ⟨_, hcannot⟩ | hmoved
  · refine Or.inl ?_
    unfold moveGroup at h
    split at h
    · case isTrue heq =>
      cases h
      exact ⟨heq, rfl⟩
    · case isFalse hne =>
      split at h
      · cases h
        simp at hq
      · case h_2 t =>
        have hcan := K.moveGroupTo_isSome st.candidate id t hid
        cases hmove : K.moveGroupTo st.candidate id t with
        | none =>
          rw [hmove] at h
          cases h
          simp at hq
        | some out => exact absurd (hcan.mp (by simp [hmove])) (hcannot t rfl hne)
  · exact Or.inr hmoved

end Move

section ExistingGroup
variable [DecidableEq V] {K : Keepass V} {base : Database V} {id : GroupId} {b l r : GroupState V}
  {st st' : MergeState V}

/-- The parent the merge wants for a group. -/
def wantedParent (b l r : Option GroupId) : Option GroupId := (chooseThreeWay b l r).getD l

omit [DecidableEq V] in
theorem mergeProp_fst {α : Type} [DecidableEq α] (c : SyncConflict) (b l r : α) :
    (mergeProp c b l r).1 = (chooseThreeWay b l r).getD l := by
  unfold mergeProp
  cases chooseThreeWay b l r <;> rfl

omit [DecidableEq V] in
theorem canMove_congr {db out : Database V} (h : SameShape db out) {t : GroupId} :
    CanMove out id t ↔ CanMove db id t := by
  unfold CanMove
  rw [h.mem_groups, h.root, h.parentOf]

/-- The round for a group in all three inputs: its properties are written, and it moves to the
wanted parent exactly if it can. -/
theorem mergeExistingGroup_spec (hid : id ∈ st.candidate.groups)
    (h : mergeExistingGroup K base id b l r st = .ok st') :
    ∃ mid, EditsGroup id st.candidate mid ∧
      ((EditsGroup id mid st'.candidate ∧ ∀ t, wantedParent b.parent l.parent r.parent = some t →
          wantedParent b.parent l.parent r.parent ≠ l.parent → ¬ CanMove st.candidate id t) ∨
        ∃ t, wantedParent b.parent l.parent r.parent = some t ∧
          wantedParent b.parent l.parent r.parent ≠ l.parent ∧ CanMove st.candidate id t ∧
          EditsGroup id (mid.relocateGroup id t) st'.candidate) := by
  unfold mergeExistingGroup at h
  simp only [mergeProp_fst] at h
  generalize hmid : writeGroup _ _ _ _ = mid at h
  have hedit : EditsGroup id st.candidate mid.candidate := by
    rw [← hmid]
    exact editsGroup_writeGroup id _ _ (st.report _)
  have hid' : id ∈ mid.candidate.groups := hedit.shape.mem_groups.mpr hid
  refine ⟨mid.candidate, hedit, ?_⟩
  rcases moveGroup_spec hid' h with ⟨heq, hcannot⟩ | ⟨t, ht, hne, hcan, hmoved⟩
  · refine Or.inl ⟨heq ▸ EditsGroup.refl id _, fun t ht hne hcan => ?_⟩
    exact hcannot t ht hne ((canMove_congr hedit.shape).mpr hcan)
  · refine Or.inr ⟨t, ht, hne, (canMove_congr hedit.shape).mp hcan, ?_⟩
    rw [hmoved]
    exact EditsGroup.editGroup _ fun _ => rfl

theorem mergeGroupProperties_quiet {b l r : Group V} {id : GroupId}
    (h : (mergeGroupProperties id b l r l).2 = []) :
    let m := (mergeGroupProperties id b l r l).1
    IsThreeWay b.name l.name r.name m.name ∧ IsThreeWay b.notes l.notes r.notes m.notes ∧
    IsThreeWay b.tags l.tags r.tags m.tags ∧
    IsThreeWay b.customData l.customData r.customData m.customData ∧
    IsThreeWay b.isExpanded l.isExpanded r.isExpanded m.isExpanded ∧
    IsThreeWay b.defaultAutotypeSequence l.defaultAutotypeSequence r.defaultAutotypeSequence
      m.defaultAutotypeSequence ∧
    IsThreeWay b.enableAutotype l.enableAutotype r.enableAutotype m.enableAutotype ∧
    IsThreeWay b.enableSearching l.enableSearching r.enableSearching m.enableSearching ∧
    TimesMerged b.times l.times r.times m.times ∧
    ∃ icon, chooseThreeWay b.icon l.icon r.icon = some icon := by
  simp only [mergeGroupProperties, List.append_eq_nil_iff, iconChoiceConflict, ite_eq_right_iff,
    List.cons_ne_nil, imp_false, ← ne_eq, Option.ne_none_iff_exists'] at h
  obtain ⟨⟨⟨⟨⟨⟨⟨⟨⟨⟨⟨hname, hnotes⟩, htags⟩, hdata⟩, hexpanded⟩, hsequence⟩, hautotype⟩,
    hsearching⟩, htimes⟩, hicon⟩, _⟩, _⟩ := h
  exact ⟨mergeProp_quiet hname, mergeProp_quiet hnotes, mergeProp_quiet htags,
    mergeProp_quiet hdata, mergeProp_quiet hexpanded, mergeProp_quiet hsequence,
    mergeProp_quiet hautotype, mergeProp_quiet hsearching, mergeTimes_quiet htimes, hicon⟩

omit [DecidableEq V] in
/-- The group after a move, its child lists aside. -/
theorem getElem?_moved {db : Database V} {g : Group V} (t : GroupId) (time : Option Time)
    (hg : db.groups[id]? = some g) :
    ∃ g', ((db.relocateGroup id t).editGroup id (Group.withLocationChanged time)).groups[id]? =
        some g' ∧ g'.core = ({ g.core with parent := some t, previousParent := db.parentOf id } :
          Group V).withLocationChanged time := by
  apply Option.map_eq_some_iff.mp
  rw [getElem?_editGroup, if_pos rfl, getElem?_relocateGroup, hg]
  simp only [Option.map_some, if_true]
  rfl

omit [DecidableEq V] in
theorem groupMerged_core {b l r m : Group V} :
    GroupMerged b l r m.core ↔ GroupMerged b l r m :=
  ⟨fun h => ⟨h.name, h.notes, h.parent, h.tags, h.icon, h.customData, h.isExpanded,
    h.enableAutotype, h.enableSearching, h.defaultAutotypeSequence, h.times⟩,
   fun h => ⟨h.name, h.notes, h.parent, h.tags, h.icon, h.customData, h.isExpanded,
    h.enableAutotype, h.enableSearching, h.defaultAutotypeSequence, h.times⟩⟩

/-- Without a conflict, every property of the group is its three-way choice. -/
theorem mergeExistingGroup_quiet {g : Group V} (hg : st.candidate.groups[id]? = some g)
    (hparent : g.parent = l.parent) (hb : b.parent = b.group.parent)
    (hl : l.parent = l.group.parent) (hr : r.parent = r.group.parent)
    (h : mergeExistingGroup K base id b l r st = .ok st') (hq : Quiet st') :
    ∃ g', st'.candidate.groups[id]? = some g' ∧ GroupMerged b.group l.group r.group g' ∧
      HasIcon st.candidate g'.icon := by
  have hid : id ∈ st.candidate.groups := mem_iff_exists.mpr ⟨g, hg⟩
  unfold mergeExistingGroup at h
  have hquiet := quiet_of_writeGroup (quiet_of_moveGroup h hq)
  simp only [quiet_report, existingGroupConflicts, List.append_eq_nil_iff] at hquiet
  obtain ⟨_, ⟨⟨hmove, _⟩, _⟩, hprops⟩ := hquiet
  have hparents := mergeProp_quiet hmove
  obtain ⟨hname, hnotes, htags, hdata, hexpanded, hsequence, hautotype, hsearching, htimes, icon,
    hicon⟩ := mergeGroupProperties_quiet hprops
  rw [hicon] at h
  obtain ⟨hpresent, hwritten⟩ := writeGroup_quiet (by simpa using hid) (quiet_of_moveGroup h hq)
  have hid' : id ∈ (writeGroup id (mergeGroupProperties id b.group l.group r.group l.group).1
      (some icon) (st.report (existingGroupConflicts K base id b l r))).candidate.groups := by
    rw [(editsGroup_writeGroup id _ _ _).shape.mem_groups]
    simpa using hid
  have hicon := chooseThreeWay_eq_some.mp hicon
  rcases moveGroup_quiet hid' h hq with ⟨hstay, rfl⟩ | ⟨t, ht, _, _, hmoved⟩
  · refine ⟨(((mergeGroupProperties id b.group l.group r.group l.group).1.assign g).withIcon icon),
      ?_, ?_, hpresent⟩
    · rw [hwritten]
      simp [getElem?_editGroup, hg]
    · refine ⟨hname, hnotes, ?_, htags, hicon, hdata, hexpanded, hautotype, hsearching, hsequence,
        htimes⟩
      rw [hstay, hb, hl, hr] at hparents
      show IsThreeWay _ _ _ g.parent
      rwa [hparent, hl]
  · obtain ⟨g', hg', hcore⟩ := getElem?_moved t r.group.times.locationChanged
      (show ((st.candidate.editGroup id
        (mergeGroupProperties id b.group l.group r.group l.group).1.assign).editGroup id
          (Group.withIcon icon)).groups[id]? = some _ by simp [getElem?_editGroup, hg]; rfl)
    rw [candidate_report] at hwritten
    rw [← hwritten, ← hmoved] at hg'
    have hicon' : g'.icon = icon := by
      rw [← Group.core_icon, hcore]
      rfl
    refine ⟨g', hg', groupMerged_core.mp ?_, hicon' ▸ hpresent⟩
    rw [hcore]
    rw [ht, hb, hl, hr] at hparents
    exact ⟨hname, hnotes, hparents, htags, hicon, hdata, hexpanded, hautotype, hsearching,
      hsequence, ⟨htimes.creation, htimes.lastAccess, htimes.expiry, htimes.expires,
        htimes.usageCount, htimes.lastModification⟩⟩

end ExistingGroup

/-! ## What becomes of an object -/

/-- What a conflict-free merge knows of an object that is not in all three inputs: one that a
branch lost was deleted there and left alone by the other branch, and one that is new is not
known as deleted. -/
structure Reconciled {α : Type} (b l r : Option α) (bDeleted lDeleted rDeleted : Prop) : Prop where
  remoteLost : b.isSome → l.isSome → r = none → rDeleted ∧ l = b
  localLost : b.isSome → l = none → r.isSome → lDeleted ∧ r = b
  addedTwice : b = none → l.isSome → r.isSome → ¬ bDeleted ∧ l = r
  addedRemotely : b = none → l = none → r.isSome → ¬ lDeleted
  addedLocally : b = none → l.isSome → r = none → ¬ rDeleted

section Classify
variable {α : Type} [DecidableEq α] {b l r : Option α} {bDeleted lDeleted rDeleted : Bool}

/-- The action says where the object is. -/
theorem classify_existing {x y z : α} :
    classify b l r bDeleted lDeleted rDeleted = .existing x y z ↔
      b = some x ∧ l = some y ∧ r = some z := by
  cases b <;> cases l <;> cases r <;> simp [classify] <;> split <;> (try split) <;> simp

theorem classify_remove : classify b l r bDeleted lDeleted rDeleted = .remove ↔
    b.isSome ∧ l = b ∧ r = none ∧ rDeleted := by
  cases b <;> cases l <;> cases r <;> simp [classify] <;> split <;> (try split) <;> simp_all

theorem classify_add {z : α} : classify b l r bDeleted lDeleted rDeleted = .add z ↔
    b = none ∧ l = none ∧ r = some z ∧ lDeleted = false := by
  cases b <;> cases l <;> cases r <;> simp [classify] <;> split <;> (try split) <;> simp_all

theorem classify_reconciled
    (h : ∀ kind, classify b l r bDeleted lDeleted rDeleted ≠ .conflict kind) :
    Reconciled b l r (bDeleted = true) (lDeleted = true) (rDeleted = true) := by
  refine ⟨?_, ?_, ?_, ?_, ?_⟩
  · intro hb hl hr
    obtain ⟨x, rfl⟩ := Option.isSome_iff_exists.mp hb
    obtain ⟨y, rfl⟩ := Option.isSome_iff_exists.mp hl
    subst hr
    by_cases hdel : rDeleted
    · by_cases heq : y = x
      · exact ⟨hdel, congrArg some heq⟩
      · exact absurd (by simp [classify, hdel, heq]) (h .deleteVsModify)
    · exact absurd (by simp [classify, hdel]) (h .unsupportedSemantic)
  · intro hb hl hr
    obtain ⟨x, rfl⟩ := Option.isSome_iff_exists.mp hb
    obtain ⟨z, rfl⟩ := Option.isSome_iff_exists.mp hr
    subst hl
    by_cases hdel : lDeleted
    · by_cases heq : z = x
      · exact ⟨hdel, congrArg some heq⟩
      · exact absurd (by simp [classify, hdel, heq]) (h .deleteVsModify)
    · exact absurd (by simp [classify, hdel]) (h .unsupportedSemantic)
  · intro hb hl hr
    obtain ⟨y, rfl⟩ := Option.isSome_iff_exists.mp hl
    obtain ⟨z, rfl⟩ := Option.isSome_iff_exists.mp hr
    subst hb
    by_cases hcollision : bDeleted = true ∨ y ≠ z
    · exact absurd (by simp [classify, hcollision]) (h .uuidCollision)
    · simpa [not_or] using hcollision
  · intro hb hl hr hdel
    obtain ⟨z, rfl⟩ := Option.isSome_iff_exists.mp hr
    subst hb hl
    exact h .uuidCollision (by simp [classify, hdel])
  · intro hb hl hr hdel
    obtain ⟨y, rfl⟩ := Option.isSome_iff_exists.mp hl
    subst hb hr
    exact h .uuidCollision (by simp [classify, hdel])

end Classify

/-! ## One round -/

/-- Where the merge wants to move a group of all three inputs, if anywhere. -/
def groupMove (base loc remote : Database V) (id : GroupId) : Option GroupId :=
  if id ∈ base.groups ∧ id ∈ loc.groups ∧ id ∈ remote.groups then
    let parent := wantedParent (base.parentOf id) (loc.parentOf id) (remote.parentOf id)
    if parent = loc.parentOf id then none else parent
  else none

/-- The tree changes by one move, which happens exactly if it can. -/
def MovesGroup (id : GroupId) (target : Option GroupId) (db out : Database V) : Prop :=
  ∃ mid, EditsGroup id db mid ∧
    ((EditsGroup id mid out ∧ ∀ t, target = some t → ¬ CanMove db id t) ∨
      ∃ t, target = some t ∧ CanMove db id t ∧ EditsGroup id (mid.relocateGroup id t) out)

theorem MovesGroup.refl {id : GroupId} {target : Option GroupId} {db : Database V}
    (h : target = none) : MovesGroup id target db db :=
  ⟨db, EditsGroup.refl id db, Or.inl ⟨EditsGroup.refl id db, fun t ht => by simp [h] at ht⟩⟩

namespace MovesGroup
variable {id : GroupId} {target : Option GroupId} {db out : Database V}

theorem only (h : MovesGroup id target db out) : OnlyGroups db out := by
  obtain ⟨mid, hedit, ⟨hstay, _⟩ | ⟨t, _, _, hmove⟩⟩ := h
  · exact hedit.only.trans hstay.only
  · have hrelocate : OnlyGroups mid (mid.relocateGroup id t) := rfl
    exact hedit.only.trans (hrelocate.trans hmove.only)

theorem mem_groups (h : MovesGroup id target db out) {x : GroupId} :
    x ∈ out.groups ↔ x ∈ db.groups := by
  obtain ⟨mid, hedit, ⟨hstay, _⟩ | ⟨t, _, _, hmove⟩⟩ := h
  · rw [hstay.shape.mem_groups, hedit.shape.mem_groups]
  · rw [hmove.shape.mem_groups, mem_groups_relocateGroup, hedit.shape.mem_groups]

theorem core (h : MovesGroup id target db out) {x : GroupId} (hx : x ≠ id) :
    out.groups[x]?.map Group.core = db.groups[x]?.map Group.core := by
  obtain ⟨mid, hedit, ⟨hstay, _⟩ | ⟨t, _, _, hmove⟩⟩ := h
  · rw [hstay.other x hx, hedit.other x hx]
  · rw [hmove.other x hx, core_relocateGroup, hedit.other x hx]
    simp [hx]

theorem childEntries (h : MovesGroup id target db out) (x : GroupId) :
    out.childEntries x = db.childEntries x := by
  obtain ⟨mid, hedit, ⟨hstay, _⟩ | ⟨t, _, _, hmove⟩⟩ := h
  · rw [hstay.shape.childEntries, hedit.shape.childEntries]
  · rw [hmove.shape.childEntries, childEntries_relocateGroup, hedit.shape.childEntries]

theorem isTree (h : MovesGroup id target db out) (hd : IsTree db) (htidy : Tidy db)
    (hid : target ≠ none → id ∈ db.groups) : IsTree out ∧ Tidy out := by
  obtain ⟨mid, hedit, ⟨hstay, _⟩ | ⟨t, ht, hcan, hmove⟩⟩ := h
  · exact ⟨hstay.shape.hangs (hedit.shape.hangs hd), hstay.shape.tidy (hedit.shape.tidy htidy)⟩
  · have hmid := hedit.shape.hangs hd
    have hmem : id ∈ mid.groups := hedit.shape.mem_groups.mpr (hid (by simp [ht]))
    obtain ⟨htarget, hroot, hcycle⟩ := (canMove_congr hedit.shape).mpr hcan
    exact ⟨hmove.shape.hangs (hangs_relocateGroup hmid hmem htarget hroot hcycle),
      hmove.shape.tidy (tidy_relocateGroup (hedit.shape.tidy htidy) htarget)⟩

end MovesGroup

section Round
variable [DecidableEq V] {K : Keepass V} {base loc remote : Database V} {id : GroupId}
  {st st' : MergeState V}

omit [DecidableEq V] in
@[simp] theorem getElem?_groupIndex (db : Database V) :
    (groupIndex K db)[id]? = db.groups[id]?.map (groupState K db) := by
  simp [groupIndex]

theorem quiet_of_mergeExistingGroup {b l r : GroupState V}
    (h : mergeExistingGroup K base id b l r st = .ok st') (hq : Quiet st') : Quiet st :=
  (quiet_report.mp (quiet_of_writeGroup (quiet_of_moveGroup h hq))).1

theorem quiet_of_mergeGroup (h : mergeGroup K base loc remote st id = .ok st') (hq : Quiet st') :
    Quiet st := by
  unfold mergeGroup at h
  split at h
  · exact quiet_of_mergeExistingGroup h hq
  · cases h
    exact (quiet_report.mp hq).1
  · cases h
    exact hq

theorem mergeGroup_reconciled (h : mergeGroup K base loc remote st id = .ok st')
    (hq : Quiet st') :
    Reconciled (groupIndex K base)[id]? (groupIndex K loc)[id]? (groupIndex K remote)[id]?
      (isDeleted base id.uuid) (isDeleted loc id.uuid) (isDeleted remote id.uuid) := by
  apply classify_reconciled
  intro kind hkind
  rw [mergeGroup, classifyGroup, hkind] at h
  cases h
  simp at hq

theorem groupMove_eq_none (h : ∀ b l r, classifyGroup K base loc remote id ≠ .existing b l r) :
    groupMove base loc remote id = none := by
  unfold groupMove
  rw [if_neg]
  rintro ⟨hb, hl, hr⟩
  obtain ⟨b, hb⟩ := mem_iff_exists.mp hb
  obtain ⟨l, hl⟩ := mem_iff_exists.mp hl
  obtain ⟨r, hr⟩ := mem_iff_exists.mp hr
  refine h (groupState K base b) (groupState K loc l) (groupState K remote r)
    (classify_existing.mpr ?_)
  simp [hb, hl, hr]

theorem mergeGroup_moves (hmem : ∀ x, x ∈ st.candidate.groups ↔ x ∈ loc.groups)
    (h : mergeGroup K base loc remote st id = .ok st') :
    MovesGroup id (groupMove base loc remote id) st.candidate st'.candidate := by
  unfold mergeGroup at h
  split at h
  · case h_1 b l r hclass =>
    obtain ⟨hb, hl, hr⟩ := classify_existing.mp hclass
    simp only [getElem?_groupIndex, Option.map_eq_some_iff] at hb hl hr
    obtain ⟨bg, hbg, rfl⟩ := hb
    obtain ⟨lg, hlg, rfl⟩ := hl
    obtain ⟨rg, hrg, rfl⟩ := hr
    have hid : id ∈ st.candidate.groups := (hmem id).mpr (mem_iff_exists.mpr ⟨lg, hlg⟩)
    have hall : id ∈ base.groups ∧ id ∈ loc.groups ∧ id ∈ remote.groups :=
      ⟨mem_iff_exists.mpr ⟨bg, hbg⟩, mem_iff_exists.mpr ⟨lg, hlg⟩, mem_iff_exists.mpr ⟨rg, hrg⟩⟩
    have hmove : groupMove base loc remote id =
        if wantedParent bg.parent lg.parent rg.parent = lg.parent then none
        else wantedParent bg.parent lg.parent rg.parent := by
      rw [groupMove, if_pos hall]
      simp only [Database.parentOf, hbg, hlg, hrg, Option.bind_some]
    obtain ⟨mid, hedit, ⟨hstay, hcannot⟩ | ⟨t, ht, hne, hcan, hmoved⟩⟩ :=
      mergeExistingGroup_spec hid h
    · refine ⟨mid, hedit, Or.inl ⟨hstay, fun t ht => ?_⟩⟩
      rw [hmove] at ht
      split at ht
      · cases ht
      · case isFalse hne => exact hcannot t ht hne
    · refine ⟨mid, hedit, Or.inr ⟨t, ?_, hcan, hmoved⟩⟩
      rw [hmove]
      exact (if_neg hne).trans ht
  all_goals
    cases h
    refine MovesGroup.refl (groupMove_eq_none (K := K) ?_)
    intro b l r hclass
    simp_all

/-! ## The loop -/

omit [DecidableEq V] in
/-- What every round of the loop keeps: nothing but groups changes, the same groups exist, they
form a tree, and entries stay where they are. -/
structure GroupLoopInv (loc start db : Database V) : Prop where
  only : OnlyGroups start db
  mem_groups : ∀ x, x ∈ db.groups ↔ x ∈ loc.groups
  tree : IsTree db
  tidy : Tidy db
  childEntries : ∀ x, db.childEntries x = start.childEntries x

omit [DecidableEq V] in
theorem groupMove_mem (h : groupMove base loc remote id ≠ none) : id ∈ loc.groups := by
  unfold groupMove at h
  split at h
  · case isTrue hall => exact hall.2.1
  · exact absurd rfl h

theorem mergeGroup_keeps {start : Database V} (hinv : GroupLoopInv loc start st.candidate)
    (h : mergeGroup K base loc remote st id = .ok st') : GroupLoopInv loc start st'.candidate := by
  have hmoves := mergeGroup_moves hinv.mem_groups h
  obtain ⟨htree, htidy⟩ := hmoves.isTree hinv.tree hinv.tidy
    fun hne => (hinv.mem_groups id).mpr (groupMove_mem hne)
  exact ⟨hinv.only.trans hmoves.only, fun x => hmoves.mem_groups.trans (hinv.mem_groups x), htree,
    htidy, fun x => (hmoves.childEntries x).trans (hinv.childEntries x)⟩

theorem quiet_of_groupLoop (h : groupLoop K base loc remote st = .ok st') (hq : Quiet st') :
    Quiet st :=
  Loop.foldlM_quiet (fun _ _ _ h hq => quiet_of_mergeGroup h hq) h hq

theorem groupLoop_keeps {start : Database V} (hinv : GroupLoopInv loc start st.candidate)
    (h : groupLoop K base loc remote st = .ok st') : GroupLoopInv loc start st'.candidate :=
  Loop.foldlM_invariant (Q := fun _ => True) (P := fun st => GroupLoopInv loc start st.candidate)
    (fun _ _ _ _ h => h) (fun _ _ _ _ _ hinv h => mergeGroup_keeps hinv h) h trivial hinv

omit [DecidableEq V] in
theorem mem_groupIds : id ∈ groupIds base loc remote ↔
    id ∈ base.groups ∨ id ∈ loc.groups ∨ id ∈ remote.groups := mem_allKeys3

/-- The round for `id` in a quiet run, seen through the group `id` of the candidate. -/
theorem groupLoop_visit {start : Database V} (hinv : GroupLoopInv loc start st.candidate)
    (h : groupLoop K base loc remote st = .ok st') (hq : Quiet st')
    (hid : id ∈ groupIds base loc remote) :
    ∃ u v, GroupLoopInv loc start u.candidate ∧ mergeGroup K base loc remote u id = .ok v ∧
      Quiet v ∧
      u.candidate.groups[id]?.map Group.core = st.candidate.groups[id]?.map Group.core ∧
      st'.candidate.groups[id]?.map Group.core = v.candidate.groups[id]?.map Group.core :=
  Loop.foldlM_visit (fun st : MergeState V => st.candidate.groups[id]?.map Group.core)
    (fun st => GroupLoopInv loc start st.candidate)
    (fun _ _ _ h hq => quiet_of_mergeGroup h hq) (fun _ _ _ _ _ hinv h => mergeGroup_keeps hinv h)
    (fun _ _ hne _ _ _ hinv h => (mergeGroup_moves hinv.mem_groups h).core (Ne.symm hne)) hid
    (nodup_allKeys3 _ _ _) h hq hinv

theorem groupLoop_reconciled {start : Database V} (hinv : GroupLoopInv loc start st.candidate)
    (h : groupLoop K base loc remote st = .ok st') (hq : Quiet st') (id : GroupId) :
    Reconciled (groupIndex K base)[id]? (groupIndex K loc)[id]? (groupIndex K remote)[id]?
      (isDeleted base id.uuid) (isDeleted loc id.uuid) (isDeleted remote id.uuid) := by
  by_cases hid : id ∈ groupIds base loc remote
  · obtain ⟨u, v, _, hround, hqv, _⟩ := groupLoop_visit hinv h hq hid
    exact mergeGroup_reconciled hround hqv
  · simp only [mem_groupIds, not_or] at hid
    constructor <;> simp [hid]

/-- A group of all three inputs ends as the three-way choice of its properties. -/
theorem groupLoop_merged {start : Database V} (hinv : GroupLoopInv loc start st.candidate)
    (hshape : SameShape loc st.candidate) (h : groupLoop K base loc remote st = .ok st')
    (hq : Quiet st') {b l r : Group V} (hb : base.groups[id]? = some b)
    (hl : loc.groups[id]? = some l) (hr : remote.groups[id]? = some r) :
    ∃ m, st'.candidate.groups[id]? = some m ∧ GroupMerged b l r m ∧
      HasIcon start m.icon := by
  have hid : id ∈ groupIds base loc remote := mem_groupIds.mpr (Or.inl (mem_iff_exists.mpr ⟨b, hb⟩))
  obtain ⟨u, v, hinvu, hround, hqv, hbefore, hafter⟩ := groupLoop_visit hinv h hq hid
  have hparent := congrFun hshape.parentOf id
  obtain ⟨g₀, hg₀⟩ := mem_iff_exists.mp (hshape.mem_groups.mpr (mem_iff_exists.mpr ⟨l, hl⟩))
  rw [hg₀, Option.map_some, Option.map_eq_some_iff] at hbefore
  obtain ⟨g, hg, hcore⟩ := hbefore
  have hgparent : g.parent = l.parent := by
    have hg₀parent : g₀.parent = l.parent := by simpa [Database.parentOf, hg₀, hl] using hparent
    rw [← hg₀parent, ← Group.core_parent, hcore, Group.core_parent]
  have hclass : classifyGroup K base loc remote id =
      .existing (groupState K base b) (groupState K loc l) (groupState K remote r) :=
    classify_existing.mpr (by simp [hb, hl, hr])
  rw [mergeGroup, hclass] at hround
  obtain ⟨m, hm, hmerged, hicon⟩ := mergeExistingGroup_quiet hg hgparent rfl rfl rfl hround hqv
  rw [hm, Option.map_some, Option.map_eq_some_iff] at hafter
  obtain ⟨m', hm', hcore'⟩ := hafter
  refine ⟨m', hm', groupMerged_core.mp ?_, ?_⟩
  · rw [hcore']
    exact groupMerged_core.mpr hmerged
  · rw [← Group.core_icon, hcore', Group.core_icon]
    intro c hc
    have := hicon c hc
    rwa [hinvu.only] at this

/-- A group that is not in all three inputs keeps what it has. -/
theorem groupLoop_kept {start : Database V} (hinv : GroupLoopInv loc start st.candidate)
    (h : groupLoop K base loc remote st = .ok st') (hq : Quiet st')
    (hid : ¬ (id ∈ base.groups ∧ id ∈ loc.groups ∧ id ∈ remote.groups)) :
    st'.candidate.groups[id]?.map Group.core = st.candidate.groups[id]?.map Group.core := by
  refine Loop.foldlM_keep (Q := Quiet)
    (fun st : MergeState V => st.candidate.groups[id]?.map Group.core)
    (fun st => GroupLoopInv loc start st.candidate)
    (fun _ _ _ h hq => quiet_of_mergeGroup h hq) (fun _ _ _ _ _ hinv h => mergeGroup_keeps hinv h)
    ?_ h hq hinv
  intro i _ u v hqv hinv hround
  by_cases hi : i = id
  · subst hi
    unfold mergeGroup at hround
    split at hround
    · case h_1 hclass =>
      obtain ⟨hb, hl, hr⟩ := classify_existing.mp hclass
      simp only [getElem?_groupIndex, Option.map_eq_some_iff] at hb hl hr
      obtain ⟨b, hb, _⟩ := hb
      obtain ⟨l, hl, _⟩ := hl
      obtain ⟨r, hr, _⟩ := hr
      exact absurd ⟨mem_iff_exists.mpr ⟨b, hb⟩, mem_iff_exists.mpr ⟨l, hl⟩,
        mem_iff_exists.mpr ⟨r, hr⟩⟩ hid
    all_goals
      cases hround
      rfl
  · exact (mergeGroup_moves hinv.mem_groups hround).core (Ne.symm hi)

end Round

end NianPass.Kdbx
