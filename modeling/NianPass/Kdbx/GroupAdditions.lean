import NianPass.Kdbx.GroupPass

/-
  The second and third loop of `merge_groups`: the groups that only remote
  knows are added below their remote parents, and the groups that remote
  deleted are removed with everything below them.

  A group is added with the child lists it has in remote (`*added =
  source.clone()`), before its children are added or moved themselves.
  `LateGroup` and `LateEntry` are these early mentions. A child that arrives
  finds itself listed and keeps its place.
-/
namespace NianPass.Kdbx

variable {V : Type}

theorem Hangs.mono {db : Database V} {G G' : GroupId → GroupId → Prop}
    {E E' : GroupId → EntryId → Prop} (hd : Hangs db G E) (hG : ∀ p c, G p c → G' p c)
    (hE : ∀ p e, E p e → E' p e) : Hangs db G' E' :=
  ⟨hd.rootMem, hd.rootTop, hd.reach, fun p c h => (hd.owned p c h).imp_right (hG p c), hd.listed,
    fun p e h => (hd.entryOwned p e h).imp_right (hE p e), hd.entryListed⟩

/-- The group lists `c` because it brought the list along from remote. -/
def LateGroup (remote : Database V) (added : List GroupId) (p c : GroupId) : Prop :=
  p ∈ added ∧ c ∈ remote.childGroups p

/-- The group lists the entry `e` because it brought the list along from remote. -/
def LateEntry (remote : Database V) (added : List GroupId) (p : GroupId) (e : EntryId) : Prop :=
  p ∈ added ∧ e ∈ remote.childEntries p

section Adding
variable {K : Keepass V} {remote start : Database V} {added : List GroupId} {id : GroupId}

/-- What adding remote groups keeps: groups that were there stay as they are, and a new one is as
remote has it. -/
structure AdditionsInv (remote start : Database V) (added : List GroupId) (db : Database V) :
    Prop where
  only : OnlyGroups start db
  old : ∀ x ∈ start.groups, db.groups[x]?.map Group.core = start.groups[x]?.map Group.core
  new : ∀ x ∈ db.groups, x ∉ start.groups →
    x ∈ added ∧ db.groups[x]?.map Group.core = remote.groups[x]?.map Group.core
  hangs : Hangs db (LateGroup remote added) (LateEntry remote added)
  tidy : Tidy remote → Tidy start → Tidy db

theorem AdditionsInv.mem (h : AdditionsInv remote start added db) {x : GroupId}
    (hx : x ∈ start.groups) : x ∈ db.groups :=
  (mem_iff_of_map_eq (h.old x hx)).mpr hx

theorem editGroup_insertGroup {db : Database V} {p : GroupId} (g : Group V)
    (edit : Group V → Group V) :
    (db.insertGroup p id g).editGroup id edit = db.insertGroup p id (edit g) := by
  unfold Database.editGroup Database.insertGroup
  congr 1
  ext x : 1
  by_cases h : id = x
  · subst h
    simp
  · simp [Std.ExtTreeMap.getElem?_modify, Std.ExtTreeMap.getElem?_insert, h]

/-- One step of the sweep: the group waits for its parent, or it is added below it, or a
conflict is reported. -/
theorem addRemoteGroup_cases (acc : MergeState V × List GroupId) {source : Group V}
    (hsource : remote.groups[id]? = some source) :
    (∃ p, source.parent = some p ∧ p ∉ acc.1.candidate.groups ∧
      addRemoteGroup K remote acc id = (acc.1, acc.2 ++ [id])) ∨
    (∃ kind, addRemoteGroup K remote acc id = (acc.1.report [groupConflict id kind], acc.2)) ∨
    (∃ p, source.parent = some p ∧ p ∈ acc.1.candidate.groups ∧ id ∉ acc.1.candidate.groups ∧
      addRemoteGroup K remote acc id =
        ({ acc.1 with candidate := acc.1.candidate.insertGroup p id source }, acc.2)) := by
  unfold addRemoteGroup
  simp only [hsource]
  cases hparent : source.parent with
  | none => exact Or.inr (Or.inl ⟨_, rfl⟩)
  | some p =>
    simp only
    by_cases hp : p ∈ acc.1.candidate.groups
    · simp only [hp, if_true]
      cases hadd : K.addGroupWithId acc.1.candidate p id with
      | none => exact Or.inr (Or.inl ⟨_, rfl⟩)
      | some out =>
        refine Or.inr (Or.inr ⟨p, rfl, hp, ?_, ?_⟩)
        · intro hid
          simp [K.addGroupWithId_taken _ p id hid] at hadd
        · obtain ⟨g, _, _, _, rfl⟩ := K.addGroupWithId_eq _ p id out hp hadd
          simp only [editGroup_insertGroup]
    · exact Or.inl ⟨p, rfl, hp, by simp [hp]⟩

theorem additionsInv_insert {db : Database V} {p : GroupId} {source : Group V}
    (hinv : AdditionsInv remote start added db) (hid : id ∈ added)
    (hsource : remote.groups[id]? = some source) (hparent : source.parent = some p)
    (hp : p ∈ db.groups) (hnew : id ∉ db.groups) :
    AdditionsInv remote start added (db.insertGroup p id source) := by
  have hne : p ≠ id := by
    rintro rfl
    exact hnew hp
  refine ⟨OnlyGroups.trans hinv.only rfl, ?_, ?_, ?_, ?_⟩
  · intro x hx
    rw [core_insertGroup hne, if_neg]
    · exact hinv.old x hx
    · rintro rfl
      exact hnew (hinv.mem hx)
  · intro x hx hstart
    rw [core_insertGroup hne]
    by_cases hxid : x = id
    · subst hxid
      simp [hid, hsource]
    · rw [if_neg hxid]
      exact hinv.new x ((mem_groups_insertGroup.mp hx).resolve_left hxid) hstart
  · refine (hangs_insertGroup hinv.hangs hp hnew hparent).mono ?_ ?_
    · rintro q c (h | ⟨rfl, hc⟩)
      · exact h
      · exact ⟨hid, mem_childGroups.mpr ⟨source, hsource, hc⟩⟩
    · rintro q e (h | ⟨rfl, he⟩)
      · exact h
      · exact ⟨hid, mem_childEntries.mpr ⟨source, hsource, he⟩⟩
  · intro hremote htidy
    have hgroups := hremote.groups id
    have hentries := hremote.entries id
    simp only [Database.childGroups, Database.childEntries, hsource, Option.map_some,
      Option.getD_some] at hgroups hentries
    exact tidy_insertGroup (hinv.tidy hremote htidy) hp hnew hgroups hentries

variable (hadded : ∀ x ∈ added, x ∈ remote.groups)
include hadded

/-- One sweep over the pending groups. -/
theorem sweep_keeps {pending : List GroupId} (hpending : ∀ x ∈ pending, x ∈ added)
    (acc : MergeState V × List GroupId) (hinv : AdditionsInv remote start added acc.1.candidate) :
    AdditionsInv remote start added
      (pending.foldl (addRemoteGroup K remote) acc).1.candidate := by
  induction pending generalizing acc with
  | nil => exact hinv
  | cons id rest ih =>
    have hid := hpending id List.mem_cons_self
    obtain ⟨source, hsource⟩ := mem_iff_exists.mp (hadded id hid)
    refine ih (fun x hx => hpending x (List.mem_cons_of_mem id hx)) _ ?_
    rcases addRemoteGroup_cases (K := K) acc hsource with
      ⟨p, _, _, heq⟩ | ⟨kind, heq⟩ | ⟨p, hparent, hp, hnew, heq⟩
    · rw [heq]
      exact hinv
    · rw [heq]
      exact hinv
    · rw [heq]
      exact additionsInv_insert hinv hid hsource hparent hp hnew

/-- What is still pending after a sweep was pending before, in the same order. -/
theorem sweep_pending {pending : List GroupId} (hpending : ∀ x ∈ pending, x ∈ added)
    (acc : MergeState V × List GroupId) :
    ∃ kept, (pending.foldl (addRemoteGroup K remote) acc).2 = acc.2 ++ kept ∧
      kept.Sublist pending := by
  induction pending generalizing acc with
  | nil => exact ⟨[], by simp, List.Sublist.refl []⟩
  | cons id rest ih =>
    obtain ⟨source, hsource⟩ := mem_iff_exists.mp (hadded id (hpending id List.mem_cons_self))
    have hrest : ∀ x ∈ rest, x ∈ added := fun x hx => hpending x (List.mem_cons_of_mem id hx)
    obtain ⟨kept, hkept, hsub⟩ := ih hrest (addRemoteGroup K remote acc id)
    rcases addRemoteGroup_cases (K := K) acc hsource with
      ⟨p, _, _, heq⟩ | ⟨kind, heq⟩ | ⟨p, _, _, _, heq⟩
    · exact ⟨id :: kept, by rw [List.foldl_cons, hkept, heq]; simp, hsub.cons_cons id⟩
    · exact ⟨kept, by rw [List.foldl_cons, hkept, heq], hsub.cons id⟩
    · exact ⟨kept, by rw [List.foldl_cons, hkept, heq], hsub.cons id⟩

theorem quiet_of_sweep {pending : List GroupId} (hpending : ∀ x ∈ pending, x ∈ added)
    (acc : MergeState V × List GroupId)
    (hq : Quiet (pending.foldl (addRemoteGroup K remote) acc).1) : Quiet acc.1 := by
  induction pending generalizing acc with
  | nil => exact hq
  | cons id rest ih =>
    obtain ⟨source, hsource⟩ := mem_iff_exists.mp (hadded id (hpending id List.mem_cons_self))
    have hq' := ih (fun x hx => hpending x (List.mem_cons_of_mem id hx)) _ hq
    rcases addRemoteGroup_cases (K := K) acc hsource with
      ⟨p, _, _, heq⟩ | ⟨kind, heq⟩ | ⟨p, _, _, _, heq⟩
    · rwa [heq] at hq'
    · rw [heq] at hq'
      exact (quiet_report.mp hq').1
    · rwa [heq] at hq'

/-- In a quiet sweep every pending group is added or still pending. -/
theorem sweep_added {pending : List GroupId} (hpending : ∀ x ∈ pending, x ∈ added)
    (acc : MergeState V × List GroupId)
    (hinv : AdditionsInv remote start added acc.1.candidate)
    (hq : Quiet (pending.foldl (addRemoteGroup K remote) acc).1) :
    ∀ x, x ∈ pending ∨ x ∈ acc.2 ∨ x ∈ acc.1.candidate.groups →
      x ∈ (pending.foldl (addRemoteGroup K remote) acc).2 ∨
      x ∈ (pending.foldl (addRemoteGroup K remote) acc).1.candidate.groups := by
  induction pending generalizing acc with
  | nil => simp
  | cons id rest ih =>
    have hid := hpending id List.mem_cons_self
    have hrest : ∀ x ∈ rest, x ∈ added := fun x hx => hpending x (List.mem_cons_of_mem id hx)
    obtain ⟨source, hsource⟩ := mem_iff_exists.mp (hadded id hid)
    have hinv' : AdditionsInv remote start added
        (addRemoteGroup K remote acc id).1.candidate := by
      exact sweep_keeps (K := K) hadded (show ∀ x ∈ [id], x ∈ added by simpa using hid) acc hinv
    intro x hx
    refine ih hrest _ hinv' hq x ?_
    rcases addRemoteGroup_cases (K := K) acc hsource with
      ⟨p, _, _, heq⟩ | ⟨kind, heq⟩ | ⟨p, _, _, _, heq⟩
    · rw [heq]
      rcases hx with hx | hx | hx
      · rcases List.mem_cons.mp hx with rfl | hx
        · exact Or.inr (Or.inl (by simp))
        · exact Or.inl hx
      · exact Or.inr (Or.inl (List.mem_append_left _ hx))
      · exact Or.inr (Or.inr hx)
    · -- A reported conflict would still be there at the end.
      have hq' := quiet_of_sweep hadded hrest _ hq
      rw [heq] at hq'
      simp at hq'
    · rw [heq]
      rcases hx with hx | hx | hx
      · rcases List.mem_cons.mp hx with rfl | hx
        · exact Or.inr (Or.inr (mem_groups_insertGroup.mpr (Or.inl rfl)))
        · exact Or.inl hx
      · exact Or.inr (Or.inl hx)
      · exact Or.inr (Or.inr (mem_groups_insertGroup.mpr (Or.inr hx)))

theorem addRemoteGroups_keeps {fuel : Nat} {pending : List GroupId} {st : MergeState V}
    (hpending : ∀ x ∈ pending, x ∈ added) (hinv : AdditionsInv remote start added st.candidate) :
    AdditionsInv remote start added (addRemoteGroups K remote fuel pending st).candidate := by
  induction fuel generalizing pending st with
  | zero => exact hinv
  | succ fuel ih =>
    rw [addRemoteGroups]
    split
    · exact hinv
    · have hsweep := sweep_keeps (K := K) hadded hpending (st, []) hinv
      obtain ⟨kept, hkept, hsub⟩ := sweep_pending (K := K) hadded hpending (st, [])
      simp only
      split
      · exact hsweep
      · refine ih (fun x hx => hpending x ?_) hsweep
        rw [hkept, List.nil_append] at hx
        exact hsub.subset hx

theorem quiet_of_addRemoteGroups {fuel : Nat} {pending : List GroupId} {st : MergeState V}
    (hpending : ∀ x ∈ pending, x ∈ added)
    (hq : Quiet (addRemoteGroups K remote fuel pending st)) : Quiet st := by
  induction fuel generalizing pending st with
  | zero => exact hq
  | succ fuel ih =>
    rw [addRemoteGroups] at hq
    split at hq
    · exact hq
    · obtain ⟨kept, hkept, hsub⟩ := sweep_pending (K := K) hadded hpending (st, [])
      simp only at hq
      split at hq
      · exact quiet_of_sweep hadded hpending _ (quiet_report.mp hq).1
      · refine quiet_of_sweep hadded hpending (st, []) (ih (fun x hx => hpending x ?_) hq)
        rw [hkept, List.nil_append] at hx
        exact hsub.subset hx

/-- A quiet loop adds every pending group. -/
theorem addRemoteGroups_added {fuel : Nat} {pending : List GroupId} {st : MergeState V}
    (hfuel : pending.length < fuel) (hpending : ∀ x ∈ pending, x ∈ added)
    (hinv : AdditionsInv remote start added st.candidate)
    (hq : Quiet (addRemoteGroups K remote fuel pending st)) :
    ∀ x, x ∈ pending ∨ x ∈ st.candidate.groups →
      x ∈ (addRemoteGroups K remote fuel pending st).candidate.groups := by
  induction fuel generalizing pending st with
  | zero => omega
  | succ fuel ih =>
    rw [addRemoteGroups] at hq ⊢
    by_cases hempty : pending = []
    · simp [hempty]
    · rw [if_neg hempty] at hq ⊢
      obtain ⟨kept, hkept, hsub⟩ := sweep_pending (K := K) hadded hpending (st, [])
      rw [List.nil_append] at hkept
      simp only [hkept] at hq ⊢
      split at hq
      · -- A sweep that adds nothing reports every pending group.
        case isTrue hlen =>
        have := (quiet_report.mp hq).2
        simp only [List.map_eq_nil_iff] at this
        rw [this] at hlen
        exact absurd (List.length_eq_zero_iff.mp hlen.symm) hempty
      · case isFalse hlen =>
        rw [if_neg hlen]
        have hkeptAdded : ∀ x ∈ kept, x ∈ added := fun x hx => hpending x (hsub.subset hx)
        have hshorter : kept.length < fuel := by
          have := hsub.length_le
          omega
        have hsweepQuiet := quiet_of_addRemoteGroups hadded hkeptAdded hq
        have hsweepInv := sweep_keeps (K := K) hadded hpending (st, []) hinv
        intro x hx
        refine ih hshorter hkeptAdded hsweepInv hq x ?_
        rw [← hkept]
        refine sweep_added hadded hpending (st, []) hinv hsweepQuiet x ?_
        rcases hx with hx | hx
        · exact Or.inl hx
        · exact Or.inr (Or.inr hx)

end Adding

/-! ## Removing groups -/

/-- The parts of a database that no pass over groups or entries touches. -/
structure SameSettings (db out : Database V) : Prop where
  config : out.config = db.config
  root : out.root = db.root
  customIcons : out.customIcons = db.customIcons
  deletedObjects : out.deletedObjects = db.deletedObjects

theorem SameSettings.refl (db : Database V) : SameSettings db db := ⟨rfl, rfl, rfl, rfl⟩

theorem SameSettings.trans {db mid out : Database V} (h : SameSettings db mid)
    (h' : SameSettings mid out) : SameSettings db out :=
  ⟨h'.config.trans h.config, h'.root.trans h.root, h'.customIcons.trans h.customIcons,
    h'.deletedObjects.trans h.deletedObjects⟩

theorem OnlyGroups.settings {db out : Database V} (h : OnlyGroups db out) : SameSettings db out := by
  rw [h]
  exact ⟨rfl, rfl, rfl, rfl⟩

/-- The metadata of `cleared` forget the groups that are gone, and all else is as it was. -/
structure Forgets (cleared : List (Meta V → Option Uuid)) (db out : Database V) : Prop where
  references : ∀ reference ∈ Meta.references, ∀ uuid, reference out.metadata = some uuid ↔
    reference db.metadata = some uuid ∧
      ¬ (reference ∈ cleared ∧ ⟨uuid⟩ ∈ db.groups ∧ ⟨uuid⟩ ∉ out.groups)
  metadata : out.metadata.plain = db.metadata.plain

theorem Forgets.refl (cleared : List (Meta V → Option Uuid)) (db : Database V) :
    Forgets cleared db db where
  references _ _ _ := by
    rw [and_iff_left]
    rintro ⟨_, hmem, hgone⟩
    exact hgone hmem
  metadata := rfl

theorem Forgets.trans {cleared : List (Meta V → Option Uuid)} {db mid out : Database V}
    (h : Forgets cleared db mid) (h' : Forgets cleared mid out)
    (hdb : ∀ x ∈ mid.groups, x ∈ db.groups) (hmid : ∀ x ∈ out.groups, x ∈ mid.groups) :
    Forgets cleared db out where
  references reference hreference uuid := by
    rw [h'.references reference hreference, h.references reference hreference]
    constructor
    · rintro ⟨⟨hname, hbefore⟩, hafter⟩
      refine ⟨hname, fun ⟨hcleared, hmem, hgone⟩ => ?_⟩
      by_cases hmiddle : (⟨uuid⟩ : GroupId) ∈ mid.groups
      · exact hafter ⟨hcleared, hmiddle, hgone⟩
      · exact hbefore ⟨hcleared, hmem, hmiddle⟩
    · rintro ⟨hname, hkept⟩
      exact ⟨⟨hname, fun ⟨hcleared, hmem, hgone⟩ => hkept ⟨hcleared, hmem, mt (hmid _) hgone⟩⟩,
        fun ⟨hcleared, hmem, hgone⟩ => hkept ⟨hcleared, hdb _ hmem, hgone⟩⟩
  metadata := h'.metadata.trans h.metadata

/-- What a removed group takes along is gone from the table of groups. -/
theorem forgets_withoutGroup {cleared : List (Meta V → Option Uuid)} {db out : Database V}
    {id : GroupId} (h : db.WithoutGroup cleared id out) : Forgets cleared db out where
  references reference hreference uuid := by
    have hgone : (⟨uuid⟩ : GroupId) ∈ db.groups →
        (db.Below id ⟨uuid⟩ ↔ (⟨uuid⟩ : GroupId) ∉ out.groups) := by
      intro hmem
      constructor
      · intro hbelow
        simp [mem_iff_exists, h.gone _ hbelow]
      · intro hnot
        by_contra hbelow
        obtain ⟨group, hgroup⟩ := mem_iff_exists.mp hmem
        have hkept := h.kept _ hbelow
        rw [hgroup] at hkept
        exact hnot (mem_iff_exists.mpr ⟨_, hkept⟩)
    rw [h.references reference hreference]
    refine and_congr_right fun _ => not_congr (and_congr_right fun _ => ?_)
    exact and_congr_right hgone
  metadata := h.metadata

/-- Every attachment index still in use has the value it had. -/
def KeepsAttachments (db out : Database V) : Prop :=
  ∀ a, out.Refers a → out.attachments[a]? = db.attachments[a]?

/-- `x` is to go with a group of `deletions`. -/
def Doomed (db : Database V) (deletions : List GroupId) (x : GroupId) : Prop :=
  ∃ g ∈ deletions, Forest.Above db.parentOf g x

/-- What is left while groups are being removed: everything that is not doomed, unchanged. -/
structure RemovalInv (cleared : List (Meta V → Option Uuid))
    (lateEntries : GroupId → EntryId → Prop) (start : Database V)
    (deletions : List GroupId) (db : Database V) : Prop where
  settings : SameSettings start db
  forgets : Forgets cleared start db
  core : ∀ x ∈ db.groups, db.groups[x]?.map Group.core = start.groups[x]?.map Group.core
  spared : ∀ x ∈ start.groups, ¬ Doomed start deletions x → x ∈ db.groups
  hangs : Hangs db (fun _ _ => False) lateEntries
  entries : ∀ e ∈ db.entries, db.entries[e]? = start.entries[e]?
  entriesSpared : ∀ e p, start.homeOf e = some p → ¬ Doomed start deletions p → e ∈ db.entries
  attachments : KeepsAttachments start db
  entriesListed : ∀ x ∈ db.groups, db.childEntries x = start.childEntries x
  tidy : Tidy start → Tidy db
  old : ∀ x ∈ db.groups, x ∈ start.groups

section Removing
variable {K : Keepass V} {lateEntries : GroupId → EntryId → Prop} {start db : Database V}
  {deletions : List GroupId} {id : GroupId}

namespace RemovalInv

theorem parentOf (h : RemovalInv K.cleared lateEntries start deletions db) {x p : GroupId}
    (hx : db.parentOf x = some p) : start.parentOf x = some p := by
  have hcore := congrArg (Option.bind · (·.parent)) (h.core x (mem_groups_of_parentOf hx))
  rw [← hx]
  simpa [Database.parentOf, Option.bind_map, Function.comp_def] using hcore.symm

theorem homeOf (h : RemovalInv K.cleared lateEntries start deletions db) {e : EntryId} {p : GroupId}
    (he : db.homeOf e = some p) : start.homeOf e = some p := by
  obtain ⟨entry, hentry, hp⟩ := homeOf_eq_some.mp he
  refine homeOf_eq_some.mpr ⟨entry, ?_, hp⟩
  rw [← h.entries e (mem_iff_exists.mpr ⟨entry, hentry⟩), hentry]

/-- Removing one more group of the list. -/
theorem step (h : RemovalInv K.cleared lateEntries start deletions db)
    (hlate : ∀ x e, Doomed start deletions x → ¬ lateEntries x e) (hdel : id ∈ deletions)
    (hid : id ∈ db.groups) (hroot : id ≠ db.root) :
    RemovalInv K.cleared lateEntries start deletions (K.removeGroup db id) ∧
      id ∉ (K.removeGroup db id).groups ∧
      ∀ x ∈ (K.removeGroup db id).groups, x ∈ db.groups := by
  have hw := K.removeGroup_spec db id hid hroot
  have hdoomed : ∀ x, Forest.Above db.parentOf id x → Doomed start deletions x :=
    fun x hx => ⟨id, hdel, Forest.above_mono (fun _ _ => h.parentOf) hx⟩
  have hlate' : ∀ x e, Forest.Above db.parentOf id x → ¬ lateEntries x e :=
    fun x e hx => hlate x e (hdoomed x hx)
  have hmem := @mem_groups_withoutGroup _ _ _ _ _ h.hangs _ hw
  -- An entry that is left is one that was there.
  have hentry : ∀ e ∈ (K.removeGroup db id).entries,
      e ∈ db.entries ∧ (K.removeGroup db id).entries[e]? = db.entries[e]? := by
    intro e he
    obtain ⟨entry, hentry⟩ := mem_iff_exists.mp he
    have hhome : (K.removeGroup db id).homeOf e = some entry.parent :=
      homeOf_eq_some.mpr ⟨entry, hentry, rfl⟩
    obtain ⟨hhome', hnot⟩ := (homeOf_withoutGroup h.hangs hw hlate').mp hhome
    have hkept := (getElem?_entries_withoutGroup h.hangs hw hlate' hhome').2 hnot
    exact ⟨mem_iff_exists.mpr ⟨entry, hkept ▸ hentry⟩, hkept⟩
  have hsub : ∀ x ∈ (K.removeGroup db id).groups, x ∈ db.groups := fun x hx => (hmem.mp hx).1
  refine ⟨⟨h.settings.trans ⟨hw.config, hw.root, hw.customIcons, hw.deletedObjects⟩,
    h.forgets.trans (forgets_withoutGroup hw) h.old hsub, ?_, ?_,
    hangs_withoutGroup h.hangs hw hroot hlate', ?_, ?_, ?_, ?_,
    fun htidy => tidy_withoutGroup h.hangs hw (h.tidy htidy),
    fun x hx => h.old x (hsub x hx)⟩, ?_, hsub⟩
  · intro x hx
    obtain ⟨hx, hnot⟩ := hmem.mp hx
    rw [core_withoutGroup h.hangs hw hnot]
    exact h.core x hx
  · intro x hx hspared
    exact hmem.mpr ⟨h.spared x hx hspared, fun hx => hspared (hdoomed x hx)⟩
  · intro e he
    obtain ⟨he', heq⟩ := hentry e he
    rw [heq]
    exact h.entries e he'
  · intro e p hhome hspared
    have he := h.entriesSpared e p hhome hspared
    obtain ⟨entry, hentry'⟩ := mem_iff_exists.mp he
    have hhome' : db.homeOf e = some entry.parent := homeOf_eq_some.mpr ⟨entry, hentry', rfl⟩
    obtain rfl : entry.parent = p := Option.some.inj ((h.homeOf hhome').symm.trans hhome)
    have hkept := (getElem?_entries_withoutGroup h.hangs hw hlate' hhome').2
      fun hx => hspared (hdoomed _ hx)
    exact mem_iff_exists.mpr ⟨entry, hkept.trans hentry'⟩
  · intro a ha
    rw [K.removeGroup_attachments db id a ha]
    refine h.attachments a ?_
    obtain ⟨e, entry, hentry', hrefers⟩ := ha
    have := (hentry e (mem_iff_exists.mpr ⟨entry, hentry'⟩)).2
    exact ⟨e, entry, this ▸ hentry', hrefers⟩
  · intro x hx
    obtain ⟨hx, hnot⟩ := hmem.mp hx
    rw [childEntries_withoutGroup h.hangs hw hnot]
    exact h.entriesListed x hx
  · intro hx
    exact (hmem.mp hx).2 (Forest.above_refl id)

end RemovalInv

theorem removeGroups_spec {done : List GroupId} {st : MergeState V}
    (hlate : ∀ x e, Doomed start deletions x → ¬ lateEntries x e)
    (hroot : start.root ∉ deletions) (hdone : ∀ g ∈ done, g ∈ deletions)
    (h : RemovalInv K.cleared lateEntries start deletions st.candidate) :
    RemovalInv K.cleared lateEntries start deletions (removeGroups K done st).candidate ∧
      (∀ g ∈ done, g ∉ (removeGroups K done st).candidate.groups) ∧
      (∀ x ∈ (removeGroups K done st).candidate.groups, x ∈ st.candidate.groups) ∧
      (removeGroups K done st).conflicts = st.conflicts := by
  induction done generalizing st with
  | nil => exact ⟨h, by simp, fun _ hx => hx, rfl⟩
  | cons id rest ih =>
    have hrest : ∀ g ∈ rest, g ∈ deletions := fun g hg => hdone g (List.mem_cons_of_mem id hg)
    have hdel := hdone id List.mem_cons_self
    rw [show removeGroups K (id :: rest) st = removeGroups K rest
      (if id ∈ st.candidate.groups then st.edit (K.removeGroup · id) else st) from rfl]
    by_cases hid : id ∈ st.candidate.groups
    · rw [if_pos hid]
      have hne : id ≠ st.candidate.root := by
        rintro rfl
        exact hroot (h.settings.root ▸ hdel)
      obtain ⟨hstep, hgone, hsub⟩ := h.step (K := K) hlate hdel hid hne
      have hstep : RemovalInv K.cleared lateEntries start deletions
          (st.edit (K.removeGroup · id)).candidate := hstep
      obtain ⟨hinv, hgoneRest, hsubRest, hconf⟩ := ih hrest hstep
      refine ⟨hinv, ?_, fun x hx => hsub x (hsubRest x hx), hconf⟩
      intro g hg
      rcases List.mem_cons.mp hg with rfl | hg
      · exact fun hx => hgone (hsubRest g hx)
      · exact hgoneRest g hg
    · rw [if_neg hid]
      obtain ⟨hinv, hgoneRest, hsubRest, hconf⟩ := ih hrest h
      refine ⟨hinv, ?_, hsubRest, hconf⟩
      intro g hg
      rcases List.mem_cons.mp hg with rfl | hg
      · exact fun hx => hid (hsubRest g hx)
      · exact hgoneRest g hg

end Removing

end NianPass.Kdbx
