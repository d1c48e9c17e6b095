import NianPass.Kdbx.Recycling
import NianPass.Lib.Worklist

/-
  Permanent deletion of a group.

  Three notions of the subtree meet in `permanently_delete_group`: the worklist
  of `group_subtree_ids` goes down the child lists, `keepass-rs` removes what it
  reaches through them, and everything else follows the parent pointers. In a
  valid database they are one: `GroupDeleted` states the outcome through the
  parent pointers alone, and `permanentlyDeleteGroup_exact` shows that both entry
  points have it.
-/
namespace NianPass.Kdbx

open Method

variable {V : Type}

/-! ## The outcome -/

/-- The UUID of a group below `id`, or of an entry in one. -/
def GoesWith (db : Database V) (id : GroupId) (uuid : Uuid) : Prop :=
  Forest.Above db.parentOf id ⟨uuid⟩ ∨
    ∃ entry : Entry V, db.entries[(⟨uuid⟩ : EntryId)]? = some entry ∧
      Forest.Above db.parentOf id entry.parent

/-- `out` is `db` once the group `id` and what hangs below it is deleted at `now`, and nothing
else has happened. -/
structure GroupDeleted (db : Database V) (id : GroupId) (now : Time) (out : Database V) : Prop where
  groupsGone : ∀ x, Forest.Above db.parentOf id x → x ∉ out.groups
  groupsKept : ∀ x, ¬ Forest.Above db.parentOf id x → db.parentOf id ≠ some x →
    out.groups[x]? = db.groups[x]?
  parentKept : ∀ p, db.parentOf id = some p →
    out.groups[p]? = db.groups[p]?.map (Group.mapGroups (·.filter (· ≠ id)))
  entriesGone : ∀ (e : EntryId) (entry : Entry V), db.entries[e]? = some entry →
    Forest.Above db.parentOf id entry.parent → e ∉ out.entries
  entriesKept : ∀ (e : EntryId) (entry : Entry V), db.entries[e]? = some entry →
    ¬ Forest.Above db.parentOf id entry.parent → out.entries[e]? = some entry
  entriesOld : ∀ e ∈ out.entries, e ∈ db.entries
  buried : ∀ uuid, GoesWith db id uuid → out.deletedObjects[uuid]? = some (some now)
  tombstonesKept : ∀ uuid, ¬ GoesWith db id uuid →
    out.deletedObjects[uuid]? = db.deletedObjects[uuid]?
  oldTombstones : ∀ uuid ∈ db.deletedObjects, ¬ GoesWith db id uuid
  references : ∀ reference ∈ Meta.references, ∀ uuid, reference out.metadata = some uuid ↔
    reference db.metadata = some uuid ∧ ¬ Forest.Above db.parentOf id ⟨uuid⟩
  metadata : out.metadata.plain = db.metadata.plain
  root : out.root = db.root
  config : out.config = db.config
  customIcons : out.customIcons = db.customIcons
  attachments : ∀ a, out.Refers a → out.attachments[a]? = db.attachments[a]?

/-! ## The subtree -/

section Subtree
variable {db : Database V}

/-- `groupSubtreeIds` runs the loop, as long as the bound exceeds what is left to record. -/
theorem groupSubtreeIds_of_collects {fuel : Nat} {result pending out : List GroupId}
    (h : Forest.Collects (fun x => db.groups[x]?.map (·.groups)) result pending out)
    (hfuel : out.length ≤ fuel + result.length) :
    groupSubtreeIds db fuel result pending = .ok out := by
  induction h generalizing fuel with
  | done result => cases fuel <;> rfl
  | visit hnext hrest ih =>
    have hle := hrest.length_le
    simp only [List.length_append, List.length_singleton] at hle
    obtain ⟨fuel, rfl⟩ : ∃ n, fuel = n + 1 := ⟨fuel - 1, by omega⟩
    obtain ⟨group, hgroup, rfl⟩ := Option.map_eq_some_iff.mp hnext
    rw [groupSubtreeIds, hgroup]
    apply ih
    rw [List.length_append, List.length_singleton]
    omega

/-- In a valid database the worklist ends, and has met what hangs below `id`, each group once. -/
theorem groupSubtreeIds_exact (hdb : SyncValid db) {id : GroupId} (hid : id ∈ db.groups) :
    ∃ subtree, Forest.Collects (fun x => db.groups[x]?.map (·.groups)) [] [id] subtree ∧
      groupSubtreeIds db db.groups.size [] [id] = .ok subtree ∧ subtree.Nodup ∧
      ∀ x, x ∈ subtree ↔ Forest.Above db.parentOf id x := by
  have hlive : ∀ x, Forest.Above db.parentOf id x → x ∈ db.groups := by
    intro x hx
    by_contra hmissing
    rw [Forest.above_top (not_mem_parentOf hmissing)] at hx
    exact hmissing (hx ▸ hid)
  have hlist : ∀ x, Forest.Above db.parentOf id x →
      ∃ next, db.groups[x]?.map (·.groups) = some next ∧ next.Nodup ∧
        ∀ c, c ∈ next ↔ db.parentOf c = some x := by
    intro x hx
    obtain ⟨group, hgroup⟩ := mem_iff_exists.mp (hlive x hx)
    have hchildren : db.childGroups x = group.groups := by simp [Database.childGroups, hgroup]
    refine ⟨group.groups, by rw [hgroup]; rfl, ?_, ?_⟩
    · rw [← hchildren]
      exact hdb.tidy.groups x
    · intro c
      rw [← hchildren]
      exact ⟨fun hc => (hdb.tree.owned x c hc).resolve_right fun h => h, hdb.tree.listed c x⟩
  have hfinite : ∀ x, Forest.Above db.parentOf id x → x ∈ db.groups.keys :=
    fun x hx => Std.ExtTreeMap.mem_keys.mpr (hlive x hx)
  obtain ⟨subtree, hcollects, hnodup, hmem⟩ := Forest.collects_below hfinite hlist
    fun p hp => not_above_parent hdb hp
  refine ⟨subtree, hcollects, groupSubtreeIds_of_collects hcollects ?_, hnodup, hmem⟩
  have hsub : subtree ⊆ db.groups.keys := fun x hx =>
    Std.ExtTreeMap.mem_keys.mpr (hlive x ((hmem x).mp hx))
  calc subtree.length ≤ db.groups.keys.length := (hnodup.subperm hsub).length_le
    _ = db.groups.size := Std.ExtTreeMap.length_keys
    _ = db.groups.size + ([] : List GroupId).length := rfl

end Subtree

/-! ## The candidate -/

section Candidate
variable {db out : Database V}

/-- The loop that takes the icons off touches nothing else. -/
theorem clearIcons_ok {groups : List GroupId} (hlive : ∀ x ∈ groups, x ∈ db.groups) :
    ∃ table, clearIcons db groups = .ok { db with groups := table } ∧
      ∀ x : GroupId, table[x]? = db.groups[x]?.map fun group =>
        if x ∈ groups then { group with icon := none } else group := by
  induction groups generalizing db with
  | nil => exact ⟨db.groups, rfl, fun x => by simp⟩
  | cons id groups ih =>
    have hnext : ∀ x ∈ groups, x ∈ (db.editGroup id ({ · with icon := none })).groups := by
      intro x hx
      exact Std.ExtTreeMap.mem_modify.mpr (hlive x (List.mem_cons_of_mem id hx))
    obtain ⟨table, hok, htable⟩ := ih hnext
    refine ⟨table, Loop.foldlM_cons_ok.mpr ⟨_, if_pos (hlive id List.mem_cons_self), hok⟩, ?_⟩
    intro x
    rw [htable x, getElem?_editGroup]
    by_cases heq : id = x
    · subst heq
      rw [if_pos rfl, Option.map_map]
      congr 1
      funext group
      rw [if_pos List.mem_cons_self]
      simp
    · rw [if_neg heq]
      simp only [List.mem_cons, @eq_comm _ x id, heq, false_or]

theorem getElem?_foldl_insert {time : Option Time} (uuids : List Uuid)
    (deleted : Map Uuid (Option Time)) (uuid : Uuid) :
    (uuids.foldl (fun deleted uuid => deleted.insert uuid time) deleted)[uuid]? =
      if uuid ∈ uuids then some time else deleted[uuid]? := by
  induction uuids generalizing deleted with
  | nil => simp
  | cons x uuids ih =>
    simp only [List.foldl_cons, ih, Std.ExtTreeMap.getElem?_insert,
      Std.LawfulEqCmp.compare_eq_iff_eq, List.mem_cons, @eq_comm _ x uuid]
    by_cases hin : uuid ∈ uuids <;> simp [hin]

/-- What the library buries is what goes with the group. -/
theorem mem_removedWith (hdb : SyncValid db) {id : GroupId} {uuid : Uuid} :
    uuid ∈ Editing.removedWith db id ↔ GoesWith db id uuid := by
  simp only [Editing.removedWith, List.mem_flatMap, List.mem_cons, List.mem_map,
    Database.mem_subtree, below_iff_above hdb.tree]
  constructor
  · rintro ⟨x, hx, rfl | ⟨e, he, rfl⟩⟩
    · exact Or.inl hx
    · have hhome := (hdb.tree.entryOwned x e he).resolve_right fun h => h
      obtain ⟨entry, hentry, rfl⟩ := homeOf_eq_some.mp hhome
      exact Or.inr ⟨entry, hentry, hx⟩
  · rintro (hx | ⟨entry, hentry, hx⟩)
    · exact ⟨_, hx, Or.inl rfl⟩
    · exact ⟨entry.parent, hx, Or.inr ⟨⟨uuid⟩,
        hdb.tree.entryListed _ _ (homeOf_eq_some.mpr ⟨entry, hentry, rfl⟩), rfl⟩⟩

theorem references_cleared {id : GroupId} {subtree : List GroupId}
    (hsubtree : ∀ x, x ∈ subtree ↔ Forest.Above db.parentOf id x)
    {reference : Meta V → Option Uuid} (hreference : reference ∈ Meta.references) (uuid : Uuid) :
    reference (clearDeletedGroupMetadataReferences subtree db.metadata) = some uuid ↔
      reference db.metadata = some uuid ∧ ¬ Forest.Above db.parentOf id ⟨uuid⟩ := by
  have hfilter : ∀ stored : Option Uuid,
      (stored.filter fun uuid => decide ((⟨uuid⟩ : GroupId) ∉ subtree)) = some uuid ↔
        stored = some uuid ∧ ¬ Forest.Above db.parentOf id ⟨uuid⟩ := by
    intro stored
    rw [Option.filter_eq_some_iff, decide_eq_true_iff, hsubtree]
  simp only [Meta.references, List.mem_cons, List.not_mem_nil, or_false] at hreference
  rcases hreference with rfl | rfl | rfl | rfl <;> exact hfilter _

end Candidate

/-! ## The deletion -/

/-- `candidate` is `db` with the icons of the groups below `id` and the references to them taken
away. -/
structure Prepared (db : Database V) (id : GroupId) (candidate : Database V) : Prop where
  shape : SameShape db candidate
  groups : ∀ x, ¬ Forest.Above db.parentOf id x → candidate.groups[x]? = db.groups[x]?
  entries : candidate.entries = db.entries
  references : ∀ reference ∈ Meta.references, ∀ uuid, reference candidate.metadata = some uuid ↔
    reference db.metadata = some uuid ∧ ¬ Forest.Above db.parentOf id ⟨uuid⟩
  metadata : candidate.metadata.plain = db.metadata.plain
  config : candidate.config = db.config
  customIcons : candidate.customIcons = db.customIcons
  attachments : candidate.attachments = db.attachments
  deletedObjects : candidate.deletedObjects = db.deletedObjects

/-- What the call does before the library removes the group. -/
theorem prepared_candidate {db : Database V} {id : GroupId} {subtree : List GroupId}
    (hsubtree : ∀ x, x ∈ subtree ↔ Forest.Above db.parentOf id x)
    (hlive : ∀ x ∈ subtree, x ∈ db.groups) :
    ∃ cleared, clearIcons db subtree = .ok cleared ∧ Prepared db id { cleared with
      metadata := clearDeletedGroupMetadataReferences subtree cleared.metadata } := by
  obtain ⟨table, hcleared, htable⟩ := clearIcons_ok hlive
  refine ⟨_, hcleared, ⟨⟨rfl, fun x => ?_, fun _ => rfl⟩, fun x hx => ?_, rfl, ?_, rfl, rfl, rfl, rfl, rfl⟩⟩
  · show table[x]?.map Group.shape = _
    rw [htable x, Option.map_map]
    congr 1
    funext group
    by_cases hx : x ∈ subtree <;> simp [hx, Group.shape]
  · have hin : x ∉ subtree := fun h => hx ((hsubtree x).mp h)
    show table[x]? = _
    rw [htable x]
    simp [hin]
  · exact fun reference hreference uuid => references_cleared hsubtree hreference uuid

namespace Prepared
variable {db candidate : Database V} {id : GroupId} (h : Prepared db id candidate)
  (hdb : SyncValid db)
include h hdb

theorem below_iff (x : GroupId) : candidate.Below id x ↔ Forest.Above db.parentOf id x := by
  rw [below_iff_above (h.shape.hangs hdb.tree), h.shape.parentOf]

/-- An entry is listed by the group it is in, and by no other. -/
theorem mem_childEntries {e : EntryId} {entry : Entry V} (hentry : db.entries[e]? = some entry)
    (x : GroupId) : e ∈ candidate.childEntries x ↔ entry.parent = x := by
  have hhome : db.homeOf e = some entry.parent := by simp [Database.homeOf, hentry]
  rw [h.shape.childEntries]
  constructor
  · intro he
    have howner := (hdb.tree.entryOwned x e he).resolve_right fun h => h
    exact Option.some.inj (hhome.symm.trans howner)
  · rintro rfl
    exact hdb.tree.entryListed e _ hhome

theorem mem_removedWith (uuid : Uuid) :
    uuid ∈ Editing.removedWith candidate id ↔ GoesWith db id uuid := by
  rw [← Kdbx.mem_removedWith hdb]
  simp only [Editing.removedWith, List.mem_flatMap, List.mem_cons, List.mem_map,
    Database.mem_subtree, h.below_iff hdb, h.shape.childEntries, below_iff_above hdb.tree]

variable {cleared : List (Meta V → Option Uuid)} {without : Database V}
  (hspec : candidate.WithoutGroup cleared id without)
include hspec

/-- The groups that stay are as they were, without the group in the list of its parent. -/
theorem groups_without {x : GroupId} (hx : ¬ Forest.Above db.parentOf id x) :
    without.groups[x]? = db.groups[x]?.map (Group.mapGroups fun children =>
      if db.parentOf id = some x then children.filter (· ≠ id) else children) := by
  rw [hspec.kept x fun hbelow => hx ((h.below_iff hdb x).mp hbelow), h.groups x hx, h.shape.parentOf]

theorem not_mem_groups {x : GroupId} (hx : Forest.Above db.parentOf id x) : x ∉ without.groups := by
  intro hmem
  obtain ⟨group, hgroup⟩ := mem_iff_exists.mp hmem
  cases (hspec.gone x ((h.below_iff hdb x).mpr hx)).symm.trans hgroup

theorem not_mem_entries {e : EntryId} {entry : Entry V} (hentry : db.entries[e]? = some entry)
    (hx : Forest.Above db.parentOf id entry.parent) : e ∉ without.entries := by
  intro hmem
  obtain ⟨found, hfound⟩ := mem_iff_exists.mp hmem
  have hgone := hspec.entriesGone entry.parent e ((h.below_iff hdb _).mpr hx)
    ((h.mem_childEntries hdb hentry _).mpr rfl)
  cases hgone.symm.trans hfound

theorem entries_without {e : EntryId} {entry : Entry V} (hentry : db.entries[e]? = some entry)
    (hx : ¬ Forest.Above db.parentOf id entry.parent) : without.entries[e]? = some entry := by
  rw [← hentry, ← h.entries]
  refine hspec.entriesKept e fun x hbelow hin => hx ?_
  obtain rfl := (h.mem_childEntries hdb hentry x).mp hin
  exact (h.below_iff hdb _).mp hbelow

/-- No entry is new. -/
theorem mem_of_without {e : EntryId} (he : e ∈ without.entries) : e ∈ db.entries := by
  by_contra hnew
  have hunlisted : ∀ x, candidate.Below id x → e ∉ candidate.childEntries x := by
    intro x _ hin
    rw [h.shape.childEntries] at hin
    obtain ⟨entry, hentry, -⟩ := homeOf_eq_some.mp
      ((hdb.tree.entryOwned x e hin).resolve_right fun h => h)
    exact hnew (mem_iff_exists.mpr ⟨entry, hentry⟩)
  obtain ⟨found, hfound⟩ := mem_iff_exists.mp he
  have hnone := hspec.entriesKept e hunlisted
  rw [h.entries, Std.ExtTreeMap.getElem?_eq_none hnew, hfound] at hnone
  cases hnone

/-- The references that are left are the ones the call left. -/
theorem references_without {reference : Meta V → Option Uuid} (hreference : reference ∈ Meta.references)
    (uuid : Uuid) : reference without.metadata = some uuid ↔
      reference db.metadata = some uuid ∧ ¬ Forest.Above db.parentOf id ⟨uuid⟩ := by
  rw [hspec.references reference hreference uuid, h.references reference hreference uuid]
  constructor
  · exact fun hkept => hkept.1
  · intro hkept
    exact ⟨hkept, fun hgone => hkept.2 ((h.below_iff hdb _).mp hgone.2.2)⟩

omit hdb in
theorem deletedObjects_without (now : Time) (uuid : Uuid) :
    ((Editing.removedWith candidate id).foldl (fun deleted uuid => deleted.insert uuid (some now))
      without.deletedObjects)[uuid]? =
      if uuid ∈ Editing.removedWith candidate id then some (some now)
      else db.deletedObjects[uuid]? := by
  rw [getElem?_foldl_insert, hspec.deletedObjects, h.deletedObjects]

end Prepared

section Exact
variable (lib : Editing V) (env : Ambient) {db : Database V}

/-- What the library makes of the candidate. -/
theorem Prepared.deleted {candidate : Database V} {id : GroupId} (h : Prepared db id candidate)
    (hdb : SyncValid db) (hid : id ∈ db.groups) (hroot : id ≠ db.root) :
    ∃ out, lib.trackRemoveGroup env candidate id = some out ∧ GroupDeleted db id env.now out := by
  have hnotRoot : id ≠ candidate.root := by rwa [h.shape.root]
  have hspec := lib.removeGroup_spec candidate id (h.shape.mem_groups.mpr hid) hnotRoot
  have hdeleted := h.deletedObjects_without hspec env.now
  refine ⟨_, if_neg hnotRoot, ?_⟩
  constructor
  case groupsGone => exact fun x hx => h.not_mem_groups hdb hspec hx
  case groupsKept =>
    intro x hx hne
    refine (h.groups_without hdb hspec hx).trans ?_
    simp only [hne, if_false]
    cases db.groups[x]? <;> rfl
  case parentKept =>
    intro p hp
    refine (h.groups_without hdb hspec (not_above_parent hdb hp)).trans ?_
    simp only [hp, if_true]
  case entriesGone => exact fun e entry hentry hx => h.not_mem_entries hdb hspec hentry hx
  case entriesKept => exact fun e entry hentry hx => h.entries_without hdb hspec hentry hx
  case entriesOld => exact fun e he => h.mem_of_without hdb hspec he
  case buried =>
    intro uuid huuid
    exact (hdeleted uuid).trans (if_pos ((h.mem_removedWith hdb uuid).mpr huuid))
  case tombstonesKept =>
    intro uuid huuid
    exact (hdeleted uuid).trans (if_neg fun hin => huuid ((h.mem_removedWith hdb uuid).mp hin))
  case oldTombstones =>
    rintro uuid hold (hx | ⟨entry, hentry, -⟩)
    · refine hdb.identified.notDeleted uuid .group ?_ hold
      by_contra hmissing
      rw [Forest.above_top (not_mem_parentOf hmissing)] at hx
      rw [hx] at hid
      exact hmissing hid
    · exact hdb.identified.notDeleted uuid .entry (mem_iff_exists.mpr ⟨entry, hentry⟩) hold
  case references => exact fun reference hr uuid => h.references_without hdb hspec hr uuid
  case metadata => exact hspec.metadata.trans h.metadata
  case root => exact hspec.root.trans h.shape.root
  case config => exact hspec.config.trans h.config
  case customIcons => exact hspec.customIcons.trans h.customIcons
  case attachments =>
    intro a ha
    have hkept := lib.removeGroup_attachments candidate id a ha
    rwa [h.attachments] at hkept

/-- The body of the call, from the database to the one that is committed. -/
theorem deleted_candidate (hdb : SyncValid db) {id : GroupId} (hid : id ∈ db.groups)
    (hroot : id ≠ db.root) {subtree : List GroupId}
    (hsubtree : ∀ x, x ∈ subtree ↔ Forest.Above db.parentOf id x) :
    ∃ cleared out, clearIcons db subtree = .ok cleared ∧ id ∈ cleared.groups ∧
      lib.trackRemoveGroup env { cleared with
        metadata := clearDeletedGroupMetadataReferences subtree cleared.metadata } id = some out ∧
      GroupDeleted db id env.now out := by
  have hlive : ∀ x ∈ subtree, x ∈ db.groups := by
    intro x hx
    by_contra hmissing
    have habove := (hsubtree x).mp hx
    rw [Forest.above_top (not_mem_parentOf hmissing)] at habove
    exact hmissing (habove ▸ hid)
  obtain ⟨cleared, hcleared, hprepared⟩ := prepared_candidate hsubtree hlive
  obtain ⟨out, hout, hdeleted⟩ := hprepared.deleted lib env hdb hid hroot
  exact ⟨cleared, out, hcleared, hprepared.shape.mem_groups.mpr hid, hout, hdeleted⟩

variable (doc : KdbxDocument V)

/-- Permanent deletion of a group, asked for by its name: the call succeeds, what hangs below the
group is gone and buried, and nothing else has changed. It makes no difference whether a group of
the bin is deleted as such, and the worklist that finds the subtree ends with each of its groups
once. -/
theorem permanentlyDeleteGroup_exact (hdoc : databaseValidForSync doc.database = true)
    {id : GroupId} (hid : id ∈ doc.database.groups) (hroot : id ≠ doc.database.root) :
    (∃ subtree, Forest.Collects (fun x => doc.database.groups[x]?.map (·.groups)) [] [id] subtree ∧
      groupSubtreeIds doc.database doc.database.groups.size [] [id] = .ok subtree ∧
      subtree.Nodup ∧ ∀ x, x ∈ subtree ↔ Forest.Above doc.database.parentOf id x) ∧
    ∃ out, GroupDeleted doc.database id env.now out ∧
      (KdbxDocument.permanentlyDeleteGroup lib env (Database.uuidText id.uuid)).call doc =
        (.ok ⟨⟩, (doc.withDatabase out).markChanged) ∧
      ∀ recycle, recycleBinId doc.database = some recycle → id ≠ recycle →
        Forest.Above doc.database.parentOf recycle id →
        (KdbxDocument.permanentlyDeleteRecycledGroup lib env (Database.uuidText id.uuid)).call doc =
          (.ok ⟨⟩, (doc.withDatabase out).markChanged) := by
  have hdb := databaseValidForSync_iff.mp hdoc
  obtain ⟨subtree, hcollects, hsubtree, hnodup, hmem⟩ := groupSubtreeIds_exact hdb hid
  obtain ⟨cleared, out, hcleared, hlive, hout, hdeleted⟩ :=
    deleted_candidate lib env hdb hid hroot hmem
  obtain ⟨group, hgroup⟩ := mem_iff_exists.mp hlive
  have hfind : doc.database.findGroupId (Database.uuidText id.uuid) = .ok id :=
    Database.findGroupId_eq_ok.mpr ⟨hid, rfl⟩
  have hcall : (KdbxDocument.permanentlyDeleteGroup lib env (Database.uuidText id.uuid)).call doc =
      (.ok ⟨⟩, (doc.withDatabase out).markChanged) := by
    unfold KdbxDocument.permanentlyDeleteGroup
    rw [call_get, call_check hfind, if_neg hroot, call_check hsubtree, call_check hcleared,
      call_okOr hgroup, call_okOr hout]
    rfl
  refine ⟨⟨subtree, hcollects, hsubtree, hnodup, hmem⟩, out, hdeleted, hcall, ?_⟩
  intro recycle hrecycle hne habove
  have hin : ¬ (id = recycle ∨ ¬ groupIsInRecycleBin doc.database id recycle) := by
    rintro (heq | hout)
    · exact hne heq
    · exact hout (groupIsInRecycleBin_iff.mpr habove)
  unfold KdbxDocument.permanentlyDeleteRecycledGroup
  rw [call_get, call_check hfind, call_okOr hrecycle, if_neg hin]
  exact hcall

end Exact

/-- A vault whose bin holds a group with an entry. -/
def binnedVault : KdbxDocument Unit :=
  (MutationCall.perform Editing.reference ⟨.trashGroup (Database.uuidText 2), ⟨7, 4⟩⟩ mailVault).2

set_option maxRecDepth 100000 in
theorem permanentlyDeleteGroup_exact_binned :
    ∃ out, GroupDeleted binnedVault.database ⟨2⟩ 8 out ∧ (⟨3⟩ : EntryId) ∉ out.entries ∧
      (KdbxDocument.permanentlyDeleteRecycledGroup Editing.reference ⟨8, 5⟩
          (Database.uuidText 2)).call binnedVault =
        (.ok ⟨⟩, (binnedVault.withDatabase out).markChanged) := by
  obtain ⟨-, out, hdeleted, -, hrecycled⟩ := @permanentlyDeleteGroup_exact Unit Editing.reference
    ⟨8, 5⟩ binnedVault (by decide +kernel) ⟨2⟩ (by decide +kernel) (by decide +kernel)
  have hbin : Forest.Above binnedVault.database.parentOf ⟨4⟩ ⟨2⟩ :=
    groupIsInRecycleBin_iff.mp (by decide +kernel)
  obtain ⟨entry, hentry⟩ : ∃ entry, binnedVault.database.entries[(⟨3⟩ : EntryId)]? = some entry :=
    mem_iff_exists.mp (by decide +kernel)
  have hhome : entry.parent = ⟨2⟩ := by
    have hsame : binnedVault.database.homeOf ⟨3⟩ = some ⟨2⟩ := by decide +kernel
    obtain ⟨found, hfound, hparent⟩ := homeOf_eq_some.mp hsame
    obtain rfl := Option.some.inj (hentry.symm.trans hfound)
    exact hparent
  refine ⟨out, hdeleted, hdeleted.entriesGone ⟨3⟩ entry hentry (hhome ▸ Forest.above_refl _), ?_⟩
  exact hrecycled ⟨4⟩ (by decide +kernel) (by decide) hbin

end NianPass.Kdbx
