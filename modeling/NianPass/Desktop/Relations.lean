import NianPass.Desktop.Snapshot

/-
  What the window's check of a snapshot decides (`validateSnapshotRelations`).

  The loop over the groups gives each child one parent (`relateGroups_eq_some_iff`), the walk
  from the root meets every group once (`Forest.visit_covers_iff`). Together they accept the
  proper snapshots (`validateSnapshotRelations_iff`).
-/
namespace NianPass.Desktop.Snapshot

/-! ## Proper snapshots -/

/-- One group lists the other as its child. -/
def Lists (snapshot : VaultCoreSnapshot) (parent child : String) : Prop :=
  ∃ group ∈ snapshot.groups, group.id = parent ∧ child ∈ group.childGroupIds

/-- The groups are a tree below the root, and every entry is listed once, by its own group. -/
structure Proper (snapshot : VaultCoreSnapshot) : Prop where
  groupIds : (snapshot.groups.map (·.id)).Nodup
  entryIds : (snapshot.entries.map (·.id)).Nodup
  root : ∃ group ∈ snapshot.groups, group.id = snapshot.rootGroupId
  bin : ∀ bin, snapshot.recycleBinGroupId = some bin →
    bin ≠ snapshot.rootGroupId ∧ ∃ group ∈ snapshot.groups, group.id = bin
  child : ∀ parent child, Lists snapshot parent child →
    child ≠ snapshot.rootGroupId ∧ ∃ group ∈ snapshot.groups, group.id = child
  oneParent : (snapshot.groups.flatMap (·.childGroupIds)).Nodup
  reached : ∀ group ∈ snapshot.groups,
    Relation.ReflTransGen (Lists snapshot) snapshot.rootGroupId group.id
  member : ∀ group ∈ snapshot.groups, ∀ id ∈ group.entryIds,
    ∃ entry ∈ snapshot.entries, entry.id = id ∧ entry.groupId = group.id
  listedOnce : (snapshot.groups.flatMap (·.entryIds)).Perm (snapshot.entries.map (·.id))

/-! ## The loop -/

section Loop
variable {snapshot : VaultCoreSnapshot}

theorem sizeOf_eq_length (values : List String) : sizeOf values = values.length ↔ values.Nodup := by
  unfold sizeOf
  constructor
  · intro h
    rw [← (List.dedup_sublist values).eq_of_length h]
    exact List.nodup_dedup values
  · intro h
    rw [h.dedup]

theorem unique_iff {values : List String} : unique values = true ↔ values.Nodup := by
  rw [unique, decide_eq_true_iff, sizeOf_eq_length]

/-- None of them has a parent yet, and none comes twice. -/
def Fresh (ids : List String) (parents : List (String × String)) : Prop :=
  ids.Nodup ∧ ∀ id ∈ ids, id ∉ parents.map Prod.fst

theorem fresh_append {ids later : List String} {parents added : List (String × String)}
    (hadded : added.map Prod.fst = ids) :
    Fresh (ids ++ later) parents ↔ Fresh ids parents ∧ Fresh later (parents ++ added) := by
  unfold Fresh
  rw [List.nodup_append, List.map_append, hadded]
  constructor
  · rintro ⟨⟨hids, hlater, hdisjoint⟩, hfresh⟩
    refine ⟨⟨hids, fun id hid => hfresh id (List.mem_append_left _ hid)⟩, hlater, fun id hid => ?_⟩
    rw [List.mem_append]
    rintro (hbefore | hnow)
    · exact hfresh id (List.mem_append_right _ hid) hbefore
    · exact hdisjoint id hnow id hid rfl
  · rintro ⟨⟨hids, hfresh⟩, hlater, hrest⟩
    refine ⟨⟨hids, hlater, ?_⟩, fun id hid => ?_⟩
    · rintro id hid other hother rfl
      exact hrest id hother (List.mem_append_right _ hid)
    · rcases List.mem_append.1 hid with hid | hid
      · exact hfresh id hid
      · exact fun hbefore => hrest id hid (List.mem_append_left _ hbefore)

theorem adopt_eq_some_iff {accepts : String → Bool} {parent id : String}
    {parents after : List (String × String)} : adopt accepts parent parents id = some after ↔
      accepts id = true ∧ Fresh [id] parents ∧ after = parents ++ [(id, parent)] := by
  unfold adopt Fresh
  by_cases haccepts : accepts id = true
  · by_cases hknown : id ∈ parents.map Prod.fst
    · have hany : parents.any (fun known => decide (known.1 = id)) = true := by
        obtain ⟨known, hmem, heq⟩ := List.mem_map.1 hknown
        exact List.any_eq_true.2 ⟨known, hmem, decide_eq_true heq⟩
      simp only [haccepts, hany, Bool.not_true, Bool.and_false, Bool.false_eq_true, if_false,
        reduceCtorEq, false_iff]
      rintro ⟨-, ⟨-, hfresh⟩, -⟩
      exact hfresh id (List.mem_singleton_self id) hknown
    · have hany : parents.any (fun known => decide (known.1 = id)) = false := by
        rw [List.any_eq_false]
        intro known hmem heq
        exact hknown (List.mem_map.2 ⟨known, hmem, of_decide_eq_true heq⟩)
      simp only [haccepts, hany, Bool.not_false, Bool.and_self, if_true, Option.some.injEq]
      constructor
      · rintro rfl
        exact ⟨trivial, ⟨List.nodup_singleton id, by simpa using hknown⟩, rfl⟩
      · rintro ⟨-, -, rfl⟩
        rfl
  · simp [haccepts]

theorem foldlM_adopt {accepts : String → Bool} {parent : String} {ids : List String}
    {parents after : List (String × String)} :
    ids.foldlM (adopt accepts parent) parents = some after ↔
      (∀ id ∈ ids, accepts id = true) ∧ Fresh ids parents ∧
        after = parents ++ ids.map (·, parent) := by
  induction ids generalizing parents with
  | nil =>
    have hfresh : Fresh [] parents := ⟨List.nodup_nil, fun _ hid => nomatch hid⟩
    constructor
    · intro h
      exact ⟨(fun _ hid => nomatch hid), hfresh, by rw [← Option.some.inj h]; simp⟩
    · rintro ⟨-, -, rfl⟩
      simp
  | cons id ids ih =>
    have hkey : [(id, parent)].map Prod.fst = [id] := rfl
    rw [List.foldlM_cons, List.forall_mem_cons, ← List.singleton_append, fresh_append hkey]
    constructor
    · intro h
      obtain ⟨middle, hfirst, hrest⟩ := Option.bind_eq_some_iff.1 h
      obtain ⟨haccepts, hfresh, rfl⟩ := adopt_eq_some_iff.1 hfirst
      obtain ⟨haccepts', hfresh', rfl⟩ := ih.1 hrest
      exact ⟨⟨haccepts, haccepts'⟩, ⟨hfresh, hfresh'⟩, by simp⟩
    · rintro ⟨⟨haccepts, haccepts'⟩, ⟨hfresh, hfresh'⟩, rfl⟩
      refine Option.bind_eq_some_iff.2 ⟨_, adopt_eq_some_iff.2 ⟨haccepts, hfresh, rfl⟩, ?_⟩
      exact ih.2 ⟨haccepts', hfresh', by simp⟩

/-- What the loop asks of one group. -/
def Related (snapshot : VaultCoreSnapshot) (group : GroupDto) : Prop :=
  (∀ id ∈ group.childGroupIds, (groupOf snapshot id).isSome = true ∧ id ≠ snapshot.rootGroupId) ∧
    ∀ id ∈ group.entryIds, ∃ entry, entryOf snapshot id = some entry ∧ entry.groupId = group.id

/-- What a list of groups adds. -/
def adopted (ids : GroupDto → List String) (groups : List GroupDto) : List (String × String) :=
  groups.flatMap fun group => (ids group).map (·, group.id)

theorem adopted_fst (ids : GroupDto → List String) (groups : List GroupDto) :
    (adopted ids groups).map Prod.fst = groups.flatMap ids := by
  unfold adopted
  rw [List.map_flatMap]
  congr 1
  funext group
  rw [List.map_map]
  exact List.map_id _

theorem relateGroup_eq_some_iff {parents after : Parents} {group : GroupDto} :
    relateGroup snapshot parents group = some after ↔ Related snapshot group ∧
      Fresh group.childGroupIds parents.children ∧ Fresh group.entryIds parents.entries ∧
      after = ⟨parents.children ++ group.childGroupIds.map (·, group.id),
        parents.entries ++ group.entryIds.map (·, group.id)⟩ := by
  have hrelated : Related snapshot group ↔
      (∀ id ∈ group.childGroupIds,
        ((groupOf snapshot id).isSome && decide (id ≠ snapshot.rootGroupId)) = true) ∧
      ∀ id ∈ group.entryIds,
        ((entryOf snapshot id).any fun entry => decide (entry.groupId = group.id)) = true := by
    simp only [Related, Bool.and_eq_true, decide_eq_true_iff, Option.any_eq_true]
  rw [hrelated]
  unfold relateGroup
  constructor
  · intro h
    split at h
    · obtain ⟨children, hchildren, h⟩ := Option.bind_eq_some_iff.1 h
      obtain ⟨entries, hentries, h⟩ := Option.bind_eq_some_iff.1 h
      obtain ⟨haccepts, hfresh, rfl⟩ := foldlM_adopt.1 hchildren
      obtain ⟨haccepts', hfresh', rfl⟩ := foldlM_adopt.1 hentries
      exact ⟨⟨haccepts, haccepts'⟩, hfresh, hfresh', (Option.some.inj h).symm⟩
    · cases h
  · rintro ⟨⟨haccepts, haccepts'⟩, hfresh, hfresh', rfl⟩
    rw [if_pos (by rw [unique_iff.2 hfresh.1, unique_iff.2 hfresh'.1]; rfl)]
    refine Option.bind_eq_some_iff.2 ⟨_, foldlM_adopt.2 ⟨haccepts, hfresh, rfl⟩, ?_⟩
    exact Option.bind_eq_some_iff.2 ⟨_, foldlM_adopt.2 ⟨haccepts', hfresh', rfl⟩, rfl⟩

/-- The loop passes if every group is related and nothing comes twice. -/
theorem relateGroups_eq_some_iff {groups : List GroupDto} {parents after : Parents} :
    groups.foldlM (relateGroup snapshot) parents = some after ↔
      (∀ group ∈ groups, Related snapshot group) ∧
      Fresh (groups.flatMap (·.childGroupIds)) parents.children ∧
      Fresh (groups.flatMap (·.entryIds)) parents.entries ∧
      after = ⟨parents.children ++ adopted (·.childGroupIds) groups,
        parents.entries ++ adopted (·.entryIds) groups⟩ := by
  induction groups generalizing parents with
  | nil =>
    have hfresh : ∀ parents, Fresh [] parents := fun _ => ⟨List.nodup_nil, fun _ hid => nomatch hid⟩
    constructor
    · intro h
      obtain rfl := Option.some.inj h
      exact ⟨(fun _ hgroup => nomatch hgroup), hfresh _, hfresh _, by simp [adopted]⟩
    · rintro ⟨-, -, -, rfl⟩
      simp [adopted]
  | cons group groups ih =>
    have hkeys : ∀ ids : List String, (ids.map (·, group.id)).map Prod.fst = ids := by
      intro ids
      rw [List.map_map]
      exact List.map_id _
    rw [List.foldlM_cons, List.forall_mem_cons, List.flatMap_cons, List.flatMap_cons,
      fresh_append (hkeys group.childGroupIds), fresh_append (hkeys group.entryIds)]
    constructor
    · intro h
      obtain ⟨middle, hfirst, hrest⟩ := Option.bind_eq_some_iff.1 h
      obtain ⟨hrelated, hchildren, hentries, rfl⟩ := relateGroup_eq_some_iff.1 hfirst
      obtain ⟨hrelated', hchildren', hentries', rfl⟩ := ih.1 hrest
      refine ⟨⟨hrelated, hrelated'⟩, ⟨hchildren, hchildren'⟩, ⟨hentries, hentries'⟩, ?_⟩
      simp [adopted]
    · rintro ⟨⟨hrelated, hrelated'⟩, ⟨hchildren, hchildren'⟩, ⟨hentries, hentries'⟩, rfl⟩
      refine Option.bind_eq_some_iff.2
        ⟨_, relateGroup_eq_some_iff.2 ⟨hrelated, hchildren, hentries, rfl⟩, ?_⟩
      exact ih.2 ⟨hrelated', hchildren', hentries', by simp [adopted]⟩

end Loop

/-! ## The check -/

section Check
variable {snapshot : VaultCoreSnapshot}

theorem groupOf_isSome {id : String} :
    (groupOf snapshot id).isSome = true ↔ ∃ group ∈ snapshot.groups, group.id = id := by
  simp [groupOf]

/-- Where identifiers are unique, a map gives back what was put in. -/
theorem find?_reverse_eq_some {α : Type} {items : List α} {key : α → String}
    (hunique : (items.map key).Nodup) {id : String} {item : α} :
    items.reverse.find? (fun item => decide (key item = id)) = some item ↔
      item ∈ items ∧ key item = id := by
  constructor
  · intro h
    exact ⟨List.mem_reverse.1 (List.mem_of_find?_eq_some h), by simpa using List.find?_some h⟩
  · rintro ⟨hmem, rfl⟩
    obtain ⟨found, hfound⟩ := Option.isSome_iff_exists.1 (List.find?_isSome.2
      ⟨item, List.mem_reverse.2 hmem, decide_eq_true rfl⟩ :
        (items.reverse.find? fun other => decide (key other = key item)).isSome = true)
    rw [hfound]
    have hmem' := List.mem_reverse.1 (List.mem_of_find?_eq_some hfound)
    have hkey : key found = key item := by simpa using List.find?_some hfound
    rw [List.inj_on_of_nodup_map hunique hmem' hmem hkey]

theorem groupOf_eq_some (hunique : (snapshot.groups.map (·.id)).Nodup) {id : String}
    {group : GroupDto} :
    groupOf snapshot id = some group ↔ group ∈ snapshot.groups ∧ group.id = id :=
  find?_reverse_eq_some hunique

theorem entryOf_eq_some (hunique : (snapshot.entries.map (·.id)).Nodup) {id : String}
    {entry : EntrySummaryDto} :
    entryOf snapshot id = some entry ↔ entry ∈ snapshot.entries ∧ entry.id = id :=
  find?_reverse_eq_some hunique

/-- The child lists as the walk reads them. -/
def childrenOf (snapshot : VaultCoreSnapshot) (id : String) : Option (List String) :=
  (groupOf snapshot id).map (·.childGroupIds)

theorem mem_kids_iff (hunique : (snapshot.groups.map (·.id)).Nodup) {parent child : String} :
    child ∈ Forest.kids (childrenOf snapshot) parent ↔ Lists snapshot parent child := by
  unfold Forest.kids childrenOf Lists
  constructor
  · intro h
    cases hgroup : groupOf snapshot parent with
    | none => simp [hgroup] at h
    | some group =>
      obtain ⟨hmem, hid⟩ := (groupOf_eq_some hunique).1 hgroup
      exact ⟨group, hmem, hid, by simpa [hgroup] using h⟩
  · rintro ⟨group, hmem, hid, hchild⟩
    rw [(groupOf_eq_some hunique).2 ⟨hmem, hid⟩]
    exact hchild

theorem eq_of_mem_flatMap {α β : Type} {f : α → List β} {items : List α}
    (hnodup : (items.flatMap f).Nodup) {a b : α} (ha : a ∈ items) (hb : b ∈ items) {x : β}
    (hxa : x ∈ f a) (hxb : x ∈ f b) : a = b := by
  by_contra hne
  have hdisjoint := (List.nodup_flatMap.1 hnodup).2
  have hsymm : Std.Symm (Function.onFun List.Disjoint f) := ⟨fun _ _ h => h.symm⟩
  exact hdisjoint.forall ha hb hne hxa hxb

/-- Every group is met once exactly if every group is reached, given that each has one parent. -/
theorem spread_perm_iff (hunique : (snapshot.groups.map (·.id)).Nodup)
    (hroot : ∃ group ∈ snapshot.groups, group.id = snapshot.rootGroupId)
    (hchild : ∀ parent child, Lists snapshot parent child →
      child ≠ snapshot.rootGroupId ∧ ∃ group ∈ snapshot.groups, group.id = child)
    (hone : (snapshot.groups.flatMap (·.childGroupIds)).Nodup) :
    (Forest.spread (Forest.kids (childrenOf snapshot)) snapshot.groups.length
      snapshot.rootGroupId).Perm (snapshot.groups.map (·.id)) ↔
    ∀ group ∈ snapshot.groups,
      Relation.ReflTransGen (Lists snapshot) snapshot.rootGroupId group.id := by
  have hedge : (fun a b => b ∈ Forest.kids (childrenOf snapshot) a) = Lists snapshot := by
    funext a b
    exact propext (mem_kids_iff hunique)
  have hmem : ∀ id, id ∈ Forest.spread (Forest.kids (childrenOf snapshot)) snapshot.groups.length
      snapshot.rootGroupId ↔ Relation.ReflTransGen (Lists snapshot) snapshot.rootGroupId id := by
    intro id
    rw [Forest.mem_spread_of_card (s := (snapshot.groups.map (·.id)).toFinset), hedge,
      Forest.exists_steps_iff]
    · intro parent child hlisted
      obtain ⟨group, hgroup, rfl, -⟩ := (mem_kids_iff hunique).1 hlisted
      exact List.mem_toFinset.2 (List.mem_map_of_mem hgroup)
    · exact (List.toFinset_card_le _).trans (List.length_map _).le
  constructor
  · intro hperm group hgroup
    exact (hmem group.id).1 (hperm.mem_iff.2 (List.mem_map_of_mem hgroup))
  · intro hreached
    let parentOf (id : String) : Option String :=
      (snapshot.groups.find? fun group => id ∈ group.childGroupIds).map (·.id)
    have hparent : ∀ p c, c ∈ Forest.kids (childrenOf snapshot) p → parentOf c = some p := by
      intro p c hlisted
      obtain ⟨group, hgroup, rfl, hc⟩ := (mem_kids_iff hunique).1 hlisted
      obtain ⟨found, hfound⟩ := Option.isSome_iff_exists.1 (List.find?_isSome.2
        ⟨group, hgroup, decide_eq_true hc⟩ :
          (snapshot.groups.find? fun group => decide (c ∈ group.childGroupIds)).isSome = true)
      have hcfound : c ∈ found.childGroupIds := by simpa using List.find?_some hfound
      have heq := eq_of_mem_flatMap hone (List.mem_of_find?_eq_some hfound) hgroup hcfound hc
      show (snapshot.groups.find? _).map _ = _
      rw [hfound, heq]
      rfl
    have hlists : ∀ p, (Forest.kids (childrenOf snapshot) p).Nodup := by
      intro p
      unfold Forest.kids childrenOf
      cases hgroup : groupOf snapshot p with
      | none => exact List.nodup_nil
      | some group =>
        exact (List.nodup_flatMap.1 hone).1 group ((groupOf_eq_some hunique).1 hgroup).1
    have htop : parentOf snapshot.rootGroupId = none := by
      refine Option.map_eq_none_iff.2 (List.find?_eq_none.2 fun group hgroup hlisted => ?_)
      exact (hchild group.id _ ⟨group, hgroup, rfl, of_decide_eq_true hlisted⟩).1 rfl
    have hnodup := Forest.nodup_spread hparent hlists htop snapshot.groups.length
      (show Forest.climb parentOf 0 snapshot.rootGroupId = some snapshot.rootGroupId from rfl)
    refine (List.perm_ext_iff_of_nodup hnodup hunique).2 fun id => ?_
    rw [hmem]
    constructor
    · intro hreach
      rcases Relation.ReflTransGen.cases_tail hreach with rfl | ⟨p, -, hlisted⟩
      · obtain ⟨group, hgroup, hid⟩ := hroot
        exact List.mem_map.2 ⟨group, hgroup, hid⟩
      · obtain ⟨-, group, hgroup, hid⟩ := hchild p id hlisted
        exact List.mem_map.2 ⟨group, hgroup, hid⟩
    · intro hid
      obtain ⟨group, hgroup, rfl⟩ := List.mem_map.1 hid
      exact hreached group hgroup

/-- What is checked before the loop. -/
def Outlined (snapshot : VaultCoreSnapshot) : Prop :=
  (snapshot.groups.map (·.id)).Nodup ∧ (snapshot.entries.map (·.id)).Nodup ∧
    (∃ group ∈ snapshot.groups, group.id = snapshot.rootGroupId) ∧
    ∀ bin, snapshot.recycleBinGroupId = some bin →
      bin ≠ snapshot.rootGroupId ∧ ∃ group ∈ snapshot.groups, group.id = bin

theorem outlined_iff : ¬ Outlined snapshot ↔
    sizeOf (snapshot.groups.map (·.id)) ≠ snapshot.groups.length ∨
    sizeOf (snapshot.entries.map (·.id)) ≠ snapshot.entries.length ∨
    snapshot.rootGroupId ∉ snapshot.groups.map (·.id) ∨
    (snapshot.recycleBinGroupId.any fun bin =>
      bin = snapshot.rootGroupId || bin ∉ snapshot.groups.map (·.id)) = true := by
  have hgroups := sizeOf_eq_length (snapshot.groups.map (·.id))
  have hentries := sizeOf_eq_length (snapshot.entries.map (·.id))
  rw [List.length_map] at hgroups hentries
  rw [ne_eq, ne_eq, hgroups, hentries, Outlined, not_and_or, not_and_or, not_and_or, List.mem_map]
  refine or_congr Iff.rfl (or_congr Iff.rfl (or_congr Iff.rfl ?_))
  cases snapshot.recycleBinGroupId with
  | none => simp
  | some bin =>
    simp only [Option.any_some, Option.some.injEq, forall_eq', Bool.or_eq_true, decide_eq_true_iff,
      List.mem_map]
    rw [not_and_or, not_not]

/-- The walk from the root. -/
def walk (snapshot : VaultCoreSnapshot) : Option (List String) :=
  Forest.visit (childrenOf snapshot) (snapshot.groups.length + 1) snapshot.rootGroupId []

theorem validateSnapshotRelations_eq_some : validateSnapshotRelations snapshot = some () ↔
    Outlined snapshot ∧ ∃ parents, snapshot.groups.foldlM (relateGroup snapshot) {} = some parents ∧
      parents.entries.length = snapshot.entries.length ∧
      ∃ visited, walk snapshot = some visited ∧ visited.length = snapshot.groups.length := by
  by_cases houtlined : Outlined snapshot
  · have hgroups := (sizeOf_eq_length _).2 houtlined.1
    have hentries := (sizeOf_eq_length _).2 houtlined.2.1
    rw [List.length_map] at hgroups hentries
    have hguard := fun h => outlined_iff.2 h houtlined
    unfold validateSnapshotRelations
    dsimp only
    rw [if_neg hguard, hgroups, hentries]
    constructor
    · intro h
      obtain ⟨parents, hparents, h⟩ := Option.bind_eq_some_iff.1 h
      split at h
      · cases h
      · next hall =>
        obtain ⟨visited, hvisited, h⟩ := Option.bind_eq_some_iff.1 h
        split at h
        · cases h
        · next hcovers =>
          exact ⟨houtlined, parents, hparents, not_not.1 hall, visited, hvisited, not_not.1 hcovers⟩
    · rintro ⟨-, parents, hparents, hall, visited, hvisited, hcovers⟩
      refine Option.bind_eq_some_iff.2 ⟨parents, hparents, ?_⟩
      rw [if_neg (not_not.2 hall)]
      refine Option.bind_eq_some_iff.2 ⟨visited, hvisited, ?_⟩
      rw [if_neg (not_not.2 hcovers)]
  · unfold validateSnapshotRelations
    dsimp only
    rw [if_pos (outlined_iff.1 houtlined)]
    constructor
    · intro h
      cases h
    · intro h
      exact absurd h.1 houtlined

/-- The window accepts exactly the proper snapshots. -/
theorem validateSnapshotRelations_iff :
    validateSnapshotRelations snapshot = some () ↔ Proper snapshot := by
  rw [validateSnapshotRelations_eq_some]
  have hwalk : ∀ hunique : (snapshot.groups.map (·.id)).Nodup,
      (∃ visited, walk snapshot = some visited ∧ visited.length = snapshot.groups.length) ↔
        (Forest.spread (Forest.kids (childrenOf snapshot)) snapshot.groups.length
          snapshot.rootGroupId).Perm (snapshot.groups.map (·.id)) := by
    intro hunique
    have hknown : ∀ id, (childrenOf snapshot id).isSome = true ↔
        id ∈ snapshot.groups.map (·.id) := by
      intro id
      rw [childrenOf, Option.isSome_map, groupOf_isSome, List.mem_map]
    have hcovers := Forest.visit_covers_iff hunique hknown snapshot.rootGroupId
    rw [List.length_map] at hcovers
    exact hcovers
  have hfresh : ∀ {ids : List String}, Fresh ids [] ↔ ids.Nodup :=
    ⟨And.left, fun h => ⟨h, fun _ _ hmem => nomatch hmem⟩⟩
  constructor
  · rintro ⟨⟨hgroups, hentries, hroot, hbin⟩, parents, hloop, hall, hvisited⟩
    obtain ⟨hrelated, hone, hlisted, rfl⟩ := relateGroups_eq_some_iff.1 hloop
    have hchild : ∀ parent child, Lists snapshot parent child →
        child ≠ snapshot.rootGroupId ∧ ∃ group ∈ snapshot.groups, group.id = child := by
      rintro parent child ⟨group, hgroup, -, hmem⟩
      obtain ⟨hknown, hne⟩ := (hrelated group hgroup).1 child hmem
      exact ⟨hne, groupOf_isSome.1 hknown⟩
    have hmember : ∀ group ∈ snapshot.groups, ∀ id ∈ group.entryIds,
        ∃ entry ∈ snapshot.entries, entry.id = id ∧ entry.groupId = group.id := by
      intro group hgroup id hid
      obtain ⟨entry, hentry, howner⟩ := (hrelated group hgroup).2 id hid
      obtain ⟨hmem, hkey⟩ := (entryOf_eq_some hentries).1 hentry
      exact ⟨entry, hmem, hkey, howner⟩
    refine ⟨hgroups, hentries, hroot, hbin, hchild, hfresh.1 hone, ?_, hmember, ?_⟩
    · exact (spread_perm_iff hgroups hroot hchild (hfresh.1 hone)).1 ((hwalk hgroups).1 hvisited)
    · -- as many are listed as there are
      have hsub : snapshot.groups.flatMap (·.entryIds) ⊆ snapshot.entries.map (·.id) := by
        intro id hid
        obtain ⟨group, hgroup, hmem⟩ := List.mem_flatMap.1 hid
        obtain ⟨entry, hentry, hkey, -⟩ := hmember group hgroup id hmem
        exact List.mem_map.2 ⟨entry, hentry, hkey⟩
      have hlength : (snapshot.groups.flatMap (·.entryIds)).length = snapshot.entries.length := by
        rw [← adopted_fst, List.length_map]
        exact hall
      refine ((hfresh.1 hlisted).subperm hsub).perm_of_length_le ?_
      rw [List.length_map, hlength]
  · intro h
    refine ⟨⟨h.groupIds, h.entryIds, h.root, h.bin⟩, _, relateGroups_eq_some_iff.2
      ⟨?_, hfresh.2 h.oneParent, hfresh.2 (h.listedOnce.nodup_iff.2 h.entryIds), rfl⟩, ?_, ?_⟩
    · intro group hgroup
      constructor
      · intro child hmem
        obtain ⟨hne, hknown⟩ := h.child group.id child ⟨group, hgroup, rfl, hmem⟩
        exact ⟨groupOf_isSome.2 hknown, hne⟩
      · intro id hid
        obtain ⟨entry, hentry, hkey, howner⟩ := h.member group hgroup id hid
        exact ⟨entry, (entryOf_eq_some h.entryIds).2 ⟨hentry, hkey⟩, howner⟩
    · show ([] ++ adopted (·.entryIds) snapshot.groups).length = _
      rw [List.nil_append, ← List.length_map (f := Prod.fst), adopted_fst, h.listedOnce.length_eq,
        List.length_map]
    · have hperm := (spread_perm_iff h.groupIds h.root h.child h.oneParent).2 h.reached
      exact (hwalk h.groupIds).2 hperm

end Check

end NianPass.Desktop.Snapshot
