import NianPass.Kdbx.Keepass

/-
  `database_valid_for_sync`, the check every generation passes before and after
  a merge.

  `databaseValidForSync` is the check as the code makes it. `SyncValid` says
  what it is for: the groups hang below the root, the ordered child lists and
  the parent pointers tell the same story, every custom icon in use exists, and
  a UUID names at most one object and no tombstone.
  `databaseValidForSync_iff` shows that the check decides it.

  The invariant is stated as `Hangs`, which allows a group to list children
  that are not there yet: a group copied from another database brings the
  child lists of that database with it.
-/
namespace NianPass.Kdbx

variable {V : Type}

namespace Database

/-! ## The check -/

/-- The UUIDs of the entries, groups and custom icons, in the order they are visited. -/
def liveUuids (db : Database V) : List Uuid :=
  db.entries.keys.map (·.uuid) ++ db.groups.keys.map (·.uuid) ++ db.customIcons.keys.map (·.uuid)

/-- No UUID is live twice, and none is live and deleted. -/
def identitiesValid (db : Database V) : Bool :=
  decide db.liveUuids.Nodup && db.liveUuids.all fun id => decide (id ∉ db.deletedObjects)

/-- The loop up the parent pointers from `current`: the groups it has seen when it reaches a
group without a parent, or `none` when it meets a group twice or one that does not exist. The
loop ends before `fuel` runs out if `fuel` exceeds the number of groups. -/
def ancestry (db : Database V) : Nat → List GroupId → Option GroupId → Option (List GroupId)
  | _, seen, none => some seen
  | 0, _, some _ => none
  | fuel + 1, seen, some id =>
    if id ∈ seen then none
    else match db.groups[id]? with
      | none => none
      | some group => db.ancestry fuel (id :: seen) group.parent

/-- The custom icon, if `icon` is one, exists. -/
def iconAvailable (db : Database V) (icon : Option Icon) : Bool :=
  match icon with
  | some (.custom id) => decide (id ∈ db.customIcons)
  | _ => true

/-- Every child a group lists, over all groups. -/
def allChildGroups (db : Database V) : List GroupId := db.groups.keys.flatMap db.childGroups

def allChildEntries (db : Database V) : List EntryId := db.groups.keys.flatMap db.childEntries

end Database

/-- What the loop of `database_valid_for_sync` asks of one group. -/
def groupValid (db : Database V) (id : GroupId) (group : Group V) : Bool :=
  (match db.ancestry (db.groups.size + 1) [] (some id) with
    | none => false
    | some seen => decide (db.root ∈ seen))
  && db.iconAvailable group.icon
  && group.groups.all (fun child => db.parentOf child = some id)
  && group.entries.all (fun entry => db.homeOf entry = some id)

/-- What the loop of `database_valid_for_sync` asks of one entry. -/
def entryValid (db : Database V) (entry : Entry V) : Bool :=
  db.iconAvailable entry.icon
  && (entry.history.getD []).all fun snapshot => db.iconAvailable snapshot.icon

/-- `database_valid_for_sync`. The sets `child_groups` and `child_entries` of the code collect
every child listed and refuse one listed twice. -/
def databaseValidForSync (db : Database V) : Bool :=
  (db.parentOf db.root).isNone
  && db.identitiesValid
  && db.groups.toList.all (fun item => groupValid db item.1 item.2)
  && decide db.allChildGroups.Nodup
  && decide db.allChildEntries.Nodup
  && db.entries.toList.all (fun item => entryValid db item.2)
  && decide (db.allChildGroups.length + 1 = db.groups.size)
  && decide (db.allChildEntries.length = db.entries.size)

/-! ## What it decides -/

/-- The tree of groups and entries: everything hangs below the root, and the ordered child lists
and the parent pointers agree, except that a group may also list the children `late` grants it. -/
structure Hangs (db : Database V) (lateGroups : GroupId → GroupId → Prop)
    (lateEntries : GroupId → EntryId → Prop) : Prop where
  rootMem : db.root ∈ db.groups
  rootTop : db.parentOf db.root = none
  reach : ∀ x ∈ db.groups, Forest.Above db.parentOf db.root x
  owned : ∀ p c, c ∈ db.childGroups p → db.parentOf c = some p ∨ lateGroups p c
  listed : ∀ c p, db.parentOf c = some p → c ∈ db.childGroups p
  entryOwned : ∀ p e, e ∈ db.childEntries p → db.homeOf e = some p ∨ lateEntries p e
  entryListed : ∀ e p, db.homeOf e = some p → e ∈ db.childEntries p

/-- Nothing is listed twice by one group. -/
structure Tidy (db : Database V) : Prop where
  groups : ∀ p, (db.childGroups p).Nodup
  entries : ∀ p, (db.childEntries p).Nodup

/-- The child lists and the parent pointers agree. -/
abbrev IsTree (db : Database V) : Prop := Hangs db (fun _ _ => False) (fun _ _ => False)

/-- The icon, if it is a custom one, exists. -/
def HasIcon (db : Database V) (icon : Option Icon) : Prop :=
  ∀ id, icon = some (.custom id) → id ∈ db.customIcons

/-- Every custom icon in use exists. -/
structure IconsPresent (db : Database V) : Prop where
  groups : ∀ (id : GroupId) (group : Group V), db.groups[id]? = some group →
    HasIcon db group.icon
  entries : ∀ (id : EntryId) (entry : Entry V), db.entries[id]? = some entry →
    HasIcon db entry.icon
  snapshots : ∀ (id : EntryId) (entry : Entry V), db.entries[id]? = some entry →
    ∀ snapshot ∈ entry.history.getD [], HasIcon db snapshot.icon

/-- The UUID names an object of kind `k`. -/
def LiveAs (db : Database V) (k : Kind) (id : Uuid) : Prop :=
  match k with
  | .entry => ⟨id⟩ ∈ db.entries
  | .group => ⟨id⟩ ∈ db.groups
  | .icon => ⟨id⟩ ∈ db.customIcons

/-- A UUID names one object at most, and no tombstone. -/
structure Identified (db : Database V) : Prop where
  oneKind : ∀ id k k', LiveAs db k id → LiveAs db k' id → k = k'
  notDeleted : ∀ id k, LiveAs db k id → id ∉ db.deletedObjects

structure SyncValid (db : Database V) : Prop where
  tree : IsTree db
  tidy : Tidy db
  icons : IconsPresent db
  identified : Identified db

/-! ## The check decides it -/

theorem mem_iff_exists {κ ν : Type} [Ord κ] [Std.TransOrd κ] [Std.LawfulEqOrd κ]
    {m : Map κ ν} {k : κ} : k ∈ m ↔ ∃ v, m[k]? = some v := by
  rw [← Std.ExtTreeMap.isSome_getElem?_iff_mem, Option.isSome_iff_exists]

/-- Maps that agree up to a function of the value have the same keys. -/
theorem mem_iff_of_map_eq {κ ν α : Type} [Ord κ] [Std.TransOrd κ] [Std.LawfulEqOrd κ]
    {m m' : Map κ ν} {k : κ} {f g : ν → α} (h : m'[k]?.map f = m[k]?.map g) : k ∈ m' ↔ k ∈ m := by
  have := congrArg Option.isSome h
  rw [Option.isSome_map, Option.isSome_map] at this
  rw [← Std.ExtTreeMap.isSome_getElem?_iff_mem, ← Std.ExtTreeMap.isSome_getElem?_iff_mem, this]

section Ancestry
variable {db : Database V}

theorem ancestry_sound {fuel : Nat} {seen out : List GroupId} {current : Option GroupId}
    (h : db.ancestry fuel seen current = some out) :
    ∀ y ∈ out, y ∈ seen ∨
      y ∈ db.groups ∧ ∃ x, current = some x ∧ Forest.Above db.parentOf y x := by
  induction fuel generalizing seen current with
  | zero =>
    cases current with
    | none => simp_all [Database.ancestry]
    | some x => simp [Database.ancestry] at h
  | succ fuel ih =>
    cases current with
    | none => simp_all [Database.ancestry]
    | some x =>
      simp only [Database.ancestry] at h
      split at h
      · cases h
      · split at h
        · cases h
        · case h_2 group hgroup =>
          intro y hy
          rcases ih h y hy with hmem | ⟨hmem, z, hz, habove⟩
          · rcases List.mem_cons.mp hmem with rfl | hmem
            · exact Or.inr ⟨mem_iff_exists.mpr ⟨group, hgroup⟩, y, rfl, Forest.above_refl y⟩
            · exact Or.inl hmem
          · have hparent : db.parentOf x = some z := by simp [Database.parentOf, hgroup, hz]
            exact Or.inr ⟨hmem, x, rfl, Forest.above_of_parent hparent habove⟩

theorem mem_groups_of_parentOf {c p : GroupId} (h : db.parentOf c = some p) : c ∈ db.groups := by
  by_contra hc
  simp [Database.parentOf, Std.ExtTreeMap.getElem?_eq_none hc] at h

theorem ancestry_complete (hmem : db.root ∈ db.groups) (htop : db.parentOf db.root = none)
    {k fuel : Nat} {x : GroupId} {seen : List GroupId} (hk : k < fuel)
    (hx : Forest.climb db.parentOf k x = some db.root)
    (hseen : ∀ y ∈ seen, ∃ j, k < j ∧ Forest.climb db.parentOf j y = some db.root) :
    ∃ out, db.ancestry fuel seen (some x) = some out ∧ db.root ∈ out := by
  -- Every group already seen is farther below the root, so the walk meets none of them.
  have hfresh : x ∉ seen := by
    intro hin
    obtain ⟨j, hj, hclimb⟩ := hseen x hin
    have := Forest.climb_top_unique htop hx hclimb
    omega
  obtain ⟨fuel, rfl⟩ : ∃ n, fuel = n + 1 := ⟨fuel - 1, by omega⟩
  induction k generalizing x fuel seen with
  | zero =>
    obtain rfl : x = db.root := by simpa [Forest.climb] using hx
    obtain ⟨group, hgroup⟩ := Option.isSome_iff_exists.mp
      (Std.ExtTreeMap.isSome_getElem?_iff_mem.mpr hmem)
    have hparent : group.parent = none := by simpa [Database.parentOf, hgroup] using htop
    exact ⟨db.root :: seen, by simp [Database.ancestry, hfresh, hgroup, hparent], by simp⟩
  | succ k ih =>
    obtain ⟨p, hp, hclimb⟩ := Option.bind_eq_some_iff.mp hx
    obtain ⟨group, hgroup, hparent⟩ := Option.bind_eq_some_iff.mp hp
    have hdeeper : ∀ y ∈ x :: seen, ∃ j, k < j ∧ Forest.climb db.parentOf j y = some db.root := by
      intro y hy
      rcases List.mem_cons.mp hy with rfl | hy
      · exact ⟨k + 1, by omega, hx⟩
      · obtain ⟨j, hj, hjy⟩ := hseen y hy
        exact ⟨j, by omega, hjy⟩
    have hpfresh : p ∉ x :: seen := by
      intro hin
      obtain ⟨j, hj, hjp⟩ := hdeeper p hin
      have := Forest.climb_top_unique htop hclimb hjp
      omega
    obtain ⟨n, rfl⟩ : ∃ n, fuel = n + 1 := ⟨fuel - 1, by omega⟩
    obtain ⟨out, hout, hroot⟩ := ih hclimb hdeeper hpfresh n (by omega)
    refine ⟨out, ?_, hroot⟩
    rw [Database.ancestry]
    simpa [hfresh, hgroup, hparent] using hout

/-- The walk from `x` ends at the root exactly when the root is above `x`. -/
theorem ancestry_root_iff (hmem : db.root ∈ db.groups) (htop : db.parentOf db.root = none)
    (x : GroupId) :
    (∃ out, db.ancestry (db.groups.size + 1) [] (some x) = some out ∧ db.root ∈ out) ↔
      Forest.Above db.parentOf db.root x := by
  constructor
  · rintro ⟨out, hout, hroot⟩
    rcases ancestry_sound hout db.root hroot with hnil | ⟨_, y, hy, habove⟩
    · cases hnil
    · cases hy
      exact habove
  · intro habove
    obtain ⟨k, hk, hclimb⟩ := Forest.mem_trail.mp (Database.mem_trail_parentOf.mpr habove)
    exact ancestry_complete hmem htop hk hclimb (by simp)

end Ancestry

section Decides
variable {db : Database V}

theorem mem_liveUuids {id : Uuid} : id ∈ db.liveUuids ↔ ∃ k, LiveAs db k id := by
  simp only [Database.liveUuids, List.mem_append, List.mem_map, Std.ExtTreeMap.mem_keys]
  constructor
  · rintro ((⟨x, hx, rfl⟩ | ⟨x, hx, rfl⟩) | ⟨x, hx, rfl⟩)
    · exact ⟨.entry, hx⟩
    · exact ⟨.group, hx⟩
    · exact ⟨.icon, hx⟩
  · rintro ⟨k, hk⟩
    cases k with
    | entry => exact Or.inl (Or.inl ⟨_, hk, rfl⟩)
    | group => exact Or.inl (Or.inr ⟨_, hk, rfl⟩)
    | icon => exact Or.inr ⟨_, hk, rfl⟩

theorem nodup_uuids {k : Kind} {ν : Type} (m : Map (ObjectId k) ν) :
    (m.keys.map (·.uuid)).Nodup := by
  apply List.Nodup.map
  · rintro ⟨a⟩ ⟨b⟩ rfl
    rfl
  · exact Std.ExtTreeMap.nodup_keys

theorem nodup_liveUuids_iff :
    db.liveUuids.Nodup ↔ ∀ id k k', LiveAs db k id → LiveAs db k' id → k = k' := by
  simp only [Database.liveUuids, List.nodup_append, nodup_uuids, true_and, List.mem_append,
    List.mem_map, Std.ExtTreeMap.mem_keys]
  constructor
  · rintro ⟨hentryGroup, hicon⟩ id k k' hk hk'
    cases k <;> cases k' <;> first
      | rfl
      | exact absurd rfl (hentryGroup id ⟨_, ‹_›, rfl⟩ id ⟨_, ‹_›, rfl⟩)
      | exact absurd rfl (hicon id (Or.inl ⟨_, ‹_›, rfl⟩) id ⟨_, ‹_›, rfl⟩)
      | exact absurd rfl (hicon id (Or.inr ⟨_, ‹_›, rfl⟩) id ⟨_, ‹_›, rfl⟩)
  · intro hkind
    refine ⟨?_, ?_⟩
    · rintro _ ⟨x, hx, rfl⟩ _ ⟨y, hy, rfl⟩ heq
      have := hkind y.uuid .entry .group (heq ▸ hx) hy
      cases this
    · rintro _ (⟨x, hx, rfl⟩ | ⟨x, hx, rfl⟩) _ ⟨y, hy, rfl⟩ heq
      · have := hkind y.uuid .entry .icon (heq ▸ hx) hy
        cases this
      · have := hkind y.uuid .group .icon (heq ▸ hx) hy
        cases this

theorem identitiesValid_iff : db.identitiesValid = true ↔ Identified db := by
  simp only [Database.identitiesValid, Bool.and_eq_true, List.all_eq_true, decide_eq_true_eq,
    nodup_liveUuids_iff, mem_liveUuids]
  constructor
  · rintro ⟨hkind, hdeleted⟩
    exact ⟨hkind, fun id k hk => hdeleted id ⟨k, hk⟩⟩
  · rintro ⟨hkind, hdeleted⟩
    exact ⟨hkind, fun id ⟨k, hk⟩ => hdeleted id k hk⟩

theorem iconAvailable_iff {icon : Option Icon} :
    db.iconAvailable icon = true ↔ HasIcon db icon := by
  unfold Database.iconAvailable HasIcon
  split <;> simp_all

theorem mem_allChildGroups {c : GroupId} :
    c ∈ db.allChildGroups ↔ ∃ p, c ∈ db.childGroups p := by
  simp only [Database.allChildGroups, List.mem_flatMap, Std.ExtTreeMap.mem_keys]
  constructor
  · rintro ⟨p, _, hc⟩
    exact ⟨p, hc⟩
  · rintro ⟨p, hc⟩
    refine ⟨p, ?_, hc⟩
    by_contra hp
    simp [Database.childGroups, Std.ExtTreeMap.getElem?_eq_none hp] at hc

theorem mem_allChildEntries {e : EntryId} :
    e ∈ db.allChildEntries ↔ ∃ p, e ∈ db.childEntries p := by
  simp only [Database.allChildEntries, List.mem_flatMap, Std.ExtTreeMap.mem_keys]
  constructor
  · rintro ⟨p, _, hc⟩
    exact ⟨p, hc⟩
  · rintro ⟨p, hc⟩
    refine ⟨p, ?_, hc⟩
    by_contra hp
    simp [Database.childEntries, Std.ExtTreeMap.getElem?_eq_none hp] at hc

/-- Where no two keys share an element, listing all of them repeats nothing exactly when no
single list does. -/
theorem nodup_flatMap_keys {κ ν α : Type} [Ord κ] [Std.TransOrd κ] [Std.LawfulEqOrd κ]
    (m : Map κ ν) (f : κ → List α) (hdisjoint : ∀ x y a, a ∈ f x → a ∈ f y → x = y) :
    (m.keys.flatMap f).Nodup ↔ ∀ x ∈ m, (f x).Nodup := by
  rw [List.nodup_flatMap]
  simp only [Std.ExtTreeMap.mem_keys, and_iff_left_iff_imp]
  intro _
  refine List.Pairwise.imp ?_ Std.ExtTreeMap.nodup_keys
  intro x y hne a hx hy
  exact hne (hdisjoint x y a hx hy)

/-- A list without repetition that lies inside another one is as long only if it is all of it. -/
theorem length_eq_iff_subset {α : Type} {xs ys : List α} (hxs : xs.Nodup) (hys : ys.Nodup)
    (hsub : xs ⊆ ys) : xs.length = ys.length ↔ ys ⊆ xs := by
  constructor
  · intro hlen
    exact ((hxs.subperm hsub).perm_of_length_le hlen.ge).symm.subset
  · intro hsup
    exact Nat.le_antisymm (hxs.subperm hsub).length_le (hys.subperm hsup).length_le

theorem groupValid_iff {id : GroupId} {group : Group V} : groupValid db id group = true ↔
    (∃ out, db.ancestry (db.groups.size + 1) [] (some id) = some out ∧ db.root ∈ out) ∧
      HasIcon db group.icon ∧ (∀ c ∈ group.groups, db.parentOf c = some id) ∧
      ∀ e ∈ group.entries, db.homeOf e = some id := by
  unfold groupValid
  cases db.ancestry (db.groups.size + 1) [] (some id) <;> simp [iconAvailable_iff, and_assoc]

theorem mem_childGroups {p c : GroupId} :
    c ∈ db.childGroups p ↔ ∃ group, db.groups[p]? = some group ∧ c ∈ group.groups := by
  cases h : db.groups[p]? <;> simp [Database.childGroups, h]

theorem mem_childEntries {p : GroupId} {e : EntryId} :
    e ∈ db.childEntries p ↔ ∃ group, db.groups[p]? = some group ∧ e ∈ group.entries := by
  cases h : db.groups[p]? <;> simp [Database.childEntries, h]

theorem homeOf_eq_some {e : EntryId} {p : GroupId} :
    db.homeOf e = some p ↔ ∃ entry, db.entries[e]? = some entry ∧ entry.parent = p := by
  simp [Database.homeOf, Option.map_eq_some_iff]

/-- The groups that have a parent, each once. -/
theorem length_erase_root (hmem : db.root ∈ db.groups) :
    (db.groups.keys.erase db.root).length + 1 = db.groups.size := by
  rw [List.length_erase_of_mem (Std.ExtTreeMap.mem_keys.mpr hmem), Std.ExtTreeMap.length_keys]
  have : 0 < db.groups.keys.length := List.length_pos_of_mem (Std.ExtTreeMap.mem_keys.mpr hmem)
  rw [Std.ExtTreeMap.length_keys] at this
  omega

theorem allChildGroups_subset (htop : db.parentOf db.root = none)
    (howned : ∀ p c, c ∈ db.childGroups p → db.parentOf c = some p) :
    db.allChildGroups ⊆ db.groups.keys.erase db.root := by
  intro c hc
  obtain ⟨p, hp⟩ := mem_allChildGroups.mp hc
  have hparent := howned p c hp
  rw [List.Nodup.mem_erase_iff Std.ExtTreeMap.nodup_keys, Std.ExtTreeMap.mem_keys]
  refine ⟨?_, mem_groups_of_parentOf hparent⟩
  rintro rfl
  simp [htop] at hparent

/-- The count of listed groups is right exactly when every group but the root is listed. -/
theorem count_allChildGroups (hmem : db.root ∈ db.groups) (htop : db.parentOf db.root = none)
    (howned : ∀ p c, c ∈ db.childGroups p → db.parentOf c = some p)
    (hnodup : db.allChildGroups.Nodup) :
    db.allChildGroups.length + 1 = db.groups.size ↔
      ∀ c ∈ db.groups, c ≠ db.root → ∃ p, c ∈ db.childGroups p := by
  have hsub := length_eq_iff_subset hnodup (Std.ExtTreeMap.nodup_keys.erase _)
    (allChildGroups_subset htop howned)
  have hsize := length_erase_root hmem
  have hlength : db.allChildGroups.length + 1 = db.groups.size ↔
      db.allChildGroups.length = (db.groups.keys.erase db.root).length := by omega
  rw [hlength, hsub, List.subset_def]
  simp only [List.Nodup.mem_erase_iff Std.ExtTreeMap.nodup_keys, Std.ExtTreeMap.mem_keys,
    mem_allChildGroups]
  exact ⟨fun h c hc hne => h ⟨hne, hc⟩, fun h c hc => h c hc.2 hc.1⟩

/-- The count of listed entries is right exactly when every entry is listed. -/
theorem count_allChildEntries (howned : ∀ p e, e ∈ db.childEntries p → db.homeOf e = some p)
    (hnodup : db.allChildEntries.Nodup) :
    db.allChildEntries.length = db.entries.size ↔
      ∀ e ∈ db.entries, ∃ p, e ∈ db.childEntries p := by
  have hinside : db.allChildEntries ⊆ db.entries.keys := by
    intro e he
    obtain ⟨p, hp⟩ := mem_allChildEntries.mp he
    obtain ⟨entry, hentry, _⟩ := homeOf_eq_some.mp (howned p e hp)
    exact Std.ExtTreeMap.mem_keys.mpr (mem_iff_exists.mpr ⟨entry, hentry⟩)
  rw [← Std.ExtTreeMap.length_keys, length_eq_iff_subset hnodup Std.ExtTreeMap.nodup_keys hinside,
    List.subset_def]
  simp only [Std.ExtTreeMap.mem_keys, mem_allChildEntries]

theorem nodup_allChildGroups (howned : ∀ p c, c ∈ db.childGroups p → db.parentOf c = some p) :
    db.allChildGroups.Nodup ↔ ∀ p, (db.childGroups p).Nodup := by
  rw [Database.allChildGroups, nodup_flatMap_keys _ _ fun x y a hx hy =>
    Option.some.inj ((howned x a hx).symm.trans (howned y a hy))]
  refine ⟨fun h p => ?_, fun h p _ => h p⟩
  by_cases hp : p ∈ db.groups
  · exact h p hp
  · simp [Database.childGroups, Std.ExtTreeMap.getElem?_eq_none hp]

theorem nodup_allChildEntries (howned : ∀ p e, e ∈ db.childEntries p → db.homeOf e = some p) :
    db.allChildEntries.Nodup ↔ ∀ p, (db.childEntries p).Nodup := by
  rw [Database.allChildEntries, nodup_flatMap_keys _ _ fun x y a hx hy =>
    Option.some.inj ((howned x a hx).symm.trans (howned y a hy))]
  refine ⟨fun h p => ?_, fun h p _ => h p⟩
  by_cases hp : p ∈ db.groups
  · exact h p hp
  · simp [Database.childEntries, Std.ExtTreeMap.getElem?_eq_none hp]

/-- Below the root, only the root has no parent. -/
theorem exists_parentOf {c : GroupId} (h : Forest.Above db.parentOf db.root c)
    (hne : c ≠ db.root) : ∃ p, db.parentOf c = some p := by
  rcases Forest.above_iff.mp h with heq | ⟨p, hp, _⟩
  · exact absurd heq.symm hne
  · exact ⟨p, hp⟩

theorem databaseValidForSync_iff : databaseValidForSync db = true ↔ SyncValid db := by
  simp only [databaseValidForSync, Bool.and_eq_true, Option.isNone_iff_eq_none,
    identitiesValid_iff, decide_eq_true_eq, entryValid, groupValid_iff,
    iconAvailable_iff, List.all_eq_true, Prod.forall, Std.ExtTreeMap.mem_toList_iff_getElem?_eq_some]
  constructor
  · rintro ⟨⟨⟨⟨⟨⟨⟨htop, hid⟩, hgroups⟩, hnodup⟩, hnodupE⟩, hentries⟩, hcount⟩, hcountE⟩
    have howned : ∀ p c, c ∈ db.childGroups p → db.parentOf c = some p := by
      intro p c hc
      obtain ⟨group, hgroup, hc⟩ := mem_childGroups.mp hc
      exact (hgroups p group hgroup).2.2.1 c hc
    have hownedE : ∀ p e, e ∈ db.childEntries p → db.homeOf e = some p := by
      intro p e he
      obtain ⟨group, hgroup, he⟩ := mem_childEntries.mp he
      exact (hgroups p group hgroup).2.2.2 e he
    have hmem : db.root ∈ db.groups := by
      -- There is at least one group, and its walk up has met the root.
      have hpos : 0 < db.groups.keys.length := by
        rw [Std.ExtTreeMap.length_keys]
        omega
      obtain ⟨x, hx⟩ := List.exists_mem_of_length_pos hpos
      obtain ⟨group, hgroup⟩ := mem_iff_exists.mp (Std.ExtTreeMap.mem_keys.mp hx)
      obtain ⟨out, hout, hroot⟩ := (hgroups x group hgroup).1
      rcases ancestry_sound hout db.root hroot with hnil | ⟨h, _⟩
      · cases hnil
      · exact h
    have hcount := (count_allChildGroups hmem htop howned hnodup).mp hcount
    have hcountE := (count_allChildEntries hownedE hnodupE).mp hcountE
    refine ⟨⟨hmem, htop, ?_, fun p c hc => Or.inl (howned p c hc), ?_,
      fun p e he => Or.inl (hownedE p e he), ?_⟩,
      ⟨(nodup_allChildGroups howned).mp hnodup, (nodup_allChildEntries hownedE).mp hnodupE⟩,
      ⟨fun id group h => (hgroups id group h).2.1, fun id entry h => (hentries id entry h).1,
        fun id entry h => (hentries id entry h).2⟩, hid⟩
    · intro x hx
      obtain ⟨group, hgroup⟩ := mem_iff_exists.mp hx
      exact (ancestry_root_iff hmem htop x).mp (hgroups x group hgroup).1
    · intro c p hparent
      have hne : c ≠ db.root := by
        rintro rfl
        simp [htop] at hparent
      obtain ⟨q, hq⟩ := hcount c (mem_groups_of_parentOf hparent) hne
      obtain rfl : q = p := Option.some.inj ((howned q c hq).symm.trans hparent)
      exact hq
    · intro e p hhome
      obtain ⟨entry, hentry, _⟩ := homeOf_eq_some.mp hhome
      obtain ⟨q, hq⟩ := hcountE e (mem_iff_exists.mpr ⟨entry, hentry⟩)
      obtain rfl : q = p := Option.some.inj ((hownedE q e hq).symm.trans hhome)
      exact hq
  · rintro ⟨htree, htidy, hicons, hid⟩
    have howned : ∀ p c, c ∈ db.childGroups p → db.parentOf c = some p := by
      simpa using htree.owned
    have hownedE : ∀ p e, e ∈ db.childEntries p → db.homeOf e = some p := by
      simpa using htree.entryOwned
    have hnodup := (nodup_allChildGroups howned).mpr htidy.groups
    have hnodupE := (nodup_allChildEntries hownedE).mpr htidy.entries
    refine ⟨⟨⟨⟨⟨⟨⟨htree.rootTop, hid⟩, ?_⟩, hnodup⟩, hnodupE⟩,
      fun id entry h => ⟨hicons.entries id entry h, hicons.snapshots id entry h⟩⟩, ?_⟩, ?_⟩
    · intro x group hgroup
      refine ⟨(ancestry_root_iff htree.rootMem htree.rootTop x).mpr
        (htree.reach x (mem_iff_exists.mpr ⟨group, hgroup⟩)), hicons.groups x group hgroup, ?_, ?_⟩
      · exact fun c hc => howned x c (mem_childGroups.mpr ⟨group, hgroup, hc⟩)
      · exact fun e he => hownedE x e (mem_childEntries.mpr ⟨group, hgroup, he⟩)
    · rw [count_allChildGroups htree.rootMem htree.rootTop howned hnodup]
      intro c hc hne
      obtain ⟨p, hp⟩ := exists_parentOf (htree.reach c hc) hne
      exact ⟨p, htree.listed c p hp⟩
    · rw [count_allChildEntries hownedE hnodupE]
      intro e he
      obtain ⟨entry, hentry⟩ := mem_iff_exists.mp he
      exact ⟨entry.parent, htree.entryListed e _ (homeOf_eq_some.mpr ⟨entry, hentry, rfl⟩)⟩

end Decides

end NianPass.Kdbx
