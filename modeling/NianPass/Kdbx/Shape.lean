import NianPass.Kdbx.Validity

/-
  How the edits of a database change its tree.

  Each edit gets one lemma per question a tree answers: which groups there are
  (`mem_groups_…`), who the parent is (`parentOf_…`, `homeOf_…`) and which
  children are listed (`childGroups_…`, `childEntries_…`). From these, each edit
  keeps `Hangs`, whatever is listed ahead of time, and `Tidy`. An edit that
  changes none of the answers has the `SameShape`.
-/
namespace NianPass.Kdbx

variable {V : Type} {db out : Database V} {lateGroups : GroupId → GroupId → Prop}
  {lateEntries : GroupId → EntryId → Prop}

/-! ## Edits that keep the shape -/

/-- What the tree needs to know of a group. -/
def Group.shape (group : Group V) : Option GroupId × List GroupId × List EntryId :=
  (group.parent, group.groups, group.entries)

/-- Both databases have the same root, groups, entries, parents and child lists. -/
structure SameShape (db out : Database V) : Prop where
  root : out.root = db.root
  groups : ∀ x : GroupId, out.groups[x]?.map Group.shape = db.groups[x]?.map Group.shape
  entries : ∀ e : EntryId, out.homeOf e = db.homeOf e

namespace SameShape

theorem refl (db : Database V) : SameShape db db := ⟨rfl, fun _ => rfl, fun _ => rfl⟩

theorem trans {mid : Database V} (h : SameShape db mid) (h' : SameShape mid out) :
    SameShape db out :=
  ⟨h'.root.trans h.root, fun x => (h'.groups x).trans (h.groups x),
    fun e => (h'.entries e).trans (h.entries e)⟩

theorem parentOf (h : SameShape db out) : out.parentOf = db.parentOf := by
  funext x
  have := congrArg (Option.bind · (·.1)) (h.groups x)
  simpa [Database.parentOf, Group.shape, Option.bind_map, Function.comp_def] using this

theorem childGroups (h : SameShape db out) (x : GroupId) :
    out.childGroups x = db.childGroups x := by
  have := congrArg (fun o => (o.map (·.2.1)).getD []) (h.groups x)
  simpa [Database.childGroups, Group.shape, Option.map_map, Function.comp_def] using this

theorem childEntries (h : SameShape db out) (x : GroupId) :
    out.childEntries x = db.childEntries x := by
  have := congrArg (fun o => (o.map (·.2.2)).getD []) (h.groups x)
  simpa [Database.childEntries, Group.shape, Option.map_map, Function.comp_def] using this

theorem mem_groups (h : SameShape db out) {x : GroupId} : x ∈ out.groups ↔ x ∈ db.groups :=
  mem_iff_of_map_eq (h.groups x)

theorem mem_entries (h : SameShape db out) {e : EntryId} : e ∈ out.entries ↔ e ∈ db.entries :=
  mem_iff_of_map_eq (h.entries e)

theorem hangs (h : SameShape db out) (hd : Hangs db lateGroups lateEntries) :
    Hangs out lateGroups lateEntries where
  rootMem := by rw [h.root, h.mem_groups]; exact hd.rootMem
  rootTop := by rw [h.root, h.parentOf]; exact hd.rootTop
  reach x hx := by rw [h.root, h.parentOf]; exact hd.reach x (h.mem_groups.mp hx)
  owned p c hc := by rw [h.childGroups] at hc; rw [h.parentOf]; exact hd.owned p c hc
  listed c p hp := by rw [h.parentOf] at hp; rw [h.childGroups]; exact hd.listed c p hp
  entryOwned p e he := by rw [h.childEntries] at he; rw [h.entries]; exact hd.entryOwned p e he
  entryListed e p hp := by rw [h.entries] at hp; rw [h.childEntries]; exact hd.entryListed e p hp

theorem tidy (h : SameShape db out) (hd : Tidy db) : Tidy out where
  groups p := by rw [h.childGroups]; exact hd.groups p
  entries p := by rw [h.childEntries]; exact hd.entries p

end SameShape

theorem getElem?_editGroup (id x : GroupId) (f : Group V → Group V) :
    (db.editGroup id f).groups[x]? = if id = x then db.groups[x]?.map f else db.groups[x]? := by
  by_cases h : id = x
  · subst h
    simp [Database.editGroup]
  · simp [Database.editGroup, Std.ExtTreeMap.getElem?_modify, h]

theorem getElem?_editEntry (id e : EntryId) (f : Entry V → Entry V) :
    (db.editEntry id f).entries[e]? = if id = e then db.entries[e]?.map f else db.entries[e]? := by
  by_cases h : id = e
  · subst h
    simp [Database.editEntry]
  · simp [Database.editEntry, Std.ExtTreeMap.getElem?_modify, h]

@[simp] theorem mem_editGroup {id x : GroupId} {f : Group V → Group V} :
    x ∈ (db.editGroup id f).groups ↔ x ∈ db.groups := Std.ExtTreeMap.mem_modify

@[simp] theorem mem_editEntry {id e : EntryId} {f : Entry V → Entry V} :
    e ∈ (db.editEntry id f).entries ↔ e ∈ db.entries := Std.ExtTreeMap.mem_modify

theorem sameShape_editGroup (id : GroupId) (f : Group V → Group V)
    (hf : ∀ group, (f group).shape = group.shape) : SameShape db (db.editGroup id f) where
  root := rfl
  groups x := by
    rw [getElem?_editGroup]
    split
    · simp [Option.map_map, Function.comp_def, hf]
    · rfl
  entries _ := rfl

theorem sameShape_editEntry (id : EntryId) (f : Entry V → Entry V)
    (hf : ∀ entry, db.entries[id]? = some entry → (f entry).parent = entry.parent) :
    SameShape db (db.editEntry id f) where
  root := rfl
  groups _ := rfl
  entries e := by
    unfold Database.homeOf
    rw [getElem?_editEntry]
    split
    · case isTrue h =>
      subst h
      cases hentry : db.entries[id]? with
      | none => rfl
      | some entry => simp [hf entry hentry]
    · rfl

/-! ## Moving a group -/

section RelocateGroup
variable {id t : GroupId}

theorem getElem?_relocateGroup (x : GroupId) :
    (db.relocateGroup id t).groups[x]? = db.groups[x]?.map fun group =>
      let group := group.mapGroups (moveChild id (db.parentOf id) t x)
      if x = id then { group with parent := some t, previousParent := db.parentOf id }
      else group := by
  simp [Database.relocateGroup]

theorem mem_groups_relocateGroup {x : GroupId} :
    x ∈ (db.relocateGroup id t).groups ↔ x ∈ db.groups := by
  simp [Database.relocateGroup]

theorem parentOf_relocateGroup (hid : id ∈ db.groups) (x : GroupId) :
    (db.relocateGroup id t).parentOf x = if x = id then some t else db.parentOf x := by
  unfold Database.parentOf
  rw [getElem?_relocateGroup]
  by_cases hx : x = id
  · subst hx
    obtain ⟨group, hgroup⟩ := mem_iff_exists.mp hid
    simp [hgroup]
  · cases hgroup : db.groups[x]? with
    | none => simp [hx]
    | some group => simp [hx, Group.mapGroups]

theorem childGroups_relocateGroup (ht : t ∈ db.groups) (x : GroupId) :
    (db.relocateGroup id t).childGroups x = moveChild id (db.parentOf id) t x (db.childGroups x) := by
  unfold Database.childGroups
  rw [getElem?_relocateGroup]
  cases hgroup : db.groups[x]? with
  | none =>
    have hx : x ≠ t := by
      rintro rfl
      obtain ⟨group, h⟩ := mem_iff_exists.mp ht
      simp [hgroup] at h
    simp [moveChild, hx]
  | some group => by_cases hx : x = id <;> simp [hx]

theorem childEntries_relocateGroup (x : GroupId) :
    (db.relocateGroup id t).childEntries x = db.childEntries x := by
  unfold Database.childEntries
  rw [getElem?_relocateGroup]
  cases db.groups[x]? with
  | none => rfl
  | some group => by_cases hx : x = id <;> simp [hx, Group.mapGroups]

theorem core_relocateGroup (x : GroupId) :
    (db.relocateGroup id t).groups[x]?.map Group.core = db.groups[x]?.map fun group =>
      if x = id then { group.core with parent := some t, previousParent := db.parentOf id }
      else group.core := by
  rw [getElem?_relocateGroup]
  cases db.groups[x]? with
  | none => rfl
  | some group => by_cases hx : x = id <;> simp [hx, Group.mapGroups, Group.core]

/-- A move that closes no cycle keeps the tree. -/
theorem hangs_relocateGroup (hd : Hangs db lateGroups lateEntries) (hid : id ∈ db.groups)
    (ht : t ∈ db.groups) (hroot : id ≠ db.root) (hcycle : ¬ Forest.Above db.parentOf id t) :
    Hangs (db.relocateGroup id t) lateGroups lateEntries where
  rootMem := mem_groups_relocateGroup.mpr hd.rootMem
  rootTop := by
    rw [parentOf_relocateGroup hid]
    simpa [Ne.symm hroot, Database.relocateGroup] using hd.rootTop
  reach x hx := by
    have hoff : ∀ z, z ≠ id → (db.relocateGroup id t).parentOf z = db.parentOf z := by
      intro z hz
      rw [parentOf_relocateGroup hid, if_neg hz]
    exact Forest.above_reparent hoff (by rw [parentOf_relocateGroup hid, if_pos rfl]) hcycle
      (hd.reach t ht) (hd.reach x (mem_groups_relocateGroup.mp hx))
  owned p c hc := by
    rw [childGroups_relocateGroup ht, mem_moveChild] at hc
    rw [parentOf_relocateGroup hid]
    rcases hc with ⟨hold, hleft⟩ | ⟨rfl, rfl⟩
    · by_cases hcid : c = id
      · -- An old mention of the group survives only where the list was ahead of the pointers.
        subst hcid
        exact (hd.owned p c hold).imp (fun h => absurd rfl (hleft h)) fun h => h
      · rw [if_neg hcid]
        exact hd.owned p c hold
    · exact Or.inl (if_pos rfl)
  listed c p hp := by
    rw [parentOf_relocateGroup hid] at hp
    rw [childGroups_relocateGroup ht, mem_moveChild]
    split at hp
    · case isTrue h => exact Or.inr ⟨h, (Option.some.inj hp).symm⟩
    · case isFalse hcid => exact Or.inl ⟨hd.listed c p hp, fun _ => hcid⟩
  entryOwned p e he := by
    rw [childEntries_relocateGroup] at he
    exact hd.entryOwned p e he
  entryListed e p hp := by
    rw [childEntries_relocateGroup]
    exact hd.entryListed e p hp

theorem tidy_relocateGroup (htidy : Tidy db) (ht : t ∈ db.groups) :
    Tidy (db.relocateGroup id t) where
  groups p := by
    rw [childGroups_relocateGroup ht]
    exact nodup_moveChild (htidy.groups p)
  entries p := by
    rw [childEntries_relocateGroup]
    exact htidy.entries p

end RelocateGroup

/-! ## Parents exist -/

theorem not_mem_parentOf {x : GroupId} (h : x ∉ db.groups) : db.parentOf x = none := by
  simp [Database.parentOf, Std.ExtTreeMap.getElem?_eq_none h]

/-- The parent of a group is a group. -/
theorem Hangs.parent_mem (hd : Hangs db lateGroups lateEntries) {c p : GroupId}
    (h : db.parentOf c = some p) : p ∈ db.groups := by
  have hne : db.root ≠ c := by
    rintro rfl
    simp [hd.rootTop] at h
  rcases Forest.above_iff.mp (hd.reach c (mem_groups_of_parentOf h)) with heq | ⟨q, hq, habove⟩
  · exact absurd heq hne
  · obtain rfl : p = q := Option.some.inj (h.symm.trans hq)
    rcases Forest.above_iff.mp habove with heq | ⟨_, hp, _⟩
    · exact heq ▸ hd.rootMem
    · exact mem_groups_of_parentOf hp

/-- The home of an entry is a group. -/
theorem Hangs.home_mem (hd : Hangs db lateGroups lateEntries) {e : EntryId} {p : GroupId}
    (h : db.homeOf e = some p) : p ∈ db.groups := by
  obtain ⟨group, hgroup, _⟩ := mem_childEntries.mp (hd.entryListed e p h)
  exact mem_iff_exists.mpr ⟨group, hgroup⟩

/-! ## Adding a group -/

section InsertGroup
variable {p id : GroupId} {group : Group V}

theorem getElem?_insertGroup (hne : p ≠ id) (x : GroupId) :
    (db.insertGroup p id group).groups[x]? =
      if x = id then some group
      else if x = p then db.groups[x]?.map (Group.mapGroups (insertChild id)) else db.groups[x]? := by
  unfold Database.insertGroup
  by_cases hid : x = id
  · simp [hid]
  · by_cases hp : x = p
    · subst hp
      simp [Std.ExtTreeMap.getElem?_insert, Ne.symm hid, hid]
    · simp [Std.ExtTreeMap.getElem?_insert, Std.ExtTreeMap.getElem?_modify, hid, hp, Ne.symm hid,
        Ne.symm hp]

theorem mem_groups_insertGroup {x : GroupId} :
    x ∈ (db.insertGroup p id group).groups ↔ x = id ∨ x ∈ db.groups := by
  rw [eq_comm]
  simp [Database.insertGroup, Std.ExtTreeMap.mem_modify]

theorem parentOf_insertGroup (hne : p ≠ id) (x : GroupId) :
    (db.insertGroup p id group).parentOf x = if x = id then group.parent else db.parentOf x := by
  unfold Database.parentOf
  rw [getElem?_insertGroup hne]
  split
  · rfl
  · split
    · cases db.groups[x]? <;> rfl
    · rfl

theorem childGroups_insertGroup (hne : p ≠ id) (hp : p ∈ db.groups) (x : GroupId) :
    (db.insertGroup p id group).childGroups x =
      if x = id then group.groups
      else if x = p then insertChild id (db.childGroups x) else db.childGroups x := by
  unfold Database.childGroups
  rw [getElem?_insertGroup hne]
  split
  · rfl
  · split
    · case isTrue h =>
      subst h
      obtain ⟨g, hg⟩ := mem_iff_exists.mp hp
      simp [hg]
    · rfl

theorem childEntries_insertGroup (hne : p ≠ id) (x : GroupId) :
    (db.insertGroup p id group).childEntries x =
      if x = id then group.entries else db.childEntries x := by
  unfold Database.childEntries
  rw [getElem?_insertGroup hne]
  split
  · rfl
  · split
    · cases db.groups[x]? <;> rfl
    · rfl

theorem core_insertGroup (hne : p ≠ id) (x : GroupId) :
    (db.insertGroup p id group).groups[x]?.map Group.core =
      if x = id then some group.core else db.groups[x]?.map Group.core := by
  rw [getElem?_insertGroup hne]
  split
  · rfl
  · split
    · cases db.groups[x]? <;> rfl
    · rfl

/-- A new group hangs below its parent, and lists ahead of time what it brings with it. -/
theorem hangs_insertGroup (hd : Hangs db lateGroups lateEntries) (hp : p ∈ db.groups)
    (hid : id ∉ db.groups) (hparent : group.parent = some p) :
    Hangs (db.insertGroup p id group) (fun q c => lateGroups q c ∨ q = id ∧ c ∈ group.groups)
      (fun q e => lateEntries q e ∨ q = id ∧ e ∈ group.entries) := by
  have hne : p ≠ id := by
    rintro rfl
    exact hid hp
  have hroot : db.root ≠ id := by
    intro h
    exact hid (h ▸ hd.rootMem)
  have hkeep : ∀ z, z ∈ db.groups → (db.insertGroup p id group).parentOf z = db.parentOf z := by
    intro z hz
    rw [parentOf_insertGroup hne, if_neg]
    rintro rfl
    exact hid hz
  have hold : ∀ x ∈ db.groups, Forest.Above (db.insertGroup p id group).parentOf db.root x := by
    intro x hx
    exact Forest.above_of_closed hkeep (fun z q _ hq => hd.parent_mem hq) hx (hd.reach x hx)
  refine ⟨mem_groups_insertGroup.mpr (Or.inr hd.rootMem), ?_, ?_, ?_, ?_, ?_, ?_⟩
  · exact (hkeep db.root hd.rootMem).trans hd.rootTop
  · intro x hx
    rcases mem_groups_insertGroup.mp hx with rfl | hx
    · refine Forest.above_of_parent ?_ (hold p hp)
      rw [parentOf_insertGroup hne, if_pos rfl, hparent]
    · exact hold x hx
  · intro q c hc
    rw [childGroups_insertGroup hne hp] at hc
    rw [parentOf_insertGroup hne]
    have hold : c ∈ db.childGroups q → (if c = id then group.parent else db.parentOf c) = some q ∨
        lateGroups q c ∨ q = id ∧ c ∈ group.groups := by
      intro hc
      rcases hd.owned q c hc with hown | hlate
      · refine Or.inl ?_
        rw [if_neg, hown]
        rintro rfl
        rw [not_mem_parentOf hid] at hown
        cases hown
      · exact Or.inr (Or.inl hlate)
    split at hc
    · case isTrue hq => exact Or.inr (Or.inr ⟨hq, hc⟩)
    · split at hc
      · case isTrue hq =>
        rcases mem_insertChild.mp hc with hc | rfl
        · exact hold hc
        · exact Or.inl ((if_pos rfl).trans (hparent.trans (congrArg some hq.symm)))
      · exact hold hc
  · intro c q hc
    rw [parentOf_insertGroup hne] at hc
    rw [childGroups_insertGroup hne hp]
    split at hc
    · case isTrue h =>
      obtain rfl : p = q := Option.some.inj (hparent.symm.trans hc)
      simp [hne, h]
    · have hq : q ≠ id := by
        rintro rfl
        exact hid (hd.parent_mem hc)
      rw [if_neg hq]
      split
      · exact mem_insertChild.mpr (Or.inl (hd.listed c q hc))
      · exact hd.listed c q hc
  · intro q e he
    rw [childEntries_insertGroup hne] at he
    split at he
    · case isTrue hq => exact Or.inr (Or.inr ⟨hq, he⟩)
    · exact (hd.entryOwned q e he).imp (fun h => h) Or.inl
  · intro e q he
    rw [childEntries_insertGroup hne, if_neg]
    · exact hd.entryListed e q he
    · rintro rfl
      exact hid (hd.home_mem he)

theorem tidy_insertGroup (htidy : Tidy db) (hp : p ∈ db.groups) (hid : id ∉ db.groups)
    (hgroups : group.groups.Nodup) (hentries : group.entries.Nodup) :
    Tidy (db.insertGroup p id group) := by
  have hne : p ≠ id := by
    rintro rfl
    exact hid hp
  refine ⟨fun q => ?_, fun q => ?_⟩
  · rw [childGroups_insertGroup hne hp]
    split
    · exact hgroups
    · split
      · exact nodup_insertChild (htidy.groups q)
      · exact htidy.groups q
  · rw [childEntries_insertGroup hne]
    split
    · exact hentries
    · exact htidy.entries q

end InsertGroup

/-! ## Removing a group -/

section RemoveGroup
variable {id : GroupId}

/-- Whatever hangs below a group is met going down the child lists. -/
theorem below_of_above (hd : Hangs db lateGroups lateEntries) {x : GroupId}
    (h : Forest.Above db.parentOf id x) : db.Below id x := by
  obtain ⟨k, hk⟩ := h
  induction k generalizing x with
  | zero =>
    simp only [Forest.climb, Option.some.injEq] at hk
    exact ⟨0, hk.symm⟩
  | succ k ih =>
    obtain ⟨p, hp, hk⟩ := Option.bind_eq_some_iff.mp hk
    obtain ⟨n, hn⟩ := ih hk
    exact ⟨n + 1, Forest.steps_add.mpr ⟨p, hn, x, hd.listed x p hp, rfl⟩⟩

/-- Where the child lists agree with the pointers, going down and going up meet the same groups. -/
theorem below_iff_above (hd : Hangs db (fun _ _ => False) lateEntries) {x : GroupId} :
    db.Below id x ↔ Forest.Above db.parentOf id x := by
  have hlink : ∀ p c, c ∈ db.childGroups p ↔ db.parentOf c = some p := fun p c =>
    ⟨fun h => (hd.owned p c h).resolve_right fun h => h, hd.listed c p⟩
  constructor
  · rintro ⟨k, hk⟩
    induction k generalizing id with
    | zero => exact hk ▸ Forest.above_refl _
    | succ k ih =>
      obtain ⟨c, hc, hk⟩ := hk
      exact Forest.above_trans (Forest.above_of_parent ((hlink id c).mp hc) (Forest.above_refl id))
        (ih hk)
  · exact below_of_above hd

variable (hd : Hangs db (fun _ _ => False) lateEntries)
  {cleared : List (Meta V → Option Uuid)} (hw : db.WithoutGroup cleared id out)
include hd hw

theorem getElem?_withoutGroup (x : GroupId) :
    (Forest.Above db.parentOf id x → out.groups[x]? = none) ∧
      (¬ Forest.Above db.parentOf id x → out.groups[x]? = db.groups[x]?.map (Group.mapGroups
        fun children =>
          if db.parentOf id = some x then children.filter (· ≠ id) else children)) := by
  rw [← below_iff_above hd]
  exact ⟨hw.gone x, hw.kept x⟩

theorem mem_groups_withoutGroup {x : GroupId} :
    x ∈ out.groups ↔ x ∈ db.groups ∧ ¬ Forest.Above db.parentOf id x := by
  obtain ⟨hgone, hkept⟩ := getElem?_withoutGroup hd hw x
  by_cases h : Forest.Above db.parentOf id x
  · simp [mem_iff_exists, h, hgone h]
  · simp [mem_iff_exists, h, hkept h]

theorem core_withoutGroup {x : GroupId} (h : ¬ Forest.Above db.parentOf id x) :
    out.groups[x]?.map Group.core = db.groups[x]?.map Group.core := by
  rw [(getElem?_withoutGroup hd hw x).2 h]
  cases db.groups[x]? <;> rfl

theorem parentOf_withoutGroup {x : GroupId} (h : ¬ Forest.Above db.parentOf id x) :
    out.parentOf x = db.parentOf x := by
  unfold Database.parentOf
  rw [(getElem?_withoutGroup hd hw x).2 h]
  cases db.groups[x]? <;> rfl

theorem childGroups_withoutGroup {x : GroupId} (h : ¬ Forest.Above db.parentOf id x) :
    out.childGroups x =
      if db.parentOf id = some x then (db.childGroups x).filter (· ≠ id) else db.childGroups x := by
  unfold Database.childGroups
  rw [(getElem?_withoutGroup hd hw x).2 h]
  cases db.groups[x]? <;> simp

theorem childEntries_withoutGroup {x : GroupId} (h : ¬ Forest.Above db.parentOf id x) :
    out.childEntries x = db.childEntries x := by
  unfold Database.childEntries
  rw [(getElem?_withoutGroup hd hw x).2 h]
  cases db.groups[x]? <;> rfl

/-- An entry goes exactly when its home does, if no removed group lists an entry ahead of time. -/
theorem getElem?_entries_withoutGroup
    (hlate : ∀ x e, Forest.Above db.parentOf id x → ¬ lateEntries x e) {e : EntryId} {p : GroupId}
    (hhome : db.homeOf e = some p) :
    (Forest.Above db.parentOf id p → out.entries[e]? = none) ∧
      (¬ Forest.Above db.parentOf id p → out.entries[e]? = db.entries[e]?) := by
  constructor
  · intro h
    exact hw.entriesGone p e ((below_iff_above hd).mpr h) (hd.entryListed e p hhome)
  · intro h
    refine hw.entriesKept e fun x hx he => ?_
    have habove := (below_iff_above hd).mp hx
    have hhome' := (hd.entryOwned x e he).resolve_right (hlate x e habove)
    obtain rfl : p = x := Option.some.inj (hhome.symm.trans hhome')
    exact h habove

/-- A removed entry was there before, unchanged. -/
theorem homeOf_withoutGroup
    (hlate : ∀ x e, Forest.Above db.parentOf id x → ¬ lateEntries x e) {e : EntryId} {p : GroupId} :
    out.homeOf e = some p ↔ db.homeOf e = some p ∧ ¬ Forest.Above db.parentOf id p := by
  cases hentry : db.entries[e]? with
  | none =>
    have hnone : db.homeOf e = none := by simp [Database.homeOf, hentry]
    have hkept : out.entries[e]? = db.entries[e]? := by
      refine hw.entriesKept e fun x hx he => ?_
      have habove := (below_iff_above hd).mp hx
      have hhome := (hd.entryOwned x e he).resolve_right (hlate x e habove)
      simp [hnone] at hhome
    simp [Database.homeOf, hkept, hentry]
  | some entry =>
    have hhome : db.homeOf e = some entry.parent := by simp [Database.homeOf, hentry]
    obtain ⟨hgone, hkept⟩ := getElem?_entries_withoutGroup hd hw hlate hhome
    by_cases h : Forest.Above db.parentOf id entry.parent
    · constructor
      · intro ho
        simp [Database.homeOf, hgone h] at ho
      · rintro ⟨hp, hnot⟩
        rw [hhome, Option.some.injEq] at hp
        exact absurd (hp ▸ h) hnot
    · constructor
      · intro ho
        rw [Database.homeOf, hkept h] at ho
        obtain rfl : entry.parent = p := Option.some.inj (hhome.symm.trans ho)
        exact ⟨hhome, h⟩
      · rintro ⟨hp, _⟩
        rw [Database.homeOf, hkept h]
        exact hp

/-- What is left after a removal still hangs together. -/
theorem hangs_withoutGroup (hroot : id ≠ db.root)
    (hlate : ∀ x e, Forest.Above db.parentOf id x → ¬ lateEntries x e) :
    Hangs out (fun _ _ => False) lateEntries := by
  have hrootTop : ¬ Forest.Above db.parentOf id db.root := by
    rw [Forest.above_top hd.rootTop]
    exact hroot
  have hup : ∀ z p, ¬ Forest.Above db.parentOf id z → db.parentOf z = some p →
      ¬ Forest.Above db.parentOf id p :=
    fun z p hz hp h => hz (Forest.above_of_parent hp h)
  have hnone : ∀ {z}, Forest.Above db.parentOf id z → out.groups[z]? = none :=
    fun {z} h => (getElem?_withoutGroup hd hw z).1 h
  refine ⟨?_, ?_, ?_, ?_, ?_, ?_, ?_⟩
  · rw [hw.root, mem_groups_withoutGroup hd hw]
    exact ⟨hd.rootMem, hrootTop⟩
  · rw [hw.root, parentOf_withoutGroup hd hw hrootTop]
    exact hd.rootTop
  · intro x hx
    obtain ⟨hmem, hnot⟩ := (mem_groups_withoutGroup hd hw).mp hx
    rw [hw.root]
    exact Forest.above_of_closed (fun z hz => parentOf_withoutGroup hd hw hz) hup hnot
      (hd.reach x hmem)
  · intro p c hc
    refine Or.inl ?_
    by_cases hp : Forest.Above db.parentOf id p
    · simp [Database.childGroups, hnone hp] at hc
    · rw [childGroups_withoutGroup hd hw hp] at hc
      have hold : c ∈ db.childGroups p ∧ (db.parentOf id = some p → c ≠ id) := by
        split at hc
        · exact ⟨(List.mem_filter.mp hc).1, fun _ => by simpa using (List.mem_filter.mp hc).2⟩
        · case isFalse h => exact ⟨hc, fun h' => absurd h' h⟩
      have hparent := (hd.owned p c hold.1).resolve_right fun h => h
      rw [parentOf_withoutGroup hd hw, hparent]
      intro h
      rcases Forest.above_iff.mp h with heq | ⟨q, hq, habove⟩
      · exact hold.2 (heq ▸ hparent) heq.symm
      · obtain rfl : p = q := Option.some.inj (hparent.symm.trans hq)
        exact hp habove
  · intro c p hc
    by_cases hcAbove : Forest.Above db.parentOf id c
    · simp [Database.parentOf, hnone hcAbove] at hc
    · rw [parentOf_withoutGroup hd hw hcAbove] at hc
      rw [childGroups_withoutGroup hd hw (hup c p hcAbove hc)]
      have hmem := hd.listed c p hc
      split
      · refine List.mem_filter.mpr ⟨hmem, ?_⟩
        have hne : c ≠ id := by
          rintro rfl
          exact hcAbove (Forest.above_refl c)
        simpa using hne
      · exact hmem
  · intro p e he
    by_cases hp : Forest.Above db.parentOf id p
    · simp [Database.childEntries, hnone hp] at he
    · rw [childEntries_withoutGroup hd hw hp] at he
      exact (hd.entryOwned p e he).imp
        (fun h => (homeOf_withoutGroup hd hw hlate).mpr ⟨h, hp⟩) fun h => h
  · intro e p he
    obtain ⟨hhome, hp⟩ := (homeOf_withoutGroup hd hw hlate).mp he
    rw [childEntries_withoutGroup hd hw hp]
    exact hd.entryListed e p hhome

theorem tidy_withoutGroup (htidy : Tidy db) : Tidy out where
  groups p := by
    by_cases hp : Forest.Above db.parentOf id p
    · simp [Database.childGroups, (getElem?_withoutGroup hd hw p).1 hp]
    · rw [childGroups_withoutGroup hd hw hp]
      split
      · exact (htidy.groups p).filter _
      · exact htidy.groups p
  entries p := by
    by_cases hp : Forest.Above db.parentOf id p
    · simp [Database.childEntries, (getElem?_withoutGroup hd hw p).1 hp]
    · rw [childEntries_withoutGroup hd hw hp]
      exact htidy.entries p

end RemoveGroup

/-! ## Entries -/

/-- The groups are the same but for what they list as entries. -/
structure SameGroups (db out : Database V) : Prop where
  root : out.root = db.root
  core : ∀ x : GroupId, out.groups[x]?.map Group.core = db.groups[x]?.map Group.core
  childGroups : ∀ x, out.childGroups x = db.childGroups x

namespace SameGroups

theorem trans {mid : Database V} (h : SameGroups db mid) (h' : SameGroups mid out) :
    SameGroups db out :=
  ⟨h'.root.trans h.root, fun x => (h'.core x).trans (h.core x),
    fun x => (h'.childGroups x).trans (h.childGroups x)⟩

theorem parentOf (h : SameGroups db out) : out.parentOf = db.parentOf := by
  funext x
  have := congrArg (Option.bind · (·.parent)) (h.core x)
  simpa [Database.parentOf, Option.bind_map, Function.comp_def] using this

theorem mem_groups (h : SameGroups db out) {x : GroupId} : x ∈ out.groups ↔ x ∈ db.groups :=
  mem_iff_of_map_eq (h.core x)

/-- Where the groups are the same, only the entries are left to check. -/
theorem hangs (h : SameGroups db out) (hd : Hangs db lateGroups lateEntries)
    {lateEntries' : GroupId → EntryId → Prop}
    (howned : ∀ p e, e ∈ out.childEntries p → out.homeOf e = some p ∨ lateEntries' p e)
    (hlisted : ∀ e p, out.homeOf e = some p → e ∈ out.childEntries p) :
    Hangs out lateGroups lateEntries' where
  rootMem := by rw [h.root, h.mem_groups]; exact hd.rootMem
  rootTop := by rw [h.root, h.parentOf]; exact hd.rootTop
  reach x hx := by rw [h.root, h.parentOf]; exact hd.reach x (h.mem_groups.mp hx)
  owned p c hc := by rw [h.childGroups] at hc; rw [h.parentOf]; exact hd.owned p c hc
  listed c p hp := by rw [h.parentOf] at hp; rw [h.childGroups]; exact hd.listed c p hp
  entryOwned := howned
  entryListed := hlisted

end SameGroups

/-- An edit of the child entries of every group. -/
theorem sameGroups_mapEntries (f : GroupId → List EntryId → List EntryId) (entries : Map EntryId (Entry V)) :
    SameGroups db { db with
      groups := db.groups.map fun x group => group.mapEntries (f x)
      entries := entries } where
  root := rfl
  core x := by
    simp only [Std.ExtTreeMap.getElem?_map]
    cases db.groups[x]? <;> rfl
  childGroups x := by
    simp only [Database.childGroups, Std.ExtTreeMap.getElem?_map]
    cases db.groups[x]? <;> rfl

theorem IsTree.homeOf_iff (hd : IsTree db) {e : EntryId} {p : GroupId} :
    e ∈ db.childEntries p ↔ db.homeOf e = some p :=
  ⟨fun h => (hd.entryOwned p e h).resolve_right fun h => h, hd.entryListed e p⟩

section RelocateEntry
variable {id : EntryId} {t : GroupId}

theorem sameGroups_relocateEntry : SameGroups db (db.relocateEntry id t) :=
  sameGroups_mapEntries (fun x children => moveChild id (db.homeOf id) t x children) _

theorem getElem?_relocateEntry (e : EntryId) :
    (db.relocateEntry id t).entries[e]? =
      if id = e then db.entries[e]?.map fun entry =>
        { entry with parent := t, previousParent := some entry.parent } else db.entries[e]? :=
  getElem?_editEntry id e _

theorem homeOf_relocateEntry (hid : id ∈ db.entries) (e : EntryId) :
    (db.relocateEntry id t).homeOf e = if e = id then some t else db.homeOf e := by
  unfold Database.homeOf
  rw [getElem?_relocateEntry]
  by_cases h : id = e
  · subst h
    obtain ⟨entry, hentry⟩ := mem_iff_exists.mp hid
    simp [hentry]
  · simp [h, Ne.symm h]

theorem childEntries_relocateEntry (ht : t ∈ db.groups) (x : GroupId) :
    (db.relocateEntry id t).childEntries x = moveChild id (db.homeOf id) t x (db.childEntries x) := by
  simp only [Database.childEntries, Database.relocateEntry, Std.ExtTreeMap.getElem?_map]
  cases hgroup : db.groups[x]? with
  | none =>
    have hx : x ≠ t := by
      rintro rfl
      obtain ⟨group, h⟩ := mem_iff_exists.mp ht
      simp [hgroup] at h
    simp [moveChild, hx]
  | some group => rfl

theorem hangs_relocateEntry (hd : Hangs db lateGroups lateEntries) (hid : id ∈ db.entries)
    (ht : t ∈ db.groups) : Hangs (db.relocateEntry id t) lateGroups lateEntries := by
  refine sameGroups_relocateEntry.hangs hd ?_ ?_
  · intro p e he
    rw [childEntries_relocateEntry ht, mem_moveChild] at he
    rw [homeOf_relocateEntry hid]
    rcases he with ⟨hold, hleft⟩ | ⟨rfl, rfl⟩
    · by_cases heq : e = id
      · subst heq
        exact (hd.entryOwned p e hold).imp (fun h => absurd rfl (hleft h)) fun h => h
      · rw [if_neg heq]
        exact hd.entryOwned p e hold
    · exact Or.inl (if_pos rfl)
  · intro e p he
    rw [homeOf_relocateEntry hid] at he
    rw [childEntries_relocateEntry ht, mem_moveChild]
    split at he
    · case isTrue h => exact Or.inr ⟨h, (Option.some.inj he).symm⟩
    · case isFalse hne => exact Or.inl ⟨hd.entryListed e p he, fun _ => hne⟩

theorem tidy_relocateEntry (htidy : Tidy db) (ht : t ∈ db.groups) : Tidy (db.relocateEntry id t) where
  groups p := by
    rw [sameGroups_relocateEntry.childGroups]
    exact htidy.groups p
  entries p := by
    rw [childEntries_relocateEntry ht]
    exact nodup_moveChild (htidy.entries p)

end RelocateEntry

section InsertEntry
variable {id : EntryId} {p : GroupId} {entry : Entry V}

theorem sameGroups_insertEntry : SameGroups db (db.insertEntry p id entry) where
  root := rfl
  core x := by
    simp only [Database.insertEntry, Std.ExtTreeMap.getElem?_modify]
    by_cases h : p = x
    · subst h
      cases db.groups[p]? <;> simp
    · simp [h]
  childGroups x := by
    simp only [Database.childGroups, Database.insertEntry, Std.ExtTreeMap.getElem?_modify]
    by_cases h : p = x
    · subst h
      cases db.groups[p]? <;> simp
    · simp [h]

theorem getElem?_insertEntry (e : EntryId) :
    (db.insertEntry p id entry).entries[e]? = if id = e then some entry else db.entries[e]? := by
  by_cases h : id = e <;> simp [Database.insertEntry, Std.ExtTreeMap.getElem?_insert, h]

theorem homeOf_insertEntry (e : EntryId) :
    (db.insertEntry p id entry).homeOf e = if e = id then some entry.parent else db.homeOf e := by
  unfold Database.homeOf
  rw [getElem?_insertEntry]
  by_cases h : id = e
  · simp [h]
  · simp [h, Ne.symm h]

theorem childEntries_insertEntry (hp : p ∈ db.groups) (x : GroupId) :
    (db.insertEntry p id entry).childEntries x =
      if x = p then insertChild id (db.childEntries x) else db.childEntries x := by
  simp only [Database.childEntries, Database.insertEntry, Std.ExtTreeMap.getElem?_modify]
  by_cases h : p = x
  · subst h
    obtain ⟨group, hgroup⟩ := mem_iff_exists.mp hp
    simp [hgroup]
  · simp [h, Ne.symm h]

theorem hangs_insertEntry (hd : Hangs db lateGroups lateEntries) (hp : p ∈ db.groups)
    (hid : id ∉ db.entries) (hparent : entry.parent = p) :
    Hangs (db.insertEntry p id entry) lateGroups lateEntries := by
  have hhome : db.homeOf id = none := by
    simp [Database.homeOf, Std.ExtTreeMap.getElem?_eq_none hid]
  refine sameGroups_insertEntry.hangs hd ?_ ?_
  · intro q e he
    rw [childEntries_insertEntry hp] at he
    rw [homeOf_insertEntry]
    have hold : e ∈ db.childEntries q →
        (if e = id then some entry.parent else db.homeOf e) = some q ∨ lateEntries q e := by
      intro he
      refine (hd.entryOwned q e he).imp (fun hq => ?_) fun h => h
      rw [if_neg]
      · exact hq
      · rintro rfl
        simp [hhome] at hq
    split at he
    · case isTrue hq =>
      rcases mem_insertChild.mp he with he | rfl
      · exact hold he
      · exact Or.inl ((if_pos rfl).trans (congrArg some (hparent.trans hq.symm)))
    · exact hold he
  · intro e q he
    rw [homeOf_insertEntry] at he
    rw [childEntries_insertEntry hp]
    split at he
    · case isTrue h =>
      obtain rfl : p = q := hparent.symm.trans (Option.some.inj he)
      simp [h]
    · have hmem := hd.entryListed e q he
      split
      · exact mem_insertChild.mpr (Or.inl hmem)
      · exact hmem

theorem tidy_insertEntry (htidy : Tidy db) (hp : p ∈ db.groups) :
    Tidy (db.insertEntry p id entry) where
  groups q := by
    rw [sameGroups_insertEntry.childGroups]
    exact htidy.groups q
  entries q := by
    rw [childEntries_insertEntry hp]
    split
    · exact nodup_insertChild (htidy.entries q)
    · exact htidy.entries q

end InsertEntry

section EraseEntry
variable {id : EntryId}

theorem sameGroups_eraseEntry : SameGroups db (db.eraseEntry id) :=
  sameGroups_mapEntries (fun x children =>
    if db.homeOf id = some x then children.filter (· ≠ id) else children) _

theorem getElem?_eraseEntry (e : EntryId) :
    (db.eraseEntry id).entries[e]? = if id = e then none else db.entries[e]? := by
  by_cases h : id = e <;> simp [Database.eraseEntry, Std.ExtTreeMap.getElem?_erase, h]

theorem homeOf_eraseEntry (e : EntryId) :
    (db.eraseEntry id).homeOf e = if id = e then none else db.homeOf e := by
  unfold Database.homeOf
  rw [getElem?_eraseEntry]
  split <;> rfl

theorem childEntries_eraseEntry (x : GroupId) :
    (db.eraseEntry id).childEntries x =
      if db.homeOf id = some x then (db.childEntries x).filter (· ≠ id)
      else db.childEntries x := by
  simp only [Database.childEntries, Database.eraseEntry, Std.ExtTreeMap.getElem?_map]
  cases db.groups[x]? <;> simp

theorem hangs_eraseEntry (hd : Hangs db lateGroups lateEntries) :
    Hangs (db.eraseEntry id) lateGroups lateEntries := by
  refine sameGroups_eraseEntry.hangs hd ?_ ?_
  · intro p e he
    rw [childEntries_eraseEntry] at he
    rw [homeOf_eraseEntry]
    split at he
    · obtain ⟨hmem, hne⟩ := List.mem_filter.mp he
      rw [if_neg (fun h => by simp [h] at hne)]
      exact hd.entryOwned p e hmem
    · case isFalse hp =>
      refine (hd.entryOwned p e he).imp (fun hhome => ?_) fun h => h
      rw [if_neg]
      · exact hhome
      · rintro rfl
        exact hp hhome
  · intro e p he
    rw [homeOf_eraseEntry] at he
    rw [childEntries_eraseEntry]
    split at he
    · cases he
    · case isFalse hne =>
      have hmem := hd.entryListed e p he
      split
      · exact List.mem_filter.mpr ⟨hmem, by simpa using Ne.symm hne⟩
      · exact hmem

theorem tidy_eraseEntry (htidy : Tidy db) : Tidy (db.eraseEntry id) where
  groups p := by
    rw [sameGroups_eraseEntry.childGroups]
    exact htidy.groups p
  entries p := by
    rw [childEntries_eraseEntry]
    split
    · exact (htidy.entries p).filter _
    · exact htidy.entries p

end EraseEntry

end NianPass.Kdbx
