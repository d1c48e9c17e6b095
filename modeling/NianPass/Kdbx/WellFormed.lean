import NianPass.Kdbx.Validity

/-
  What `database_valid_for_sync` decides, in the words of the file format.

  `SyncValid` states the invariant the way the merge proofs carry it: through
  `parentOf`, `childGroups` and `Forest.Above`. `WellFormed` says the same of
  the stored maps alone, for a database as a remote file may hand it over:
  parents and child lists are arbitrary, there may be cycles and identifiers
  that name nothing.

  `Walks` is the `while let` loop up the parent pointers as the code runs it,
  with no bound on its rounds. `ancestry_walks` shows that it ends from every
  group of every database and that `ancestry` with one round more than there are
  groups is its result, so the bound in `databaseValidForSync` stands for nothing
  the code does not do.
-/
namespace NianPass.Kdbx

variable {V : Type}

/-! ## The loop without a bound -/

/-- `Walks db seen current out`: the loop over `current`, which has passed the groups `seen`, ends
with `out`: the groups passed, or `none` for `return false`. -/
inductive Walks (db : Database V) :
    List GroupId → Option GroupId → Option (List GroupId) → Prop where
  | top (seen : List GroupId) : Walks db seen none (some seen)
  | again {seen : List GroupId} {id : GroupId} (hseen : id ∈ seen) : Walks db seen (some id) none
  | missing {seen : List GroupId} {id : GroupId} (hseen : id ∉ seen)
      (hgroup : db.groups[id]? = none) : Walks db seen (some id) none
  | up {seen : List GroupId} {id : GroupId} {group : Group V} {out : Option (List GroupId)}
      (hseen : id ∉ seen) (hgroup : db.groups[id]? = some group)
      (hrest : Walks db (id :: seen) group.parent out) : Walks db seen (some id) out

/-- The loop has one result. -/
theorem Walks.unique {db : Database V} {seen : List GroupId} {current : Option GroupId}
    {out out' : Option (List GroupId)} (h : Walks db seen current out)
    (h' : Walks db seen current out') : out = out' := by
  induction h with
  | top seen =>
    cases h'
    rfl
  | again hseen =>
    cases h' with
    | again => rfl
    | missing => rfl
    | up hfresh => exact absurd hseen hfresh
  | missing hseen hgroup =>
    cases h' with
    | again hin => exact absurd hin hseen
    | missing => rfl
    | up _ hsome => exact absurd (hgroup.symm.trans hsome) (by simp)
  | up hseen hgroup _ ih =>
    cases h' with
    | again hin => exact absurd hin hseen
    | missing _ hnone => exact absurd (hnone.symm.trans hgroup) (by simp)
    | up _ hsome hrest =>
      obtain rfl := Option.some.inj (hgroup.symm.trans hsome)
      exact ih hrest

/-- Each round passes a group not passed before, so there are no more rounds than groups. -/
theorem ancestry_walks {db : Database V} {fuel : Nat} {seen : List GroupId}
    {current : Option GroupId} (hnodup : seen.Nodup) (hlive : ∀ x ∈ seen, x ∈ db.groups)
    (hfuel : db.groups.size < fuel + seen.length) :
    Walks db seen current (db.ancestry fuel seen current) := by
  induction fuel generalizing seen current with
  | zero =>
    have hsub : seen ⊆ db.groups.keys := fun x hx => Std.ExtTreeMap.mem_keys.mpr (hlive x hx)
    have hle : seen.length ≤ db.groups.keys.length := (hnodup.subperm hsub).length_le
    rw [Std.ExtTreeMap.length_keys] at hle
    omega
  | succ fuel ih =>
    cases current with
    | none => exact .top seen
    | some id =>
      rw [Database.ancestry]
      split
      · case isTrue hseen => exact .again hseen
      · case isFalse hseen =>
        split
        · case h_1 hgroup => exact .missing hseen hgroup
        · case h_2 group hgroup =>
          refine .up hseen hgroup (ih (List.nodup_cons.mpr ⟨hseen, hnodup⟩) ?_ ?_)
          · intro x hx
            rcases List.mem_cons.mp hx with rfl | hx
            · exact mem_iff_exists.mpr ⟨group, hgroup⟩
            · exact hlive x hx
          · rw [List.length_cons]
            omega

/-! ## Well-formed databases -/

namespace Database

/-- `p` is the parent of the group `c`. -/
def ParentGroup (db : Database V) (c p : GroupId) : Prop :=
  ∃ group, db.groups[c]? = some group ∧ group.parent = some p

/-- `p` is the one group that lists the child `c`, and lists it once. -/
def ListedOnce {κ : Type} [DecidableEq κ] (db : Database V) (children : Group V → List κ)
    (c : κ) : Prop :=
  ∃ (p : GroupId) (group : Group V), db.groups[p]? = some group ∧ (children group).count c = 1 ∧
    ∀ (q : GroupId) (other : Group V), db.groups[q]? = some other → c ∈ children other → q = p

/-- The UUIDs of the entries, groups and custom icons. -/
def LiveUuid (db : Database V) (id : Uuid) : Prop :=
  ⟨id⟩ ∈ db.entries ∨ ⟨id⟩ ∈ db.groups ∨ ⟨id⟩ ∈ db.customIcons

end Database

/-- A database that is one tree of groups and entries, with every identifier in order. -/
structure WellFormed (db : Database V) : Prop where
  root : ∃ group, db.groups[db.root]? = some group ∧ group.parent = none
  reach : ∀ id ∈ db.groups, Relation.ReflTransGen db.ParentGroup id db.root
  childGroups : ∀ (p : GroupId) (group : Group V), db.groups[p]? = some group →
    ∀ c ∈ group.groups, ∃ child, db.groups[c]? = some child ∧ child.parent = some p
  childEntries : ∀ (p : GroupId) (group : Group V), db.groups[p]? = some group →
    ∀ e ∈ group.entries, ∃ entry, db.entries[e]? = some entry ∧ entry.parent = p
  groupsOnce : ∀ c ∈ db.groups, c ≠ db.root → db.ListedOnce (·.groups) c
  entriesOnce : ∀ e ∈ db.entries, db.ListedOnce (·.entries) e
  entryGroup : ∀ id : Uuid, ⟨id⟩ ∈ db.entries → (⟨id⟩ : GroupId) ∉ db.groups
  entryIcon : ∀ id : Uuid, ⟨id⟩ ∈ db.entries → (⟨id⟩ : CustomIconId) ∉ db.customIcons
  groupIcon : ∀ id : Uuid, ⟨id⟩ ∈ db.groups → (⟨id⟩ : CustomIconId) ∉ db.customIcons
  notDeleted : ∀ id, db.LiveUuid id → id ∉ db.deletedObjects
  groupIcons : ∀ (id : GroupId) (group : Group V), db.groups[id]? = some group →
    ∀ icon, group.icon = some (.custom icon) → icon ∈ db.customIcons
  entryIcons : ∀ (id : EntryId) (entry : Entry V), db.entries[id]? = some entry →
    ∀ icon, entry.icon = some (.custom icon) → icon ∈ db.customIcons
  historyIcons : ∀ (id : EntryId) (entry : Entry V), db.entries[id]? = some entry →
    ∀ snapshot ∈ entry.history.getD [],
    ∀ icon, snapshot.icon = some (.custom icon) → icon ∈ db.customIcons

section WellFormed
variable {db : Database V}

theorem parentGroup_iff {c p : GroupId} : db.ParentGroup c p ↔ db.parentOf c = some p := by
  simp [Database.ParentGroup, Database.parentOf, Option.bind_eq_some_iff]

theorem reach_iff {id : GroupId} : Relation.ReflTransGen db.ParentGroup id db.root ↔
    Forest.Above db.parentOf db.root id := by
  have hstep : db.ParentGroup = fun c p => db.parentOf c = some p := by
    funext c p
    exact propext parentGroup_iff
  rw [Forest.above_iff_reflTransGen, hstep]

theorem liveUuid_iff {id : Uuid} : db.LiveUuid id ↔ ∃ k, LiveAs db k id := by
  constructor
  · rintro (h | h | h)
    · exact ⟨.entry, h⟩
    · exact ⟨.group, h⟩
    · exact ⟨.icon, h⟩
  · rintro ⟨k, hk⟩
    cases k with
    | entry => exact Or.inl hk
    | group => exact Or.inr (Or.inl hk)
    | icon => exact Or.inr (Or.inr hk)

/-- A child its parent lists without repetition is listed once and nowhere else, where every
listed child has the listing group for its parent. -/
theorem listedOnce_of_owned {κ : Type} [DecidableEq κ] {children : Group V → List κ}
    {parent : κ → Option GroupId} {c : κ} {p : GroupId} {group : Group V}
    (howned : ∀ (q : GroupId) (other : Group V), db.groups[q]? = some other →
      ∀ x ∈ children other, parent x = some q)
    (hgroup : db.groups[p]? = some group) (hnodup : (children group).Nodup)
    (hc : c ∈ children group) : db.ListedOnce children c := by
  refine ⟨p, group, hgroup, List.count_eq_one_of_mem hnodup hc, ?_⟩
  intro q other hother hin
  exact Option.some.inj ((howned q other hother c hin).symm.trans (howned p group hgroup c hc))

theorem SyncValid.wellFormed (h : SyncValid db) : WellFormed db := by
  have hparent : ∀ (q : GroupId) (other : Group V), db.groups[q]? = some other →
      ∀ c ∈ other.groups, db.parentOf c = some q := by
    intro q other hother c hc
    simpa using h.tree.owned q c (mem_childGroups.mpr ⟨other, hother, hc⟩)
  have hhome : ∀ (q : GroupId) (other : Group V), db.groups[q]? = some other →
      ∀ e ∈ other.entries, db.homeOf e = some q := by
    intro q other hother e he
    simpa using h.tree.entryOwned q e (mem_childEntries.mpr ⟨other, hother, he⟩)
  have hkind : ∀ {id} k k', LiveAs db k id → LiveAs db k' id → k ≠ k' → False :=
    fun _ _ hk hk' hne => hne (h.identified.oneKind _ _ _ hk hk')
  constructor
  case root =>
    obtain ⟨group, hgroup⟩ := mem_iff_exists.mp h.tree.rootMem
    exact ⟨group, hgroup, by simpa [Database.parentOf, hgroup] using h.tree.rootTop⟩
  case reach => exact fun id hid => reach_iff.mpr (h.tree.reach id hid)
  case childGroups => exact fun p group hgroup c hc => parentGroup_iff.mpr (hparent p group hgroup c hc)
  case childEntries => exact fun p group hgroup e he => homeOf_eq_some.mp (hhome p group hgroup e he)
  case groupsOnce =>
    intro c hc hne
    obtain ⟨p, hp⟩ := exists_parentOf (h.tree.reach c hc) hne
    obtain ⟨group, hgroup, hin⟩ := mem_childGroups.mp (h.tree.listed c p hp)
    have hnodup : group.groups.Nodup := by
      have := h.tidy.groups p
      rwa [Database.childGroups, hgroup] at this
    exact listedOnce_of_owned hparent hgroup hnodup hin
  case entriesOnce =>
    intro e he
    obtain ⟨entry, hentry⟩ := mem_iff_exists.mp he
    obtain ⟨group, hgroup, hin⟩ := mem_childEntries.mp
      (h.tree.entryListed e _ (homeOf_eq_some.mpr ⟨entry, hentry, rfl⟩))
    have hnodup : group.entries.Nodup := by
      have := h.tidy.entries entry.parent
      rwa [Database.childEntries, hgroup] at this
    exact listedOnce_of_owned hhome hgroup hnodup hin
  case entryGroup => exact fun id he hg => hkind .entry .group he hg (by decide)
  case entryIcon => exact fun id he hi => hkind .entry .icon he hi (by decide)
  case groupIcon => exact fun id hg hi => hkind .group .icon hg hi (by decide)
  case notDeleted =>
    intro id hlive
    obtain ⟨k, hk⟩ := liveUuid_iff.mp hlive
    exact h.identified.notDeleted id k hk
  case groupIcons => exact h.icons.groups
  case entryIcons => exact h.icons.entries
  case historyIcons => exact h.icons.snapshots

theorem WellFormed.syncValid (h : WellFormed db) : SyncValid db := by
  have hparent : ∀ p c, c ∈ db.childGroups p → db.parentOf c = some p := by
    intro p c hc
    obtain ⟨group, hgroup, hc⟩ := mem_childGroups.mp hc
    exact parentGroup_iff.mp (h.childGroups p group hgroup c hc)
  have hhome : ∀ p e, e ∈ db.childEntries p → db.homeOf e = some p := by
    intro p e he
    obtain ⟨group, hgroup, he⟩ := mem_childEntries.mp he
    exact homeOf_eq_some.mpr (h.childEntries p group hgroup e he)
  obtain ⟨top, htop, hnone⟩ := h.root
  have hroot : db.parentOf db.root = none := by simp [Database.parentOf, htop, hnone]
  -- A listed child has a parent, so it is no root, and it is listed by that parent alone.
  have honce : ∀ p c, c ∈ db.childGroups p → (db.childGroups p).count c = 1 := by
    intro p c hc
    have hne : c ≠ db.root := by
      rintro rfl
      exact absurd (hroot.symm.trans (hparent p _ hc)) (by simp)
    obtain ⟨q, group, hgroup, hcount, honly⟩ :=
      h.groupsOnce c (mem_groups_of_parentOf (hparent p c hc)) hne
    obtain ⟨other, hother, hin⟩ := mem_childGroups.mp hc
    obtain rfl := honly p other hother hin
    simpa [Database.childGroups, hgroup] using hcount
  have honceE : ∀ p e, e ∈ db.childEntries p → (db.childEntries p).count e = 1 := by
    intro p e he
    obtain ⟨entry, hentry, _⟩ := homeOf_eq_some.mp (hhome p e he)
    obtain ⟨q, group, hgroup, hcount, honly⟩ := h.entriesOnce e (mem_iff_exists.mpr ⟨entry, hentry⟩)
    obtain ⟨other, hother, hin⟩ := mem_childEntries.mp he
    obtain rfl := honly p other hother hin
    simpa [Database.childEntries, hgroup] using hcount
  refine ⟨⟨?_, hroot, fun x hx => reach_iff.mp (h.reach x hx), ?_, ?_, ?_, ?_⟩, ⟨?_, ?_⟩,
    ⟨h.groupIcons, h.entryIcons, h.historyIcons⟩, ⟨?_, ?_⟩⟩
  · exact mem_iff_exists.mpr ⟨top, htop⟩
  · exact fun p c hc => Or.inl (hparent p c hc)
  · intro c p hp
    have hne : c ≠ db.root := by
      rintro rfl
      simp [hroot] at hp
    obtain ⟨q, group, hgroup, hcount, _⟩ := h.groupsOnce c (mem_groups_of_parentOf hp) hne
    have hin : c ∈ db.childGroups q :=
      mem_childGroups.mpr ⟨group, hgroup, List.count_pos_iff.mp (hcount ▸ Nat.one_pos)⟩
    obtain rfl : q = p := Option.some.inj ((hparent q c hin).symm.trans hp)
    exact hin
  · exact fun p e he => Or.inl (hhome p e he)
  · intro e p hp
    obtain ⟨entry, hentry, _⟩ := homeOf_eq_some.mp hp
    obtain ⟨q, group, hgroup, hcount, _⟩ := h.entriesOnce e (mem_iff_exists.mpr ⟨entry, hentry⟩)
    have hin : e ∈ db.childEntries q :=
      mem_childEntries.mpr ⟨group, hgroup, List.count_pos_iff.mp (hcount ▸ Nat.one_pos)⟩
    obtain rfl : q = p := Option.some.inj ((hhome q e hin).symm.trans hp)
    exact hin
  · exact fun p => List.nodup_iff_count_eq_one.mpr (honce p)
  · exact fun p => List.nodup_iff_count_eq_one.mpr (honceE p)
  · intro id k k' hk hk'
    cases k <;> cases k' <;> first
      | rfl
      | exact absurd hk' (h.entryGroup id hk)
      | exact absurd hk (h.entryGroup id hk')
      | exact absurd hk' (h.entryIcon id hk)
      | exact absurd hk (h.entryIcon id hk')
      | exact absurd hk' (h.groupIcon id hk)
      | exact absurd hk (h.groupIcon id hk')
  · exact fun id k hk => h.notDeleted id (liveUuid_iff.mpr ⟨k, hk⟩)

end WellFormed

/-- `database_valid_for_sync` ends on every database, its loop up the parents included, and
accepts exactly the well-formed ones. -/
theorem databaseValidForSync_decides (db : Database V) :
    (∀ id, Walks db [] (some id) (db.ancestry (db.groups.size + 1) [] (some id))) ∧
      (databaseValidForSync db = true ↔ WellFormed db) := by
  constructor
  · intro id
    exact ancestry_walks List.nodup_nil (by simp) (by simp)
  · rw [databaseValidForSync_iff]
    exact ⟨SyncValid.wellFormed, WellFormed.syncValid⟩

end NianPass.Kdbx
