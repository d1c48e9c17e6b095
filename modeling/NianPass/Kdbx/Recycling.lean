import NianPass.Kdbx.Bulk
import NianPass.Kdbx.Mergeable

/-
  Into the bin and back.

  The only trace of where a recycled object came from is its previous parent,
  which every move overwrites. Between trash and restore any mutation may run:
  others move, come and go, the bin itself may be moved, the original parent may
  be recycled and restored. What the origin needs is that the object itself stays.

  Staying is read off the document: after each call the object still hangs below
  the bin. `perform_leaves` shows that a call that leaves it there has not moved
  it (the only move that ends where it started is a restore to the root of an
  object below the root), so its previous parent is what it was.
-/
namespace NianPass.Kdbx

open Method

variable {V : Type} {db out : Database V}

/-! ## Entries and groups alike -/

/-- An entry or a group. -/
inductive Item where
  | entry (id : EntryId)
  | group (id : GroupId)
  deriving DecidableEq

namespace Item

/-- The text that names the object. -/
def name : Item → String
  | entry id => Database.uuidText id.uuid
  | group id => Database.uuidText id.uuid

def parentIn (db : Database V) : Item → Option GroupId
  | entry id => db.homeOf id
  | group id => db.parentOf id

/-- The parent and the previous parent. -/
def place (db : Database V) : Item → Option (Option GroupId × Option GroupId)
  | entry id => db.entries[id]?.map fun entry => (some entry.parent, entry.previousParent)
  | group id => db.groups[id]?.map fun group => (group.parent, group.previousParent)

/-- The object is in the subtree of `recycle`. -/
def InBin (db : Database V) (recycle : GroupId) : Item → Prop
  | entry id => ∃ parent, db.homeOf id = some parent ∧ groupIsInRecycleBin db parent recycle = true
  | group id => groupIsInRecycleBin db id recycle = true

def trash : Item → Mutation
  | entry id => .trashEntry (entry id).name
  | group id => .trashGroup (group id).name

def restore : Item → Mutation
  | entry id => .restoreEntry (entry id).name
  | group id => .restoreGroup (group id).name

theorem place_entry (db : Database V) (id : EntryId) : (entry id).place db =
    db.entries[id]?.map fun entry => (some entry.parent, entry.previousParent) := rfl

theorem place_group (db : Database V) (id : GroupId) : (group id).place db =
    db.groups[id]?.map fun group => (group.parent, group.previousParent) := rfl

theorem parentIn_eq (item : Item) (db : Database V) : item.parentIn db = (item.place db).bind Prod.fst := by
  cases item with
  | entry id =>
    show db.homeOf id = _
    rw [place_entry, Database.homeOf]
    cases db.entries[id]? <;> rfl
  | group id =>
    show db.parentOf id = _
    rw [place_group, Database.parentOf]
    cases db.groups[id]? <;> rfl

end Item

/-! ## Staying -/

/-- The object has the parent and the previous parent it had, or it is gone. -/
def Rests (item : Item) (db out : Database V) : Prop :=
  item.place out = none ∨ item.place out = item.place db

section Rests
variable {item : Item}

theorem Rests.refl (item : Item) (db : Database V) : Rests item db db := Or.inr rfl

theorem Rests.trans {mid : Database V} (h : Rests item db mid) (h' : Rests item mid out) :
    Rests item db out := by
  rcases h' with hgone | hsame
  · exact Or.inl hgone
  · unfold Rests
    rwa [hsame]

theorem Rests.parentIn {p : GroupId} (h : Rests item db out) (hp : item.parentIn out = some p) :
    item.parentIn db = some p := by
  rw [Item.parentIn_eq] at hp ⊢
  rcases h with hgone | hsame
  · rw [hgone] at hp
    cases hp
  · rw [← hsame]
    exact hp

theorem SameGroups.place (h : SameGroups db out) (id : GroupId) :
    (Item.group id).place out = (Item.group id).place db := by
  have hcore := congrArg (Option.map fun group : Group V => (group.parent, group.previousParent)) (h.core id)
  rw [Option.map_map, Option.map_map] at hcore
  exact hcore

theorem TrackedEdit.place {id : EntryId} {entry : Entry V} {data : EntryData V}
    (h : TrackedEdit db id entry data out) : item.place out = item.place db := by
  cases item with
  | group g => rw [Item.place_group, Item.place_group, h.groups]
  | entry e =>
    rw [Item.place_entry, Item.place_entry, h.getElem?]
    split
    · case isTrue he =>
      rw [he, h.found]
      show some (some data.parent, data.previousParent) = some (some entry.parent, entry.previousParent)
      rw [h.parent, h.previousParent]
    · rfl

/-- What stays in its place has not been moved. -/
theorem Still.rests (h : Still db out) : Rests item db out := by
  cases h with
  | tracked id entry data _ h hicons => exact Or.inr h.place
  | removeEntry id table time hid =>
    cases item with
    | group g => exact Or.inr (sameGroups_eraseEntry.place g)
    | entry e =>
      have hget : (Item.entry e).place (db.eraseEntry id) = if id = e then none else (Item.entry e).place db := by
        rw [Item.place_entry, Item.place_entry, getElem?_eraseEntry]
        split <;> rfl
      unfold Rests
      change (Item.entry e).place (db.eraseEntry id) = none ∨ (Item.entry e).place (db.eraseEntry id) = _
      rw [hget]
      split
      · exact Or.inl rfl
      · exact Or.inr rfl
  | editGroup id edit hparent hprevious hgroups hentries hicon =>
    right
    cases item with
    | entry e => rfl
    | group g =>
      rw [Item.place_group, Item.place_group, getElem?_editGroup]
      split
      · rw [Option.map_map]
        simp only [Function.comp_def, hparent, hprevious]
      · rfl
  | removeGroup id without deleted hid hroot hwithout hdeleted =>
    obtain ⟨_, hwithout⟩ := hwithout
    cases item with
    | entry e =>
      by_cases hgone : ∃ x, db.Below id x ∧ e ∈ db.childEntries x
      · obtain ⟨x, hx, he⟩ := hgone
        left
        rw [Item.place_entry]
        exact congrArg (Option.map _) (hwithout.entriesGone x e hx he)
      · right
        rw [Item.place_entry, Item.place_entry]
        exact congrArg (Option.map _) (hwithout.entriesKept e fun x hx he => hgone ⟨x, hx, he⟩)
    | group g =>
      by_cases hgone : db.Below id g
      · left
        rw [Item.place_group]
        exact congrArg (Option.map _) (hwithout.gone g hgone)
      · right
        rw [Item.place_group, Item.place_group]
        exact (congrArg (Option.map _) (hwithout.kept g hgone)).trans (Option.map_map ..)
  | settings metadata _ => exact Rests.refl item db
  | historyPolicy metadata =>
    right
    obtain ⟨heq, hentries⟩ := pruneAllEntryHistory_spec { db with metadata := metadata }
    cases item with
    | group g =>
      rw [heq]
      rfl
    | entry e =>
      rw [Item.place_entry, Item.place_entry]
      rcases hentries e with ⟨hnone, hnone'⟩ | ⟨entry, pruned, hentry, hpruned, n, rfl⟩
      · change db.entries[e]? = none at hnone
        rw [hnone, hnone']
      · change db.entries[e]? = some entry at hentry
        rw [hentry, hpruned]
        rfl

/-- A fresh identifier names nothing that was there. -/
theorem Draw.place {uuid : Uuid} (h : Draw uuid db out) (hfresh : Fresh db uuid) (hdb : SyncValid db)
    {p : GroupId} (hp : item.parentIn db = some p) : item.place out = item.place db := by
  cases h with
  | entry parent entry table hparent hentry hhistory hicon =>
    cases item with
    | group g =>
      have hgroups : SameGroups db (db.insertEntry parent ⟨uuid⟩ entry) := sameGroups_insertEntry
      exact hgroups.place g
    | entry e =>
      have hne : (⟨uuid⟩ : EntryId) ≠ e := by
        rintro rfl
        obtain ⟨old, hold, -⟩ := homeOf_eq_some.mp hp
        exact hfresh.live .entry (mem_iff_exists.mpr ⟨old, hold⟩)
      have hkept : (db.insertEntry parent ⟨uuid⟩ entry).entries[e]? = db.entries[e]? := by
        rw [getElem?_insertEntry, if_neg hne]
      rw [Item.place_entry, Item.place_entry]
      exact congrArg (Option.map _) hkept
  | group parent group hparent hgroup hgroups hentries hicon =>
    cases item with
    | entry e => rfl
    | group g =>
      have hne : g ≠ ⟨uuid⟩ := by
        rintro rfl
        exact hfresh.live .group (mem_groups_of_parentOf hp)
      have hparentNe : parent ≠ ⟨uuid⟩ := by
        rintro rfl
        rcases hparent with hmem | hroot
        · exact hfresh.live .group hmem
        · have hmem := hdb.tree.rootMem
          rw [← hroot] at hmem
          exact hfresh.live .group hmem
      rw [Item.place_group, Item.place_group, getElem?_insertGroup hparentNe, if_neg hne]
      split
      · rw [Option.map_map]
        rfl
      · rfl
  | icon id entry data icon _ h hicons => exact h.place

theorem EditsBy.rests {uuid : Uuid} (h : EditsBy Still uuid db out) (hfresh : Fresh db uuid)
    (hdb : SyncValid db) {p : GroupId} (hp : item.parentIn db = some p) : Rests item db out := by
  obtain ⟨mid, hmid, hrest⟩ := h
  have hfirst : Rests item db mid := by
    rcases hmid with rfl | hdraw
    · exact Rests.refl item mid
    · exact Or.inr (hdraw.place hfresh hdb hp)
  induction hrest with
  | refl => exact hfirst
  | tail _ hstep ih => exact ih.trans hstep.rests

end Rests

/-! ## The root -/

theorem Change.root (h : Change db out) : out.root = db.root := by
  cases h with
  | still _ h =>
    cases h with
    | tracked id entry data _ h _ => exact h.root
    | removeEntry => rfl
    | editGroup => rfl
    | removeGroup id without deleted _ _ hwithout _ =>
      obtain ⟨_, hwithout⟩ := hwithout
      exact hwithout.root
    | settings => rfl
    | historyPolicy => exact (sameShape_pruneAllEntryHistory _).root
  | moveEntry => rfl
  | moveGroup => rfl

theorem EditsBy.root {uuid : Uuid} (h : Edits uuid db out) : out.root = db.root := by
  obtain ⟨mid, hmid, hrest⟩ := h
  have hfirst : mid.root = db.root := by
    rcases hmid with rfl | hdraw
    · rfl
    · cases hdraw with
      | entry => rfl
      | group => rfl
      | icon id entry data icon _ h _ => exact h.root
  induction hrest with
  | refl => exact hfirst
  | tail _ hstep ih => exact hstep.root.trans ih

/-! ## Moving away -/

/-- The object stayed, or it is below another group than `p` now. -/
def Leaves (item : Item) (p : GroupId) (db out : Database V) : Prop :=
  Rests item db out ∨ ∃ t, t ≠ p ∧ item.parentIn out = some t

section Leaves
variable {item : Item} {p target : GroupId} {lib : Editing V} {env : Ambient}

theorem Leaves.parentIn (h : Leaves item p db out) (hp : item.parentIn out = some p) :
    item.place out = item.place db := by
  rcases h with (hgone | hsame) | ⟨t, hne, ht⟩
  · rw [Item.parentIn_eq, hgone] at hp
    cases hp
  · exact hsame
  · exact absurd (Option.some.inj (ht.symm.trans hp)) hne

theorem place_placed {now : Time} {id : EntryId} (hne : item ≠ .entry id) :
    item.place (db.placed now id target) = item.place db := by
  cases item with
  | group g => exact sameGroups_placed.place g
  | entry e =>
    rw [Item.place_entry, Item.place_entry, entries_placed fun he => hne (congrArg Item.entry he)]

theorem rests_placed {now : Time} {id : EntryId} (hne : item ≠ .entry id) :
    Rests item db (db.placed now id target) := Or.inr (place_placed hne)

theorem homeOf_placed {now : Time} {id : EntryId} (hid : id ∈ db.entries) :
    (db.placed now id target).homeOf id = some target := by
  have hshape : SameShape (db.relocateEntry id target) (db.placed now id target) :=
    sameShape_editEntry id _ fun _ _ => rfl
  rw [hshape.entries, homeOf_relocateEntry hid, if_pos rfl]

theorem relocated_ok {id : EntryId} (h : relocated lib env db id target = .ok out) :
    id ∈ db.entries ∧ target ∈ db.groups ∧ out = db.placed env.now id target := by
  rw [relocated_eq] at h
  split at h
  · case isTrue hid =>
    split at h
    · case isTrue htarget =>
      cases h
      exact ⟨hid, htarget, rfl⟩
    · cases h
  · cases h

/-- A move that, where it moves the object, moves it to another group than `p`. -/
theorem leaves_relocated {id : EntryId} (h : relocated lib env db id target = .ok out)
    (hne : item = .entry id → target ≠ p) : Leaves item p db out := by
  obtain ⟨hid, -, rfl⟩ := relocated_ok h
  by_cases hitem : item = .entry id
  · subst hitem
    exact Or.inr ⟨target, hne rfl, homeOf_placed hid⟩
  · exact Or.inl (rests_placed hitem)

/-- A round moves the object only if it does not satisfy `stays`, and the target does. -/
theorem leaves_moveRound {stays : Database V → GroupId → Bool} (hstays : ∀ db, stays db target = true)
    {start : Database V} (hp : item.parentIn start = some p) {state result : Database V × Bool}
    {id : EntryId} (h : moveRound lib env target stays state id = .ok result)
    (hstate : Rests item start state.1 ∨ target ≠ p ∧ item.parentIn state.1 = some target) :
    Rests item start result.1 ∨ target ≠ p ∧ item.parentIn result.1 = some target := by
  unfold moveRound at h
  split at h
  · cases h
  case h_2 entry hentry =>
  split at h
  · cases h
    exact hstate
  case isFalse hmoves =>
  split at h
  · case h_1 moved hmoved =>
    cases h
    obtain ⟨hid, -, rfl⟩ := relocated_ok hmoved
    by_cases hitem : item = .entry id
    · subst hitem
      have hhome : state.1.homeOf id = some entry.parent := homeOf_eq_some.mpr ⟨entry, hentry, rfl⟩
      refine Or.inr ⟨?_, homeOf_placed hid⟩
      rintro rfl
      -- It would have been below the target already.
      rcases hstate with hrests | ⟨hne, -⟩
      · have hparent := hrests.parentIn hhome
        obtain rfl : entry.parent = target := Option.some.inj (hparent.symm.trans hp)
        exact hmoves (hstays _)
      · exact hne rfl
    · have hrests : Rests item state.1 (state.1.placed env.now id target) := rests_placed hitem
      rcases hstate with hstart | ⟨hne, hparent⟩
      · exact Or.inl (hstart.trans hrests)
      · rcases hrests with hgone | hsame
        · exact Or.inl (Or.inl hgone)
        · rw [Item.parentIn_eq] at hparent ⊢
          rw [hsame]
          exact Or.inr ⟨hne, hparent⟩
  · cases h

theorem Rests.leaves {mid : Database V} (h : Rests item db mid) (h' : Leaves item p mid out) :
    Leaves item p db out := by
  rcases h' with hrests | hmoved
  · exact Or.inl (h.trans hrests)
  · exact Or.inr hmoved

/-- Making the bin moves nothing. -/
theorem place_ensureRecycleBin {made : Database V} {recycle : GroupId}
    (h : ensureRecycleBin lib env db = .ok (made, recycle)) (hfresh : Fresh db env.uuid)
    (hdb : SyncValid db) (hp : item.parentIn db = some p) : item.place made = item.place db := by
  unfold ensureRecycleBin at h
  split at h
  · cases h
  · split at h
    · cases h
      rfl
    · cases h
      have hdraw : Draw env.uuid db ((lib.addGroup env db db.root).editGroup ⟨env.uuid⟩
          ({ · with name := recycleBinName })) := draw_addGroup lib env (Or.inr rfl) recycleBinName
      have hplace : item.place ((lib.addGroup env db db.root).editGroup ⟨env.uuid⟩
          ({ · with name := recycleBinName })) = item.place db := hdraw.place hfresh hdb hp
      rw [← hplace]
      cases item <;> rfl

theorem require_eq_ok {α : Type} {e : EditError} {found : Option α} {a : α} :
    require e found = .ok a ↔ found = some a := by
  cases found <;> simp [require]

theorem groupIsInRecycleBin_iff {g recycle : GroupId} :
    groupIsInRecycleBin db g recycle = true ↔ Forest.Above db.parentOf recycle g := by
  unfold groupIsInRecycleBin
  rw [decide_eq_true_iff, Database.mem_trail_parentOf]

/-- The bin is in the bin. -/
theorem groupIsInRecycleBin_self (db : Database V) (recycle : GroupId) :
    groupIsInRecycleBin db recycle recycle = true :=
  groupIsInRecycleBin_iff.mpr (Forest.above_refl recycle)

/-- An entry goes back to the root or out of the bin. -/
theorem entryDestination_cases (lib : Editing V) (db : Database V) (recycle : GroupId)
    (entry : Entry V) : entryDestination lib db recycle entry = db.root ∨
      groupIsInRecycleBin db (entryDestination lib db recycle entry) recycle = false := by
  unfold entryDestination
  cases hfilter : (lib.previousParent db entry.previousParent).filter fun destination =>
      destination ∈ db.groups ∧ ¬ groupIsInRecycleBin db destination recycle with
  | none => exact Or.inl rfl
  | some destination =>
    obtain ⟨-, hkept⟩ := Option.filter_eq_some_iff.mp hfilter
    right
    simpa using (of_decide_eq_true hkept).2

/-! ### Entries -/

theorem moved_leaves {entry destination : String} (h : moved lib env db entry destination = .ok out)
    (hp : item.parentIn db = some p) : Leaves item p db out := by
  obtain ⟨id, hid, h⟩ := Batch.bind_ok_iff.mp h
  obtain ⟨target, htarget, h⟩ := Batch.bind_ok_iff.mp h
  obtain ⟨current, hcurrent, h⟩ := Batch.bind_ok_iff.mp h
  rw [require_eq_ok] at hcurrent
  split at h
  · cases h
    exact Or.inl (Rests.refl item db)
  · case isFalse hne =>
    refine leaves_relocated h ?_
    rintro rfl heq
    have hhome : (Item.entry id).parentIn db = some current.parent :=
      homeOf_eq_some.mpr ⟨current, hcurrent, rfl⟩
    exact hne ((Option.some.inj (hhome.symm.trans hp)).trans heq.symm)

theorem trashed_leaves {entry : String} (h : trashed lib env db entry = .ok out)
    (hfresh : Fresh db env.uuid) (hdb : SyncValid db) (hp : item.parentIn db = some p) :
    Leaves item p db out := by
  obtain ⟨id, hid, h⟩ := Batch.bind_ok_iff.mp h
  obtain ⟨⟨made, recycle⟩, hmade, h⟩ := Batch.bind_ok_iff.mp h
  obtain ⟨current, hcurrent, h⟩ := Batch.bind_ok_iff.mp h
  rw [require_eq_ok] at hcurrent
  split at h
  · cases h
    exact Or.inl (Rests.refl item db)
  · case isFalse hout =>
    have hrests : Rests item db made := Or.inr (place_ensureRecycleBin hmade hfresh hdb hp)
    refine hrests.leaves (leaves_relocated h ?_)
    rintro rfl rfl
    have hhome : (Item.entry id).parentIn made = some current.parent :=
      homeOf_eq_some.mpr ⟨current, hcurrent, rfl⟩
    obtain rfl := Option.some.inj ((hrests.parentIn hhome).symm.trans hp)
    exact hout (groupIsInRecycleBin_self made _)

/-- Where a recycled entry goes is not where it is, unless that is the root. -/
theorem entryDestination_ne {recycle : GroupId} {entry : Entry V}
    (hin : groupIsInRecycleBin db entry.parent recycle = true) (hroot : entry.parent ≠ db.root) :
    entryDestination lib db recycle entry ≠ entry.parent := by
  intro heq
  rcases entryDestination_cases lib db recycle entry with htop | hout
  · exact hroot (heq.symm.trans htop)
  · rw [heq, hin] at hout
    cases hout

theorem restored_leaves {entry : String} (h : restored lib env db entry = .ok out)
    (hp : item.parentIn db = some p) (hroot : p ≠ db.root) : Leaves item p db out := by
  obtain ⟨id, hid, h⟩ := Batch.bind_ok_iff.mp h
  obtain ⟨recycle, hrecycle, h⟩ := Batch.bind_ok_iff.mp h
  obtain ⟨current, hcurrent, h⟩ := Batch.bind_ok_iff.mp h
  rw [require_eq_ok] at hcurrent
  split at h
  · cases h
  · case isFalse hin =>
    refine leaves_relocated h ?_
    rintro rfl
    have hhome : (Item.entry id).parentIn db = some current.parent :=
      homeOf_eq_some.mpr ⟨current, hcurrent, rfl⟩
    obtain rfl := Option.some.inj (hhome.symm.trans hp)
    exact entryDestination_ne (by simpa using hin) hroot

theorem leaves_moveRounds {stays : Database V → GroupId → Bool}
    (hstays : ∀ db, stays db target = true) (hp : item.parentIn db = some p) {ids : List EntryId}
    {result : Database V × Bool}
    (h : ids.foldlM (moveRound lib env target stays) (db, false) = .ok result) :
    Leaves item p db result.1 := by
  have hend := Loop.foldlM_invariant (Q := fun _ => True)
    (P := fun state => Rests item db state.1 ∨ target ≠ p ∧ item.parentIn state.1 = some target)
    (fun _ _ _ _ _ => trivial)
    (fun id _ state result _ hstate h => leaves_moveRound hstays hp h hstate)
    h trivial (Or.inl (Rests.refl item db))
  exact hend.imp_right fun ⟨hne, hparent⟩ => ⟨target, hne, hparent⟩

theorem movedTogether_leaves {entries : List String} {destination : String}
    (h : movedTogether lib env db entries destination = .ok out) (hp : item.parentIn db = some p) :
    Leaves item p db out := by
  unfold movedTogether at h
  split at h
  · cases h
    exact Or.inl (Rests.refl item db)
  · obtain ⟨target, htarget, h⟩ := Batch.bind_ok_iff.mp h
    obtain ⟨ids, hids, h⟩ := Batch.bind_ok_iff.mp h
    obtain ⟨result, hresult, h⟩ := Batch.bind_ok_iff.mp h
    split at h
    · cases h
      exact leaves_moveRounds (fun _ => decide_eq_true rfl) hp hresult
    · cases h
      exact Or.inl (Rests.refl item db)

theorem trashedTogether_leaves {entries : List String}
    (h : trashedTogether lib env db entries = .ok out) (hfresh : Fresh db env.uuid)
    (hdb : SyncValid db) (hp : item.parentIn db = some p) : Leaves item p db out := by
  unfold trashedTogether at h
  split at h
  · cases h
    exact Or.inl (Rests.refl item db)
  · obtain ⟨ids, hids, h⟩ := Batch.bind_ok_iff.mp h
    obtain ⟨⟨made, recycle⟩, hmade, h⟩ := Batch.bind_ok_iff.mp h
    obtain ⟨result, hresult, h⟩ := Batch.bind_ok_iff.mp h
    split at h
    · cases h
      have hplace := place_ensureRecycleBin hmade hfresh hdb hp
      rw [Item.parentIn_eq, ← hplace, ← Item.parentIn_eq] at hp
      have hrests : Rests item db made := Or.inr hplace
      refine hrests.leaves (leaves_moveRounds ?_ hp hresult)
      exact fun db => groupIsInRecycleBin_self db recycle
    · cases h
      exact Or.inl (Rests.refl item db)

/-- What a loop over looked-up items has to work with. -/
theorem mem_of_mapM {ι α ε : Type} {f : ι → Except ε α} {items : List ι} {found : List α}
    (h : items.mapM f = .ok found) : ∀ a ∈ found, ∃ i ∈ items, f i = .ok a := by
  induction items generalizing found with
  | nil =>
    cases h
    exact nofun
  | cons i items ih =>
    obtain ⟨a, later, ha, hlater, rfl⟩ := Batch.mapM_cons_ok.mp h
    intro b hb
    rcases List.mem_cons.mp hb with rfl | hb
    · exact ⟨i, List.mem_cons_self, ha⟩
    · obtain ⟨j, hj, hfj⟩ := ih hlater b hb
      exact ⟨j, List.mem_cons_of_mem i hj, hfj⟩

theorem restoredTogether_leaves {entries : List String}
    (h : restoredTogether lib env db entries = .ok out) (hp : item.parentIn db = some p)
    (hroot : p ≠ db.root) : Leaves item p db out := by
  unfold restoredTogether at h
  split at h
  · cases h
    exact Or.inl (Rests.refl item db)
  · obtain ⟨ids, hids, h⟩ := Batch.bind_ok_iff.mp h
    obtain ⟨recycle, hrecycle, h⟩ := Batch.bind_ok_iff.mp h
    obtain ⟨items, hitems, h⟩ := Batch.bind_ok_iff.mp h
    -- Every destination is another group than the one the entry was below at the start.
    have hdestination : ∀ move ∈ items, item = .entry move.1 → move.2 ≠ p := by
      rintro ⟨id, destination⟩ hmove rfl
      obtain ⟨i, -, hi⟩ := mem_of_mapM hitems _ hmove
      unfold restorable at hi
      split at hi
      · cases hi
      · case h_2 entry hentry =>
        split at hi
        · cases hi
        · case isFalse hin =>
          cases hi
          have hhome : (Item.entry id).parentIn db = some entry.parent :=
            homeOf_eq_some.mpr ⟨entry, hentry, rfl⟩
          obtain rfl := Option.some.inj (hhome.symm.trans hp)
          exact entryDestination_ne (by simpa using hin) hroot
    refine Loop.foldlM_invariant (Q := fun _ => True) (P := fun state => Leaves item p db state)
      (fun _ _ _ _ _ => trivial) ?_ h trivial (Or.inl (Rests.refl item db))
    intro move hmove state result _ hstate hmoved
    obtain ⟨hid, -, rfl⟩ := relocated_ok hmoved
    by_cases hitem : item = .entry move.1
    · refine Or.inr ⟨move.2, hdestination move hmove hitem, ?_⟩
      rw [hitem]
      exact homeOf_placed hid
    · have hrests : Rests item state (state.placed env.now move.1 move.2) := rests_placed hitem
      rcases hstate with hstart | ⟨t, hne, ht⟩
      · exact Or.inl (hstart.trans hrests)
      · rcases hrests with hgone | hsame
        · exact Or.inl (Or.inl hgone)
        · rw [Item.parentIn_eq] at ht
          refine Or.inr ⟨t, hne, ?_⟩
          rw [Item.parentIn_eq, hsame, ht]

/-! ### Groups -/

/-- The database after a group was moved and its times were changed. -/
def Database.placedGroup (db : Database V) (stamp : Times → Times) (id target : GroupId) :
    Database V :=
  (db.relocateGroup id target).editGroup id fun group => { group with times := stamp group.times }

theorem sameShape_placedGroup (db : Database V) (stamp : Times → Times) (id target : GroupId) :
    SameShape (db.relocateGroup id target) (db.placedGroup stamp id target) :=
  sameShape_editGroup id _ fun _ => rfl

theorem parentOf_placedGroup {stamp : Times → Times} {id : GroupId} (hid : id ∈ db.groups)
    (x : GroupId) : (db.placedGroup stamp id target).parentOf x =
      if x = id then some target else db.parentOf x := by
  rw [(sameShape_placedGroup db stamp id target).parentOf, parentOf_relocateGroup hid]

theorem place_placedGroup {stamp : Times → Times} {id : GroupId} (hne : item ≠ .group id) :
    item.place (db.placedGroup stamp id target) = item.place db := by
  cases item with
  | entry e => rfl
  | group g =>
    have hg : g ≠ id := fun h => hne (congrArg Item.group h)
    rw [Item.place_group, Item.place_group, Database.placedGroup, getElem?_editGroup,
      if_neg (Ne.symm hg), getElem?_relocateGroup, Option.map_map]
    simp only [Function.comp_def, if_neg hg]
    rfl

theorem leaves_placedGroup {id : GroupId} (stamp : Times → Times) (hid : id ∈ db.groups)
    (hne : item = .group id → target ≠ p) : Leaves item p db (db.placedGroup stamp id target) := by
  by_cases hitem : item = .group id
  · subst hitem
    refine Or.inr ⟨target, hne rfl, ?_⟩
    show Database.parentOf _ id = some target
    rw [parentOf_placedGroup hid, if_pos rfl]
  · exact Or.inl (Or.inr (place_placedGroup hitem))

end Leaves

/-! ## Calls on groups as functions of the database -/

section Groups
variable (lib : Editing V) (env : Ambient)

def movedGroup (db : Database V) (group destinationParent : String) :
    Except EditError (Database V) := do
  let groupId ← db.findGroupId group
  let destinationId ← db.findGroupId destinationParent
  let current ← require .groupNotFound db.groups[groupId]?
  let currentParent ← require .invalidGroupMove current.parent
  if currentParent = destinationId then .ok db
  else do
    let candidate ← require
      (if destinationId ∈ db.groups then .invalidGroupMove else .groupNotFound)
      (lib.trackMoveGroup env db groupId destinationId)
    .ok candidate

def trashedGroup (db : Database V) (id : String) : Except EditError (Database V) := do
  let groupId ← db.findGroupId id
  if groupId = db.root then .error .cannotDeleteRootGroup
  else do
    let made ← ensureRecycleBin lib env db
    if groupId = made.2 ∨ groupIsInRecycleBin made.1 groupId made.2 then .ok db
    else relocatedGroup lib env made.1 groupId made.2

def restoredGroup (db : Database V) (id : String) : Except EditError (Database V) := do
  let groupId ← db.findGroupId id
  let recycle ← require .invalidRecycleBinOperation (recycleBinId db)
  if groupId = recycle ∨ ¬ groupIsInRecycleBin db groupId recycle then
    .error .invalidRecycleBinOperation
  else do
    let current ← require .groupNotFound db.groups[groupId]?
    relocatedGroup lib env db groupId (groupDestination lib db recycle current)

variable (doc : KdbxDocument V)

theorem moveGroup_performs (group destinationParent : String) :
    (KdbxDocument.moveGroup lib env group destinationParent).Yields doc
      (Performs doc (movedGroup lib env doc.database group destinationParent)) :=
  yields_get <| performs_check fun _ => performs_check fun _ => performs_okOr fun _ =>
    performs_okOr fun _ => performs_ite performs_kept <| performs_okOr fun _ => performs_commit _

theorem trashGroup_performs (id : String) :
    (KdbxDocument.trashGroup lib env id).Yields doc
      (Performs doc (trashedGroup lib env doc.database id)) :=
  yields_get <| performs_check fun _ => performs_ite performs_throw <| performs_check fun _ =>
    performs_ite performs_kept (performs_replace _)

theorem restoreGroup_performs (id : String) :
    (KdbxDocument.restoreGroup lib env id).Yields doc
      (Performs doc (restoredGroup lib env doc.database id)) :=
  yields_get <| performs_check fun _ => performs_okOr fun _ => performs_ite performs_throw <|
    performs_okOr fun _ => performs_replace_pure _ _

end Groups

section GroupLeaves
variable {lib : Editing V} {env : Ambient} {item : Item} {p : GroupId}

/-- The time of a move, among the times of a group. -/
def Times.located (now : Time) (times : Times) : Times := { times with locationChanged := some now }

theorem relocatedGroup_ok {id target : GroupId} (h : relocatedGroup lib env db id target = .ok out) :
    id ∈ db.groups ∧ target ∈ db.groups ∧ out = db.placedGroup (Times.located env.now) id target := by
  unfold relocatedGroup at h
  split at h
  · case isTrue hid =>
    split at h
    · case h_1 moved hmoved =>
      cases h
      obtain ⟨htarget, -⟩ := (lib.moveGroupTo_isSome db id target hid).mp (by rw [hmoved]; rfl)
      rw [lib.moveGroupTo_eq db id target moved hid hmoved]
      exact ⟨hid, htarget, rfl⟩
    · cases h
  · cases h

theorem movedGroup_leaves {group destinationParent : String}
    (h : movedGroup lib env db group destinationParent = .ok out) (hp : item.parentIn db = some p) :
    Leaves item p db out := by
  obtain ⟨id, hid, h⟩ := Batch.bind_ok_iff.mp h
  obtain ⟨target, htarget, h⟩ := Batch.bind_ok_iff.mp h
  obtain ⟨current, hcurrent, h⟩ := Batch.bind_ok_iff.mp h
  obtain ⟨currentParent, hparent, h⟩ := Batch.bind_ok_iff.mp h
  rw [require_eq_ok] at hcurrent hparent
  split at h
  · cases h
    exact Or.inl (Rests.refl item db)
  · case isFalse hne =>
    obtain ⟨candidate, hcandidate, h⟩ := Batch.bind_ok_iff.mp h
    cases h
    rw [require_eq_ok] at hcandidate
    obtain ⟨moved, hmoved, rfl⟩ := Option.map_eq_some_iff.mp hcandidate
    have hmem : id ∈ db.groups := mem_of_findGroupId hid
    rw [lib.moveGroupTo_eq db id target moved hmem hmoved]
    refine leaves_placedGroup (lib.touchMoved env.now) hmem ?_
    rintro rfl rfl
    have hhome : db.parentOf id = some currentParent := by rw [Database.parentOf, hcurrent]; exact hparent
    exact hne (Option.some.inj (hhome.symm.trans hp))

/-- What hangs below a group of the bin's subtree is in it. -/
theorem groupIsInRecycleBin_child {g parent recycle : GroupId} (hparent : db.parentOf g = some parent)
    (h : groupIsInRecycleBin db parent recycle = true) : groupIsInRecycleBin db g recycle = true :=
  groupIsInRecycleBin_iff.mpr
    (Forest.above_of_parent hparent (groupIsInRecycleBin_iff.mp h))

theorem trashedGroup_leaves {id : String} (h : trashedGroup lib env db id = .ok out)
    (hfresh : Fresh db env.uuid) (hdb : SyncValid db) (hp : item.parentIn db = some p) :
    Leaves item p db out := by
  obtain ⟨g, hg, h⟩ := Batch.bind_ok_iff.mp h
  split at h
  · cases h
  obtain ⟨⟨made, recycle⟩, hmade, h⟩ := Batch.bind_ok_iff.mp h
  split at h
  · cases h
    exact Or.inl (Rests.refl item db)
  · case isFalse hout =>
    have hplace := place_ensureRecycleBin hmade hfresh hdb hp
    have hrests : Rests item db made := Or.inr hplace
    obtain ⟨hmem, -, rfl⟩ := relocatedGroup_ok h
    refine hrests.leaves (leaves_placedGroup _ hmem ?_)
    rintro rfl rfl
    rw [Item.parentIn_eq, ← hplace, ← Item.parentIn_eq] at hp
    exact hout (Or.inr (groupIsInRecycleBin_child hp (groupIsInRecycleBin_self made _)))

/-- A group goes back to the root or out of the bin. -/
theorem groupDestination_cases (lib : Editing V) (db : Database V) (recycle : GroupId)
    (group : Group V) : groupDestination lib db recycle group = db.root ∨
      groupIsInRecycleBin db (groupDestination lib db recycle group) recycle = false := by
  unfold groupDestination
  cases hfilter : (lib.previousParent db group.previousParent).filter fun destination =>
      ¬ groupIsInRecycleBin db destination recycle with
  | none => exact Or.inl rfl
  | some destination =>
    obtain ⟨-, hkept⟩ := Option.filter_eq_some_iff.mp hfilter
    right
    simpa using hkept

theorem restoredGroup_leaves {id : String} (h : restoredGroup lib env db id = .ok out)
    (hp : item.parentIn db = some p) (hroot : p ≠ db.root) : Leaves item p db out := by
  obtain ⟨g, hg, h⟩ := Batch.bind_ok_iff.mp h
  obtain ⟨recycle, hrecycle, h⟩ := Batch.bind_ok_iff.mp h
  split at h
  · cases h
  case isFalse hin =>
  obtain ⟨current, hcurrent, h⟩ := Batch.bind_ok_iff.mp h
  rw [not_or, not_not] at hin
  obtain ⟨hmem, -, rfl⟩ := relocatedGroup_ok h
  refine leaves_placedGroup _ hmem ?_
  rintro rfl heq
  -- The group is below the bin, so its parent is in the bin.
  have hparent : groupIsInRecycleBin db p recycle = true := by
    rcases Forest.above_iff.mp (groupIsInRecycleBin_iff.mp hin.2) with hself | ⟨q, hq, habove⟩
    · exact absurd hself.symm hin.1
    · obtain rfl := Option.some.inj (hq.symm.trans hp)
      exact groupIsInRecycleBin_iff.mpr habove
  rcases groupDestination_cases lib db recycle current with htop | hout
  · exact hroot (heq.symm.trans htop)
  · rw [heq, hparent] at hout
    cases hout

end GroupLeaves

/-! ## One call and many -/

section Runs
variable (lib : Editing V) {item : Item} {p : GroupId}

theorem leaves_of_performs {α : Type} {m : Edit V α} {doc : KdbxDocument V}
    {expected : Except EditError (Database V)} (h : m.Yields doc (Performs doc expected))
    (hok : ∀ db, expected = .ok db → Leaves item p doc.database db) :
    m.Yields doc fun _ out => Leaves item p doc.database out.database := by
  apply Yields.weaken h
  intro r out hr
  cases hexpected : expected with
  | ok db =>
    rw [hexpected] at hr
    obtain ⟨-, hdb⟩ := hr
    rw [hdb]
    exact hok db hexpected
  | error e =>
    rw [hexpected] at hr
    obtain ⟨-, rfl⟩ := hr
    exact Or.inl (Rests.refl item _)

/-- A call that leaves the object below the group it was below, other than the root, has not moved
it. -/
theorem perform_leaves {call : MutationCall} {doc : KdbxDocument V}
    (hfresh : Fresh doc.database call.env.uuid) (hdoc : SyncValid doc.database)
    (hp : item.parentIn doc.database = some p) (hroot : p ≠ doc.database.root) :
    Leaves item p doc.database (call.perform lib doc).2.database := by
  obtain ⟨mutation, env⟩ := call
  show (mutation.body lib env).Yields doc fun _ out => Leaves item p doc.database out.database
  cases hmoves : mutation.moves with
  | false =>
    apply (mutation.still_edits lib env doc hmoves).weaken
    exact fun _ out hedits => Or.inl (hedits.rests hfresh hdoc hp)
  | true =>
    cases mutation with
    | moveEntry entry destination =>
      exact leaves_of_performs (moveEntry_performs lib env doc entry destination) fun db h =>
        moved_leaves h hp
    | trashEntry id =>
      exact leaves_of_performs (trashEntry_performs lib env doc id) fun db h =>
        trashed_leaves h hfresh hdoc hp
    | restoreEntry id =>
      exact leaves_of_performs (performs_quiet (restoreEntry_performs lib env doc id)) fun db h =>
        restored_leaves h hp hroot
    | moveEntries entries destination =>
      exact leaves_of_performs (moveEntries_performs lib env doc entries destination) fun db h =>
        movedTogether_leaves h hp
    | trashEntries entries =>
      exact leaves_of_performs (trashEntries_performs lib env doc entries) fun db h =>
        trashedTogether_leaves h hfresh hdoc hp
    | restoreEntries entries =>
      exact leaves_of_performs (restoreEntries_performs lib env doc entries) fun db h =>
        restoredTogether_leaves h hp hroot
    | moveGroup group destinationParent =>
      exact leaves_of_performs (moveGroup_performs lib env doc group destinationParent) fun db h =>
        movedGroup_leaves h hp
    | trashGroup id =>
      exact leaves_of_performs (trashGroup_performs lib env doc id) fun db h =>
        trashedGroup_leaves h hfresh hdoc hp
    | restoreGroup id =>
      exact leaves_of_performs (performs_quiet (restoreGroup_performs lib env doc id)) fun db h =>
        restoredGroup_leaves h hp hroot
    | _ => cases hmoves

/-- After every call the object hangs below `p`. -/
def Undisturbed (item : Item) (p : GroupId) : KdbxDocument V → List MutationCall → Prop
  | _, [] => True
  | doc, call :: calls => item.parentIn (call.perform lib doc).2.database = some p ∧
      Undisturbed item p (call.perform lib doc).2 calls

/-- An object that is left alone keeps its previous parent over a whole run. -/
theorem place_performAll {doc : KdbxDocument V} {calls : List MutationCall}
    (hdoc : SyncValid doc.database) (hfresh : FreshDraws lib doc calls)
    (hp : item.parentIn doc.database = some p) (hroot : p ≠ doc.database.root)
    (hcalls : Undisturbed lib item p doc calls) :
    item.place (performAll lib doc calls).database = item.place doc.database := by
  induction calls generalizing doc with
  | nil => rfl
  | cons call calls ih =>
    obtain ⟨hdraw, hrest⟩ := hfresh
    obtain ⟨hparent, hlater⟩ := hcalls
    have hsame := (perform_leaves lib hdraw hdoc hp hroot).parentIn hparent
    have hedits : Edits call.env.uuid doc.database (call.perform lib doc).2.database :=
      call.mutation.edits lib call.env doc
    have htop : p ≠ (call.perform lib doc).2.database.root := by
      rw [hedits.root]
      exact hroot
    exact (ih (perform_valid lib hdraw hdoc) hrest hparent htop hlater).trans hsame

end Runs

/-! ## Into the bin -/

/-- A parent is not below its child. -/
theorem not_above_parent (hdb : SyncValid db) {x parent : GroupId} (hparent : db.parentOf x = some parent) :
    ¬ Forest.Above db.parentOf x parent := by
  rintro ⟨k, hk⟩
  -- Else the root would be met at two heights.
  obtain ⟨j, hj⟩ := hdb.tree.reach x (mem_groups_of_parentOf hparent)
  have hloop : Forest.climb db.parentOf (k + 1) x = some x := by
    rw [Forest.climb, hparent]
    exact hk
  have hfar : Forest.climb db.parentOf (k + 1 + j) x = some db.root := by
    rw [Forest.climb_add, hloop]
    exact hj
  have := Forest.climb_top_unique hdb.tree.rootTop hj hfar
  omega

/-- Everything above a group is a group. -/
theorem mem_of_above (hdb : SyncValid db) {a x : GroupId} (hx : x ∈ db.groups)
    (h : Forest.Above db.parentOf a x) : a ∈ db.groups := by
  obtain ⟨k, hk⟩ := h
  induction k generalizing x with
  | zero =>
    obtain rfl : x = a := Option.some.inj hk
    exact hx
  | succ k ih =>
    obtain ⟨parent, hparent, hk⟩ := Option.bind_eq_some_iff.mp hk
    exact ih (hdb.tree.parent_mem hparent) hk

section Trash
variable {lib : Editing V} {env : Ambient} {item : Item} {made : Database V} {recycle origin : GroupId}

theorem ensureRecycleBin_cases (h : ensureRecycleBin lib env db = .ok (made, recycle)) :
    recycleBinId db = some recycle ∧ made = db ∨ recycle = ⟨env.uuid⟩ := by
  unfold ensureRecycleBin at h
  split at h
  · cases h
  · split at h
    · case h_1 id hbin =>
      cases h
      exact Or.inl ⟨hbin, rfl⟩
    · cases h
      exact Or.inr rfl

/-- What was outside the bin is outside the bin that is used: a new one has nothing below it. -/
theorem outside_ensureRecycleBin (h : ensureRecycleBin lib env db = .ok (made, recycle))
    (hfresh : Fresh db env.uuid) (hdb : SyncValid db) {g : GroupId} (hg : g ∈ db.groups)
    (hout : ∀ bin, recycleBinId db = some bin → groupIsInRecycleBin db g bin = false) :
    groupIsInRecycleBin made g recycle = false := by
  have hedits := edits_ensureRecycleBin lib env h
  have hmade : SyncValid made := hedits.edits.valid hfresh hdb
  rw [Bool.eq_false_iff]
  intro hin
  rcases ensureRecycleBin_cases h with ⟨hbin, rfl⟩ | rfl
  · rw [hout recycle hbin] at hin
    cases hin
  -- The groups that were there have the parents they had, so the way up stays among them.
  have hkeep : ∀ z ∈ db.groups, db.parentOf z = made.parentOf z := by
    intro z hz
    cases hp : db.parentOf z with
    | none =>
      rcases Forest.above_iff.mp (hdb.tree.reach z hz) with rfl | ⟨parent, hparent, -⟩
      · rw [← hedits.edits.root, hmade.tree.rootTop]
      · cases hp.symm.trans hparent
    | some parent =>
      have hplace : (Item.group z).place made = (Item.group z).place db :=
        place_ensureRecycleBin h hfresh hdb hp
      have hsame : (Item.group z).parentIn made = (Item.group z).parentIn db := by
        rw [Item.parentIn_eq, Item.parentIn_eq, hplace]
      exact hp.symm.trans hsame.symm
  have habove : Forest.Above db.parentOf ⟨env.uuid⟩ g := by
    apply Forest.above_of_closed (P := fun z => z ∈ db.groups) hkeep ?_ hg (groupIsInRecycleBin_iff.mp hin)
    intro z parent hz hparent
    exact hdb.tree.parent_mem ((hkeep z hz).trans hparent)
  exact hfresh.live .group (mem_of_above hdb hg habove)

/-- Everything is below the root. -/
theorem ne_root_of_outside (hdb : SyncValid db) {g : GroupId} (hg : g ∈ db.groups)
    (hout : groupIsInRecycleBin db g recycle = false) : recycle ≠ db.root := by
  rintro rfl
  rw [groupIsInRecycleBin_iff.mpr (hdb.tree.reach g hg)] at hout
  cases hout

/-- An object in the bin that comes from `origin`. -/
structure Recycled (item : Item) (db : Database V) (recycle origin : GroupId) : Prop where
  bin : recycleBinId db = some recycle
  notRoot : recycle ≠ db.root
  place : item.place db = some (some recycle, some origin)

theorem trashed_recycled {id : EntryId} (h : trashed lib env db (Item.entry id).name = .ok out)
    (hfresh : Fresh db env.uuid) (hdb : SyncValid db) (hhome : db.homeOf id = some origin)
    (hout : ∀ bin, recycleBinId db = some bin → groupIsInRecycleBin db origin bin = false) :
    ∃ recycle, Recycled (.entry id) out recycle origin := by
  obtain ⟨entry, hentry, rfl⟩ := homeOf_eq_some.mp hhome
  obtain ⟨found, hfound, h⟩ := Batch.bind_ok_iff.mp h
  obtain ⟨⟨made, recycle⟩, hmade, h⟩ := Batch.bind_ok_iff.mp h
  obtain ⟨current, hcurrent, h⟩ := Batch.bind_ok_iff.mp h
  have hname : db.findEntryId (Item.entry id).name = .ok id :=
    Database.findEntryId_eq_ok.mpr ⟨mem_iff_exists.mpr ⟨entry, hentry⟩, rfl⟩
  obtain rfl : id = found := Except.ok.inj (hname.symm.trans hfound)
  rw [require_eq_ok, ensureRecycleBin_entries hmade] at hcurrent
  obtain rfl : entry = current := Option.some.inj (hentry.symm.trans hcurrent)
  have hedits := (edits_ensureRecycleBin lib env hmade).edits
  have hin : groupIsInRecycleBin made entry.parent recycle = false :=
    outside_ensureRecycleBin hmade hfresh hdb (hdb.tree.home_mem hhome) hout
  rw [if_neg (by simp [hin])] at h
  obtain ⟨-, htarget, rfl⟩ := relocated_ok h
  refine ⟨recycle, (ensureRecycleBin_hasBin hmade).placed.2, ?_, ?_⟩
  · have hhome' : made.homeOf id = some entry.parent :=
      homeOf_eq_some.mpr ⟨entry, by rw [ensureRecycleBin_entries hmade, hentry], rfl⟩
    have hmadeValid : SyncValid made := hedits.valid hfresh hdb
    show recycle ≠ made.root
    exact ne_root_of_outside hmadeValid (hmadeValid.tree.home_mem hhome') hin
  · rw [Item.place_entry, Database.placed, getElem?_editEntry, if_pos rfl, getElem?_relocateEntry,
      if_pos rfl, ensureRecycleBin_entries hmade, hentry]
    rfl

theorem recycleBinId_placedGroup {stamp : Times → Times} {id target : GroupId} :
    recycleBinId (db.placedGroup stamp id target) = recycleBinId db := by
  unfold recycleBinId Database.placedGroup
  simp only [mem_editGroup, mem_groups_relocateGroup]
  rfl

theorem trashedGroup_recycled {id : GroupId}
    (h : trashedGroup lib env db (Item.group id).name = .ok out) (hfresh : Fresh db env.uuid)
    (hdb : SyncValid db) (hparent : db.parentOf id = some origin)
    (hout : ∀ bin, recycleBinId db = some bin → groupIsInRecycleBin db id bin = false) :
    ∃ recycle, Recycled (.group id) out recycle origin := by
  have hid : id ∈ db.groups := mem_groups_of_parentOf hparent
  obtain ⟨found, hfound, h⟩ := Batch.bind_ok_iff.mp h
  have hname : db.findGroupId (Item.group id).name = .ok id :=
    Database.findGroupId_eq_ok.mpr ⟨hid, rfl⟩
  obtain rfl : id = found := Except.ok.inj (hname.symm.trans hfound)
  split at h
  · cases h
  obtain ⟨⟨made, recycle⟩, hmade, h⟩ := Batch.bind_ok_iff.mp h
  have hin : groupIsInRecycleBin made id recycle = false :=
    outside_ensureRecycleBin hmade hfresh hdb hid hout
  have hne : id ≠ recycle := by
    rintro rfl
    rw [groupIsInRecycleBin_self] at hin
    cases hin
  rw [if_neg (by simp [hin, hne])] at h
  obtain ⟨hmem, htarget, rfl⟩ := relocatedGroup_ok h
  have hmadeValid : SyncValid made :=
    (edits_ensureRecycleBin lib env hmade).edits.valid hfresh hdb
  have hplace : (Item.group id).place made = (Item.group id).place db :=
    place_ensureRecycleBin hmade hfresh hdb hparent
  have hparent' : made.parentOf id = some origin := by
    have hsame := (Item.parentIn_eq (.group id) made).trans
      ((congrArg (Option.bind · Prod.fst) hplace).trans (Item.parentIn_eq (.group id) db).symm)
    exact hsame.trans hparent
  have hroot : recycle ≠ made.root := ne_root_of_outside hmadeValid hmem hin
  refine ⟨recycle, ?_, hroot, ?_⟩
  · exact recycleBinId_placedGroup.trans (ensureRecycleBin_hasBin hmade).2
  · obtain ⟨group, hgroup⟩ := mem_iff_exists.mp hmem
    rw [Item.place_group, Database.placedGroup, getElem?_editGroup, if_pos rfl, getElem?_relocateGroup,
      hgroup]
    simp only [Option.map_some, if_pos, hparent']

end Trash

/-! ## Out of the bin -/

/-- Below `id` are the groups and entries that were there, each as it was. -/
structure SameSubtree (id : GroupId) (db out : Database V) : Prop where
  below : ∀ x, out.Below id x ↔ db.Below id x
  children : ∀ x, db.Below id x →
    out.childGroups x = db.childGroups x ∧ out.childEntries x = db.childEntries x
  groups : ∀ x, db.Below id x → x ≠ id → out.groups[x]? = db.groups[x]?
  entries : out.entries = db.entries

/-- The object is below `origin`, a group with its subtree, and every other object is where it was. -/
structure PutBack (item : Item) (origin : GroupId) (db out : Database V) : Prop where
  parent : item.parentIn out = some origin
  others : ∀ other, other ≠ item → other.parentIn out = other.parentIn db
  subtree : ∀ id, item = .group id → SameSubtree id db out

section Restore
variable {lib : Editing V} {env : Ambient} {item : Item} {recycle origin : GroupId}

theorem restored_ok {id : EntryId} (h : Recycled (.entry id) db recycle origin)
    (hlive : origin ∈ db.groups) (hout : groupIsInRecycleBin db origin recycle = false) :
    restored lib env db (Item.entry id).name = .ok (db.placed env.now id origin) := by
  obtain ⟨entry, hentry, hplace⟩ := Option.map_eq_some_iff.mp h.place
  have hparent : entry.parent = recycle := Option.some.inj (congrArg Prod.fst hplace)
  have hprevious : entry.previousParent = some origin := congrArg Prod.snd hplace
  have hid : id ∈ db.entries := mem_iff_exists.mpr ⟨entry, hentry⟩
  have hname : db.findEntryId (Item.entry id).name = .ok id := Database.findEntryId_eq_ok.mpr ⟨hid, rfl⟩
  have hdestination : entryDestination lib db recycle entry = origin := by
    unfold entryDestination
    rw [hprevious, lib.previousParent_live db origin hlive]
    simp [Option.filter, hlive, hout]
  unfold restored
  rw [hname, h.bin]
  simp only [Batch.bind_ok, require, hentry, hparent, groupIsInRecycleBin_self, not_true_eq_false,
    if_false, hdestination]
  rw [relocated_eq, if_pos hid, if_pos hlive]

theorem putBack_placed {id : EntryId} {now : Time} (hid : id ∈ db.entries) :
    PutBack (.entry id) origin db (db.placed now id origin) where
  parent := homeOf_placed hid
  others other hne := by rw [Item.parentIn_eq, Item.parentIn_eq, place_placed hne]
  subtree := nofun

/-- The parent of a recycled group is the bin, and neither the bin nor its origin is below it. -/
theorem Recycled.parentOf {id : GroupId} (h : Recycled (.group id) db recycle origin) :
    db.parentOf id = some recycle := by
  have hparent := Item.parentIn_eq (.group id) db
  rw [h.place] at hparent
  exact hparent

theorem Recycled.not_above_origin {id : GroupId} (h : Recycled (.group id) db recycle origin)
    (hout : groupIsInRecycleBin db origin recycle = false) : ¬ Forest.Above db.parentOf id origin := by
  intro habove
  have hin : Forest.Above db.parentOf recycle origin :=
    Forest.above_trans (Forest.above_of_parent h.parentOf (Forest.above_refl recycle)) habove
  rw [groupIsInRecycleBin_iff.mpr hin] at hout
  cases hout

theorem restoredGroup_ok {id : GroupId} (hdb : SyncValid db)
    (h : Recycled (.group id) db recycle origin) (hlive : origin ∈ db.groups)
    (hout : groupIsInRecycleBin db origin recycle = false) :
    restoredGroup lib env db (Item.group id).name =
      .ok (db.placedGroup (Times.located env.now) id origin) := by
  have hid : id ∈ db.groups := mem_groups_of_parentOf h.parentOf
  obtain ⟨group, hgroup, hplace⟩ := Option.map_eq_some_iff.mp h.place
  have hprevious : group.previousParent = some origin := congrArg Prod.snd hplace
  have hname : db.findGroupId (Item.group id).name = .ok id := Database.findGroupId_eq_ok.mpr ⟨hid, rfl⟩
  have hne : id ≠ recycle := by
    rintro rfl
    exact not_above_parent hdb h.parentOf (Forest.above_refl id)
  have hin : groupIsInRecycleBin db id recycle = true :=
    groupIsInRecycleBin_child h.parentOf (groupIsInRecycleBin_self db recycle)
  have hroot : id ≠ db.root := by
    rintro rfl
    cases hdb.tree.rootTop.symm.trans h.parentOf
  have hdestination : groupDestination lib db recycle group = origin := by
    unfold groupDestination
    rw [hprevious, lib.previousParent_live db origin hlive]
    simp [Option.filter, hout]
  obtain ⟨moved, hmoved⟩ := Option.isSome_iff_exists.mp
    ((lib.moveGroupTo_isSome db id origin hid).mpr ⟨hlive, hroot, h.not_above_origin hout⟩)
  unfold restoredGroup
  rw [hname, h.bin]
  simp only [Batch.bind_ok, require, hgroup, hne, hin, not_true_eq_false, or_self, if_false, hdestination]
  rw [relocatedGroup, if_pos hid, hmoved, lib.moveGroupTo_eq db id origin moved hid hmoved]
  rfl

/-- The lists of a group change only where a child is taken or added. -/
theorem getElem?_placedGroup {stamp : Times → Times} {id x : GroupId} (hid : x ≠ id)
    (hparent : db.parentOf id ≠ some x) (horigin : x ≠ origin) :
    (db.placedGroup stamp id origin).groups[x]? = db.groups[x]? := by
  rw [Database.placedGroup, getElem?_editGroup, if_neg (Ne.symm hid), getElem?_relocateGroup]
  have hsame : ∀ group : Group V,
      group.mapGroups (moveChild id (db.parentOf id) origin x) = group := by
    intro group
    unfold Group.mapGroups
    rw [moveChild_elsewhere hparent horigin]
  simp only [if_neg hid, hsame]
  exact Option.map_id'

theorem sameSubtree_placedGroup {id : GroupId} {stamp : Times → Times} (hdb : SyncValid db)
    (h : Recycled (.group id) db recycle origin) (hlive : origin ∈ db.groups)
    (hout : groupIsInRecycleBin db origin recycle = false) :
    SameSubtree id db (db.placedGroup stamp id origin) := by
  have hid : id ∈ db.groups := mem_groups_of_parentOf h.parentOf
  have hroot : id ≠ db.root := by
    rintro rfl
    cases hdb.tree.rootTop.symm.trans h.parentOf
  have hshape := sameShape_placedGroup db stamp id origin
  have hcycle := h.not_above_origin hout
  have hmoved : Change db (db.relocateGroup id origin) := .moveGroup id origin hid hlive hroot hcycle
  have htree : IsTree (db.placedGroup stamp id origin) := hshape.hangs (hmoved.valid hdb).tree
  -- No group whose lists change is below the group that moves.
  have hoff : ∀ x, db.Below id x → db.parentOf id ≠ some x ∧ x ≠ origin := by
    intro x hx
    have habove := (below_iff_above hdb.tree).mp hx
    constructor
    · intro hparent
      exact not_above_parent hdb hparent habove
    · rintro rfl
      exact hcycle habove
  have hparents : ∀ z, z ≠ id → (db.placedGroup stamp id origin).parentOf z = db.parentOf z := by
    intro z hz
    rw [parentOf_placedGroup hid, if_neg hz]
  refine ⟨?_, ?_, ?_, rfl⟩
  · intro x
    rw [below_iff_above htree, below_iff_above hdb.tree]
    constructor
    · exact Forest.above_self_of_off fun z hz => (hparents z hz).symm
    · exact Forest.above_self_of_off hparents
  · intro x hx
    obtain ⟨hparent, horigin⟩ := hoff x hx
    rw [hshape.childGroups, hshape.childEntries, childGroups_relocateGroup hlive,
      childEntries_relocateGroup, moveChild_elsewhere hparent horigin]
    exact ⟨rfl, rfl⟩
  · intro x hx hne
    exact getElem?_placedGroup hne (hoff x hx).1 (hoff x hx).2

theorem putBack_placedGroup {id : GroupId} {stamp : Times → Times} (hdb : SyncValid db)
    (h : Recycled (.group id) db recycle origin) (hlive : origin ∈ db.groups)
    (hout : groupIsInRecycleBin db origin recycle = false) :
    PutBack (.group id) origin db (db.placedGroup stamp id origin) where
  parent := by
    show Database.parentOf _ id = some origin
    rw [parentOf_placedGroup (mem_groups_of_parentOf h.parentOf), if_pos rfl]
  others other hne := by rw [Item.parentIn_eq, Item.parentIn_eq, place_placedGroup hne]
  subtree := by
    rintro _ ⟨⟩
    exact sameSubtree_placedGroup hdb h hlive hout

end Restore

/-! ## There and back -/

section RoundTrip
variable (lib : Editing V) {item : Item} {doc : KdbxDocument V} {recycle origin : GroupId}

theorem trash_recycled {env : Ambient} (hdoc : SyncValid doc.database)
    (hfresh : Fresh doc.database env.uuid) (hparent : item.parentIn doc.database = some origin)
    (hout : ∀ bin, recycleBinId doc.database = some bin → ¬ item.InBin doc.database bin)
    (hok : (MutationCall.perform lib ⟨item.trash, env⟩ doc).1 = .ok ⟨⟩) :
    ∃ recycle, Recycled item (MutationCall.perform lib ⟨item.trash, env⟩ doc).2.database recycle
      origin := by
  cases item with
  | entry id =>
    have hperforms := trashEntry_performs lib env doc (Item.entry id).name
    cases htrashed : trashed lib env doc.database (Item.entry id).name with
    | error e =>
      rw [htrashed] at hperforms
      cases hok.symm.trans hperforms.1
    | ok out =>
      rw [htrashed] at hperforms
      have hdatabase : (MutationCall.perform lib ⟨(Item.entry id).trash, env⟩ doc).2.database = out :=
        hperforms.2
      rw [hdatabase]
      refine trashed_recycled htrashed hfresh hdoc hparent ?_
      intro bin hbin
      rw [Bool.eq_false_iff]
      exact fun hin => hout bin hbin ⟨origin, hparent, hin⟩
  | group id =>
    have hperforms := trashGroup_performs lib env doc (Item.group id).name
    cases htrashed : trashedGroup lib env doc.database (Item.group id).name with
    | error e =>
      rw [htrashed] at hperforms
      cases hok.symm.trans hperforms.1
    | ok out =>
      rw [htrashed] at hperforms
      have hdatabase : (MutationCall.perform lib ⟨(Item.group id).trash, env⟩ doc).2.database = out :=
        hperforms.2
      rw [hdatabase]
      refine trashedGroup_recycled htrashed hfresh hdoc hparent ?_
      intro bin hbin
      rw [Bool.eq_false_iff]
      exact hout bin hbin

theorem restore_putBack (env : Ambient) (hdoc : SyncValid doc.database)
    (h : Recycled item doc.database recycle origin) (hlive : origin ∈ doc.database.groups)
    (hout : groupIsInRecycleBin doc.database origin recycle = false) :
    (MutationCall.perform lib ⟨item.restore, env⟩ doc).1 = .ok ⟨⟩ ∧
      PutBack item origin doc.database
        (MutationCall.perform lib ⟨item.restore, env⟩ doc).2.database := by
  cases item with
  | entry id =>
    have hperforms := performs_quiet (restoreEntry_performs lib env doc (Item.entry id).name)
    rw [restored_ok h hlive hout] at hperforms
    obtain ⟨⟨_, hok⟩, hdatabase⟩ := hperforms
    have hid : id ∈ doc.database.entries := by
      obtain ⟨entry, hentry, -⟩ := Option.map_eq_some_iff.mp h.place
      exact mem_iff_exists.mpr ⟨entry, hentry⟩
    refine ⟨hok, ?_⟩
    rw [show (MutationCall.perform lib ⟨(Item.entry id).restore, env⟩ doc).2.database = _ from hdatabase]
    exact putBack_placed hid
  | group id =>
    have hperforms := performs_quiet (restoreGroup_performs lib env doc (Item.group id).name)
    rw [restoredGroup_ok hdoc h hlive hout] at hperforms
    obtain ⟨⟨_, hok⟩, hdatabase⟩ := hperforms
    refine ⟨hok, ?_⟩
    rw [show (MutationCall.perform lib ⟨(Item.group id).restore, env⟩ doc).2.database = _ from hdatabase]
    exact putBack_placedGroup hdoc h hlive hout

/-- Trash, any calls that leave the object alone, restore: if the bin is still the bin and the
original parent is outside it, the object is back where it was. -/
theorem restore_undoes_trash {env : Ambient} (hdoc : databaseValidForSync doc.database = true)
    (hfresh : Fresh doc.database env.uuid) (hparent : item.parentIn doc.database = some origin)
    (hout : ∀ bin, recycleBinId doc.database = some bin → ¬ item.InBin doc.database bin)
    (hok : (MutationCall.perform lib ⟨item.trash, env⟩ doc).1 = .ok ⟨⟩) :
    ∃ recycle, recycleBinId (MutationCall.perform lib ⟨item.trash, env⟩ doc).2.database = some recycle ∧
      ∀ (calls : List MutationCall) (last : KdbxDocument V) (env' : Ambient),
        last = performAll lib (MutationCall.perform lib ⟨item.trash, env⟩ doc).2 calls →
        FreshDraws lib (MutationCall.perform lib ⟨item.trash, env⟩ doc).2 calls →
        Undisturbed lib item recycle (MutationCall.perform lib ⟨item.trash, env⟩ doc).2 calls →
        recycleBinId last.database = some recycle → origin ∈ last.database.groups →
        groupIsInRecycleBin last.database origin recycle = false →
        (MutationCall.perform lib ⟨item.restore, env'⟩ last).1 = .ok ⟨⟩ ∧
          PutBack item origin last.database
            (MutationCall.perform lib ⟨item.restore, env'⟩ last).2.database := by
  have hvalid := databaseValidForSync_iff.mp hdoc
  obtain ⟨recycle, hrecycled⟩ := trash_recycled lib hvalid hfresh hparent hout hok
  refine ⟨recycle, hrecycled.bin, ?_⟩
  rintro calls last env' rfl hdraws hcalls hbin hlive houtside
  have htrashed : SyncValid (MutationCall.perform lib ⟨item.trash, env⟩ doc).2.database :=
    perform_valid lib hfresh hvalid
  have hlast := performAll_valid lib hdraws htrashed
  have hplace := place_performAll lib htrashed hdraws
    (by rw [Item.parentIn_eq, hrecycled.place]; rfl) hrecycled.notRoot hcalls
  refine restore_putBack lib env' hlast ⟨hbin, ?_, hplace.trans hrecycled.place⟩ hlive houtside
  rintro rfl
  rw [groupIsInRecycleBin_iff.mpr (hlast.tree.reach origin hlive)] at houtside
  cases houtside

end RoundTrip

instance decidableUndisturbed (lib : Editing V) (item : Item) (p : GroupId) :
    (doc : KdbxDocument V) → (calls : List MutationCall) → Decidable (Undisturbed lib item p doc calls)
  | _, [] => inferInstanceAs (Decidable True)
  | doc, call :: calls =>
    have := decidableUndisturbed lib item p (call.perform lib doc).2 calls
    inferInstanceAs (Decidable (item.parentIn (call.perform lib doc).2.database = some p ∧
      Undisturbed lib item p (call.perform lib doc).2 calls))

/-- A vault with an entry in a group. -/
def mailVault : KdbxDocument Unit :=
  performAll Editing.reference (KdbxDocument.new emptyVault (.kdbx4 1) "Vault") (firstCalls.take 2)

/-- Between the two calls the original parent goes to the bin and comes back. -/
def meanwhile : List MutationCall :=
  [⟨.trashGroup (Database.uuidText 2), ⟨8, 5⟩⟩, ⟨.renameGroup (Database.uuidText 4) "Trash", ⟨9, 6⟩⟩,
    ⟨.restoreGroup (Database.uuidText 2), ⟨10, 7⟩⟩]

set_option maxRecDepth 100000 in
theorem restore_undoes_trash_mail :
    let trashed := (MutationCall.perform Editing.reference
      ⟨(Item.entry ⟨3⟩).trash, ⟨7, 4⟩⟩ mailVault).2
    let last := performAll Editing.reference trashed meanwhile
    (Item.entry ⟨3⟩).parentIn last.database = some ⟨4⟩ ∧
    (MutationCall.perform Editing.reference ⟨(Item.entry ⟨3⟩).restore, ⟨11, 8⟩⟩ last).1 = .ok ⟨⟩ ∧
    PutBack (.entry ⟨3⟩) ⟨2⟩ last.database
      (MutationCall.perform Editing.reference ⟨(Item.entry ⟨3⟩).restore, ⟨11, 8⟩⟩ last).2.database := by
  intro trashed last
  obtain ⟨recycle, hbin, hrestore⟩ := @restore_undoes_trash Unit Editing.reference (.entry ⟨3⟩)
    mailVault ⟨2⟩ ⟨7, 4⟩ (by decide +kernel) (by decide +kernel) (by decide +kernel) (by
      have hnone : recycleBinId mailVault.database = none := by decide +kernel
      intro bin hbin
      rw [hnone] at hbin
      cases hbin) (by decide +kernel)
  have hnew : recycleBinId trashed.database = some ⟨4⟩ := by decide +kernel
  obtain rfl : recycle = ⟨4⟩ := Option.some.inj (hbin.symm.trans hnew)
  refine ⟨by decide +kernel, ?_⟩
  exact hrestore meanwhile last ⟨11, 8⟩ rfl (by decide +kernel) (by decide +kernel)
    (by decide +kernel) (by decide +kernel) (by decide +kernel)

end NianPass.Kdbx
