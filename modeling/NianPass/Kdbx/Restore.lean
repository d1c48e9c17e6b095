import NianPass.Kdbx.Outcome
import NianPass.Kdbx.RecycleBin

/-
  Where an entry of a merged document goes back to.

  The entry merge chooses between the three previous parents, but never writes the choice: the
  candidate keeps local's previous parent, and a move puts local's parent there. The choice is
  compared with what will be stored only where the entry stays with local's parent.

  What is proved (`restoresAsChosen_iff`): the merged entry has the chosen previous parent
  exactly if, where only remote moved it, the choice is base's parent, and where it stays, the
  group that local's pointer names has not come or gone with the merge. An entry that remote
  moved twice is the first case (`moved_twice_restores_elsewhere`).
-/
namespace NianPass.Kdbx

variable {V : Type}

/-- `previous_parent()` answers with a group of the database, so it finds no group that is gone. -/
def LooksUp (K : Keepass V) : Prop := ∀ (db : Database V) id, id ∉ db.groups → K.previousParent db (some id) = none

theorem LooksUp.eq_filter {K : Keepass V} (h : LooksUp K) (db : Database V) (previous : Option GroupId) :
    K.previousParent db previous = previous.filter (· ∈ db.groups) := by
  cases previous with
  | none => exact K.previousParent_none db
  | some id =>
    by_cases hid : id ∈ db.groups
    · rw [K.previousParent_live db id hid, Option.filter_some, if_pos (decide_eq_true hid)]
    · rw [h db id hid, Option.filter_some, if_neg (by simpa using hid)]

theorem LooksUp.eq_iff {K : Keepass V} (h : LooksUp K) (db out : Database V) (id : GroupId) :
    K.previousParent out (some id) = K.previousParent db (some id) ↔ (id ∈ db.groups ↔ id ∈ out.groups) := by
  rw [h.eq_filter, h.eq_filter, Option.filter_some, Option.filter_some]
  by_cases hdb : id ∈ db.groups
  · by_cases hout : id ∈ out.groups
    · simp [hdb, hout]
    · simp [hdb, hout]
  · by_cases hout : id ∈ out.groups
    · simp [hdb, hout]
    · simp [hdb, hout]

/-- The entry has the previous parent that the three-way choice gives, and a restore goes there if it
can, otherwise to the root. -/
def RestoresAsChosen (lib : Editing V) (base loc remote m : Database V) (b l r e : Entry V) : Prop :=
  ∃ choice, IsThreeWay (lib.previousParent base b.previousParent) (lib.previousParent loc l.previousParent)
      (lib.previousParent remote r.previousParent) choice ∧
    lib.previousParent m e.previousParent = choice ∧
    ∀ recycle, entryDestination lib m recycle e = (choice.filter fun destination =>
      destination ∈ m.groups ∧ ¬ groupIsInRecycleBin m destination recycle).getD m.root

/-- The group that local's pointer names is there after the merge exactly if it is there before. -/
def PointerKept (base loc remote : Database V) (l : Entry V) : Prop :=
  ∀ group, l.previousParent = some group →
    (group ∈ loc.groups ↔ ShouldLive (group ∈ base.groups) (group ∈ loc.groups) (group ∈ remote.groups))

/-- Where remote alone moved the entry, whoever changed the previous parent left base's parent there, as
far as remote still has that group. -/
def RestoreTargetKept (K : Keepass V) (base loc remote : Database V) (b l r : Entry V) : Prop :=
  if r.parent ≠ b.parent ∧ r.parent ≠ l.parent then
    chooseThreeWay (K.previousParent base b.previousParent) (K.previousParent loc l.previousParent)
      (K.previousParent remote r.previousParent) = some (K.previousParent remote (some b.parent))
  else PointerKept base loc remote l

theorem SyncValid.parent_mem {db : Database V} (h : SyncValid db) {id : EntryId} {entry : Entry V}
    (hentry : db.entries[id]? = some entry) : entry.parent ∈ db.groups := by
  have hlisted : id ∈ db.childEntries entry.parent :=
    h.tree.entryListed id entry.parent (by rw [Database.homeOf, hentry]; rfl)
  by_contra hmissing
  simp [Database.childEntries, Std.ExtTreeMap.getElem?_eq_none hmissing] at hlisted

section Merged

variable [DecidableEq V] {lib : Editing V} {base loc remote m : KdbxDocument V} {id : EntryId} {b l r e : Entry V}

theorem restoresAsChosen_iff (hlookup : LooksUp lib.toKeepass)
    (hb : databaseValidForSync base.database = true) (hl : databaseValidForSync loc.database = true)
    (hr : databaseValidForSync remote.database = true)
    (h : mergeDivergent lib.toKeepass base loc remote = .ok (.merged m))
    (hbase : base.database.entries[id]? = some b) (hlocal : loc.database.entries[id]? = some l)
    (hremote : remote.database.entries[id]? = some r) (hmerged : m.database.entries[id]? = some e) :
    RestoresAsChosen lib base.database loc.database remote.database m.database b l r e ↔
      RestoreTargetKept lib.toKeepass base.database loc.database remote.database b l r := by
  rw [databaseValidForSync_iff] at hb hl hr
  obtain ⟨st, run, hq, hend, -⟩ := mergeDivergent_merged h
  obtain ⟨e', he', hentry, -, -, hprevious, -⟩ := run.entry_merged hb hl hr hq hbase hlocal hremote
  obtain ⟨out, hout, hpruned⟩ := hend.entries id e' he'
  obtain rfl := Option.some.inj (hout.symm.trans hmerged)
  obtain ⟨choice, hchoice, hstays⟩ := hprevious.chosen
  have hpointer : out.previousParent = e'.previousParent := by
    obtain ⟨n, rfl⟩ := hpruned
    rfl
  have hlive : ∀ group : GroupId, group ∈ m.database.groups ↔ ShouldLive (group ∈ base.database.groups)
      (group ∈ loc.database.groups) (group ∈ remote.database.groups) := by
    intro group
    rw [hend.groups, run.mem_groups_live hb hl hr hq, shouldLive_iff]
  -- the choice is unique, and the restore follows the pointer
  have hproperty : RestoresAsChosen lib base.database loc.database remote.database m.database b l r out ↔
      lib.previousParent m.database e'.previousParent = choice := by
    constructor
    · rintro ⟨other, hother, hfound, -⟩
      rw [← hpointer]
      exact hfound.trans (hother.unique hchoice)
    · intro hfound
      rw [← hpointer] at hfound
      exact ⟨choice, hchoice, hfound, fun recycle => by rw [entryDestination, hfound]⟩
  have hstored : e'.previousParent = if e'.parent = l.parent then l.previousParent else some l.parent :=
    hprevious.stored
  rw [hproperty, hstored]
  unfold RestoreTargetKept
  by_cases hmoved : r.parent ≠ b.parent ∧ r.parent ≠ l.parent
  · -- only remote moved it, so the move left local's parent, which is base's
    have hlb : l.parent = b.parent := by
      rcases hentry.parent.decided with heq | heq | heq
      · exact absurd heq.symm hmoved.2
      · exact heq
      · exact absurd heq hmoved.1
    have hparent : e'.parent = r.parent := hentry.parent.remoteChange hlb
    have hgroups : (b.parent ∈ remote.database.groups ↔ b.parent ∈ m.database.groups) := by
      rw [hlive, shouldLive_iff]
      have hinBase := hb.parent_mem hbase
      have hinLocal := hl.parent_mem hlocal
      rw [hlb] at hinLocal
      simp [hinBase, hinLocal]
    rw [if_pos hmoved, if_neg (by rw [hparent]; exact hmoved.2), chooseThreeWay_eq_some]
    rw [hlb, (hlookup.eq_iff _ _ _).2 hgroups]
    constructor
    · rintro rfl
      exact hchoice
    · exact fun hother => hother.unique hchoice
  · -- it stays with local's parent, and local's pointer was compared with the choice
    have hparent : e'.parent = l.parent := by
      by_cases hstill : r.parent = b.parent
      · exact hentry.parent.localChange hstill
      · exact hentry.parent.agreed (by_contra fun hne => hmoved ⟨hstill, fun heq => hne heq.symm⟩)
    rw [if_neg hmoved, if_pos hparent, hstays hparent]
    show lib.previousParent m.database l.previousParent = lib.previousParent loc.database l.previousParent ↔ _
    cases hl' : l.previousParent with
    | none =>
      rw [lib.previousParent_none, lib.previousParent_none]
      exact iff_of_true rfl (fun group hgroup => by rw [hl'] at hgroup; cases hgroup)
    | some group =>
      rw [hlookup.eq_iff, hlive]
      constructor
      · intro hkept other hother
        rw [hl'] at hother
        exact Option.some.inj hother ▸ hkept
      · exact fun hkept => hkept group hl'

end Merged

/-! ## Moved once, moved twice -/

theorem looksUp_reference : LooksUp (reference : Keepass V) := by
  intro db id hid
  show (some id).filter (· ∈ db.groups) = none
  rw [Option.filter_some, if_neg (by simpa using hid)]

set_option maxRecDepth 100000 in
/-- Remote moved the entry once, into a group it added, and the merge keeps where it came from. -/
theorem restoresAsChosen_iff_nested :
    ∃ b l r e : Entry Unit, smallVault.entries[(⟨10⟩ : EntryId)]? = some b ∧
      retitled.entries[(⟨10⟩ : EntryId)]? = some l ∧ nested.entries[(⟨10⟩ : EntryId)]? = some r ∧
      (smallMerge retitled nested).database.entries[(⟨10⟩ : EntryId)]? = some e ∧
      (RestoresAsChosen Editing.reference smallVault retitled nested (smallMerge retitled nested).database
          b l r e ↔
        RestoreTargetKept reference smallVault retitled nested b l r) := by
  have h : mergeDivergent reference (document smallVault) (document retitled) (document nested) =
      .ok (.merged (smallMerge retitled nested)) := by decide +kernel
  obtain ⟨b, hbase⟩ := mem_iff_exists.mp (by decide +kernel : (⟨10⟩ : EntryId) ∈ smallVault.entries)
  obtain ⟨l, hlocal⟩ := mem_iff_exists.mp (by decide +kernel : (⟨10⟩ : EntryId) ∈ retitled.entries)
  obtain ⟨r, hremote⟩ := mem_iff_exists.mp (by decide +kernel : (⟨10⟩ : EntryId) ∈ nested.entries)
  obtain ⟨e, hmerged⟩ := mem_iff_exists.mp
    (by decide +kernel : (⟨10⟩ : EntryId) ∈ (smallMerge retitled nested).database.entries)
  exact ⟨b, l, r, e, hbase, hlocal, hremote, hmerged,
    @restoresAsChosen_iff Unit _ Editing.reference _ _ _ _ _ _ _ _ _ looksUp_reference (by decide +kernel)
      (by decide +kernel) (by decide +kernel) h hbase hlocal hremote hmerged⟩

/-- The small vault with a second group. -/
def roomyVault : Database Unit := smallVault.insertGroup ⟨1⟩ ⟨3⟩ { name := "Bank", parent := some ⟨1⟩ }

/-- Remote moves the entry into one group and from there into the other. -/
def movedTwice : Database Unit := (roomyVault.relocateEntry ⟨10⟩ ⟨2⟩).relocateEntry ⟨10⟩ ⟨3⟩

/-- Local gives the entry a new title. -/
def roomyRetitled : Database Unit :=
  roomyVault.editEntry ⟨10⟩ fun entry => { entry with fields := titled "new" }

def roomyMerge : KdbxDocument Unit := mergedOr roomyVault roomyRetitled movedTwice

set_option maxRecDepth 100000 in
/-- The entry came from the first group last, but goes back to the root. -/
theorem moved_twice_restores_elsewhere :
    databaseValidForSync roomyVault = true ∧ databaseValidForSync roomyRetitled = true ∧
    databaseValidForSync movedTwice = true ∧
    mergeDivergent reference (document roomyVault) (document roomyRetitled) (document movedTwice) =
      .ok (.merged roomyMerge) ∧
    ∃ b l r e : Entry Unit, roomyVault.entries[(⟨10⟩ : EntryId)]? = some b ∧
      roomyRetitled.entries[(⟨10⟩ : EntryId)]? = some l ∧ movedTwice.entries[(⟨10⟩ : EntryId)]? = some r ∧
      roomyMerge.database.entries[(⟨10⟩ : EntryId)]? = some e ∧
      ¬ RestoresAsChosen Editing.reference roomyVault roomyRetitled movedTwice roomyMerge.database b l r e := by
  refine ⟨by decide +kernel, by decide +kernel, by decide +kernel, by decide +kernel, ?_⟩
  obtain ⟨b, hbase⟩ := mem_iff_exists.mp (by decide +kernel : (⟨10⟩ : EntryId) ∈ roomyVault.entries)
  obtain ⟨l, hlocal⟩ := mem_iff_exists.mp (by decide +kernel : (⟨10⟩ : EntryId) ∈ roomyRetitled.entries)
  obtain ⟨r, hremote⟩ := mem_iff_exists.mp (by decide +kernel : (⟨10⟩ : EntryId) ∈ movedTwice.entries)
  obtain ⟨e, hmerged⟩ := mem_iff_exists.mp
    (by decide +kernel : (⟨10⟩ : EntryId) ∈ roomyMerge.database.entries)
  refine ⟨b, l, r, e, hbase, hlocal, hremote, hmerged, ?_⟩
  have hpointers : (roomyVault.entries[(⟨10⟩ : EntryId)]?.map (·.previousParent)) = some none ∧
      (roomyRetitled.entries[(⟨10⟩ : EntryId)]?.map (·.previousParent)) = some none ∧
      (movedTwice.entries[(⟨10⟩ : EntryId)]?.map (·.previousParent)) = some (some ⟨2⟩) ∧
      (roomyMerge.database.entries[(⟨10⟩ : EntryId)]?.map (·.previousParent)) = some (some ⟨1⟩) := by
    decide +kernel
  rw [hbase, hlocal, hremote, hmerged] at hpointers
  simp only [Option.map_some, Option.some.injEq] at hpointers
  obtain ⟨hb, hl, hr, he⟩ := hpointers
  rintro ⟨choice, hchoice, hfound, -⟩
  rw [hb, hl, hr] at hchoice
  rw [he] at hfound
  have hremote : choice = some ⟨2⟩ := hchoice.remoteChange rfl
  have hmerge : choice = some ⟨1⟩ :=
    hfound.symm.trans (reference.previousParent_live _ _ (by decide +kernel))
  exact absurd (hremote.symm.trans hmerge) (by decide)

end NianPass.Kdbx
