import NianPass.Kdbx.Recycling

/-
  A mutation happens or it does not.

  An error leaves the document as it was. An answer leaves it as it was, or the
  database is another one and the revision has advanced. The revision never goes
  back, so a change stays visible to whoever remembers a revision from before it.

  The library decodes no entry that names a custom icon which is not there, and
  every mutation keeps that (`NamesIcons`), so a duplicate always finds the icon
  it copies.

  Two kinds of calls advance the revision and change nothing (`Proper` excludes
  them), and a draw has to be a new identifier:

    - `restore_entry_history` of an entry whose history is full of copies of its
      current state writes what is there.
    - Restoring what is directly below the root, when the root itself is in the
      bin, moves it to where it is.
-/
namespace NianPass.Kdbx

open Method

variable {V : Type} {db out : Database V}

/-! ## Icons -/

/-- The custom icons that entries name are there. -/
def Database.NamesIcons (db : Database V) : Prop :=
  ∀ (id : EntryId) (entry : Entry V), db.entries[id]? = some entry → HasIcon db entry.icon

theorem Database.NamesIcons.not_dangling {text : String} {source : Entry V} (h : db.NamesIcons) :
    ¬ DanglingIcon db text source := by
  rintro ⟨⟨id, -, hsource⟩, -, i, hi, hmissing⟩
  exact hmissing (h id source hsource i hi)

/-- The icons are still there, and every entry has one of them or the one that it had. -/
theorem Database.NamesIcons.of_entries (h : db.NamesIcons)
    (hicons : ∀ i ∈ db.customIcons, i ∈ out.customIcons)
    (hentries : ∀ (id : EntryId) (entry : Entry V), out.entries[id]? = some entry →
      HasIcon out entry.icon ∨ ∃ old : Entry V, db.entries[id]? = some old ∧ entry.icon = old.icon) :
    out.NamesIcons := by
  intro id entry hentry
  rcases hentries id entry hentry with hhas | ⟨old, hold, heq⟩
  · exact hhas
  · intro i hi
    rw [heq] at hi
    exact hicons i (h id old hold i hi)

/-- Every entry that is left is as it was. -/
theorem Database.NamesIcons.of_fewer (h : db.NamesIcons) (hicons : out.customIcons = db.customIcons)
    (hentries : ∀ (id : EntryId) (entry : Entry V), out.entries[id]? = some entry →
      db.entries[id]? = some entry) : out.NamesIcons :=
  h.of_entries (fun _ hi => hicons ▸ hi) fun id entry hentry =>
    Or.inr ⟨entry, hentries id entry hentry, rfl⟩

theorem TrackedEdit.namesIcons {id : EntryId} {entry : Entry V} {data : EntryData V}
    (h : TrackedEdit db id entry data out) (hicons : ∀ i ∈ db.customIcons, i ∈ out.customIcons)
    (hdb : db.NamesIcons) : out.NamesIcons := by
  refine hdb.of_entries hicons fun e edited hedited => ?_
  rw [h.getElem?] at hedited
  split at hedited
  · cases hedited
    left
    intro i hi
    rcases h.icon i hi with hold | hnew
    · exact hicons i (hdb id entry h.found i hold)
    · exact hnew
  · exact Or.inr ⟨edited, hedited, rfl⟩

theorem Draw.namesIcons {uuid : Uuid} (h : Draw uuid db out) (hdb : db.NamesIcons) :
    out.NamesIcons := by
  cases h with
  | entry parent entry table _ _ _ hicon =>
    refine hdb.of_entries (fun _ hi => hi) fun e found hfound => ?_
    change (db.insertEntry parent ⟨uuid⟩ entry).entries[e]? = some found at hfound
    rw [getElem?_insertEntry] at hfound
    split at hfound
    · cases hfound
      exact Or.inl hicon
    · exact Or.inr ⟨found, hfound, rfl⟩
  | group => exact hdb.of_fewer rfl fun _ _ h => h
  | icon id entry data icon _ h hicons =>
    refine h.namesIcons (fun i hi => ?_) hdb
    rw [hicons]
    exact Std.ExtTreeMap.mem_insert.mpr (Or.inr hi)

theorem Still.namesIcons (h : Still db out) (hdb : db.NamesIcons) : out.NamesIcons := by
  cases h with
  | tracked id entry data _ h hicons => exact h.namesIcons (fun i hi => hicons ▸ hi) hdb
  | removeEntry id table time _ =>
    refine hdb.of_fewer rfl fun e entry hentry => ?_
    change (db.eraseEntry id).entries[e]? = some entry at hentry
    rw [getElem?_eraseEntry] at hentry
    split at hentry
    · cases hentry
    · exact hentry
  | editGroup => exact hdb.of_fewer rfl fun _ _ h => h
  | removeGroup id without deleted _ _ hwithout _ =>
    obtain ⟨_, hwithout⟩ := hwithout
    refine hdb.of_fewer hwithout.customIcons fun e entry hentry => ?_
    by_cases hgone : ∃ x, db.Below id x ∧ e ∈ db.childEntries x
    · obtain ⟨x, hx, hlisted⟩ := hgone
      cases (hwithout.entriesGone x e hx hlisted).symm.trans hentry
    · exact (hwithout.entriesKept e fun x hx hlisted => hgone ⟨x, hx, hlisted⟩).symm.trans hentry
  | settings => exact hdb.of_fewer rfl fun _ _ h => h
  | historyPolicy metadata =>
    obtain ⟨hsame, hentries⟩ := pruneAllEntryHistory_spec { db with metadata := metadata }
    have hicons := congrArg Database.customIcons hsame
    refine hdb.of_entries (fun i hi => by rw [hicons]; exact hi) fun e entry hentry => Or.inr ?_
    rcases hentries e with ⟨-, hnone⟩ | ⟨old, pruned, hold, hpruned, n, hcut⟩
    · cases hnone.symm.trans hentry
    · obtain rfl := Option.some.inj (hpruned.symm.trans hentry)
      exact ⟨old, hold, by rw [hcut]⟩

theorem Change.namesIcons (h : Change db out) (hdb : db.NamesIcons) : out.NamesIcons := by
  cases h with
  | still _ h => exact h.namesIcons hdb
  | moveEntry id target times _ _ =>
    refine hdb.of_entries (fun _ hi => hi) fun e entry hentry => Or.inr ?_
    rw [getElem?_editEntry, getElem?_relocateEntry] at hentry
    split at hentry
    · rw [Option.map_map] at hentry
      obtain ⟨old, hold, rfl⟩ := Option.map_eq_some_iff.mp hentry
      exact ⟨old, hold, rfl⟩
    · exact ⟨entry, hentry, rfl⟩
  | moveGroup => exact hdb.of_fewer rfl fun _ _ h => h

theorem EditsBy.namesIcons {uuid : Uuid} (h : Edits uuid db out) (hdb : db.NamesIcons) :
    out.NamesIcons := by
  obtain ⟨mid, hmid, hrest⟩ := h
  have hfirst : mid.NamesIcons := by
    rcases hmid with rfl | hdraw
    · exact hdb
    · exact hdraw.namesIcons hdb
  induction hrest with
  | refl => exact hfirst
  | tail _ hstep ih => exact hstep.namesIcons ih

theorem performAll_namesIcons (lib : Editing V) (doc : KdbxDocument V) (calls : List MutationCall)
    (h : doc.database.NamesIcons) : (performAll lib doc calls).database.NamesIcons := by
  induction calls generalizing doc with
  | nil => exact h
  | cons call calls ih =>
    exact ih _ (EditsBy.namesIcons (call.mutation.edits lib call.env doc) h)

/-! ## Edits that change nothing -/

/-- A tracked edit that changes nothing has put a copy of the entry in front of its history and
dropped another one from its end. -/
theorem TrackedEdit.unchanged {id : EntryId} {entry : Entry V} {data : EntryData V}
    (h : TrackedEdit db id entry data db) : data = entry.toEntryData ∧
      entry.history = some (db.kept (entry.toEntryData :: entry.history.getD [])) := by
  have hafter := h.found_after
  rw [h.found] at hafter
  have hentry := Option.some.inj hafter
  exact ⟨(congrArg Entry.toEntryData hentry).symm, congrArg Entry.history hentry⟩

/-- A list that takes one more in front and is cut to its length is full of it. -/
theorem eq_replicate_of_take {α : Type} {a : α} {l : List α} {n : Nat} (h : (a :: l).take n = l) :
    l = List.replicate n a := by
  induction n generalizing l with
  | zero => exact h.symm
  | succ n ih =>
    rw [List.take_succ_cons] at h
    rw [← h, List.replicate_succ]
    congr 1
    apply ih
    rw [h]

/-- `restore_entry_history` writes what is there. -/
structure RestoresItself (lib : Editing V) (env : Ambient) (doc : KdbxDocument V) (id : String)
    (historyIndex expectedDocumentRevision : Nat) (current : Entry V) : Prop where
  revision : doc.revision = expectedDocumentRevision
  named : ∃ entryId, doc.database.findEntryId id = .ok entryId ∧
    doc.database.entries[entryId]? = some current
  full : ∃ limit, finiteHistoryLimit doc.database = some limit ∧ historyIndex < limit ∧
    current.history = some (List.replicate limit current.toEntryData)
  shape : restoreShapeSupported doc.database current.toEntryData = true
  icon : ∀ i, current.icon ≠ some (.custom i)
  times : lib.touch env.now current.times = current.times

/-- Restoring a snapshot changes nothing only if it is the entry, like all the others. -/
theorem restoresItself_of_unchanged {lib : Editing V} {env : Ambient} {doc : KdbxDocument V}
    {text : String} {historyIndex : Nat} {id : EntryId} {entry : Entry V} {source : EntryData V}
    (hid : doc.database.findEntryId text = .ok id)
    (hsource : (entry.history.getD [])[historyIndex]? = some source)
    (hshape : restoreShapeSupported doc.database entry.toEntryData = true)
    (hicon : ∀ i, source.icon ≠ some (.custom i))
    (h : TrackedEdit doc.database id entry (lib.tracked env
      (fun data => source.restoreFrom data source.icon) entry.toEntryData) doc.database) :
    RestoresItself lib env doc text historyIndex doc.revision entry := by
  obtain ⟨hdata, hhistory⟩ := h.unchanged
  have hfull : ∃ limit, finiteHistoryLimit doc.database = some limit ∧
      entry.history.getD [] = List.replicate limit entry.toEntryData := by
    have hkept := congrArg (Option.getD · []) hhistory
    dsimp only [Option.getD_some] at hkept
    unfold Database.kept at hkept
    split at hkept
    · exact absurd (congrArg List.length hkept) (by simp)
    · case h_2 limit hlimit => exact ⟨limit, hlimit, eq_replicate_of_take hkept.symm⟩
  obtain ⟨limit, hlimit, hreplicate⟩ := hfull
  -- Every snapshot is a copy of the entry.
  rw [hreplicate, List.getElem?_replicate] at hsource
  split at hsource
  · case isTrue hindex =>
    obtain rfl := Option.some.inj hsource
    refine ⟨rfl, ⟨id, hid, h.found⟩, ⟨limit, hlimit, hindex, ?_⟩, hshape, hicon,
      congrArg EntryData.times hdata⟩
    rw [hhistory] at hreplicate ⊢
    exact congrArg some hreplicate
  · cases hsource

/-! ## The tree -/

/-- An entry under an identifier that no entry had. -/
theorem insertEntry_ne {parent : GroupId} {id : EntryId} {entry : Entry V}
    {table : Map AttachmentId (Value Bytes)} (hid : id ∉ db.entries) :
    { db.insertEntry parent id entry with attachments := table } ≠ db := by
  intro hsame
  apply hid
  rw [← hsame]
  exact Std.ExtTreeMap.mem_insert_self

/-- A group under an identifier that no group had. -/
theorem insertGroup_ne {parent id : GroupId} {group : Group V} (hid : id ∉ db.groups) :
    db.insertGroup parent id group ≠ db := by
  intro hsame
  apply hid
  rw [← hsame]
  exact mem_groups_insertGroup.mpr (Or.inl rfl)

theorem placed_ne {now : Time} {id : EntryId} {target : GroupId} (hid : id ∈ db.entries)
    (hhome : db.homeOf id ≠ some target) : db.placed now id target ≠ db := by
  intro hsame
  apply hhome
  rw [← hsame]
  exact homeOf_placed hid

theorem placedGroup_ne (stamp : Times → Times) {id target : GroupId} (hid : id ∈ db.groups)
    (hparent : db.parentOf id ≠ some target) : db.placedGroup stamp id target ≠ db := by
  intro hsame
  apply hparent
  rw [← hsame, parentOf_placedGroup hid, if_pos rfl]

theorem not_mem_trackRemove (lib : Editing V) (env : Ambient) {id : EntryId} (hid : id ∈ db.entries) :
    id ∉ (lib.trackRemove env db id).entries := by
  obtain ⟨table, heq⟩ := lib.removeEntry_eq db id hid
  unfold Editing.trackRemove
  rw [heq]
  intro hmem
  exact (Std.ExtTreeMap.mem_erase.mp hmem).1 Std.ReflCmp.compare_self

theorem not_mem_trackRemoveGroup (lib : Editing V) (env : Ambient) {id : GroupId} (hid : id ∈ db.groups)
    (h : lib.trackRemoveGroup env db id = some out) : id ∉ out.groups := by
  unfold Editing.trackRemoveGroup at h
  split at h
  · cases h
  · case isFalse hroot =>
    cases h
    intro hmem
    obtain ⟨group, hgroup⟩ := mem_iff_exists.mp hmem
    have hgone := (lib.removeGroup_spec db id hid hroot).gone id ⟨0, rfl⟩
    cases hgone.symm.trans hgroup

theorem copied_ne (lib : Editing V) (env : Ambient) {source : Entry V}
    (hfresh : (⟨env.uuid⟩ : EntryId) ∉ db.entries) : lib.copied env db source ≠ db := by
  obtain ⟨named, table, heq⟩ := foldl_addAttachment lib db source.parent ⟨env.uuid⟩
    (db.attachmentsNamed source.toEntryData)
    { source.copyInto (lib.newEntry env.now source.parent) with icon := source.icon } db.attachments
  unfold Editing.copied
  change (db.attachmentsNamed source.toEntryData).foldl _
    { db.insertEntry source.parent ⟨env.uuid⟩ _ with attachments := db.attachments } ≠ db
  rw [heq]
  exact insertEntry_ne hfresh

theorem RemovesGroup.ne {lib : Editing V} {env : Ambient} {text : String} {id : GroupId}
    {subtree : List GroupId} {cleared : Database V}
    (h : RemovesGroup lib env db text id subtree cleared out) : out ≠ db := by
  rintro rfl
  refine not_mem_trackRemoveGroup lib env ?_ h.removed (mem_of_findGroupId h.named)
  exact h.mem

/-! ## The bin -/

section Bin
variable (lib : Editing V) (env : Ambient)

/-- A new bin is the parent of nothing. -/
theorem parentOf_ensureRecycleBin {made : Database V} {recycle : GroupId}
    (h : ensureRecycleBin lib env db = .ok (made, recycle)) {g : GroupId} (hne : g ≠ recycle) :
    made.parentOf g = db.parentOf g := by
  unfold ensureRecycleBin at h
  split at h
  · cases h
  · split at h
    · cases h
      rfl
    · cases h
      have hg : ∀ group : Group V, (db.insertGroup db.root ⟨env.uuid⟩ group).parentOf g = db.parentOf g := by
        intro group
        unfold Database.parentOf Database.insertGroup
        rw [Std.ExtTreeMap.getElem?_insert, if_neg fun hc => hne (Std.LawfulEqCmp.eq_of_compare hc).symm,
          Std.ExtTreeMap.getElem?_modify]
        split
        · case isTrue hroot =>
          obtain rfl := Std.LawfulEqCmp.eq_of_compare hroot
          cases db.groups[db.root]? <;> rfl
        · rfl
      show ((lib.addGroup env db db.root).editGroup ⟨env.uuid⟩ _).parentOf g = _
      unfold Editing.addGroup
      rw [editGroup_insertGroup]
      exact hg _

/-- How far a loop of moves has come: what was moved is in the target, and something that was
elsewhere was moved if the loop says so. -/
structure Arrived (db : Database V) (target : GroupId) (state : Database V × Bool) : Prop where
  homes : ∀ e, state.1.homeOf e = db.homeOf e ∨ state.1.homeOf e = some target
  moved : state.2 = true → ∃ e, db.homeOf e ≠ some target ∧ state.1.homeOf e = some target

theorem Arrived.round {target : GroupId} {stays : Database V → GroupId → Bool}
    (hstays : ∀ db, stays db target = true) {state result : Database V × Bool} {id : EntryId}
    (h : Arrived db target state) (hround : moveRound lib env target stays state id = .ok result) :
    Arrived db target result := by
  unfold moveRound at hround
  split at hround
  · cases hround
  · case h_2 entry hentry =>
    split at hround
    · cases hround
      exact h
    · case isFalse hleaves =>
      split at hround
      · case h_1 moved hmoved =>
        cases hround
        obtain ⟨hid, -, rfl⟩ := relocated_ok hmoved
        have hhome : state.1.homeOf id = some entry.parent := homeOf_eq_some.mpr ⟨entry, hentry, rfl⟩
        have hne : state.1.homeOf id ≠ some target := by
          rw [hhome]
          intro heq
          rw [Option.some.inj heq] at hleaves
          exact hleaves (hstays state.1)
        have hshape : SameShape (state.1.relocateEntry id target) (state.1.placed env.now id target) :=
          sameShape_editEntry id _ fun _ _ => rfl
        have hhomes : ∀ e, (state.1.placed env.now id target).homeOf e =
            if e = id then some target else state.1.homeOf e := by
          intro e
          rw [hshape.entries, homeOf_relocateEntry hid]
        constructor
        · intro e
          rw [hhomes]
          split
          · exact Or.inr rfl
          · exact h.homes e
        · intro _
          refine ⟨id, fun hdb => hne ?_, homeOf_placed hid⟩
          rcases h.homes id with hsame | htarget
          · exact hsame.trans hdb
          · exact htarget
      · cases hround

theorem Arrived.loop {target : GroupId} {stays : Database V → GroupId → Bool} {ids : List EntryId}
    {result : Database V × Bool}
    (h : ids.foldlM (moveRound lib env target stays) (db, false) = .ok result)
    (hstays : ∀ db, stays db target = true) : Arrived db target result := by
  apply Loop.foldlM_invariant (Q := fun _ => True) (P := Arrived db target) (fun _ _ _ _ h => h) ?_ h trivial
  · exact ⟨fun _ => Or.inl rfl, nofun⟩
  · exact fun _ _ _ _ _ hs hround => hs.round lib env hstays hround

/-- The first entry is removed, and no round brings it back. -/
theorem removed_ne {texts : List String} {ids : List EntryId} (hne : ¬ texts.isEmpty)
    (hids : texts.mapM db.findEntryId = .ok ids) (h : ids.foldlM (removeRound lib env) db = .ok out) :
    out ≠ db := by
  rintro rfl
  cases texts with
  | nil => exact hne rfl
  | cons text rest =>
    obtain ⟨first, later, hfirst, -, rfl⟩ := Batch.mapM_cons_ok.mp hids
    obtain ⟨next, hnext, hrest⟩ := Loop.foldlM_cons_ok.mp h
    unfold removeRound at hnext
    split at hnext
    · case isTrue hmem =>
      cases hnext
      have hgone := Loop.foldlM_invariant (Q := fun _ => True)
        (P := fun db : Database V => first ∉ db.entries) (fun _ _ _ _ h => h) ?_ hrest trivial
        (not_mem_trackRemove lib env hmem)
      · exact hgone hmem
      · intro id _ s t _ hs hround
        unfold removeRound at hround
        split at hround
        · case isTrue hid =>
          cases hround
          obtain ⟨table, heq⟩ := lib.removeEntry_eq s id hid
          unfold Editing.trackRemove
          rw [heq]
          exact fun hfound => hs (Std.ExtTreeMap.mem_erase.mp hfound).2
        · cases hround
    · cases hnext

end Bin

/-! ## Out of the bin -/

/-- The children after these have been moved to the end, one after the other. -/
def toEnd {α : Type} [DecidableEq α] (ids children : List α) : List α :=
  ids.foldl (fun children id => children.filter (· ≠ id) ++ [id]) children

/-- The entries are restored to where they are: the root is in the bin, they are the last entries
directly below it, came from there, and were moved at the time of the call. -/
structure RestoresInPlace (db : Database V) (now : Time) (ids : List EntryId) : Prop where
  nonempty : ids ≠ []
  bin : ∃ recycle, recycleBinId db = some recycle ∧ groupIsInRecycleBin db db.root recycle = true
  below : ∀ id ∈ ids, ∃ entry, db.entries[id]? = some entry ∧ entry.parent = db.root ∧
    entry.previousParent = some db.root ∧ entry.times.locationChanged = some now
  last : toEnd ids (db.childEntries db.root) = db.childEntries db.root

/-- The group is restored to where it is. -/
structure GroupRestoresInPlace (db : Database V) (now : Time) (id : GroupId) : Prop where
  bin : ∃ recycle, recycleBinId db = some recycle ∧ id ≠ recycle ∧
    groupIsInRecycleBin db db.root recycle = true
  below : ∃ group, db.groups[id]? = some group ∧ group.parent = some db.root ∧
    group.previousParent = some db.root ∧ group.times.locationChanged = some now
  last : toEnd [id] (db.childGroups db.root) = db.childGroups db.root

section Restore
variable (lib : Editing V) (env : Ambient) (doc : KdbxDocument V)

/-- The entry is in its destination and was moved there at `now`, from where it was in `db` or from
there. -/
def PutDown (db : Database V) (destination : EntryId → GroupId) (now : Time) (s : Database V)
    (id : EntryId) : Prop :=
  ∃ entry, s.entries[id]? = some entry ∧ entry.parent = destination id ∧
    entry.times.locationChanged = some now ∧
    (entry.previousParent = db.homeOf id ∨ entry.previousParent = some (destination id))

variable {lib env}

theorem getElem?_placed {now : Time} {id : EntryId} {target : GroupId} {entry : Entry V}
    (h : db.entries[id]? = some entry) : (db.placed now id target).entries[id]? =
      some (Entry.stamped now { entry with parent := target, previousParent := some entry.parent }) := by
  rw [Database.placed, getElem?_editEntry, if_pos rfl, getElem?_relocateEntry, if_pos rfl, h]
  rfl

theorem putDown_relocated {destination : EntryId → GroupId} {s t : Database V} {id : EntryId}
    (hs : s.entries[id]? = db.entries[id]? ∨ PutDown db destination env.now s id)
    (h : relocated lib env s id (destination id) = .ok t) : PutDown db destination env.now t id := by
  obtain ⟨hid, -, rfl⟩ := relocated_ok h
  obtain ⟨entry, hentry⟩ := mem_iff_exists.mp hid
  refine ⟨_, getElem?_placed hentry, rfl, rfl, ?_⟩
  rcases hs with hsame | ⟨old, hold, hparent, -⟩
  · left
    rw [Database.homeOf, ← hsame, hentry]
    rfl
  · right
    obtain rfl := Option.some.inj (hentry.symm.trans hold)
    exact congrArg some hparent

theorem putDown_all {destination : EntryId → GroupId} {items : List (EntryId × GroupId)} {s : Database V}
    (hitems : ∀ item ∈ items, item.2 = destination item.1)
    (hs : ∀ id, s.entries[id]? = db.entries[id]? ∨ PutDown db destination env.now s id)
    (h : items.foldlM (fun candidate item => relocated lib env candidate item.1 item.2) s = .ok out) :
    (∀ id, PutDown db destination env.now s id → PutDown db destination env.now out id) ∧
      ∀ item ∈ items, PutDown db destination env.now out item.1 := by
  induction items generalizing s with
  | nil =>
    cases h
    exact ⟨fun _ h => h, nofun⟩
  | cons item items ih =>
    obtain ⟨t, ht, hrest⟩ := Loop.foldlM_cons_ok.mp h
    rw [hitems item List.mem_cons_self] at ht
    have hput := putDown_relocated (hs item.1) ht
    have hothers : ∀ id, id ≠ item.1 → t.entries[id]? = s.entries[id]? := by
      obtain ⟨-, -, rfl⟩ := relocated_ok ht
      exact fun id hne => entries_placed hne
    have hkeep : ∀ id, PutDown db destination env.now s id → PutDown db destination env.now t id := by
      intro id hid
      by_cases heq : id = item.1
      · exact heq ▸ hput
      · obtain ⟨entry, hentry, hrest⟩ := hid
        exact ⟨entry, (hothers id heq).trans hentry, hrest⟩
    have ht' : ∀ id, t.entries[id]? = db.entries[id]? ∨ PutDown db destination env.now t id := by
      intro id
      by_cases heq : id = item.1
      · exact Or.inr (heq ▸ hput)
      · exact (hs id).imp (hothers id heq).trans (hkeep id)
    obtain ⟨hlater, hall⟩ := ih (fun other hother => hitems other (List.mem_cons_of_mem _ hother)) ht' hrest
    refine ⟨fun id hid => hlater id (hkeep id hid), ?_⟩
    intro other hother
    rcases List.mem_cons.mp hother with rfl | hother
    · exact hlater other.1 hput
    · exact hall other hother

/-- Moves from a group to itself reorder its entries. -/
theorem childEntries_relocated {items : List (EntryId × GroupId)} {r : GroupId} {s : Database V}
    (hitems : ∀ item ∈ items, item.2 = r ∧ s.homeOf item.1 = some r)
    (h : items.foldlM (fun candidate item => relocated lib env candidate item.1 item.2) s = .ok out) :
    out.childEntries r = toEnd (items.map (·.1)) (s.childEntries r) := by
  induction items generalizing s with
  | nil =>
    cases h
    rfl
  | cons item items ih =>
    obtain ⟨t, ht, hrest⟩ := Loop.foldlM_cons_ok.mp h
    obtain ⟨htarget, hhome⟩ := hitems item List.mem_cons_self
    rw [htarget] at ht
    obtain ⟨hid, hr, rfl⟩ := relocated_ok ht
    have hshape : SameShape (s.relocateEntry item.1 r) (s.placed env.now item.1 r) :=
      sameShape_editEntry item.1 _ fun _ _ => rfl
    rw [ih ?_ hrest, hshape.childEntries, childEntries_relocateEntry hr, hhome, moveChild_within]
    · rfl
    · intro other hother
      obtain ⟨hsame, hthere⟩ := hitems other (List.mem_cons_of_mem _ hother)
      refine ⟨hsame, ?_⟩
      rw [hshape.entries, homeOf_relocateEntry hid]
      split
      · rfl
      · exact hthere

theorem restorable_ok {recycle : GroupId} {id : EntryId} {item : EntryId × GroupId}
    (h : restorable lib db recycle id = .ok item) : item.1 = id ∧ ∃ entry, db.entries[id]? = some entry ∧
      groupIsInRecycleBin db entry.parent recycle = true ∧ item.2 = entryDestination lib db recycle entry := by
  unfold restorable at h
  split at h
  · cases h
  · case h_2 entry hentry =>
    split at h
    · cases h
    · case isFalse hin =>
      cases h
      exact ⟨rfl, entry, hentry, not_not.mp hin, rfl⟩

theorem restorable_all {recycle : GroupId} {ids : List EntryId} {items : List (EntryId × GroupId)}
    (h : ids.mapM (restorable lib db recycle) = .ok items) : items.map (·.1) = ids ∧
      ∀ item ∈ items, ∃ entry, db.entries[item.1]? = some entry ∧
        groupIsInRecycleBin db entry.parent recycle = true ∧
        item.2 = entryDestination lib db recycle entry := by
  induction ids generalizing items with
  | nil =>
    cases h
    exact ⟨rfl, nofun⟩
  | cons id ids ih =>
    obtain ⟨item, later, hitem, hlater, rfl⟩ := Batch.mapM_cons_ok.mp h
    obtain ⟨hid, entry, hentry, hin, hdestination⟩ := restorable_ok hitem
    obtain ⟨hids, hall⟩ := ih hlater
    refine ⟨by rw [List.map_cons, hid, hids], ?_⟩
    intro other hother
    rcases List.mem_cons.mp hother with rfl | hother
    · exact ⟨entry, hid ▸ hentry, hin, hdestination⟩
    · exact hall other hother

/-- A restore that changes nothing has restored the entries to where they are. -/
theorem restoresInPlace_of_unchanged {recycle : GroupId} (hbin : recycleBinId db = some recycle)
    {ids : List EntryId} {items : List (EntryId × GroupId)} (hne : ids ≠ [])
    (hitems : ids.mapM (restorable lib db recycle) = .ok items)
    (h : items.foldlM (fun candidate item => relocated lib env candidate item.1 item.2) db = .ok db) :
    RestoresInPlace db env.now ids := by
  obtain ⟨hids, hall⟩ := restorable_all hitems
  let destination (id : EntryId) : GroupId :=
    (db.entries[id]?.map (entryDestination lib db recycle)).getD db.root
  have hdestination : ∀ item ∈ items, item.2 = destination item.1 := by
    intro item hitem
    obtain ⟨entry, hentry, -, hto⟩ := hall item hitem
    simp only [destination, hentry, hto]
    rfl
  obtain ⟨-, hput⟩ := putDown_all hdestination (fun id => Or.inl rfl) h
  -- An entry that is put down where it was is in the bin, so its destination is the root.
  have hroot : ∀ item ∈ items, item.2 = db.root ∧ groupIsInRecycleBin db db.root recycle = true ∧
      ∃ entry, db.entries[item.1]? = some entry ∧ entry.parent = db.root ∧
        entry.previousParent = some db.root ∧ entry.times.locationChanged = some env.now := by
    intro item hitem
    obtain ⟨entry, hentry, hin, hto⟩ := hall item hitem
    obtain ⟨found, hfound, hparent, htime, hprevious⟩ := hput item hitem
    obtain rfl := Option.some.inj (hentry.symm.trans hfound)
    rw [← hdestination item hitem] at hparent hprevious
    have hto_root : item.2 = db.root := by
      rcases entryDestination_cases lib db recycle entry with hroot | hout
      · exact hto.trans hroot
      · rw [← hto, ← hparent, hin] at hout
        cases hout
    rw [hto_root] at hparent hprevious
    refine ⟨hto_root, hparent ▸ hin, entry, hentry, hparent, ?_, htime⟩
    rcases hprevious with hhome | hroot
    · rw [hhome, Database.homeOf, hentry, Option.map_some, hparent]
    · exact hroot
  have hlast : toEnd ids (db.childEntries db.root) = db.childEntries db.root := by
    rw [← hids]
    refine (childEntries_relocated (fun item hitem => ?_) h).symm
    obtain ⟨hto, -, entry, hentry, hparent, -⟩ := hroot item hitem
    exact ⟨hto, homeOf_eq_some.mpr ⟨entry, hentry, hparent⟩⟩
  have hlisted : ∀ id ∈ ids, ∃ item ∈ items, item.1 = id := by
    intro id hid
    rw [← hids] at hid
    exact List.mem_map.mp hid
  refine ⟨hne, ?_, ?_, hlast⟩
  · obtain ⟨id, hid⟩ := List.exists_mem_of_ne_nil ids hne
    obtain ⟨item, hitem, -⟩ := hlisted id hid
    exact ⟨recycle, hbin, (hroot item hitem).2.1⟩
  · intro id hid
    obtain ⟨item, hitem, rfl⟩ := hlisted id hid
    exact (hroot item hitem).2.2

theorem groupRestoresInPlace_of_unchanged {recycle id : GroupId} {group : Group V}
    (hbin : recycleBinId db = some recycle) (hne : id ≠ recycle)
    (hin : groupIsInRecycleBin db id recycle = true) (hgroup : db.groups[id]? = some group)
    (h : relocatedGroup lib env db id (groupDestination lib db recycle group) = .ok db) :
    GroupRestoresInPlace db env.now id := by
  generalize hto : groupDestination lib db recycle group = target at h
  obtain ⟨hid, htarget, hsame⟩ := relocatedGroup_ok h
  have hparent : db.parentOf id = some target := by
    rw [hsame, parentOf_placedGroup hid, if_pos rfl]
  have hafter := congrArg (fun db : Database V => db.groups[id]?) hsame
  rw [Database.placedGroup, getElem?_editGroup, if_pos rfl, getElem?_relocateGroup, hgroup] at hafter
  have hplaced := Option.some.inj hafter
  -- The parent is in the bin, so the destination is the root.
  have hparentIn : groupIsInRecycleBin db target recycle = true := by
    rcases Forest.above_iff.mp (groupIsInRecycleBin_iff.mp hin) with heq | ⟨parent, hp, habove⟩
    · exact absurd heq.symm hne
    · obtain rfl := Option.some.inj (hparent.symm.trans hp)
      exact groupIsInRecycleBin_iff.mpr habove
  obtain rfl : target = db.root := by
    rcases groupDestination_cases lib db recycle group with hroot | hout
    · exact hto.symm.trans hroot
    · rw [hto, hparentIn] at hout
      cases hout
  have hchildren := (sameShape_placedGroup db (Times.located env.now) id db.root).childGroups db.root
  rw [← hsame, childGroups_relocateGroup htarget, hparent, moveChild_within] at hchildren
  dsimp only at hplaced
  rw [if_pos rfl] at hplaced
  refine ⟨⟨recycle, hbin, hne, hparentIn⟩, ⟨group, hgroup, ?_, ?_, ?_⟩, hchildren.symm⟩
  · exact congrArg Group.parent hplaced
  · exact (congrArg Group.previousParent hplaced).trans hparent
  · exact (congrArg (·.times.locationChanged) hplaced).trans rfl

end Restore

/-! ## Settings -/

theorem databaseMetadata_update (env : Ambient) (current : Database V) (next : DatabaseMetadata) :
    databaseMetadata { current with
      metadata := current.metadata.update env (databaseMetadata current) next } = next := by
  have hoptional : ∀ value : String, (optionalString value).getD "" = value := by
    intro value
    unfold optionalString
    split
    · case isTrue hempty => exact (String.isEmpty_iff.mp hempty).symm
    · rfl
  obtain ⟨name, description, username⟩ := next
  unfold databaseMetadata Meta.update
  simp only [DatabaseMetadata.mk.injEq]
  refine ⟨?_, ?_, ?_⟩ <;> split_ifs <;> simp_all

/-! ## All mutations -/

/-- What a call has to meet to happen or not. -/
def Mutation.Proper (lib : Editing V) (env : Ambient) (doc : KdbxDocument V) : Mutation → Prop
  | .createEntry _ _ | .createEntryWithNotes _ _ _ | .duplicateEntry _ =>
    (⟨env.uuid⟩ : EntryId) ∉ doc.database.entries
  | .createGroup _ _ => (⟨env.uuid⟩ : GroupId) ∉ doc.database.groups
  | .restoreEntryHistory id historyIndex expectedDocumentRevision =>
    ∀ current, ¬ RestoresItself lib env doc id historyIndex expectedDocumentRevision current
  | .restoreEntry id => ∀ entryId, doc.database.findEntryId id = .ok entryId →
    ¬ RestoresInPlace doc.database env.now [entryId]
  | .restoreEntries entries => ∀ ids, entries.mapM doc.database.findEntryId = .ok ids →
    ¬ RestoresInPlace doc.database env.now ids
  | .restoreGroup id => ∀ groupId, doc.database.findGroupId id = .ok groupId →
    ¬ GroupRestoresInPlace doc.database env.now groupId
  | _ => True

section All
variable {lib : Editing V} {env : Ambient} {doc : KdbxDocument V}

/-- What a proper call commits is another database. -/
theorem Effect.differs {mutation : Mutation} (h : Effect lib env doc mutation out)
    (hproper : mutation.Proper lib env doc) : out ≠ doc.database := by
  cases h with
  | tracked _ text id entry data _ _ _ h _ hnew hdone =>
    rintro rfl
    apply hnew
    rw [← h.unchanged.1]
    exact hdone
  | restoreEntryHistory text historyIndex id entry source _ hid hsource hshape hicon h _ =>
    rintro rfl
    exact hproper entry (restoresItself_of_unchanged hid hsource hshape hicon h)
  | createEntry text input group _ =>
    unfold Editing.created Editing.addEntry
    rw [editEntry_insertEntry]
    exact insertEntry_ne hproper
  | createEntryWithNotes text input notes group _ =>
    unfold Editing.created Editing.addEntry
    rw [editEntry_insertEntry]
    exact insertEntry_ne hproper
  | duplicateEntry text source _ _ => exact copied_ne lib env hproper
  | permanentlyDeleteEntry text id hid =>
    have hmem := mem_of_findEntryId hid
    exact fun hsame => not_mem_trackRemove lib env hmem (by rw [hsame]; exact hmem)
  | permanentlyDeleteRecycledEntry text id hid =>
    have hmem := mem_of_findEntryId hid
    exact fun hsame => not_mem_trackRemove lib env hmem (by rw [hsame]; exact hmem)
  | moveEntry text destination id target entry _ hentry hne h =>
    obtain ⟨hid, -, rfl⟩ := relocated_ok h
    apply placed_ne hid
    intro hhome
    obtain ⟨found, hfound, hparent⟩ := homeOf_eq_some.mp hhome
    obtain rfl := Option.some.inj (hentry.symm.trans hfound)
    exact hne hparent
  | trashEntry text id made recycle entry _ hmade hentry hout h =>
    obtain ⟨hid, -, rfl⟩ := relocated_ok h
    -- The entry is in the bin now, and was not in it.
    intro hsame
    apply hout
    have hhome : doc.database.homeOf id = some recycle := by
      rw [← hsame]
      exact homeOf_placed hid
    obtain ⟨found, hfound, hparent⟩ := homeOf_eq_some.mp hhome
    rw [ensureRecycleBin_entries hmade, hfound] at hentry
    rw [← Option.some.inj hentry, hparent]
    exact groupIsInRecycleBin_self made recycle
  | restoreEntry text id recycle entry _ hid hbin hentry hin h =>
    rintro rfl
    have hitem : restorable lib doc.database recycle id =
        .ok (id, entryDestination lib doc.database recycle entry) := by
      unfold restorable
      rw [hentry]
      exact if_neg (not_not.mpr hin)
    refine hproper id hid (restoresInPlace_of_unchanged hbin (List.cons_ne_nil _ _)
      (Batch.mapM_cons_ok.mpr ⟨_, [], hitem, rfl, rfl⟩) ?_)
    exact Loop.foldlM_cons_ok.mpr ⟨doc.database, h, rfl⟩
  | moveEntries texts destination ids target _ h =>
    rintro rfl
    obtain ⟨e, hne, htarget⟩ := (Arrived.loop lib env h fun _ => decide_eq_true rfl).moved rfl
    exact hne htarget
  | trashEntries texts ids made recycle _ hmade h =>
    rintro rfl
    obtain ⟨e, hne, htarget⟩ :=
      (Arrived.loop lib env h fun db => groupIsInRecycleBin_self db recycle).moved rfl
    rw [Database.homeOf, ← ensureRecycleBin_entries hmade] at htarget
    exact hne htarget
  | restoreEntries texts ids recycle destinations _ hne hids hbin hdestinations h =>
    rintro rfl
    refine hproper ids hids (restoresInPlace_of_unchanged hbin ?_ hdestinations h)
    cases texts with
    | nil => exact absurd rfl hne
    | cons text rest =>
      obtain ⟨first, later, -, -, rfl⟩ := Batch.mapM_cons_ok.mp hids
      exact List.cons_ne_nil first later
  | permanentlyDeleteRecycledEntries texts ids _ hne hids h => exact removed_ne lib env hne hids h
  | createGroup text name parent _ =>
    unfold Editing.createdGroup Editing.addGroup
    rw [editGroup_insertGroup]
    exact insertGroup_ne hproper
  | renameGroup text name id group hgroup hne =>
    intro hsame
    have hget := congrArg (fun db : Database V => db.groups[id]?) hsame
    rw [getElem?_editGroup, if_pos rfl, hgroup] at hget
    exact hne (congrArg Group.name (Option.some.inj hget)).symm
  | moveGroup text destination id target _ hid hparent h =>
    obtain ⟨moved, hmoved, rfl⟩ := Option.map_eq_some_iff.mp h
    rw [lib.moveGroupTo_eq doc.database id target moved hid hmoved]
    exact placedGroup_ne (lib.touchMoved env.now) hid hparent
  | permanentlyDeleteGroup text id subtree cleared _ h => exact h.ne
  | permanentlyDeleteRecycledGroup text id subtree cleared _ h => exact h.ne
  | trashGroup text id made recycle _ hmade hout h =>
    obtain ⟨hid, -, rfl⟩ := relocatedGroup_ok h
    intro hsame
    apply hout
    right
    have hparent : doc.database.parentOf id = some recycle := by
      rw [← hsame, parentOf_placedGroup hid, if_pos rfl]
    apply groupIsInRecycleBin_child _ (groupIsInRecycleBin_self made recycle)
    rw [parentOf_ensureRecycleBin lib env hmade fun heq => hout (Or.inl heq)]
    exact hparent
  | restoreGroup text id recycle group _ hid hbin hin hgroup h =>
    rintro rfl
    rw [not_or, not_not] at hin
    exact hproper id hid (groupRestoresInPlace_of_unchanged hbin hin.1 hin.2 hgroup h)
  | setHistoryMaxItems maxItems hne =>
    intro hsame
    apply hne
    rw [← hsame]
    have hmetadata := congrArg Database.metadata (pruneAllEntryHistory_spec { doc.database with
      metadata := { doc.database.metadata with
        historyMaxItems := maxItems.map Int.ofNat
        settingsChanged := some env.now } }).1
    unfold finiteHistoryLimit
    rw [hmetadata]
    cases maxItems <;> simp
  | setRecycleBinEnabled enabled hne =>
    intro hsame
    apply hne
    rw [← hsame]
    rfl
  | updateDatabaseMetadata next hne =>
    intro hsame
    apply hne
    rw [← databaseMetadata_update env doc.database next]
    exact congrArg databaseMetadata hsame.symm

/-- Where the icons are there, every mutation commits its effect. -/
theorem Mutation.commits_of_icons (lib : Editing V) (env : Ambient) (mutation : Mutation)
    (hicons : doc.database.NamesIcons) :
    (mutation.body lib env).Yields doc (mutation.Commits lib env doc) := by
  by_cases h : ∃ id, mutation = .duplicateEntry id
  · obtain ⟨id, rfl⟩ := h
    apply commits_quiet
    apply (duplicateEntry_outcome lib env doc id).weaken
    rintro r out (hcommits | ⟨source, hdangling, -⟩)
    · exact hcommits
    · exact absurd hdangling hicons.not_dangling
  · exact mutation.commits lib env doc fun id hid => h ⟨id, hid⟩

end All

/-! ## Revisions -/

/-- `out` is no earlier than `doc`. -/
structure KdbxDocument.NotBefore (doc out : KdbxDocument V) : Prop where
  revision : doc.revision ≤ out.revision
  dirty : doc.revisionPermanentlyDirty = true → out.revisionPermanentlyDirty = true

namespace KdbxDocument.NotBefore
variable {doc mid out : KdbxDocument V}

theorem refl (doc : KdbxDocument V) : NotBefore doc doc := ⟨le_refl _, id⟩

theorem trans (h : NotBefore doc mid) (h' : NotBefore mid out) : NotBefore doc out :=
  ⟨h.revision.trans h'.revision, h'.dirty ∘ h.dirty⟩

/-- A change shows against every revision seen so far, and goes on doing so. -/
theorem hasChangesSince {db : Database V} (h : NotBefore doc mid)
    (hlater : NotBefore (mid.withDatabase db).markChanged out) :
    out.hasChangesSince doc.revision = true := by
  unfold KdbxDocument.markChanged at hlater
  unfold KdbxDocument.hasChangesSince
  rw [Bool.or_eq_true, bne_iff_ne]
  split at hlater
  · -- The revision cannot advance any more.
    exact Or.inl (hlater.dirty rfl)
  · right
    have hadvanced : mid.revision + 1 ≤ out.revision := hlater.revision
    have hseen := h.revision
    omega

theorem markChanged (doc : KdbxDocument V) (db : Database V) :
    NotBefore doc (doc.withDatabase db).markChanged := by
  unfold KdbxDocument.markChanged
  split
  · exact ⟨le_refl _, fun _ => rfl⟩
  · exact ⟨Nat.le_succ _, id⟩

theorem of_commits {α : Type} {Idle : Prop} {P : Database V → Prop} {r : Except EditError α}
    (h : Commits Idle P doc r out) : NotBefore doc out := by
  cases h with
  | refused e => exact refl doc
  | kept a _ => exact refl doc
  | changed a db _ => exact markChanged doc db

end KdbxDocument.NotBefore

section Runs
variable (lib : Editing V)

/-- No call takes the revision back, whatever becomes of it. -/
theorem perform_notBefore (call : MutationCall) (doc : KdbxDocument V)
    (hicons : doc.database.NamesIcons) : doc.NotBefore (call.perform lib doc).2 :=
  KdbxDocument.NotBefore.of_commits (call.mutation.commits_of_icons lib call.env hicons)

theorem performAll_notBefore (doc : KdbxDocument V) (calls : List MutationCall)
    (hicons : doc.database.NamesIcons) : doc.NotBefore (performAll lib doc calls) := by
  induction calls generalizing doc with
  | nil => exact .refl doc
  | cons call calls ih =>
    refine (perform_notBefore lib call doc hicons).trans (ih _ ?_)
    exact performAll_namesIcons lib doc [call] hicons

theorem performAll_append (doc : KdbxDocument V) (run later : List MutationCall) :
    performAll lib doc (run ++ later) = performAll lib (performAll lib doc run) later :=
  List.foldl_append

/-- What becomes of `call` after `run`, with `later` to come. -/
inductive Atomic (doc : KdbxDocument V) (run : List MutationCall) (call : MutationCall)
    (later : List MutationCall) : Prop
  | refused (e : EditError) (h : call.perform lib (performAll lib doc run) =
      (.error e, performAll lib doc run))
  | kept (h : call.perform lib (performAll lib doc run) = (.ok ⟨⟩, performAll lib doc run))
  | changed (hok : (call.perform lib (performAll lib doc run)).1 = .ok ⟨⟩)
      (hchanged : (call.perform lib (performAll lib doc run)).2.database ≠
        (performAll lib doc run).database)
      (hseen : ∀ earlier, earlier <+: run → ∀ more, more <+: later →
        (performAll lib doc (run ++ call :: more)).hasChangesSince
          (performAll lib doc earlier).revision = true)

/-- A call that is `Proper` where it is made happens or does not. What it changed shows against every
revision seen before it, then and after all later calls. -/
theorem mutations_atomic (doc : KdbxDocument V) (hicons : doc.database.NamesIcons)
    (run : List MutationCall) (call : MutationCall) (later : List MutationCall)
    (h : call.mutation.Proper lib call.env (performAll lib doc run)) :
    Atomic lib doc run call later := by
  have hcommits := call.mutation.commits_of_icons lib call.env
    (performAll_namesIcons lib doc run hicons)
  change call.mutation.Commits lib call.env (performAll lib doc run)
    (call.perform lib (performAll lib doc run)).1 (call.perform lib (performAll lib doc run)).2
    at hcommits
  generalize hresult : call.perform lib (performAll lib doc run) = result at hcommits
  obtain ⟨r, after⟩ := result
  cases hcommits with
  | refused e => exact .refused e hresult
  | kept a _ => exact .kept hresult
  | changed a db heffect =>
    refine .changed (congrArg Prod.fst hresult) ?_ ?_
    · rw [hresult]
      exact fun hsame => heffect.differs h ((markChanged_withDatabase _ db).symm.trans hsame)
    · rintro earlier ⟨rest, rfl⟩ more -
      have hearlier := performAll_namesIcons lib doc earlier hicons
      have hbefore := performAll_notBefore lib (performAll lib doc earlier) rest hearlier
      rw [← performAll_append] at hbefore
      have hafter : performAll lib doc (earlier ++ rest ++ call :: more) =
          performAll lib (call.perform lib (performAll lib doc (earlier ++ rest))).2 more :=
        performAll_append lib doc _ _
      have hnext := performAll_namesIcons lib doc (earlier ++ rest ++ [call]) hicons
      rw [performAll_append] at hnext
      change (call.perform lib (performAll lib doc (earlier ++ rest))).2.database.NamesIcons at hnext
      rw [hresult] at hafter hnext
      rw [hafter]
      exact hbefore.hasChangesSince (performAll_notBefore lib _ more hnext)

end Runs

/-! ## Restoring a copy of what is there -/

/-- The entry of `smallVault` with the icon of the vault. -/
def iconed : KdbxDocument Unit :=
  document (smallVault.editEntry ⟨10⟩ fun entry => { entry with icon := some (.custom ⟨20⟩) })

theorem iconed_namesIcons : iconed.database.NamesIcons := by
  intro id entry hentry i hi
  change (smallVault.editEntry ⟨10⟩ _).entries[id]? = some entry at hentry
  rw [getElem?_editEntry] at hentry
  split at hentry
  · obtain ⟨old, -, rfl⟩ := Option.map_eq_some_iff.mp hentry
    cases hi
    decide +kernel
  · case isFalse hne =>
    simp [smallVault, mapOf, Std.ExtTreeMap.getElem?_insert] at hentry
    exact absurd hentry.1 hne

set_option maxRecDepth 100000 in
/-- A new title, and then a duplicate with an icon to copy. -/
theorem mutations_atomic_iconed :
    let titleTen : MutationCall := ⟨.setEntryTitle (Database.uuidText 10) "new", ⟨4, 29⟩⟩
    let duplicateTen : MutationCall := ⟨.duplicateEntry (Database.uuidText 10), ⟨5, 30⟩⟩
    Atomic Editing.reference iconed [titleTen] duplicateTen [titleTen] ∧
      (performAll Editing.reference iconed [titleTen, duplicateTen]).database.entries.size = 2 := by
  intro titleTen duplicateTen
  refine ⟨?_, by decide +kernel⟩
  apply mutations_atomic Editing.reference iconed iconed_namesIcons [titleTen] duplicateTen [titleTen]
  show (⟨30⟩ : EntryId) ∉ (performAll Editing.reference iconed [titleTen]).database.entries
  decide +kernel

/-- Restores the snapshot at `historyIndex`, all in one second. -/
def restoreTen (historyIndex revision : Nat) : MutationCall :=
  ⟨.restoreEntryHistory (Database.uuidText 10) historyIndex revision, ⟨5, 30⟩⟩

/-- The history of the entry is cut to two snapshots and filled with copies of the new title. -/
def copies : List MutationCall :=
  [⟨.setHistoryMaxItems (some 2), ⟨5, 28⟩⟩, ⟨.setEntryTitle (Database.uuidText 10) "new", ⟨5, 29⟩⟩,
   restoreTen 0 2, restoreTen 0 3, restoreTen 1 4, restoreTen 0 5]

set_option maxRecDepth 100000 in
/-- Restoring one copy more advances the revision and changes nothing. -/
theorem restore_changes_nothing :
    ¬ Atomic Editing.reference (document smallVault) copies (restoreTen 0 6) [] := by
  have hsame : ((restoreTen 0 6).perform Editing.reference
      (performAll Editing.reference (document smallVault) copies)).2.database =
      (performAll Editing.reference (document smallVault) copies).database := by decide +kernel
  have hadvanced : ((restoreTen 0 6).perform Editing.reference
      (performAll Editing.reference (document smallVault) copies)).2.revision ≠
      (performAll Editing.reference (document smallVault) copies).revision := by decide +kernel
  intro h
  cases h with
  | refused e h => exact hadvanced (congrArg (·.2.revision) h)
  | kept h => exact hadvanced (congrArg (·.2.revision) h)
  | changed _ hchanged _ => exact hchanged hsame

end NianPass.Kdbx
