import NianPass.Kdbx.Effects

/-
  Every effect is made of the changes of one call.

  `Mutation.edits` shows that no mutation does anything to the database but draw
  one identifier and make changes, whether it fails or not. The mutations that
  move nothing leave everything where it is (`Mutation.still_edits`).
-/
namespace NianPass.Kdbx

open Method

variable {V : Type}

section Pieces
variable (lib : Editing V) (env : Ambient)

/-! ## Entries -/

theorem setNewField_eq (data : EntryData V) (name value : String) (isProtected : Bool) :
    ∃ fields, data.setNewField name value isProtected = { data with fields := fields } := by
  unfold EntryData.setNewField
  split
  · exact ⟨data.fields, rfl⟩
  · exact ⟨_, rfl⟩

/-- A new entry gets fields and nothing else. -/
theorem fill_eq (input : NewEntry) (notes : Option String) (db : Database V) (data : EntryData V) :
    ∃ fields, input.fill lib notes db data = { data with fields := fields } := by
  unfold NewEntry.fill
  obtain ⟨first, hfirst⟩ := setNewField_eq data Fields.title input.title
    (missingFieldIsProtected lib db .databaseTitlePolicy)
  simp only [hfirst]
  obtain ⟨second, hsecond⟩ := setNewField_eq { data with fields := first } Fields.username
    input.username (missingFieldIsProtected lib db .databaseUsernamePolicy)
  simp only [hsecond]
  obtain ⟨third, hthird⟩ := setNewField_eq { data with fields := second } Fields.url
    input.url (missingFieldIsProtected lib db .databaseUrlPolicy)
  simp only [hthird]
  rcases input.password with _ | _ <;> rcases notes with _ | _ <;> exact ⟨_, rfl⟩

theorem draw_created {db : Database V} {group : GroupId} (hgroup : group ∈ db.groups)
    (input : NewEntry) (notes : Option String) :
    Draw env.uuid db (lib.created env db group input notes) := by
  obtain ⟨fields, hfill⟩ := fill_eq lib input notes db (lib.newEntry env.now group).toEntryData
  unfold Editing.created Editing.addEntry
  rw [editEntry_insertEntry, hfill]
  refine .entry group _ db.attachments hgroup (lib.newEntry_parent env.now group)
    (lib.newEntry_history env.now group) ?_
  intro i hi
  change (lib.newEntry env.now group).icon = _ at hi
  rw [lib.newEntry_icon] at hi
  cases hi

/-- Attachments added to a new entry are part of adding it. -/
theorem foldl_addAttachment (db : Database V) (parent : GroupId) (id : EntryId)
    (attachments : List (String × Value Bytes)) (entry : Entry V)
    (table : Map AttachmentId (Value Bytes)) :
    ∃ named table', attachments.foldl
      (fun db attachment => lib.addAttachment db id attachment.1 attachment.2)
      { db.insertEntry parent id entry with attachments := table } =
        { db.insertEntry parent id { entry with attachments := named } with
          attachments := table' } := by
  induction attachments generalizing entry table with
  | nil => exact ⟨entry.attachments, table, rfl⟩
  | cons attachment attachments ih =>
    obtain ⟨a, next, heq, -, -⟩ := lib.addAttachment_eq
      { db.insertEntry parent id entry with attachments := table } id attachment.1 attachment.2
    obtain ⟨named, table', hrest⟩ :=
      ih { entry with attachments := entry.attachments.insert attachment.1 a } next
    refine ⟨named, table', ?_⟩
    rw [List.foldl_cons, heq]
    rw [← editEntry_insertEntry entry fun entry =>
      { entry with attachments := entry.attachments.insert attachment.1 a }] at hrest
    exact hrest

/-- The new entry with its icon and its attachments is one draw. -/
theorem draw_copied {db : Database V} {source : Entry V} (hparent : source.parent ∈ db.groups)
    (hicon : HasIcon db source.icon) : Draw env.uuid db (lib.copied env db source) := by
  obtain ⟨named, table, heq⟩ := foldl_addAttachment lib db source.parent ⟨env.uuid⟩
    (db.attachmentsNamed source.toEntryData)
    { source.copyInto (lib.newEntry env.now source.parent) with icon := source.icon } db.attachments
  unfold Editing.copied
  change Draw env.uuid db ((db.attachmentsNamed source.toEntryData).foldl _
    { db.insertEntry source.parent ⟨env.uuid⟩ _ with attachments := db.attachments })
  rw [heq]
  exact .entry source.parent _ table hparent (lib.newEntry_parent env.now source.parent)
    (lib.newEntry_history env.now source.parent) hicon

/-- The new entry that is left behind without its icon is drawn as well. -/
theorem draw_duplicated {db : Database V} {source : Entry V} (hparent : source.parent ∈ db.groups) :
    Draw env.uuid db (lib.duplicated env db source) := by
  refine .entry source.parent _ db.attachments hparent (lib.newEntry_parent env.now source.parent)
    (lib.newEntry_history env.now source.parent) ?_
  intro i hi
  change (lib.newEntry env.now source.parent).icon = _ at hi
  rw [lib.newEntry_icon] at hi
  cases hi

theorem edits_trackRemove {db : Database V} {id : EntryId} (h : id ∈ db.entries) :
    Still db (lib.trackRemove env db id) := by
  obtain ⟨table, heq⟩ := lib.removeEntry_eq db id h
  unfold Editing.trackRemove
  rw [heq]
  exact .removeEntry id table _ h

theorem change_relocated {db out : Database V} {id : EntryId} {target : GroupId}
    (h : relocated lib env db id target = .ok out) : Change db out := by
  unfold relocated at h
  split at h
  · case isTrue hid =>
    split at h
    · case h_1 moved hmoved =>
      cases h
      have htarget : target ∈ db.groups := by
        rw [← lib.moveEntryTo_isSome db id target hid, hmoved]
        rfl
      rw [lib.moveEntryTo_eq db id target moved hid hmoved]
      exact .moveEntry id target (fun times => { times with locationChanged := some env.now }) hid
        htarget
    · cases h
  · cases h

/-! ## Groups -/

theorem draw_addGroup {db : Database V} {parent : GroupId}
    (hparent : parent ∈ db.groups ∨ parent = db.root) (name : String) :
    Draw env.uuid db (lib.createdGroup env db parent name) := by
  unfold Editing.createdGroup Editing.addGroup
  rw [editGroup_insertGroup]
  exact .group parent _ hparent (lib.newGroup_parent env.now parent)
    (lib.newGroup_groups env.now parent) (lib.newGroup_entries env.now parent)
    (lib.newGroup_icon env.now parent)

/-- A group that the library moves was moved, and its times were changed. -/
theorem changes_moveGroupTo {db out : Database V} {id target : GroupId} (hid : id ∈ db.groups)
    (h : lib.moveGroupTo db id target = some out) (times : Times → Times) :
    Relation.ReflTransGen Change db
      (out.editGroup id fun group => { group with times := times group.times }) := by
  obtain ⟨htarget, hroot, hcycle⟩ := (lib.moveGroupTo_isSome db id target hid).mp (by rw [h]; rfl)
  rw [lib.moveGroupTo_eq db id target out hid h]
  refine .tail (.single (.moveGroup id target hid htarget hroot hcycle)) (.still _ ?_)
  exact .editGroup id _ (fun _ => rfl) (fun _ => rfl) (fun _ => rfl) (fun _ => rfl)
    (fun _ => Or.inl rfl)

theorem changes_relocatedGroup {db out : Database V} {id target : GroupId}
    (h : relocatedGroup lib env db id target = .ok out) : Relation.ReflTransGen Change db out := by
  unfold relocatedGroup at h
  split at h
  · case isTrue hid =>
    split at h
    · case h_1 moved hmoved =>
      cases h
      exact changes_moveGroupTo lib hid hmoved
        (fun times => { times with locationChanged := some env.now })
    · cases h
  · cases h

theorem changes_clearIcons {db out : Database V} {groups : List GroupId}
    (h : clearIcons db groups = .ok out) : Relation.ReflTransGen Still db out := by
  unfold clearIcons at h
  induction groups generalizing db with
  | nil =>
    cases h
    exact .refl
  | cons id groups ih =>
    obtain ⟨next, hnext, hrest⟩ := Loop.foldlM_cons_ok.mp h
    split at hnext
    · cases hnext
      refine .trans (.single ?_) (ih hrest)
      exact .editGroup id _ (fun _ => rfl) (fun _ => rfl) (fun _ => rfl) (fun _ => rfl)
        (fun _ => Or.inr rfl)
    · cases hnext

theorem mem_foldl_insert {uuid : Uuid} {time : Option Time} (uuids : List Uuid)
    (deleted : Map Uuid (Option Time)) :
    uuid ∈ uuids.foldl (fun deleted uuid => deleted.insert uuid time) deleted ↔
      uuid ∈ deleted ∨ uuid ∈ uuids := by
  induction uuids generalizing deleted with
  | nil => simp
  | cons x uuids ih =>
    rw [List.foldl_cons, ih, Std.ExtTreeMap.mem_insert, Std.LawfulEqCmp.compare_eq_iff_eq,
      List.mem_cons, @eq_comm _ x uuid]
    tauto

theorem change_trackRemoveGroup {db out : Database V} {id : GroupId} (hid : id ∈ db.groups)
    (h : lib.trackRemoveGroup env db id = some out) : Still db out := by
  unfold Editing.trackRemoveGroup at h
  split at h
  · cases h
  · case isFalse hroot =>
    cases h
    have hspec := lib.removeGroup_spec db id hid hroot
    refine .removeGroup id _ _ hid hroot ⟨_, hspec⟩ ?_
    intro uuid
    rw [mem_foldl_insert, hspec.deletedObjects]

theorem RemovesGroup.changes {db cleared out : Database V} {text : String} {id : GroupId}
    {subtree : List GroupId} (h : RemovesGroup lib env db text id subtree cleared out) :
    Relation.ReflTransGen Still db out := by
  refine (changes_clearIcons h.icons).trans ?_
  refine .tail (.single (.settings (clearDeletedGroupMetadataReferences subtree cleared.metadata)
    rfl)) ?_
  exact change_trackRemoveGroup lib env h.mem h.removed

/-! ## The bin, and several entries at once -/

/-- The bin is there, or it is drawn and the metadata name it. -/
theorem edits_ensureRecycleBin {db : Database V} {made : Database V × GroupId}
    (h : ensureRecycleBin lib env db = .ok made) : EditsBy Still env.uuid db made.1 := by
  unfold ensureRecycleBin at h
  split at h
  · cases h
  · split at h
    · cases h
      exact ⟨db, Or.inl rfl, .refl⟩
    · cases h
      refine (edits_of_draw (draw_addGroup lib env (Or.inr rfl) recycleBinName)).then (.single ?_)
      exact .settings _ rfl

/-- A loop whose rounds are changes is a sequence of changes. -/
theorem changes_foldlM {R : Database V → Database V → Prop} {ι σ : Type} (view : σ → Database V)
    {round : σ → ι → Except EditError σ}
    (hround : ∀ s i t, round s i = .ok t → Relation.ReflTransGen R (view s) (view t))
    {items : List ι} {s t : σ} (h : items.foldlM round s = .ok t) :
    Relation.ReflTransGen R (view s) (view t) := by
  induction items generalizing s with
  | nil =>
    cases h
    exact .refl
  | cons item items ih =>
    obtain ⟨next, hnext, hrest⟩ := Loop.foldlM_cons_ok.mp h
    exact (hround s item next hnext).trans (ih hrest)

theorem changes_moveRound (target : GroupId) (stays : Database V → GroupId → Bool)
    (state : Database V × Bool) (id : EntryId) (out : Database V × Bool)
    (h : moveRound lib env target stays state id = .ok out) :
    Relation.ReflTransGen Change state.1 out.1 := by
  unfold moveRound at h
  split at h
  · cases h
  · split at h
    · cases h
      exact .refl
    · split at h
      · case h_1 moved hmoved =>
        cases h
        exact .single (change_relocated lib env hmoved)
      · cases h

theorem change_removeRound {db out : Database V} {id : EntryId}
    (h : removeRound lib env db id = .ok out) : Still db out := by
  unfold removeRound at h
  split at h
  · case isTrue hmem =>
    cases h
    exact edits_trackRemove lib env hmem
  · cases h

end Pieces

/-! ## All mutations -/

/-- The mutations that move entries or groups. -/
def Mutation.moves : Mutation → Bool
  | .moveEntry _ _ | .trashEntry _ | .restoreEntry _ | .moveEntries _ _ | .trashEntries _
  | .restoreEntries _ | .moveGroup _ _ | .trashGroup _ | .restoreGroup _ => true
  | _ => false

section All
variable {lib : Editing V} {env : Ambient} {doc : KdbxDocument V} {out : Database V}

/-- The mutations that move nothing leave everything where it is. -/
theorem Effect.still {mutation : Mutation} (h : Effect lib env doc mutation out)
    (hmoves : mutation.moves = false) : EditsBy Still env.uuid doc.database out := by
  cases h with
  | tracked _ text id entry data _ _ _ h hicons =>
    rcases hicons with hsame | ⟨icon, hnew⟩
    · exact edits_of_change (.tracked id entry data out h hsame)
    · exact edits_of_draw (.icon id entry data icon out h hnew)
  | restoreEntryHistory text historyIndex id entry source _ _ _ _ _ h hicons =>
    exact edits_of_change (.tracked id entry _ out h hicons)
  | createEntry text input group hid =>
    exact edits_of_draw (draw_created lib env (mem_of_findGroupId hid) input none)
  | createEntryWithNotes text input notes group hid =>
    exact edits_of_draw (draw_created lib env (mem_of_findGroupId hid) input notes)
  | duplicateEntry text source hparent hicon =>
    exact edits_of_draw (draw_copied lib env hparent hicon)
  | permanentlyDeleteEntry text id hid =>
    exact edits_of_change (edits_trackRemove lib env (mem_of_findEntryId hid))
  | permanentlyDeleteRecycledEntry text id hid =>
    exact edits_of_change (edits_trackRemove lib env (mem_of_findEntryId hid))
  | permanentlyDeleteRecycledEntries texts ids _ _ _ h =>
    exact ⟨_, Or.inl rfl, changes_foldlM id
      (fun s id t ht => .single (change_removeRound lib env ht)) h⟩
  | createGroup text name parent hid =>
    exact edits_of_draw (draw_addGroup lib env (Or.inl (mem_of_findGroupId hid)) name)
  | renameGroup text name id group _ _ =>
    exact edits_of_change (.editGroup id _ (fun _ => rfl) (fun _ => rfl) (fun _ => rfl)
      (fun _ => rfl) (fun _ => Or.inl rfl))
  | permanentlyDeleteGroup text id subtree cleared _ h => exact ⟨_, Or.inl rfl, h.changes lib env⟩
  | permanentlyDeleteRecycledGroup text id subtree cleared _ h =>
    exact ⟨_, Or.inl rfl, h.changes lib env⟩
  | setHistoryMaxItems maxItems _ => exact edits_of_change (.historyPolicy _)
  | setRecycleBinEnabled enabled _ => exact edits_of_change (.settings _ rfl)
  | updateDatabaseMetadata next _ =>
    apply edits_of_change
    refine .settings _ ?_
    unfold Meta.update
    dsimp only
    split_ifs <;> rfl
  | moveEntry | trashEntry | restoreEntry | moveEntries | trashEntries | restoreEntries | moveGroup
  | trashGroup | restoreGroup => cases hmoves

theorem Effect.edits {mutation : Mutation} (h : Effect lib env doc mutation out) :
    Edits env.uuid doc.database out := by
  cases hmoves : mutation.moves with
  | false => exact (h.still hmoves).edits
  | true =>
    cases h with
    | moveEntry text destination id target entry _ _ _ h =>
      exact edits_of_change (change_relocated lib env h)
    | trashEntry text id made recycle entry _ hmade _ _ h =>
      exact (edits_ensureRecycleBin lib env hmade).edits.then (.single (change_relocated lib env h))
    | restoreEntry text id recycle entry _ _ _ _ _ h =>
      exact edits_of_change (change_relocated lib env h)
    | moveEntries texts destination ids target _ h =>
      exact ⟨_, Or.inl rfl, changes_foldlM Prod.fst (changes_moveRound lib env _ _) h⟩
    | trashEntries texts ids made recycle _ hmade h =>
      exact (edits_ensureRecycleBin lib env hmade).edits.then
        (changes_foldlM Prod.fst (changes_moveRound lib env _ _) h)
    | restoreEntries texts ids recycle destinations _ _ _ _ _ h =>
      exact ⟨_, Or.inl rfl, changes_foldlM id
        (fun s item t ht => .single (change_relocated lib env ht)) h⟩
    | moveGroup text destination id target _ hid _ h =>
      obtain ⟨moved, hmoved, rfl⟩ := Option.map_eq_some_iff.mp h
      exact ⟨_, Or.inl rfl, changes_moveGroupTo lib hid hmoved (lib.touchMoved env.now)⟩
    | trashGroup text id made recycle _ hmade _ h =>
      exact (edits_ensureRecycleBin lib env hmade).edits.then (changes_relocatedGroup lib env h)
    | restoreGroup text id recycle group _ _ _ _ _ h =>
      exact ⟨_, Or.inl rfl, changes_relocatedGroup lib env h⟩
    | tracked _ text id entry data _ _ _ h hicons =>
      rcases hicons with hsame | ⟨icon, hnew⟩
      · exact edits_of_change (.still _ (.tracked id entry data out h hsame))
      · exact edits_of_draw (.icon id entry data icon out h hnew)
    | _ => cases hmoves

variable (lib env doc)

/-- What a mutation leaves, whether it fails or not: the document, its effect, or a new entry without
its icon. -/
theorem Mutation.outcome (mutation : Mutation) : (mutation.body lib env).Yields doc fun _ out =>
    out = doc ∨ (∃ db, Effect lib env doc mutation db ∧ out.database = db) ∨
      mutation.moves = false ∧ ∃ source : Entry V, source.parent ∈ doc.database.groups ∧
        out.database = lib.duplicated env doc.database source := by
  have hcommitted : ∀ {α : Type} (r : Except EditError α) (out : KdbxDocument V),
      mutation.Commits lib env doc r out →
      out = doc ∨ ∃ db, Effect lib env doc mutation db ∧ out.database = db := by
    intro α r out h
    cases h with
    | refused e => exact Or.inl rfl
    | kept a _ => exact Or.inl rfl
    | changed a db h => exact Or.inr ⟨db, h, markChanged_withDatabase doc db⟩
  by_cases h : ∃ id, mutation = .duplicateEntry id
  · obtain ⟨id, rfl⟩ := h
    apply yields_bind
    apply (duplicateEntry_outcome lib env doc id).weaken
    rintro r out (hcommits | ⟨source, ⟨-, hparent, -⟩, rfl, rfl⟩)
    · cases r with
      | error e => exact (hcommitted _ out hcommits).imp_right Or.inl
      | ok a => exact (hcommitted _ out hcommits).imp_right Or.inl
    · exact Or.inr (Or.inr ⟨rfl, source, hparent, rfl⟩)
  · apply (mutation.commits lib env doc fun id hid => h ⟨id, hid⟩).weaken
    exact fun r out hr => (hcommitted r out hr).imp_right Or.inl

/-- The mutations that do not move anything draw one identifier at most and leave everything where it
is, whether they fail or not. -/
theorem Mutation.still_edits {mutation : Mutation} (hmoves : mutation.moves = false) :
    (mutation.body lib env).Yields doc fun _ out =>
      EditsBy Still env.uuid doc.database out.database := by
  apply (mutation.outcome lib env doc).weaken
  rintro r out (rfl | ⟨db, heffect, rfl⟩ | ⟨-, source, hparent, hout⟩)
  · exact ⟨_, Or.inl rfl, .refl⟩
  · exact heffect.still hmoves
  · rw [hout]
    exact edits_of_draw (draw_duplicated lib env hparent)

/-- No mutation does anything to the database but draw one identifier and make changes, whether it
fails or not. -/
theorem Mutation.edits (mutation : Mutation) :
    (mutation.body lib env).Yields doc fun _ out => Edits env.uuid doc.database out.database := by
  apply (mutation.outcome lib env doc).weaken
  rintro r out (rfl | ⟨db, heffect, rfl⟩ | ⟨-, source, hparent, hout⟩)
  · exact ⟨_, Or.inl rfl, .refl⟩
  · exact heffect.edits
  · rw [hout]
    exact edits_of_draw (draw_duplicated lib env hparent)

end All

end NianPass.Kdbx
