import NianPass.Kdbx.GroupAdditions

/-
  `merge_entries`: what one round does to the candidate, and what the whole
  loop does.

  An entry is looked at through `entryView`: its data, and its attachments by
  name with their contents. A round for `id` leaves the view of every other
  entry alone and changes groups only in the entries they list (`EditsEntry`),
  although it may replace attachments in a table all entries share.
-/
namespace NianPass.Kdbx

variable {V : Type}

/-! ## Views of entries -/

/-- The attachments of the entry `id`, none when there is no such entry. -/
def attachmentsAt (db : Database V) (id : EntryId) : Map String (Value Bytes) :=
  match db.entries[id]? with
  | some entry => namedAttachments db entry.toEntryData
  | none => ∅

/-- An entry together with the attachments it names. -/
def entryView (db : Database V) (id : EntryId) : Option (Entry V × Map String (Value Bytes)) :=
  db.entries[id]?.map fun entry => (entry, attachmentsAt db id)

theorem attachmentsAt_of_getElem? {db : Database V} {id : EntryId} {entry : Entry V}
    (h : db.entries[id]? = some entry) :
    attachmentsAt db id = namedAttachments db entry.toEntryData := by
  simp [attachmentsAt, h]

theorem getElem?_namedAttachments {db : Database V} {entry : EntryData V} (name : String) :
    (namedAttachments db entry)[name]? =
      entry.attachments[name]?.bind fun a => db.attachments[a]? := by
  simp [namedAttachments]

/-- The contents depend on the attachment table only where the entry points into it. -/
theorem namedAttachments_congr {db out : Database V} {entry : EntryData V}
    (h : ∀ (name : String) a, entry.attachments[name]? = some a →
      out.attachments[a]? = db.attachments[a]?) :
    namedAttachments out entry = namedAttachments db entry := by
  ext name : 1
  rw [getElem?_namedAttachments, getElem?_namedAttachments]
  cases ha : entry.attachments[name]? with
  | none => rfl
  | some a => exact h name a ha

theorem refers_of_entry {db : Database V} {id : EntryId} {entry : Entry V} {a : AttachmentId}
    (h : db.entries[id]? = some entry) {name : String}
    (ha : entry.attachments[name]? = some a) : db.Refers a :=
  ⟨id, entry, h, Or.inl ⟨name, ha⟩⟩

/-- An entry that is the same, in a table that keeps what it points to, looks the same. -/
theorem entryView_congr {db out : Database V} {id : EntryId}
    (hentry : out.entries[id]? = db.entries[id]?)
    (htable : ∀ entry (name : String) a, db.entries[id]? = some entry →
      entry.attachments[name]? = some a → out.attachments[a]? = db.attachments[a]?) :
    entryView out id = entryView db id := by
  unfold entryView attachmentsAt
  rw [hentry]
  cases h : db.entries[id]? with
  | none => rfl
  | some entry =>
    simp only [Option.map_some, Option.some.injEq, Prod.mk.injEq, true_and]
    exact namedAttachments_congr fun name a ha => htable entry name a h ha

theorem mem_entries_of_view {db out : Database V} {id : EntryId}
    (h : entryView out id = entryView db id) : id ∈ out.entries ↔ id ∈ db.entries := by
  have := congrArg Option.isSome h
  rw [entryView, entryView, Option.isSome_map, Option.isSome_map] at this
  rw [← Std.ExtTreeMap.isSome_getElem?_iff_mem, ← Std.ExtTreeMap.isSome_getElem?_iff_mem, this]

theorem keepsAttachments_view {db out : Database V} (h : KeepsAttachments db out) {id : EntryId}
    (hentry : out.entries[id]? = db.entries[id]?) : entryView out id = entryView db id := by
  refine entryView_congr hentry fun entry name a he ha => h a ?_
  exact refers_of_entry (hentry.trans he) ha

/-! ## Edits of one entry -/

/-- One entry is added, removed or rewritten. -/
structure EditsEntry (id : EntryId) (db out : Database V) : Prop where
  settings : SameSettings db out
  metadata : out.metadata = db.metadata
  groups : SameGroups db out
  other : ∀ e, e ≠ id → entryView out e = entryView db e

/-- A tree stays a tree, whatever entries its groups list ahead of time. -/
def KeepsTree (db out : Database V) : Prop :=
  ∀ late, Hangs db (fun _ _ => False) late → Tidy db →
    Hangs out (fun _ _ => False) late ∧ Tidy out

theorem KeepsTree.trans {db mid out : Database V} (h : KeepsTree db mid) (h' : KeepsTree mid out) :
    KeepsTree db out := by
  intro late htree htidy
  obtain ⟨htree, htidy⟩ := h late htree htidy
  exact h' late htree htidy

theorem KeepsTree.refl (db : Database V) : KeepsTree db db := fun _ htree htidy => ⟨htree, htidy⟩

theorem SameShape.keepsTree {db out : Database V} (h : SameShape db out) : KeepsTree db out :=
  fun _ htree htidy => ⟨h.hangs htree, h.tidy htidy⟩

section Edits
variable {id : EntryId} {db mid out : Database V}

namespace EditsEntry

theorem refl (id : EntryId) (db : Database V) : EditsEntry id db db :=
  ⟨SameSettings.refl db, rfl, ⟨rfl, fun _ => rfl, fun _ => rfl⟩, fun _ _ => rfl⟩

theorem trans (h : EditsEntry id db mid) (h' : EditsEntry id mid out) : EditsEntry id db out where
  settings := h.settings.trans h'.settings
  metadata := h'.metadata.trans h.metadata
  groups := h.groups.trans h'.groups
  other e he := (h'.other e he).trans (h.other e he)

theorem editEntry (f : Entry V → Entry V) : EditsEntry id db (db.editEntry id f) where
  settings := ⟨rfl, rfl, rfl, rfl⟩
  metadata := rfl
  groups := ⟨rfl, fun _ => rfl, fun _ => rfl⟩
  other e he := by
    refine entryView_congr ?_ fun _ _ _ _ _ => rfl
    rw [getElem?_editEntry, if_neg (Ne.symm he)]

theorem relocateEntry {t : GroupId} : EditsEntry id db (db.relocateEntry id t) where
  settings := ⟨rfl, rfl, rfl, rfl⟩
  metadata := rfl
  groups := sameGroups_relocateEntry
  other e he := by
    refine entryView_congr ?_ fun _ _ _ _ _ => rfl
    rw [getElem?_relocateEntry, if_neg (Ne.symm he)]

theorem insertEntry {p : GroupId} {entry : Entry V} :
    EditsEntry id db (db.insertEntry p id entry) where
  settings := ⟨rfl, rfl, rfl, rfl⟩
  metadata := rfl
  groups := sameGroups_insertEntry
  other e he := by
    refine entryView_congr ?_ fun _ _ _ _ _ => rfl
    rw [getElem?_insertEntry, if_neg (Ne.symm he)]

theorem removeEntry (K : Keepass V) (hid : id ∈ db.entries) :
    EditsEntry id db (K.removeEntry db id) := by
  obtain ⟨table, heq⟩ := K.removeEntry_eq db id hid
  refine ⟨by rw [heq]; exact ⟨rfl, rfl, rfl, rfl⟩, by rw [heq]; rfl, ?_, ?_⟩
  · rw [heq]
    have hgroups : SameGroups db (db.eraseEntry id) := sameGroups_eraseEntry
    exact ⟨rfl, hgroups.core, hgroups.childGroups⟩
  · intro e he
    refine keepsAttachments_view (K.removeEntry_attachments db id) ?_
    rw [heq]
    exact (getElem?_eraseEntry e).trans (if_neg (Ne.symm he))

end EditsEntry

theorem keepsTree_editEntry (f : Entry V → Entry V)
    (hf : ∀ entry, db.entries[id]? = some entry → (f entry).parent = entry.parent) :
    KeepsTree db (db.editEntry id f) :=
  (sameShape_editEntry id f hf).keepsTree

theorem keepsTree_removeEntry (K : Keepass V) (hid : id ∈ db.entries) :
    KeepsTree db (K.removeEntry db id) := by
  obtain ⟨table, heq⟩ := K.removeEntry_eq db id hid
  have hshape : SameShape (db.eraseEntry id) (K.removeEntry db id) := by
    rw [heq]
    exact ⟨rfl, fun _ => rfl, fun _ => rfl⟩
  intro late htree htidy
  exact hshape.keepsTree late (hangs_eraseEntry htree) (tidy_eraseEntry htidy)

end Edits

/-! ## Attachments -/

/-- The entry without its attachments. -/
def Entry.sansAttachments (entry : Entry V) : Entry V := { entry with attachments := ∅ }

/-- One entry gets the attachments `attachments` and is otherwise the same. -/
structure SetsAttachments (id : EntryId) (attachments : Map String (Value Bytes))
    (db out : Database V) : Prop where
  edits : EditsEntry id db out
  shape : SameShape db out
  data : out.entries[id]?.map Entry.sansAttachments = db.entries[id]?.map Entry.sansAttachments
  contents : attachmentsAt out id = attachments

section Attachments
variable {K : Keepass V} {db : Database V} {id : EntryId}

/-- Rewriting the names of one entry and the table behind them. -/
theorem editsEntry_names {table : Map AttachmentId (Value Bytes)}
    {f : Map String AttachmentId → Map String AttachmentId}
    (htable : ∀ e entry (name : String) a, e ≠ id → db.entries[e]? = some entry →
      entry.attachments[name]? = some a → table[a]? = db.attachments[a]?) :
    EditsEntry id db
      { db.editEntry id fun entry => { entry with attachments := f entry.attachments }
        with attachments := table } := by
  refine ⟨⟨rfl, rfl, rfl, rfl⟩, rfl, ⟨rfl, fun _ => rfl, fun _ => rfl⟩, ?_⟩
  intro e he
  refine entryView_congr ?_ fun entry name a h ha => htable e entry name a he h ha
  exact (getElem?_editEntry id e _).trans (if_neg (Ne.symm he))

theorem sameShape_names {table : Map AttachmentId (Value Bytes)}
    {f : Map String AttachmentId → Map String AttachmentId} :
    SameShape db { db.editEntry id fun entry => { entry with attachments := f entry.attachments }
      with attachments := table } := by
  have hshape : SameShape db (db.editEntry id fun entry =>
      { entry with attachments := f entry.attachments }) := sameShape_editEntry id _ fun _ _ => rfl
  exact ⟨hshape.root, hshape.groups, hshape.entries⟩

theorem getElem?_names {table : Map AttachmentId (Value Bytes)}
    {f : Map String AttachmentId → Map String AttachmentId} :
    ({ db.editEntry id fun entry => { entry with attachments := f entry.attachments }
        with attachments := table } : Database V).entries[id]? =
      db.entries[id]?.map fun entry => { entry with attachments := f entry.attachments } :=
  (getElem?_editEntry id id _).trans (if_pos rfl)

theorem data_names {table : Map AttachmentId (Value Bytes)}
    {f : Map String AttachmentId → Map String AttachmentId} :
    ({ db.editEntry id fun entry => { entry with attachments := f entry.attachments }
        with attachments := table } : Database V).entries[id]?.map Entry.sansAttachments =
      db.entries[id]?.map Entry.sansAttachments := by
  rw [getElem?_names]
  cases db.entries[id]? <;> rfl

theorem removeAttachmentByName_sets (hid : id ∈ db.entries) (name : String) :
    SetsAttachments id ((attachmentsAt db id).erase name) db
      (K.removeAttachmentByName db id name) := by
  obtain ⟨table, heq, htable⟩ := K.removeAttachmentByName_eq db id name
  obtain ⟨entry, hentry⟩ := mem_iff_exists.mp hid
  have hout : (K.removeAttachmentByName db id name).entries[id]? =
      some { entry with attachments := entry.attachments.erase name } := by
    rw [heq, getElem?_names (f := (·.erase name)), hentry]
    rfl
  refine ⟨?_, by rw [heq]; exact sameShape_names (f := (·.erase name)), ?_, ?_⟩
  · rw [heq]
    refine editsEntry_names (f := (·.erase name)) fun e entry' name' a he h ha => htable a ?_
    have hkept : (K.removeAttachmentByName db id name).entries[e]? = some entry' := by
      rw [heq]
      exact ((getElem?_editEntry id e _).trans (if_neg (Ne.symm he))).trans h
    exact refers_of_entry hkept ha
  · rw [heq]
    exact data_names (f := (·.erase name))
  · rw [attachmentsAt_of_getElem? hout, attachmentsAt_of_getElem? hentry]
    ext n : 1
    simp only [getElem?_namedAttachments, Std.ExtTreeMap.getElem?_erase]
    by_cases hn : name = n
    · simp [hn]
    · simp only [Std.LawfulEqOrd.compare_eq_iff_eq, hn, if_false]
      cases ha : entry.attachments[n]? with
      | none => rfl
      | some a =>
        have hrefers : (K.removeAttachmentByName db id name).Refers a :=
          refers_of_entry hout (show (entry.attachments.erase name)[n]? = some a by
            simp [Std.ExtTreeMap.getElem?_erase, hn, ha])
        have hkept := htable a hrefers
        rw [heq]
        exact hkept

theorem addAttachment_sets (hid : id ∈ db.entries) (name : String) (value : Value Bytes) :
    SetsAttachments id ((attachmentsAt db id).insert name value) db
      (K.addAttachment db id name value) := by
  obtain ⟨a, table, heq, hvalue, htable⟩ := K.addAttachment_eq db id name value
  obtain ⟨entry, hentry⟩ := mem_iff_exists.mp hid
  have hout : (K.addAttachment db id name value).entries[id]? =
      some { entry with attachments := entry.attachments.insert name a } := by
    rw [heq, getElem?_names (f := (·.insert name a)), hentry]
    rfl
  refine ⟨?_, by rw [heq]; exact sameShape_names (f := (·.insert name a)), ?_, ?_⟩
  · rw [heq]
    exact editsEntry_names (f := (·.insert name a)) fun e entry' name' a' _ h ha =>
      htable a' (refers_of_entry h ha)
  · rw [heq]
    exact data_names (f := (·.insert name a))
  · rw [attachmentsAt_of_getElem? hout, attachmentsAt_of_getElem? hentry]
    ext n : 1
    simp only [getElem?_namedAttachments, Std.ExtTreeMap.getElem?_insert]
    by_cases hn : name = n
    · subst hn
      rw [heq]
      simpa using hvalue
    · simp only [Std.LawfulEqOrd.compare_eq_iff_eq, hn, if_false]
      cases ha : entry.attachments[n]? with
      | none => rfl
      | some a' =>
        have hkept := htable a' (refers_of_entry hentry ha)
        rw [heq]
        exact hkept

namespace SetsAttachments
variable {mid out : Database V} {attachments attachments' : Map String (Value Bytes)}

theorem trans (h : SetsAttachments id attachments db mid)
    (h' : SetsAttachments id attachments' mid out) : SetsAttachments id attachments' db out :=
  ⟨h.edits.trans h'.edits, h.shape.trans h'.shape, h'.data.trans h.data, h'.contents⟩

theorem mem (h : SetsAttachments id attachments db out) (hid : id ∈ db.entries) :
    id ∈ out.entries :=
  (mem_iff_of_map_eq h.data).mpr hid

theorem refl (id : EntryId) (db : Database V) : SetsAttachments id (attachmentsAt db id) db db :=
  ⟨EditsEntry.refl id db, SameShape.refl db, rfl, rfl⟩

end SetsAttachments

theorem removeNames_sets (hid : id ∈ db.entries) (names : List String) :
    SetsAttachments id (names.foldl (·.erase ·) (attachmentsAt db id)) db
      (names.foldl (K.removeAttachmentByName · id ·) db) := by
  induction names generalizing db with
  | nil => exact SetsAttachments.refl id db
  | cons name rest ih =>
    have hstep := removeAttachmentByName_sets (K := K) hid name
    have hrest := ih (hstep.mem hid)
    rw [hstep.contents] at hrest
    exact hstep.trans hrest

theorem addAll_sets (hid : id ∈ db.entries) (items : List (String × Value Bytes)) :
    SetsAttachments id (items.foldl (fun m item => m.insert item.1 item.2) (attachmentsAt db id)) db
      (items.foldl (fun db item => K.addAttachment db id item.1 item.2) db) := by
  induction items generalizing db with
  | nil => exact SetsAttachments.refl id db
  | cons item rest ih =>
    have hstep := addAttachment_sets (K := K) hid item.1 item.2
    have hrest := ih (hstep.mem hid)
    rw [hstep.contents] at hrest
    exact hstep.trans hrest

theorem foldl_erase_getElem? {ν : Type} (names : List String) (m : Map String ν) (name : String) :
    (names.foldl (·.erase ·) m)[name]? = if name ∈ names then none else m[name]? := by
  induction names generalizing m with
  | nil => simp
  | cons n rest ih =>
    rw [List.foldl_cons, ih]
    by_cases hmem : name ∈ rest
    · simp [hmem]
    · by_cases hn : n = name
      · simp [hmem, hn]
      · simp [hmem, hn, Ne.symm hn, Std.ExtTreeMap.getElem?_erase]

/-- Inserting the items of a map one by one gives the map. -/
theorem foldl_insert_toList {ν : Type} (m : Map String ν) :
    m.toList.foldl (fun acc item => acc.insert item.1 item.2) (∅ : Map String ν) = m := by
  rw [← Std.ExtTreeMap.ofList_eq_foldl]
  ext name : 1
  cases h : m[name]? with
  | none =>
    apply Std.ExtTreeMap.getElem?_ofList_of_contains_eq_false
    rw [Std.ExtTreeMap.map_fst_toList_eq_keys]
    simpa using h
  | some value =>
    exact Std.ExtTreeMap.getElem?_ofList_of_mem Std.ReflOrd.compare_self
      Std.ExtTreeMap.distinct_keys_toList (Std.ExtTreeMap.mem_toList_iff_getElem?_eq_some.mpr h)

theorem replaceAttachments_sets (hid : id ∈ db.entries) (attachments : Map String (Value Bytes)) :
    SetsAttachments id attachments db (replaceAttachments K id attachments db) := by
  obtain ⟨entry, hentry⟩ := mem_iff_exists.mp hid
  have hempty : (namedAttachments db entry.toEntryData).keys.foldl (·.erase ·)
      (attachmentsAt db id) = ∅ := by
    ext name : 1
    rw [foldl_erase_getElem?, attachmentsAt_of_getElem? hentry]
    by_cases h : name ∈ namedAttachments db entry.toEntryData
    · simp [h]
    · simp [h]
  have hremoved := removeNames_sets (K := K) hid (namedAttachments db entry.toEntryData).keys
  rw [hempty] at hremoved
  have hadded := addAll_sets (K := K) (hremoved.mem hid) attachments.toList
  rw [hremoved.contents] at hadded
  rw [foldl_insert_toList] at hadded
  unfold replaceAttachments
  rw [hentry]
  exact hremoved.trans hadded

end Attachments

/-! ## An entry of all three inputs -/

/-- The three-way choices that make an entry, attachments aside. -/
structure EntryMerged (b l r m : Entry V) : Prop where
  fields : ∀ name : String, IsThreeWay b.fields[name]? l.fields[name]? r.fields[name]?
    m.fields[name]?
  parent : IsThreeWay b.parent l.parent r.parent m.parent
  tags : IsThreeWay b.tags l.tags r.tags m.tags
  icon : IsThreeWay b.icon l.icon r.icon m.icon
  foregroundColor :
    IsThreeWay b.foregroundColor l.foregroundColor r.foregroundColor m.foregroundColor
  backgroundColor :
    IsThreeWay b.backgroundColor l.backgroundColor r.backgroundColor m.backgroundColor
  overrideUrl : IsThreeWay b.overrideUrl l.overrideUrl r.overrideUrl m.overrideUrl
  qualityCheck : IsThreeWay b.qualityCheck l.qualityCheck r.qualityCheck m.qualityCheck
  autotype : IsThreeWay b.autotype l.autotype r.autotype m.autotype
  customData : IsThreeWay b.customData l.customData r.customData m.customData
  times : TimesMerged b.times l.times r.times m.times

theorem entryMerged_sansAttachments {b l r m : Entry V} :
    EntryMerged b l r m.sansAttachments ↔ EntryMerged b l r m :=
  ⟨fun h => ⟨h.fields, h.parent, h.tags, h.icon, h.foregroundColor, h.backgroundColor,
    h.overrideUrl, h.qualityCheck, h.autotype, h.customData, h.times⟩,
   fun h => ⟨h.fields, h.parent, h.tags, h.icon, h.foregroundColor, h.backgroundColor,
    h.overrideUrl, h.qualityCheck, h.autotype, h.customData, h.times⟩⟩

/-- What becomes of the previous parent. The choice between the three is made and compared with
local's, but what is stored is local's or, after a move, local's parent. -/
structure PreviousMerged (b l r : EntryState V) (m : Entry V) : Prop where
  stored : m.previousParent = if m.parent = l.parent then l.entry.previousParent else some l.parent
  chosen : ∃ choice, IsThreeWay b.previousParent l.previousParent r.previousParent choice ∧
    (m.parent = l.parent → choice = l.previousParent)

theorem previousMerged_sansAttachments {b l r : EntryState V} {m : Entry V} :
    PreviousMerged b l r m.sansAttachments ↔ PreviousMerged b l r m :=
  ⟨fun h => ⟨h.stored, h.chosen⟩, fun h => ⟨h.stored, h.chosen⟩⟩

section Write
variable {K : Keepass V} {id : EntryId} {st st' : MergeState V}

theorem writeEntry_edits (st : MergeState V) {merged : Entry V} {icon : Option (Option Icon)} :
    EditsEntry id st.candidate (writeEntry id merged icon st).candidate := by
  have hwrite : EditsEntry id st.candidate (st.candidate.editEntry id fun _ => merged) :=
    EditsEntry.editEntry _
  unfold writeEntry setEntryIcon
  cases icon with
  | none => exact hwrite
  | some icon =>
    by_cases hicon : (st.candidate.editEntry id fun _ => merged).iconAvailable icon = true
    · simpa [hicon] using hwrite.trans (EditsEntry.editEntry (Entry.withIcon icon))
    · simpa [hicon] using hwrite

theorem keepsTree_writeEntry (st : MergeState V) (merged : Entry V)
    {icon : Option (Option Icon)}
    (hparent : st.candidate.homeOf id = some merged.parent) :
    KeepsTree st.candidate (writeEntry id merged icon st).candidate := by
  have hwrite : KeepsTree st.candidate (st.candidate.editEntry id fun _ => merged) := by
    refine keepsTree_editEntry _ fun entry hentry => ?_
    simpa [Database.homeOf, hentry] using hparent.symm
  unfold writeEntry setEntryIcon
  cases icon with
  | none => exact hwrite
  | some icon =>
    by_cases hicon : (st.candidate.editEntry id fun _ => merged).iconAvailable icon = true
    · simpa [hicon] using hwrite.trans (keepsTree_editEntry (Entry.withIcon icon) fun _ _ => rfl)
    · simpa [hicon] using hwrite

theorem quiet_of_writeEntry {merged : Entry V} {icon : Option (Option Icon)}
    (h : Quiet (writeEntry id merged icon st)) : Quiet st := by
  unfold writeEntry at h
  cases icon with
  | none => exact h
  | some icon =>
    simp only at h
    split at h
    · exact h
    · exact (quiet_report.mp h).1

theorem writeEntry_quiet {merged : Entry V} {icon : Option Icon} (hid : id ∈ st.candidate.entries)
    (h : Quiet (writeEntry id merged (some icon) st)) :
    HasIcon st.candidate icon ∧
      (writeEntry id merged (some icon) st).candidate.entries[id]? =
        some (merged.withIcon icon) ∧
      (writeEntry id merged (some icon) st).candidate.attachments = st.candidate.attachments := by
  obtain ⟨entry, hentry⟩ := mem_iff_exists.mp hid
  unfold writeEntry setEntryIcon at h ⊢
  simp only [candidate_edit] at h ⊢
  by_cases hicon : (st.candidate.editEntry id fun _ => merged).iconAvailable icon = true
  · simp only [hicon, if_true]
    refine ⟨iconAvailable_iff.mp hicon, ?_, rfl⟩
    rw [getElem?_editEntry, if_pos rfl, getElem?_editEntry, if_pos rfl, hentry]
    rfl
  · simp [hicon] at h

variable {parent locParent : GroupId} {time : Option Time}

/-- The move of an entry happens exactly if the target exists. -/
theorem moveEntry_cases (hid : id ∈ st.candidate.entries)
    (h : moveEntry K id parent locParent time st = .ok st') :
    (parent = locParent ∧ st' = st) ∨
    (∃ kind, st' = st.report [entryConflict id kind]) ∨
    (parent ∈ st.candidate.groups ∧ parent ≠ locParent ∧
      st' = st.edit fun db => (db.relocateEntry id parent).editEntry id
        (Entry.withLocationChanged time)) := by
  unfold moveEntry at h
  by_cases heq : parent = locParent
  · rw [if_pos heq] at h
    cases h
    exact Or.inl ⟨heq, rfl⟩
  · rw [if_neg heq, if_pos hid] at h
    cases hmove : K.moveEntryTo st.candidate id parent with
    | none =>
      rw [hmove] at h
      cases h
      exact Or.inr (Or.inl ⟨_, rfl⟩)
    | some out =>
      rw [hmove] at h
      cases h
      have hparent := (K.moveEntryTo_isSome st.candidate id parent hid).mp (by simp [hmove])
      refine Or.inr (Or.inr ⟨hparent, heq, ?_⟩)
      rw [K.moveEntryTo_eq _ _ _ _ hid hmove]
      rfl

theorem moveEntry_edits (hid : id ∈ st.candidate.entries)
    (h : moveEntry K id parent locParent time st = .ok st') :
    EditsEntry id st.candidate st'.candidate ∧ KeepsTree st.candidate st'.candidate ∧
      id ∈ st'.candidate.entries := by
  rcases moveEntry_cases hid h with ⟨_, rfl⟩ | ⟨kind, rfl⟩ | ⟨hparent, _, rfl⟩
  · exact ⟨EditsEntry.refl id _, KeepsTree.refl _, hid⟩
  · exact ⟨EditsEntry.refl id _, KeepsTree.refl _, hid⟩
  · refine ⟨EditsEntry.relocateEntry.trans (EditsEntry.editEntry _), ?_, ?_⟩
    · have hmove : KeepsTree st.candidate (st.candidate.relocateEntry id parent) :=
        fun _ htree htidy =>
          ⟨hangs_relocateEntry htree hid hparent, tidy_relocateEntry htidy hparent⟩
      exact hmove.trans (keepsTree_editEntry _ fun _ _ => rfl)
    · simpa [Database.relocateEntry, Std.ExtTreeMap.mem_modify] using hid

theorem quiet_of_moveEntry (hid : id ∈ st.candidate.entries)
    (h : moveEntry K id parent locParent time st = .ok st') (hq : Quiet st') : Quiet st := by
  rcases moveEntry_cases hid h with ⟨_, rfl⟩ | ⟨kind, rfl⟩ | ⟨_, _, rfl⟩
  · exact hq
  · exact (quiet_report.mp hq).1
  · exact hq

/-- Without a conflict the entry is where it is to be, and otherwise the same. -/
theorem moveEntry_quiet {entry : Entry V} (hentry : st.candidate.entries[id]? = some entry)
    (hparent : entry.parent = locParent)
    (h : moveEntry K id parent locParent time st = .ok st') (hq : Quiet st') :
    st'.candidate.attachments = st.candidate.attachments ∧
    ∃ out changed, st'.candidate.entries[id]? = some out ∧
      out = { entry with
        parent := parent
        previousParent := if parent = locParent then entry.previousParent else some locParent
        times.locationChanged := changed } := by
  have hid : id ∈ st.candidate.entries := mem_iff_exists.mpr ⟨entry, hentry⟩
  rcases moveEntry_cases hid h with ⟨heq, rfl⟩ | ⟨kind, rfl⟩ | ⟨_, hne, rfl⟩
  · refine ⟨rfl, entry, entry.times.locationChanged, hentry, ?_⟩
    rw [if_pos heq, heq, ← hparent]
  · simp at hq
  · refine ⟨rfl, _, time, ?_, rfl⟩
    rw [candidate_edit, getElem?_editEntry, if_pos rfl, getElem?_relocateEntry, if_pos rfl, hentry,
      if_neg hne, ← hparent]
    rfl

end Write

section Existing
variable [DecidableEq V] {K : Keepass V} {base loc remote : Database V} {id : EntryId}
  {b l r : EntryState V} {st st' : MergeState V}

theorem mergeEntryProperties_quiet {b l r : Entry V} (merged : Entry V)
    (h : (mergeEntryProperties id b l r merged).2 = []) :
    let m := (mergeEntryProperties id b l r merged).1
    IsThreeWay b.autotype l.autotype r.autotype m.autotype ∧
    IsThreeWay b.tags l.tags r.tags m.tags ∧
    IsThreeWay b.customData l.customData r.customData m.customData ∧
    IsThreeWay b.foregroundColor l.foregroundColor r.foregroundColor m.foregroundColor ∧
    IsThreeWay b.backgroundColor l.backgroundColor r.backgroundColor m.backgroundColor ∧
    IsThreeWay b.overrideUrl l.overrideUrl r.overrideUrl m.overrideUrl ∧
    IsThreeWay b.qualityCheck l.qualityCheck r.qualityCheck m.qualityCheck ∧
    TimesMerged b.times l.times r.times m.times ∧
    ∃ icon, chooseThreeWay b.icon l.icon r.icon = some icon := by
  simp only [mergeEntryProperties, List.append_eq_nil_iff, iconChoiceConflict, ite_eq_right_iff,
    List.cons_ne_nil, imp_false, ← ne_eq, Option.ne_none_iff_exists'] at h
  obtain ⟨⟨⟨⟨⟨⟨⟨⟨hautotype, htags⟩, hdata⟩, hforeground⟩, hbackground⟩, hurl⟩, hquality⟩, htimes⟩,
    hicon⟩ := h
  exact ⟨mergeProp_quiet hautotype, mergeProp_quiet htags, mergeProp_quiet hdata,
    mergeProp_quiet hforeground, mergeProp_quiet hbackground, mergeProp_quiet hurl,
    mergeProp_quiet hquality, mergeTimes_quiet htimes, hicon⟩

omit [DecidableEq V] in
theorem placeEntry_cases {parent : GroupId} {attachments : Map String (Value Bytes)}
    (hid : id ∈ st.candidate.entries)
    (h : placeEntry K id parent l r attachments st = .ok st') :
    ∃ mid, moveEntry K id parent l.parent r.entry.times.locationChanged st = .ok mid ∧
      id ∈ mid.candidate.entries ∧
      ((attachments = l.attachments ∧ st' = mid) ∨
        (attachments ≠ l.attachments ∧ st' = mid.edit (replaceAttachments K id attachments))) := by
  unfold placeEntry at h
  cases hmove : moveEntry K id parent l.parent r.entry.times.locationChanged st with
  | error e =>
    rw [hmove] at h
    cases h
  | ok mid =>
    rw [hmove] at h
    have hmid := (moveEntry_edits hid hmove).2.2
    refine ⟨mid, rfl, hmid, ?_⟩
    simp only [bind, Except.bind, hmid, if_true] at h
    split at h
    · case isTrue heq =>
      cases h
      exact Or.inl ⟨heq, rfl⟩
    · case isFalse hne =>
      cases h
      exact Or.inr ⟨hne, rfl⟩

omit [DecidableEq V] in
theorem writeEntry_mem {merged : Entry V} {icon : Option (Option Icon)}
    (hid : id ∈ st.candidate.entries) : id ∈ (writeEntry id merged icon st).candidate.entries := by
  unfold writeEntry setEntryIcon
  cases icon with
  | none => simpa using hid
  | some icon =>
    by_cases hicon : (st.candidate.editEntry id fun _ => merged).iconAvailable icon = true
    · simpa [hicon] using hid
    · simpa [hicon] using hid

omit [DecidableEq V] in
theorem groups_writeEntry {merged : Entry V} {icon : Option (Option Icon)} :
    (writeEntry id merged icon st).candidate.groups = st.candidate.groups := by
  unfold writeEntry setEntryIcon
  cases icon with
  | none => rfl
  | some icon =>
    dsimp only
    split
    · next hset =>
      split at hset
      · cases hset
        rfl
      · cases hset
    · rfl

/-- The round for an entry of all three inputs: it is written, then moved, then gets its
attachments. -/
theorem mergeExistingEntry_cases (h : mergeExistingEntry K base loc remote id b l r st = .ok st') :
    id ∈ st.candidate.entries ∧
    ∃ mid, moveEntry K id (mergeProp (entryConflict id .moveVsMove) b.parent l.parent r.parent).1
        l.parent r.entry.times.locationChanged
        (writeEntry id (mergedEntry K base loc remote id b l r)
          (chooseThreeWay b.entry.icon l.entry.icon r.entry.icon)
          (st.report (existingEntryConflicts K base loc remote id b l r))) = .ok mid ∧
      id ∈ mid.candidate.entries ∧
      (((mergeNamedMap b.attachments l.attachments r.attachments).1 = l.attachments ∧ st' = mid) ∨
        ((mergeNamedMap b.attachments l.attachments r.attachments).1 ≠ l.attachments ∧
          st' = mid.edit (replaceAttachments K id
            (mergeNamedMap b.attachments l.attachments r.attachments).1))) := by
  unfold mergeExistingEntry at h
  by_cases hid : id ∈ st.candidate.entries
  · simp only [candidate_report, hid, if_true] at h
    exact ⟨hid, placeEntry_cases (writeEntry_mem (by simpa using hid)) h⟩
  · simp [hid] at h

theorem quiet_of_mergeExistingEntry
    (h : mergeExistingEntry K base loc remote id b l r st = .ok st') (hq : Quiet st') :
    Quiet st ∧ existingEntryConflicts K base loc remote id b l r = [] := by
  obtain ⟨hid, mid, hmove, _, hcases⟩ := mergeExistingEntry_cases h
  have hmid : Quiet mid := by
    rcases hcases with ⟨_, rfl⟩ | ⟨_, rfl⟩
    · exact hq
    · exact hq
  have hwritten := quiet_of_moveEntry (writeEntry_mem (by simpa using hid)) hmove hmid
  exact quiet_report.mp (quiet_of_writeEntry hwritten)

/-- The round touches one entry. -/
theorem mergeExistingEntry_edits
    (h : mergeExistingEntry K base loc remote id b l r st = .ok st') :
    EditsEntry id st.candidate st'.candidate := by
  obtain ⟨hid, mid, hmove, hmid, hcases⟩ := mergeExistingEntry_cases h
  have hmoved : EditsEntry id st.candidate mid.candidate :=
    (writeEntry_edits (st.report _)).trans
      (moveEntry_edits (writeEntry_mem (by simpa using hid)) hmove).1
  rcases hcases with ⟨_, rfl⟩ | ⟨_, rfl⟩
  · exact hmoved
  · exact hmoved.trans (replaceAttachments_sets hmid _).edits

theorem keepsTree_mergeExistingEntry (hparent : st.candidate.homeOf id = some l.entry.parent)
    (h : mergeExistingEntry K base loc remote id b l r st = .ok st') :
    KeepsTree st.candidate st'.candidate := by
  obtain ⟨hid, mid, hmove, hmid, hcases⟩ := mergeExistingEntry_cases h
  have hmoved : KeepsTree st.candidate mid.candidate :=
    (keepsTree_writeEntry (st.report _) (mergedEntry K base loc remote id b l r) hparent).trans
      (moveEntry_edits (writeEntry_mem (by simpa using hid)) hmove).2.1
  rcases hcases with ⟨_, rfl⟩ | ⟨_, rfl⟩
  · exact hmoved
  · exact hmoved.trans (replaceAttachments_sets hmid _).shape.keepsTree

/-- Without a conflict, every property of the entry and every attachment is its three-way
choice. -/
theorem mergeExistingEntry_quiet {entry : Entry V}
    (hentry : st.candidate.entries[id]? = some entry)
    (hnames : entry.attachments = l.entry.attachments)
    (hview : attachmentsAt st.candidate id = l.attachments)
    (hb : b.parent = b.entry.parent) (hl : l.parent = l.entry.parent)
    (hr : r.parent = r.entry.parent)
    (h : mergeExistingEntry K base loc remote id b l r st = .ok st') (hq : Quiet st') :
    ∃ m, st'.candidate.entries[id]? = some m ∧ EntryMerged b.entry l.entry r.entry m ∧
      HasIcon st.candidate m.icon ∧ m.history = (mergeHistory K base loc remote id).1 ∧
      PreviousMerged b l r m ∧
      ∀ name : String, IsThreeWay b.attachments[name]? l.attachments[name]? r.attachments[name]?
        (attachmentsAt st'.candidate id)[name]? := by
  obtain ⟨_, hconflicts⟩ := quiet_of_mergeExistingEntry h hq
  simp only [existingEntryConflicts, List.append_eq_nil_iff, List.map_eq_nil_iff, ite_eq_right_iff,
    List.cons_ne_nil, imp_false, not_or] at hconflicts
  obtain ⟨⟨⟨⟨⟨hmoves, hundecided, hkept⟩, hfields⟩, hprops⟩, hattachments⟩, _⟩ := hconflicts
  have hchosen : ∃ choice, IsThreeWay b.previousParent l.previousParent r.previousParent choice ∧
      ((mergeProp (entryConflict id .moveVsMove) b.parent l.parent r.parent).1 = l.parent →
        choice = l.previousParent) := by
    obtain ⟨choice, hchoice⟩ := Option.ne_none_iff_exists'.mp hundecided
    refine ⟨choice, chooseThreeWay_eq_some.mp hchoice, fun hsame => ?_⟩
    have hlocal : chooseThreeWay b.previousParent l.previousParent r.previousParent =
        some l.previousParent := not_not.mp fun hne => hkept ⟨hsame, hne⟩
    exact Option.some.inj (hchoice.symm.trans hlocal)
  have hparents := mergeProp_quiet hmoves
  have hfields := mergeNamedMap_spec hfields
  have hattachments := mergeNamedMap_spec hattachments
  obtain ⟨_, _, _, _, _, _, _, _, icon, hicon⟩ := mergeEntryProperties_quiet _ hprops
  obtain ⟨hautotype, htags, hdata, hforeground, hbackground, hurl, hquality, htimes, _⟩ :=
    mergeEntryProperties_quiet { l.entry with
      fields := (mergeNamedMap b.entry.fields l.entry.fields r.entry.fields).1 } hprops
  obtain ⟨hid, mid, hmove, hmid, hcases⟩ := mergeExistingEntry_cases h
  have hmidQuiet : Quiet mid := by
    rcases hcases with ⟨_, rfl⟩ | ⟨_, rfl⟩
    · exact hq
    · exact hq
  rw [hicon] at hmove
  have hwrittenQuiet := quiet_of_moveEntry (writeEntry_mem (by simpa using hid)) hmove hmidQuiet
  obtain ⟨hpresent, hwritten, htable⟩ := writeEntry_quiet (by simpa using hid) hwrittenQuiet
  obtain ⟨htable', out, changed, hout, rfl⟩ := moveEntry_quiet hwritten hl.symm hmove hmidQuiet
  have hicon := chooseThreeWay_eq_some.mp hicon
  rw [hb, hl, hr] at hparents
  have hmerged : EntryMerged b.entry l.entry r.entry
      { (mergedEntry K base loc remote id b l r).withIcon icon with
        parent := (mergeProp (entryConflict id .moveVsMove) b.parent l.parent r.parent).1
        previousParent :=
          if (mergeProp (entryConflict id .moveVsMove) b.parent l.parent r.parent).1 = l.parent then
            l.entry.previousParent
          else some l.parent
        times.locationChanged := changed } := by
    rw [hb, hl, hr]
    exact ⟨hfields, hparents, htags, hicon, hforeground, hbackground, hurl, hquality, hautotype,
      hdata, ⟨htimes.creation, htimes.lastAccess, htimes.expiry, htimes.expires, htimes.usageCount,
        htimes.lastModification⟩⟩
  rcases hcases with ⟨hsame, rfl⟩ | ⟨_, rfl⟩
  · -- The names still point at the local attachments, and the table has not changed.
    refine ⟨_, hout, hmerged, hpresent, rfl, ⟨rfl, hchosen⟩, ?_⟩
    have hkept : attachmentsAt st'.candidate id = l.attachments := by
      rw [attachmentsAt_of_getElem? hout, ← hview, attachmentsAt_of_getElem? hentry]
      unfold namedAttachments
      rw [htable', htable, hnames]
      rfl
    rw [hkept]
    rwa [hsame] at hattachments
  · obtain ⟨_, _, hdata', hcontents⟩ := replaceAttachments_sets (K := K) hmid
      (mergeNamedMap b.attachments l.attachments r.attachments).1
    rw [hout, Option.map_some, Option.map_eq_some_iff] at hdata'
    obtain ⟨m, hm, hmdata⟩ := hdata'
    have hicon' : m.sansAttachments.icon = icon := by
      rw [hmdata]
      rfl
    refine ⟨m, hm, entryMerged_sansAttachments.mp ?_, hicon' ▸ hpresent, ?_,
      previousMerged_sansAttachments.mp ?_, ?_⟩
    · rw [hmdata]
      exact entryMerged_sansAttachments.mpr hmerged
    · have : m.sansAttachments.history = m.history := rfl
      rw [← this, hmdata]
      rfl
    · rw [hmdata]
      exact ⟨rfl, hchosen⟩
    · rw [candidate_edit, hcontents]
      exact hattachments

end Existing

/-! ## One round -/

section Round
variable [DecidableEq V] {K : Keepass V} {base loc remote : Database V} {id : EntryId}
  {st st' : MergeState V}

omit [DecidableEq V] in
@[simp] theorem getElem?_entryIndex (db : Database V) :
    (entryIndex K db)[id]? = db.entries[id]?.map (entryState K db) := by
  simp [entryIndex]

omit [DecidableEq V] in
theorem editEntry_insertEntry {db : Database V} {p : GroupId} (entry : Entry V)
    (edit : Entry V → Entry V) :
    (db.insertEntry p id entry).editEntry id edit = db.insertEntry p id (edit entry) := by
  unfold Database.editEntry Database.insertEntry
  congr 1
  ext e : 1
  by_cases h : id = e
  · subst h
    simp
  · simp [Std.ExtTreeMap.getElem?_modify, Std.ExtTreeMap.getElem?_insert, h]

omit [DecidableEq V] in
/-- A remote entry is added below its remote parent, or a conflict is reported. -/
theorem addRemoteEntry_cases (K : Keepass V) (remote : Database V) (id : EntryId)
    (source : EntryState V) (st : MergeState V) :
    (∃ kind, addRemoteEntry K remote id source st = st.report [entryConflict id kind]) ∨
    (source.attachments.isEmpty = true ∧ historyHasAttachments remote id = false ∧
      HasIcon st.candidate source.entry.icon ∧ source.parent ∈ st.candidate.groups ∧
      id ∉ st.candidate.entries ∧
      addRemoteEntry K remote id source st =
        st.edit (·.insertEntry source.parent id source.entry)) := by
  unfold addRemoteEntry
  by_cases hbinary : !source.attachments.isEmpty || historyHasAttachments remote id
  · exact Or.inl ⟨_, by rw [if_pos hbinary]⟩
  rw [if_neg hbinary]
  by_cases hicon : st.candidate.iconAvailable source.entry.icon
  · rw [if_neg (by simpa using hicon)]
    by_cases hparent : source.parent ∈ st.candidate.groups
    · rw [if_pos hparent]
      cases hadd : K.addEntryWithId st.candidate source.parent id with
      | none => exact Or.inl ⟨_, rfl⟩
      | some out =>
        simp only [Bool.or_eq_true, Bool.not_eq_true', not_or, Bool.not_eq_false,
          Bool.not_eq_true] at hbinary
        refine Or.inr ⟨hbinary.1, hbinary.2, iconAvailable_iff.mp hicon, hparent, ?_, ?_⟩
        · intro hid
          simp [K.addEntryWithId_taken _ source.parent id hid] at hadd
        · obtain ⟨entry, rfl⟩ := K.addEntryWithId_eq _ source.parent id out hparent hadd
          simp only [editEntry_insertEntry]
          rfl
    · exact Or.inl ⟨_, by rw [if_neg hparent]⟩
  · exact Or.inl ⟨_, by rw [if_pos (by simpa using hicon)]⟩

theorem quiet_of_mergeEntry (h : mergeEntry K base loc remote st id = .ok st') (hq : Quiet st') :
    Quiet st := by
  unfold mergeEntry at h
  split at h
  · exact (quiet_of_mergeExistingEntry h hq).1
  · cases h
    split at hq
    · exact hq
    · exact hq
  · case h_3 r _ =>
    cases h
    rcases addRemoteEntry_cases K remote id r st with
      ⟨kind, heq⟩ | ⟨_, _, _, _, _, heq⟩
    · rw [heq] at hq
      exact (quiet_report.mp hq).1
    · rw [heq] at hq
      exact hq
  · cases h
    exact (quiet_report.mp hq).1
  · cases h
    exact hq

theorem mergeEntry_reconciled (h : mergeEntry K base loc remote st id = .ok st')
    (hq : Quiet st') :
    Reconciled (entryIndex K base)[id]? (entryIndex K loc)[id]? (entryIndex K remote)[id]?
      (isDeleted base id.uuid) (isDeleted loc id.uuid) (isDeleted remote id.uuid) := by
  apply classify_reconciled
  intro kind hkind
  rw [mergeEntry, classifyEntry, hkind] at h
  cases h
  simp at hq

/-- A round touches one entry. -/
theorem mergeEntry_edits (h : mergeEntry K base loc remote st id = .ok st') :
    EditsEntry id st.candidate st'.candidate := by
  unfold mergeEntry at h
  split at h
  · exact mergeExistingEntry_edits h
  · cases h
    split
    · case isTrue hid => exact EditsEntry.removeEntry K hid
    · exact EditsEntry.refl id _
  · case h_3 r _ =>
    cases h
    rcases addRemoteEntry_cases K remote id r st with
      ⟨kind, heq⟩ | ⟨_, _, _, _, _, heq⟩
    · rw [heq]
      exact EditsEntry.refl id _
    · rw [heq]
      exact EditsEntry.insertEntry
  · cases h
    exact EditsEntry.refl id _
  · cases h
    exact EditsEntry.refl id _

/-- A round keeps the tree, as long as the entry is still where local has it. -/
theorem keepsTree_mergeEntry
    (hhome : ∀ p, st.candidate.homeOf id = some p → loc.homeOf id = some p)
    (h : mergeEntry K base loc remote st id = .ok st') :
    KeepsTree st.candidate st'.candidate := by
  unfold mergeEntry at h
  split at h
  · case h_1 b l r hclass =>
    obtain ⟨_, hl, _⟩ := classify_existing.mp hclass
    rw [getElem?_entryIndex, Option.map_eq_some_iff] at hl
    obtain ⟨entry, hentry, rfl⟩ := hl
    obtain ⟨hid, _⟩ := mergeExistingEntry_cases h
    obtain ⟨current, hcurrent⟩ := mem_iff_exists.mp hid
    have hcurrentHome : st.candidate.homeOf id = some current.parent :=
      homeOf_eq_some.mpr ⟨current, hcurrent, rfl⟩
    have hlocHome : loc.homeOf id = some entry.parent := homeOf_eq_some.mpr ⟨entry, hentry, rfl⟩
    refine keepsTree_mergeExistingEntry ?_ h
    rw [hcurrentHome, ← hhome _ hcurrentHome, hlocHome]
    rfl
  · cases h
    split
    · case isTrue hid => exact keepsTree_removeEntry K hid
    · exact KeepsTree.refl _
  · case h_3 r hclass =>
    cases h
    obtain ⟨_, _, hr, _⟩ := classify_add.mp hclass
    rw [getElem?_entryIndex, Option.map_eq_some_iff] at hr
    obtain ⟨entry, _, rfl⟩ := hr
    rcases addRemoteEntry_cases K remote id (entryState K remote entry) st with
      ⟨kind, heq⟩ | ⟨_, _, _, hparent, hnew, heq⟩
    · rw [heq]
      exact KeepsTree.refl _
    · rw [heq]
      exact fun _ htree htidy => ⟨hangs_insertEntry htree hparent hnew rfl,
        tidy_insertEntry htidy hparent⟩
  · cases h
    exact KeepsTree.refl _
  · cases h
    exact KeepsTree.refl _

/-! ## The loop -/

theorem quiet_of_mergeEntries (h : mergeEntries K base loc remote st = .ok st') (hq : Quiet st') :
    Quiet st :=
  Loop.foldlM_quiet (fun _ _ _ h hq => quiet_of_mergeEntry h hq) h hq

/-- Settings and groups are the same, and so are the metadata. -/
structure KeepsGroups (db out : Database V) : Prop where
  settings : SameSettings db out
  metadata : out.metadata = db.metadata
  groups : SameGroups db out

omit [DecidableEq V] in
theorem KeepsGroups.refl (db : Database V) : KeepsGroups db db :=
  ⟨SameSettings.refl db, rfl, ⟨rfl, fun _ => rfl, fun _ => rfl⟩⟩

omit [DecidableEq V] in
theorem KeepsGroups.edit {db mid out : Database V} (h : KeepsGroups db mid)
    (hedit : EditsEntry id mid out) : KeepsGroups db out :=
  ⟨h.settings.trans hedit.settings, hedit.metadata.trans h.metadata, h.groups.trans hedit.groups⟩

theorem mergeEntries_keeps (h : mergeEntries K base loc remote st = .ok st') :
    KeepsGroups st.candidate st'.candidate :=
  Loop.foldlM_invariant (Q := fun _ => True)
    (P := fun u : MergeState V => KeepsGroups st.candidate u.candidate)
    (fun _ _ _ _ h => h) (fun _ _ _ _ _ hinv hround => hinv.edit (mergeEntry_edits hround)) h
    trivial (KeepsGroups.refl _)

omit [DecidableEq V] in
theorem homeOf_of_entryView {db out : Database V} {e : EntryId}
    (h : entryView out e = entryView db e) : out.homeOf e = db.homeOf e := by
  have := congrArg (Option.map fun view => view.1.parent) h
  simpa [entryView, Database.homeOf, Option.map_map, Function.comp_def] using this

theorem keepsTree_mergeEntries
    (hhome : ∀ e p, st.candidate.homeOf e = some p → loc.homeOf e = some p)
    (h : mergeEntries K base loc remote st = .ok st') :
    KeepsTree st.candidate st'.candidate := by
  -- Entries whose round is still to come are where local has them.
  have := Loop.foldlM_remaining (Q := fun _ => True)
    (P := fun rest (u : MergeState V) => rest.Nodup ∧ KeepsTree st.candidate u.candidate ∧
      ∀ e ∈ rest, ∀ p, u.candidate.homeOf e = some p → loc.homeOf e = some p)
    (fun _ _ _ _ h => h) ?_ h trivial
    ⟨nodup_allKeys3 _ _ _, KeepsTree.refl _, fun e _ => hhome e⟩
  · exact this.2.1
  · rintro id rest u v _ ⟨hnodup, htree, hrest⟩ hround
    obtain ⟨hid, hnodup⟩ := List.nodup_cons.mp hnodup
    refine ⟨hnodup, htree.trans (keepsTree_mergeEntry (hrest id List.mem_cons_self) hround), ?_⟩
    intro e he p hp
    have hne : e ≠ id := fun heq => hid (heq ▸ he)
    rw [homeOf_of_entryView ((mergeEntry_edits hround).other e hne)] at hp
    exact hrest e (List.mem_cons_of_mem id he) p hp

/-- The round for `id` in a quiet run, seen through the view of `id`. -/
theorem mergeEntries_visit (h : mergeEntries K base loc remote st = .ok st') (hq : Quiet st')
    (hid : id ∈ base.entries ∨ id ∈ loc.entries ∨ id ∈ remote.entries) :
    ∃ u v, KeepsGroups st.candidate u.candidate ∧
      mergeEntry K base loc remote u id = .ok v ∧ Quiet v ∧
      entryView u.candidate id = entryView st.candidate id ∧
      entryView st'.candidate id = entryView v.candidate id :=
  Loop.foldlM_visit (fun st : MergeState V => entryView st.candidate id)
    (fun u => KeepsGroups st.candidate u.candidate)
    (fun _ _ _ h hq => quiet_of_mergeEntry h hq)
    (fun _ _ _ _ _ hinv h => hinv.edit (mergeEntry_edits h))
    (fun _ _ hne _ _ _ _ h => (mergeEntry_edits h).other id (Ne.symm hne))
    (mem_allKeys3.mpr hid) (nodup_allKeys3 _ _ _) h hq (KeepsGroups.refl _)

/-- The loop fails unless it finds every entry of all three inputs. -/
theorem mergeEntries_spared (h : mergeEntries K base loc remote st = .ok st')
    (hb : id ∈ base.entries) (hl : id ∈ loc.entries) (hr : id ∈ remote.entries) :
    id ∈ st.candidate.entries := by
  obtain ⟨u, v, _, hround, _, hbefore, _⟩ := Loop.foldlM_visit (Q := fun _ => True)
    (fun st : MergeState V => entryView st.candidate id) (fun _ => True) (fun _ _ _ _ h => h)
    (fun _ _ _ _ _ _ _ => trivial)
    (fun _ _ hne _ _ _ _ h => (mergeEntry_edits h).other id (Ne.symm hne))
    (mem_allKeys3.mpr (Or.inl hb)) (nodup_allKeys3 _ _ _) h trivial trivial
  obtain ⟨b, hb⟩ := mem_iff_exists.mp hb
  obtain ⟨l, hl⟩ := mem_iff_exists.mp hl
  obtain ⟨r, hr⟩ := mem_iff_exists.mp hr
  have hclass : classifyEntry K base loc remote id =
      .existing (entryState K base b) (entryState K loc l) (entryState K remote r) :=
    classify_existing.mpr (by simp [hb, hl, hr])
  rw [mergeEntry, hclass] at hround
  exact (mem_entries_of_view hbefore).mp (mergeExistingEntry_cases hround).1

/-- An entry that is in no input is not looked at. -/
theorem mergeEntries_other (h : mergeEntries K base loc remote st = .ok st')
    (hid : ¬ (id ∈ base.entries ∨ id ∈ loc.entries ∨ id ∈ remote.entries)) :
    entryView st'.candidate id = entryView st.candidate id := by
  refine Loop.foldlM_keep (Q := fun _ => True)
    (fun st : MergeState V => entryView st.candidate id) (fun _ => True) (fun _ _ _ _ h => h)
    (fun _ _ _ _ _ _ _ => trivial) ?_ h trivial trivial
  intro i hi u v _ _ hround
  refine (mergeEntry_edits hround).other id ?_
  rintro rfl
  exact hid (mem_allKeys3.mp hi)

theorem mergeEntries_reconciled (h : mergeEntries K base loc remote st = .ok st') (hq : Quiet st')
    (id : EntryId) :
    Reconciled (entryIndex K base)[id]? (entryIndex K loc)[id]? (entryIndex K remote)[id]?
      (isDeleted base id.uuid) (isDeleted loc id.uuid) (isDeleted remote id.uuid) := by
  by_cases hid : id ∈ base.entries ∨ id ∈ loc.entries ∨ id ∈ remote.entries
  · obtain ⟨u, v, _, hround, hqv, _⟩ := mergeEntries_visit h hq hid
    exact mergeEntry_reconciled hround hqv
  · simp only [not_or] at hid
    constructor <;> simp [hid]

end Round

end NianPass.Kdbx
