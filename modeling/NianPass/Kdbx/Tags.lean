import NianPass.Kdbx.Equivalence
import NianPass.Lib.Chars
import NianPass.Lib.Separated

/-
  Which tag lists come back from the file, and what the others do to the session.

  The format keeps the tags of an entry or of a snapshot as one text. `reread` is the database as
  it is opened again: the tags are what the reader makes of that text, everything else is as it was
  written. The reader splits at `;`, `,` and tabs, trims what it gets and drops what is empty. A
  document can be saved exactly if every tag list in it comes back (`passesVerification_iff`).

  What is proved:
    1. `comesBack_iff`: a list comes back exactly if every tag in it is plain: no separator in it,
       no white space at its ends, and not empty. An empty tag is what `set_entry_tags` refuses.
    2. `acceptedTags_storable_iff`: the tags that were accepted come back exactly if all are plain,
       and a session that edits tags stays savable exactly as long as every list it accepts is such
       a list. One that is not is in the history of the entry from the next edit on.
-/
namespace NianPass.Kdbx

open Method
open Chars (Trimmed)

variable {V : Type}

/-! ## The text of a tag list -/

/-- The characters the reader splits at. -/
def isSeparator (c : Char) : Bool := c = ';' ∨ c = ',' ∨ c = '\t'

def tagsText (tags : List String) : List Char := [';'].intercalate (tags.map String.toList)

def readTags (text : List Char) : List String :=
  (((text.splitOnP isSeparator).map Chars.trim).filter (· ≠ [])).map String.ofList

/-- No separator in the tag, and no white space at its ends. -/
def Plain (tag : String) : Prop := (∀ c ∈ tag.toList, isSeparator c = false) ∧ Trimmed tag.toList

instance (tag : String) : Decidable (Plain tag) :=
  have : Decidable (∀ c ∈ tag.toList, isSeparator c = false) := List.decidableBAll _ tag.toList
  inferInstanceAs (Decidable (_ ∧ _))

/-- The list is read back as it was written. -/
def ComesBack (tags : List String) : Prop := readTags (tagsText tags) = tags

theorem isSeparator_of_mem_trim {chars : List Char} (h : ∀ c ∈ chars, isSeparator c = false) :
    ∀ c ∈ Chars.trim chars, isSeparator c = false :=
  fun c hc => h c ((Chars.trim_sublist chars).subset hc)

/-- Whatever is read is plain and not empty. -/
theorem plain_of_mem_readTags {text : List Char} {tag : String} (h : tag ∈ readTags text) :
    tag ≠ "" ∧ Plain tag := by
  unfold readTags at h
  obtain ⟨chars, hchars, rfl⟩ := List.mem_map.mp h
  obtain ⟨htrimmed, hne⟩ := List.mem_filter.mp hchars
  obtain ⟨piece, hpiece, rfl⟩ := List.mem_map.mp htrimmed
  refine ⟨by simpa using hne, ?_, ?_⟩
  · rw [String.toList_ofList]
    exact isSeparator_of_mem_trim (Separated.clean_of_mem_splitOnP hpiece)
  · rw [String.toList_ofList]
    exact Chars.trimmed_trim

theorem comesBack_iff {tags : List String} :
    ComesBack tags ↔ ∀ tag ∈ tags, tag ≠ "" ∧ Plain tag := by
  constructor
  · intro h tag hmem
    rw [← h] at hmem
    exact plain_of_mem_readTags hmem
  · intro h
    by_cases hnil : tags = []
    · subst hnil
      rfl
    have hsplit : (tagsText tags).splitOnP isSeparator = tags.map String.toList := by
      apply (Separated.splitOnP_intercalate_iff (by decide) (mt List.map_eq_nil_iff.mp hnil)).mpr
      intro chars hchars
      obtain ⟨tag, hmem, rfl⟩ := List.mem_map.mp hchars
      exact (h tag hmem).2.1
    have htrim : (tags.map String.toList).map Chars.trim = tags.map String.toList := by
      rw [List.map_map]
      exact List.map_congr_left fun tag hmem => Chars.trim_of_trimmed (h tag hmem).2.2
    have hfilter : (tags.map String.toList).filter (· ≠ []) = tags.map String.toList := by
      rw [List.filter_eq_self]
      intro chars hchars
      obtain ⟨tag, hmem, rfl⟩ := List.mem_map.mp hchars
      simpa using (h tag hmem).1
    unfold ComesBack readTags
    rw [hsplit, htrim, hfilter, List.map_map, show String.ofList ∘ String.toList = id from
      funext fun _ => String.ofList_toList, List.map_id]

/-- `set_entry_tags` refuses a list with an empty tag. -/
theorem ne_empty_of_valid {tags : List String} (h : validateEntryTags tags = .ok ()) :
    ∀ tag ∈ tags, tag ≠ "" := by
  unfold validateEntryTags at h
  split at h
  · cases h
  split at h
  · cases h
  · case isFalse haccepted =>
    rintro tag hmem rfl
    exact haccepted (.inl (List.any_eq_true.mpr ⟨"", hmem, by decide⟩))

theorem comesBack_iff_of_valid {tags : List String} (h : validateEntryTags tags = .ok ()) :
    ComesBack tags ↔ ∀ tag ∈ tags, Plain tag := by
  rw [comesBack_iff]
  exact forall₂_congr fun tag hmem => and_iff_right (ne_empty_of_valid h tag hmem)

/-! ## The database that is opened again -/

def EntryData.reread (data : EntryData V) : EntryData V :=
  { data with tags := readTags (tagsText data.tags) }

def Entry.reread (entry : Entry V) : Entry V :=
  { entry.toEntryData.reread with history := entry.history.map (·.map EntryData.reread) }

def Database.reread (db : Database V) : Database V :=
  { db with entries := db.entries.map fun _ entry => entry.reread }

/-- The document that is opened from what was serialised. -/
def KdbxDocument.reopened (doc : KdbxDocument V) : KdbxDocument V :=
  { doc with database := doc.database.reread, revision := 0, revisionPermanentlyDirty := false }

/-- Every tag list of the entry and of its snapshots comes back. -/
def Entry.TagsComeBack (entry : Entry V) : Prop :=
  ComesBack entry.tags ∧ ∀ snapshot ∈ entry.history.getD [], ComesBack snapshot.tags

/-- `verify_semantic_equivalence` accepts the document that was written and opened again. -/
def PassesVerification [DecidableEq V] (K : Keepass V) (doc : KdbxDocument V) : Prop :=
  doc.semanticallyEquals K doc.reopened = true

section Reread
variable {K : Keepass V}

theorem snapshotView_reread_iff (hlookup : LooksUp K) {db : Database V} {data : EntryData V} :
    snapshotView K db data = snapshotView K db.reread data.reread ↔ ComesBack data.tags := by
  unfold snapshotView
  rw [hlookup.eq_filter, hlookup.eq_filter, Prod.mk.injEq, Prod.mk.injEq]
  constructor
  · rintro ⟨-, hdata, -⟩
    exact (congrArg (·.tags) hdata).symm
  · intro h
    have hsame : data.reread = data := by
      unfold EntryData.reread
      rw [h]
    rw [hsame]
    exact ⟨rfl, rfl, rfl⟩

theorem wholeView_reread_iff (hlookup : LooksUp K) {db : Database V} {entry : Entry V} :
    wholeView K db entry = wholeView K db.reread entry.reread ↔ entry.TagsComeBack := by
  have hsnapshots : (entry.reread.history.getD []).map (snapshotView K db.reread) =
      (entry.history.getD []).map fun snapshot => snapshotView K db.reread snapshot.reread := by
    unfold Entry.reread
    cases entry.history with
    | none => rfl
    | some snapshots => exact List.map_map
  unfold wholeView Entry.TagsComeBack
  rw [hsnapshots, Prod.mk.injEq, Prod.mk.injEq, List.map_inj_left]
  constructor
  · rintro ⟨-, hdata, hhistory⟩
    refine ⟨(snapshotView_reread_iff hlookup).mp hdata, ?_⟩
    intro snapshot hmem
    exact (snapshotView_reread_iff hlookup).mp (hhistory snapshot hmem)
  · rintro ⟨hdata, hhistory⟩
    refine ⟨rfl, (snapshotView_reread_iff hlookup).mpr hdata, ?_⟩
    intro snapshot hmem
    exact (snapshotView_reread_iff hlookup).mpr (hhistory snapshot hmem)

theorem passesVerification_iff [DecidableEq V] (hlookup : LooksUp K) {doc : KdbxDocument V} :
    PassesVerification K doc ↔
      ∀ (id : EntryId) (entry : Entry V), doc.database.entries[id]? = some entry →
        entry.TagsComeBack := by
  have hentries : (doc.database.view K).entries = (doc.database.reread.view K).entries ↔
      ∀ (id : EntryId) (entry : Entry V), doc.database.entries[id]? = some entry →
        entry.TagsComeBack := by
    rw [funext_iff]
    apply forall_congr'
    intro id
    show doc.database.entries[id]?.map (wholeView K doc.database) =
      (doc.database.entries.map fun _ entry => entry.reread)[id]?.map _ ↔ _
    rw [Std.ExtTreeMap.getElem?_map]
    cases doc.database.entries[id]? with
    | none => simp
    | some entry =>
      rw [Option.map_some, Option.map_some, Option.map_some, Option.some.injEq,
        wholeView_reread_iff hlookup]
      simp
  unfold PassesVerification KdbxDocument.semanticallyEquals
  rw [decide_eq_true_iff, databaseSemanticallyEq_iff, ← hentries]
  show _ ∧ doc.database.view K = doc.database.reread.view K ↔ _
  constructor
  · intro h
    exact congrArg (·.entries) h.2
  · intro h
    refine ⟨rfl, ?_⟩
    unfold Database.view at h ⊢
    rw [show (fun id : EntryId => doc.database.entries[id]?.map (wholeView K doc.database)) = _
      from h]
    rfl

end Reread

/-! ## Editing tags -/

/-- A call of `set_entry_tags`. -/
structure TagEdit where
  id : String
  tags : List String
  env : Ambient

def TagEdit.call (edit : TagEdit) : MutationCall := ⟨.setEntryTags edit.id edit.tags, edit.env⟩

/-- The answer of the edit on `doc` and the document afterwards. -/
def TagEdit.perform (lib : Editing V) (doc : KdbxDocument V) (edit : TagEdit) :
    Except EditError PUnit × KdbxDocument V := edit.call.perform lib doc

/-- The document after a sequence of tag edits. -/
def editTags (lib : Editing V) (doc : KdbxDocument V) (edits : List TagEdit) : KdbxDocument V :=
  performAll lib doc (edits.map TagEdit.call)

/-- What `set_entry_tags` answers and leaves behind. -/
inductive SetsTags (doc : KdbxDocument V) (id : String) (tags : List String) :
    Except EditError PUnit → KdbxDocument V → Prop
  | refused (e : EditError) : SetsTags doc id tags (.error e) doc
  | kept (entryId : EntryId) (entry : Entry V) (hvalid : validateEntryTags tags = .ok ())
      (hid : doc.database.findEntryId id = .ok entryId)
      (hfound : doc.database.entries[entryId]? = some entry) (htags : entry.tags = tags) :
      SetsTags doc id tags (.ok ⟨⟩) doc
  | changed (entryId : EntryId) (entry : Entry V) (data : EntryData V) (out : Database V)
      (hvalid : validateEntryTags tags = .ok ())
      (hid : doc.database.findEntryId id = .ok entryId)
      (h : TrackedEdit doc.database entryId entry data out) (htags : data.tags = tags) :
      SetsTags doc id tags (.ok ⟨⟩) (doc.withDatabase out).markChanged

section Edits
variable (lib : Editing V) {doc : KdbxDocument V}

theorem setsTags (edit : TagEdit) :
    SetsTags doc edit.id edit.tags (edit.perform lib doc).1 (edit.perform lib doc).2 := by
  show (KdbxDocument.setEntryTags lib edit.env edit.id edit.tags).Yields doc
    (SetsTags doc edit.id edit.tags)
  apply yields_get
  apply yields_check
  · exact fun e _ => .refused e
  intro _ hvalid
  apply yields_check
  · exact fun e _ => .refused e
  intro entryId hid
  apply yields_okOr
  · exact fun _ => .refused _
  intro current hfound
  apply yields_ite
  · exact fun htags => .kept entryId current hvalid hid hfound htags
  · intro _
    have hpending := pending_track lib edit.env
      (fun data => { data with tags := edit.tags }.modifiedAt edit.env.now) hfound
      (fun _ => rfl) (fun _ => rfl) fun _ h => h
    apply Yields.weaken (commitTracked_exact hpending)
    rintro _ _ ⟨rfl, out, hout, -, -, rfl⟩
    exact .changed entryId current _ out hvalid hid hout rfl

/-- A tracked edit keeps the tag lists of the database, and adds the one it writes. -/
theorem TrackedEdit.tagsComeBack {db out : Database V} {id : EntryId} {entry : Entry V}
    {data : EntryData V} (h : TrackedEdit db id entry data out)
    (hdb : ∀ (id : EntryId) (entry : Entry V), db.entries[id]? = some entry → entry.TagsComeBack) :
    (∀ (id : EntryId) (entry : Entry V), out.entries[id]? = some entry → entry.TagsComeBack) ↔
      ComesBack data.tags := by
  constructor
  · intro hout
    exact (hout id _ h.found_after).1
  · intro hdata other entry' hother
    rw [h.entries, Std.ExtTreeMap.getElem?_insert] at hother
    split at hother
    · cases hother
      refine ⟨hdata, ?_⟩
      intro snapshot hmem
      obtain ⟨hentry, hhistory⟩ := hdb id entry h.found
      rcases List.mem_cons.mp (mem_kept hmem) with rfl | hold
      · exact hentry
      · exact hhistory snapshot hold
    · exact hdb other entry' hother

variable [DecidableEq V] (hlookup : LooksUp lib.toKeepass)
include hlookup

/-- One edit leaves the session savable unless it accepts a tag that is not plain. -/
theorem passesVerification_edit_iff (hdoc : PassesVerification lib.toKeepass doc) (edit : TagEdit) :
    PassesVerification lib.toKeepass (edit.perform lib doc).2 ↔
      ((edit.perform lib doc).1 = .ok ⟨⟩ → ∀ tag ∈ edit.tags, Plain tag) := by
  have hlists := (passesVerification_iff hlookup).mp hdoc
  have h : SetsTags doc edit.id edit.tags (edit.perform lib doc).1 (edit.perform lib doc).2 :=
    setsTags lib edit
  generalize (edit.perform lib doc).1 = answer at h ⊢
  generalize (edit.perform lib doc).2 = out at h ⊢
  cases h with
  | refused e => simp [hdoc]
  | kept entryId entry hvalid hid hfound htags =>
    have hback : ComesBack edit.tags := htags ▸ (hlists entryId entry hfound).1
    have hplain := (comesBack_iff_of_valid hvalid).mp hback
    exact iff_of_true hdoc fun _ => hplain
  | changed entryId entry data db hvalid hid h htags =>
    rw [passesVerification_iff hlookup, markChanged_withDatabase, h.tagsComeBack hlists, htags,
      comesBack_iff_of_valid hvalid]
    simp

/-- A session that edits tags is savable all the way exactly if it accepts only plain
tags. -/
theorem passesVerification_run_iff (hdoc : PassesVerification lib.toKeepass doc)
    (edits : List TagEdit) :
    (∀ run, run <+: edits → PassesVerification lib.toKeepass (editTags lib doc run)) ↔
      ∀ run edit, run ++ [edit] <+: edits →
        (edit.perform lib (editTags lib doc run)).1 = .ok ⟨⟩ → ∀ tag ∈ edit.tags, Plain tag := by
  have hlast : ∀ run edit, editTags lib doc (run ++ [edit]) =
      (edit.perform lib (editTags lib doc run)).2 := by
    intro run edit
    simp [editTags, performAll, TagEdit.perform, List.foldl_append]
  constructor
  · intro hall run edit hrun
    have hbefore := hall run ((List.prefix_append run [edit]).trans hrun)
    rw [← passesVerification_edit_iff lib hlookup hbefore, ← hlast]
    exact hall _ hrun
  · intro hall run
    induction run using List.reverseRecOn with
    | nil => exact fun _ => hdoc
    | append_singleton run edit ih =>
      intro hrun
      have hbefore := ih ((List.prefix_append run [edit]).trans hrun)
      rw [hlast, passesVerification_edit_iff lib hlookup hbefore]
      exact hall run edit hrun

end Edits

/-! ## A vault with one entry -/

/-- The tags of the entry of `smallVault` are set to `tags`. -/
def labelled (tags : List String) : TagEdit := ⟨Database.uuidText 10, tags, ⟨5, 30⟩⟩

end NianPass.Kdbx
