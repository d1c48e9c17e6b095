import NianPass.Kdbx.Edits

/-
  The history of entries under the mutations of a document.

  The policy of a database bounds the number of snapshots of every entry
  (`HistoryBounded`; a missing or negative limit bounds nothing). Each kind of
  change keeps the bound, so every sequence of mutations does.

  A mutation that tracks an entry refuses, finds that the entry has what is asked
  for, or takes exactly one snapshot of it, before the edit, puts it in front of
  the history and drops what the policy does not keep (`Snapshots`). No other
  history moves.
-/
namespace NianPass.Kdbx

open Method

variable {V : Type}

namespace Database

/-- The snapshots of the entry `id`, the newest first. -/
def historyOf (db : Database V) (id : EntryId) : Option (List (EntryData V)) :=
  db.entries[id]?.map fun entry => entry.history.getD []

/-- No entry has more snapshots than the policy allows. -/
def HistoryBounded (db : Database V) : Prop :=
  ∀ limit, finiteHistoryLimit db = some limit →
    ∀ id snapshots, db.historyOf id = some snapshots → snapshots.length ≤ limit

end Database

section Bound
variable {db out : Database V} {uuid : Uuid}

/-- A change that keeps the policy and makes no history longer. -/
theorem HistoryBounded.of_shorter (h : db.HistoryBounded)
    (hlimit : finiteHistoryLimit out = finiteHistoryLimit db)
    (hhistory : ∀ id snapshots, out.historyOf id = some snapshots →
      ∃ longer, db.historyOf id = some longer ∧ snapshots.length ≤ longer.length) :
    out.HistoryBounded := by
  intro limit hl id snapshots hs
  obtain ⟨longer, hlonger, hle⟩ := hhistory id snapshots hs
  exact hle.trans (h limit (hlimit ▸ hl) id longer hlonger)

/-- A change that keeps the policy and every history. -/
theorem HistoryBounded.of_same (h : db.HistoryBounded)
    (hlimit : finiteHistoryLimit out = finiteHistoryLimit db)
    (hhistory : ∀ id, out.historyOf id = db.historyOf id) : out.HistoryBounded :=
  of_shorter h hlimit fun id snapshots hs => ⟨snapshots, hhistory id ▸ hs, le_refl _⟩

theorem length_kept {limit : Nat} (hl : finiteHistoryLimit db = some limit)
    (snapshots : List (EntryData V)) : (db.kept snapshots).length ≤ limit := by
  simp only [Database.kept, hl, List.length_take]
  omega

/-- The entry that was edited has what the policy keeps of its snapshots. -/
theorem TrackedEdit.historyOf_self {id : EntryId} {entry : Entry V} {data : EntryData V}
    (h : TrackedEdit db id entry data out) :
    out.historyOf id = some (db.kept (entry.toEntryData :: entry.history.getD [])) := by
  unfold Database.historyOf
  rw [h.entries, Std.ExtTreeMap.getElem?_insert_self]
  rfl

theorem TrackedEdit.historyOf_other {id other : EntryId} {entry : Entry V} {data : EntryData V}
    (h : TrackedEdit db id entry data out) (hne : other ≠ id) :
    out.historyOf other = db.historyOf other := by
  unfold Database.historyOf
  rw [h.entries, Std.ExtTreeMap.getElem?_insert]
  simp [hne.symm]

theorem TrackedEdit.bounded {id : EntryId} {entry : Entry V} {data : EntryData V}
    (h : TrackedEdit db id entry data out) (hdb : db.HistoryBounded) : out.HistoryBounded := by
  have hlimit : finiteHistoryLimit out = finiteHistoryLimit db := by
    unfold finiteHistoryLimit
    rw [h.metadata]
  intro limit hl other snapshots hs
  rw [hlimit] at hl
  by_cases hother : other = id
  · subst hother
    rw [h.historyOf_self] at hs
    cases hs
    exact length_kept hl _
  · rw [h.historyOf_other hother] at hs
    exact hdb limit hl other snapshots hs

/-- Editing an entry without touching its history. -/
theorem historyOf_editEntry (id other : EntryId) (edit : Entry V → Entry V)
    (hedit : ∀ entry, (edit entry).history = entry.history) :
    (db.editEntry id edit).historyOf other = db.historyOf other := by
  unfold Database.historyOf Database.editEntry
  dsimp only
  rw [Std.ExtTreeMap.getElem?_modify]
  split
  · case isTrue heq =>
    obtain rfl := Std.LawfulEqOrd.eq_of_compare heq
    rw [Option.map_map]
    congr 1
    funext entry
    simp [hedit]
  · rfl

theorem Draw.bounded (h : Draw uuid db out) (hdb : db.HistoryBounded) : out.HistoryBounded := by
  cases h with
  | entry parent entry table _ _ hhistory _ =>
    intro limit hl id snapshots hs
    by_cases hid : id = ⟨uuid⟩
    · subst hid
      -- The new entry has no snapshots.
      have hnew : snapshots = entry.history.getD [] := by
        simpa [Database.historyOf, Database.insertEntry, eq_comm] using hs
      rw [hnew, hhistory]
      exact Nat.zero_le limit
    · refine hdb limit hl id snapshots ?_
      rw [← hs]
      unfold Database.historyOf Database.insertEntry
      dsimp only
      rw [Std.ExtTreeMap.getElem?_insert]
      simp [Ne.symm hid]
  | group => exact HistoryBounded.of_same hdb rfl fun _ => rfl
  | icon id entry data icon _ h _ => exact h.bounded hdb

theorem length_pruneEntryHistory (limit : Nat) (entry : Entry V) :
    ((pruneEntryHistory limit entry).history.getD []).length ≤ limit := by
  unfold pruneEntryHistory
  split
  · case h_1 hnone => simp [hnone]
  · case h_2 history hsome =>
    split
    · case isTrue hle => simpa [hsome] using hle
    · simp only [Option.getD_some, List.length_take]
      omega

/-- Setting the policy enforces it. -/
theorem bounded_pruneAllEntryHistory (db : Database V) : (pruneAllEntryHistory db).HistoryBounded := by
  intro limit hl id snapshots hs
  have hlimit : finiteHistoryLimit db = some limit := by
    unfold pruneAllEntryHistory at hl
    split at hl <;> exact hl
  unfold pruneAllEntryHistory at hs
  simp only [hlimit, Database.historyOf, Std.ExtTreeMap.getElem?_map, Option.map_map] at hs
  obtain ⟨entry, -, rfl⟩ := Option.map_eq_some_iff.mp hs
  exact length_pruneEntryHistory limit entry

/-- Removing a group takes histories away and changes none. -/
theorem historyOf_withoutGroup {cleared : List (Meta V → Option Uuid)} {id : GroupId}
    (h : db.WithoutGroup cleared id out) {e : EntryId} {snapshots : List (EntryData V)} (hs : out.historyOf e = some snapshots) :
    db.historyOf e = some snapshots := by
  by_cases hgone : ∃ x, db.Below id x ∧ e ∈ db.childEntries x
  · obtain ⟨x, hx, he⟩ := hgone
    simp [Database.historyOf, h.entriesGone x e hx he] at hs
  · rw [← hs]
    unfold Database.historyOf
    rw [h.entriesKept e fun x hx he => hgone ⟨x, hx, he⟩]

theorem Still.bounded (h : Still db out) (hdb : db.HistoryBounded) : out.HistoryBounded := by
  cases h with
  | tracked id entry data _ h _ => exact h.bounded hdb
  | removeEntry id table time _ =>
    refine HistoryBounded.of_shorter hdb rfl fun other snapshots hs => ⟨snapshots, ?_, le_refl _⟩
    unfold Database.historyOf Database.eraseEntry at hs
    dsimp only at hs
    rw [Std.ExtTreeMap.getElem?_erase] at hs
    split at hs
    · cases hs
    · exact hs
  | editGroup id edit => exact HistoryBounded.of_same hdb rfl fun _ => rfl
  | removeGroup id without deleted _ _ hwithout _ =>
    obtain ⟨cleared, hwithout⟩ := hwithout
    refine HistoryBounded.of_shorter hdb ?_ fun other snapshots hs =>
      ⟨snapshots, historyOf_withoutGroup hwithout hs, le_refl _⟩
    have hlimit : without.metadata.historyMaxItems = db.metadata.historyMaxItems :=
      (congrArg Meta.historyMaxItems hwithout.metadata :)
    unfold finiteHistoryLimit
    rw [hlimit]
  | settings metadata hlimit =>
    refine HistoryBounded.of_same hdb ?_ fun _ => rfl
    unfold finiteHistoryLimit
    rw [hlimit]
  | historyPolicy metadata => exact bounded_pruneAllEntryHistory _

theorem Change.bounded (h : Change db out) (hdb : db.HistoryBounded) : out.HistoryBounded := by
  cases h with
  | still _ h => exact h.bounded hdb
  | moveEntry id target times _ _ =>
    refine HistoryBounded.of_same hdb rfl fun other => ?_
    have hmoved : (db.relocateEntry id target).historyOf other = db.historyOf other :=
      historyOf_editEntry id other
        (fun entry => { entry with parent := target, previousParent := some entry.parent })
        fun _ => rfl
    rw [← hmoved]
    exact historyOf_editEntry id other (fun entry => { entry with times := times entry.times })
      fun _ => rfl
  | moveGroup id target => exact HistoryBounded.of_same hdb rfl fun _ => rfl

theorem Edits.bounded (h : Edits uuid db out) (hdb : db.HistoryBounded) : out.HistoryBounded := by
  obtain ⟨mid, hmid, hrest⟩ := h
  have hfirst : mid.HistoryBounded := by
    rcases hmid with rfl | hdraw
    · exact hdb
    · exact hdraw.bounded hdb
  induction hrest with
  | refl => exact hfirst
  | tail _ hstep ih => exact hstep.bounded ih

end Bound

section Runs
variable (lib : Editing V)

/-- One call keeps the bound, whether it fails or not. -/
theorem perform_bounded (call : MutationCall) (doc : KdbxDocument V)
    (hdoc : doc.database.HistoryBounded) : (call.perform lib doc).2.database.HistoryBounded :=
  Edits.bounded (call.mutation.edits lib call.env doc) hdoc

theorem performAll_bounded (doc : KdbxDocument V) (hdoc : doc.database.HistoryBounded)
    (calls : List MutationCall) : (performAll lib doc calls).database.HistoryBounded := by
  induction calls generalizing doc with
  | nil => exact hdoc
  | cons call calls ih => exact ih _ (perform_bounded lib call doc hdoc)

/-- What becomes of `call`, which tracks the entry that `text` names, and of the histories. -/
inductive Snapshots (doc : KdbxDocument V) (call : MutationCall) (text : String) : Prop
  | refused (e : EditError) (h : call.perform lib doc = (.error e, doc))
  | kept (id : EntryId) (entry : Entry V) (hid : doc.database.findEntryId text = .ok id)
      (hfound : doc.database.entries[id]? = some entry)
      (hasked : call.mutation.asked lib doc.database entry.toEntryData)
      (h : call.perform lib doc = (.ok ⟨⟩, doc))
  | taken (id : EntryId) (entry : Entry V) (hid : doc.database.findEntryId text = .ok id)
      (hfound : doc.database.entries[id]? = some entry)
      (hnew : ¬ call.mutation.asked lib doc.database entry.toEntryData)
      (hok : (call.perform lib doc).1 = .ok ⟨⟩)
      (hself : (call.perform lib doc).2.database.historyOf id =
        some (doc.database.kept (entry.toEntryData :: entry.history.getD [])))
      (hothers : ∀ other ≠ id, (call.perform lib doc).2.database.historyOf other =
        doc.database.historyOf other)

/-- The committed edit of a call that tracks an entry. -/
theorem Effect.trackedEdit {env : Ambient} {doc : KdbxDocument V} {mutation : Mutation}
    {out : Database V} {text : String} (h : Effect lib env doc mutation out)
    (htracked : mutation.tracked = some text) : ∃ id entry data,
      doc.database.findEntryId text = .ok id ∧ TrackedEdit doc.database id entry data out ∧
        ¬ mutation.asked lib doc.database entry.toEntryData := by
  cases h with
  | tracked _ other id entry data _ hother hid h _ hnew _ =>
    obtain rfl := Option.some.inj (hother.symm.trans htracked)
    exact ⟨id, entry, data, hid, h, hnew⟩
  | restoreEntryHistory other historyIndex id entry source _ hid _ _ _ h _ =>
    cases htracked
    exact ⟨id, entry, _, hid, h, fun hasked => hasked⟩
  | _ => cases htracked

theorem perform_snapshots (call : MutationCall) {text : String}
    (htracked : call.mutation.tracked = some text) (doc : KdbxDocument V) :
    Snapshots lib doc call text := by
  have hother : ∀ id, call.mutation ≠ .duplicateEntry id := by
    intro id hid
    rw [hid] at htracked
    cases htracked
  have hcommits := call.mutation.commits lib call.env doc hother
  change call.mutation.Commits lib call.env doc (call.perform lib doc).1 (call.perform lib doc).2
    at hcommits
  generalize hresult : call.perform lib doc = result at hcommits
  obtain ⟨r, after⟩ := result
  cases hcommits with
  | refused e => exact .refused e hresult
  | kept a hidle =>
    obtain ⟨id, entry, hid, hfound, hasked⟩ := hidle text htracked
    exact .kept id entry hid hfound hasked hresult
  | changed a db heffect =>
    obtain ⟨id, entry, data, hid, hedit, hnew⟩ := heffect.trackedEdit lib htracked
    have hafter : (call.perform lib doc).2.database = db := by
      rw [hresult]
      exact markChanged_withDatabase doc db
    refine .taken id entry hid hedit.found hnew (congrArg Prod.fst hresult) ?_ fun other hne => ?_
    · rw [hafter]
      exact hedit.historyOf_self
    · rw [hafter]
      exact hedit.historyOf_other hne

/-- Over every sequence of mutations the policy bounds every history. A mutation that tracks an entry
refuses, or has nothing to do for the entry, or puts one snapshot of it as it was before the edit in
front of its history, drops what the policy does not keep and leaves the other histories alone. -/
theorem history_bounded_and_exact (doc : KdbxDocument V) (hdoc : doc.database.HistoryBounded)
    (calls : List MutationCall) :
    (performAll lib doc calls).database.HistoryBounded ∧
    ∀ (call : MutationCall) (text : String), call.mutation.tracked = some text →
      Snapshots lib (performAll lib doc calls) call text :=
  ⟨performAll_bounded lib doc hdoc calls, fun call _ htracked =>
    perform_snapshots lib call htracked (performAll lib doc calls)⟩

end Runs

/-! ## A sample -/

/-- An entry with one snapshot. -/
def taggedEntry : Entry Unit where
  parent := ⟨1⟩
  tags := ["new"]
  history := some [{ parent := ⟨1⟩, tags := ["old"] }]

/-- A vault with one entry, whose policy keeps one snapshot. -/
def sampleVault : KdbxDocument Unit := document
  { config := ()
    metadata := { historyMaxItems := some 1 }
    root := ⟨1⟩
    groups := mapOf [(⟨1⟩, { entries := [⟨2⟩] })]
    entries := mapOf [(⟨2⟩, taggedEntry)] }

/-- The text that names the entry of the sample. -/
def sampleEntry : String := "00000000-0000-0000-0000-000000000002"

theorem sampleVault_bounded : sampleVault.database.HistoryBounded := by
  intro limit hl id snapshots hs
  obtain rfl : 1 = limit := by simpa [finiteHistoryLimit, sampleVault, document] using hl
  simp only [Database.historyOf, sampleVault, document, mapOf, Std.ExtTreeMap.ofList_singleton,
    Std.ExtTreeMap.getElem?_insert] at hs
  split at hs
  · cases hs
    decide
  · cases hs

/-- Retitling the entry of the sample replaces its only snapshot by the entry as it was. -/
theorem history_bounded_and_exact_sample :
    let retitle : MutationCall := ⟨.setEntryTitle sampleEntry "a", ⟨5, 7⟩⟩
    let retag : MutationCall := ⟨.setEntryTags sampleEntry ["newer"], ⟨6, 8⟩⟩
    sampleVault.database.HistoryBounded ∧
    (performAll Editing.reference sampleVault [retitle]).database.HistoryBounded ∧
    Snapshots Editing.reference (performAll Editing.reference sampleVault [retitle]) retag sampleEntry ∧
    (performAll Editing.reference sampleVault [retitle]).database.historyOf ⟨2⟩ =
        some [{ parent := ⟨1⟩, tags := ["new"] }] := by
  intro retitle retag
  obtain ⟨hbounded, hexact⟩ :=
    history_bounded_and_exact Editing.reference sampleVault sampleVault_bounded [retitle]
  exact ⟨sampleVault_bounded, hbounded, hexact retag sampleEntry rfl, by decide +kernel⟩

end NianPass.Kdbx
