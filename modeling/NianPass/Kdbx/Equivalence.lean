import NianPass.Kdbx.Semantics
import NianPass.Kdbx.HistoryMerge

/-
  Semantic equality of databases is an equivalence that does not see the
  indexes of attachments.

  The comparison of the code goes through the left database only and counts on
  the right one. `databaseSemanticallyEq_iff` says what it amounts to: both
  databases have the same `view`, in which an attachment is its value. So it is an
  equivalence, and a renumbering of the indexes, which changes no view
  (`view_renumber`), cannot be seen. The children of a group are compared as sets.

  The attachment table is compared as a sorted list of values. The order is total
  and antisymmetric, so the list depends on nothing but how often a value occurs
  (`attachmentValues_perm`).
-/
namespace NianPass.Kdbx

variable {V : Type}

/-! ## What a database looks like -/

/-- What two entries are compared by: the parent, the entry itself, its history. -/
def wholeView (K : Keepass V) (db : Database V) (entry : Entry V) :=
  (entry.parent, snapshotView K db entry.toEntryData,
    (entry.history.getD []).map (snapshotView K db))

/-- What two groups are compared by: the order of the children is not. -/
def groupView (group : Group V) :=
  ({ group with groups := [], entries := [] }, group.groups.toFinset, group.entries.toFinset)

/-- What two databases are compared by. -/
structure Database.View (V : Type) where
  config : V
  metadata : Meta V
  deletedObjects : Map Uuid (Option Time)
  root : GroupId
  groups : GroupId → Option (Group V × Finset GroupId × Finset EntryId)
  entries : EntryId → Option (GroupId × (Option GroupId × EntryData V × Map String (Value Bytes)) ×
    List (Option GroupId × EntryData V × Map String (Value Bytes)))
  customIcons : Map CustomIconId CustomIcon
  attachments : List (Value Bytes)

def Database.view (K : Keepass V) (db : Database V) : Database.View V where
  config := db.config
  metadata := db.metadata
  deletedObjects := db.deletedObjects
  root := db.root
  groups id := db.groups[id]?.map groupView
  entries id := db.entries[id]?.map (wholeView K db)
  customIcons := db.customIcons
  attachments := attachmentValues db

section Views
variable [DecidableEq V] {K : Keepass V} {left right : Database V}

omit K left right in
theorem groupEq_iff {a b : Group V} : groupEq a b = true ↔ groupView a = groupView b := by
  unfold groupEq groupView
  rw [decide_eq_true_iff, Prod.mk.injEq, Prod.mk.injEq]

theorem entrySemanticallyEq_iff {a b : Entry V} :
    entrySemanticallyEq K left right a b = true ↔ wholeView K left a = wholeView K right b := by
  unfold entrySemanticallyEq wholeView
  rw [decide_eq_true_iff, zip_semanticallyEq_iff, historyEntrySemanticallyEq_iff]
  constructor
  · rintro ⟨hparent, hdata, hhistory⟩
    rw [hparent, hdata, hhistory]
  · intro h
    exact ⟨congrArg (·.1) h, congrArg (·.2.1) h, congrArg (·.2.2) h⟩

omit [DecidableEq V] in
/-- Maps of one size have the same keys as soon as one has the keys of the other. -/
theorem mem_iff_of_size {κ ν : Type} [Ord κ] [Std.TransOrd κ] [Std.LawfulEqOrd κ] {m m' : Map κ ν}
    (hsize : m.size = m'.size) (hsub : ∀ k ∈ m, k ∈ m') (k : κ) : k ∈ m ↔ k ∈ m' := by
  have hsub' : m.keys ⊆ m'.keys := fun k hk =>
    Std.ExtTreeMap.mem_keys.mpr (hsub k (Std.ExtTreeMap.mem_keys.mp hk))
  have hlength : m.keys.length = m'.keys.length := by
    rw [Std.ExtTreeMap.length_keys, Std.ExtTreeMap.length_keys, hsize]
  have hback := (length_eq_iff_subset Std.ExtTreeMap.nodup_keys Std.ExtTreeMap.nodup_keys hsub').mp
    hlength
  exact ⟨hsub k, fun hk => Std.ExtTreeMap.mem_keys.mp (hback (Std.ExtTreeMap.mem_keys.mpr hk))⟩

omit [DecidableEq V] in
/-- A loop over one map that finds every key in the other, and what it asks for there, decides
whether both show the same, if their sizes agree. -/
theorem sameOnKeys_iff {κ ν α : Type} [Ord κ] [Std.TransOrd κ] [Std.LawfulEqOrd κ] {m m' : Map κ ν}
    {f g : ν → α} :
    (m.size = m'.size ∧ ∀ (k : κ) (v : ν), m[k]? = some v → ∃ w, m'[k]? = some w ∧ f v = g w) ↔
      ∀ k : κ, m[k]?.map f = m'[k]?.map g := by
  constructor
  · rintro ⟨hsize, hall⟩ k
    have hkeys := mem_iff_of_size hsize fun k hk => by
      obtain ⟨v, hv⟩ := mem_iff_exists.mp hk
      obtain ⟨w, hw, -⟩ := hall k v hv
      exact mem_iff_exists.mpr ⟨w, hw⟩
    by_cases hk : k ∈ m
    · obtain ⟨v, hv⟩ := mem_iff_exists.mp hk
      obtain ⟨w, hw, heq⟩ := hall k v hv
      rw [hv, hw, Option.map_some, Option.map_some, heq]
    · rw [Std.ExtTreeMap.getElem?_eq_none hk,
        Std.ExtTreeMap.getElem?_eq_none (fun h => hk ((hkeys k).mpr h))]
      rfl
  · intro hsame
    have hkeys : ∀ k, k ∈ m ↔ k ∈ m' := fun k => mem_iff_of_map_eq (hsame k)
    refine ⟨?_, ?_⟩
    · have hperm : m.keys.Perm m'.keys := by
        rw [List.perm_ext_iff_of_nodup Std.ExtTreeMap.nodup_keys Std.ExtTreeMap.nodup_keys]
        intro k
        rw [Std.ExtTreeMap.mem_keys, Std.ExtTreeMap.mem_keys, hkeys]
      rw [← Std.ExtTreeMap.length_keys, ← Std.ExtTreeMap.length_keys, hperm.length_eq]
    · intro k v hv
      obtain ⟨w, hw⟩ := mem_iff_exists.mp ((hkeys k).mp (mem_iff_exists.mpr ⟨v, hv⟩))
      have hk := hsame k
      rw [hv, hw] at hk
      exact ⟨w, hw, Option.some.inj hk⟩

theorem databaseSemanticallyEq_iff :
    databaseSemanticallyEq K left right = true ↔ left.view K = right.view K := by
  have hgroups : (left.groups.size = right.groups.size ∧
      ∀ (id : GroupId) (group : Group V), left.groups[id]? = some group →
        ∃ other, right.groups[id]? = some other ∧ groupEq group other = true) ↔
      (left.view K).groups = (right.view K).groups := by
    simp only [groupEq_iff, sameOnKeys_iff]
    exact funext_iff.symm
  have hentries : (left.entries.size = right.entries.size ∧
      ∀ (id : EntryId) (entry : Entry V), left.entries[id]? = some entry →
        ∃ other, right.entries[id]? = some other ∧
          entrySemanticallyEq K left right entry other = true) ↔
      (left.view K).entries = (right.view K).entries := by
    simp only [entrySemanticallyEq_iff, sameOnKeys_iff]
    exact funext_iff.symm
  unfold databaseSemanticallyEq
  rw [decide_eq_true_iff, Database.view, Database.view, Database.View.mk.injEq]
  simp only [List.all_eq_true, Prod.forall,
    Std.ExtTreeMap.mem_toList_iff_getElem?_eq_some, matches_group_iff, matches_entry_iff]
  have hsameGroups : (left.view K).groups = (right.view K).groups ↔
      (fun id => left.groups[id]?.map groupView) = fun id => right.groups[id]?.map groupView := Iff.rfl
  have hsame : (left.view K).entries = (right.view K).entries ↔
      (fun id => left.entries[id]?.map (wholeView K left)) =
        fun id => right.entries[id]?.map (wholeView K right) := Iff.rfl
  rw [← hsameGroups, ← hgroups, ← hsame, ← hentries]
  tauto

end Views

/-! ## Renumbering the attachments -/

section Renumber
variable (σ : AttachmentId → AttachmentId)

def EntryData.renumber (data : EntryData V) : EntryData V :=
  { data with attachments := data.attachments.map fun _ a => σ a }

def Entry.renumber (entry : Entry V) : Entry V :=
  { entry.toEntryData.renumber σ with
    history := entry.history.map (·.map (EntryData.renumber σ)) }

/-- The database under new indexes: `σ a` takes the place of `a` in the attachment table, in every
entry and in every snapshot. -/
def Database.renumber (db : Database V) : Database V :=
  { db with
    attachments := .ofList (db.attachments.toList.map fun item => (σ item.1, item.2))
    entries := db.entries.map fun _ entry => entry.renumber σ }

end Renumber

section Invariance
variable {σ : AttachmentId → AttachmentId} {db : Database V}

theorem mem_renumbered {a : AttachmentId} {value : Value Bytes} (hσ : Function.Injective σ) :
    (σ a, value) ∈ db.attachments.toList.map (fun item => (σ item.1, item.2)) ↔
      db.attachments[a]? = some value := by
  rw [← Std.ExtTreeMap.mem_toList_iff_getElem?_eq_some, List.mem_map]
  constructor
  · rintro ⟨⟨a', value'⟩, hmem, heq⟩
    obtain ⟨ha, rfl⟩ := Prod.mk.inj heq
    obtain rfl := hσ ha
    exact hmem
  · intro hmem
    exact ⟨_, hmem, rfl⟩

theorem getElem?_renumber (hσ : Function.Injective σ) (a : AttachmentId) :
    (db.renumber σ).attachments[σ a]? = db.attachments[a]? := by
  have hdistinct : (db.attachments.toList.map fun item => (σ item.1, item.2)).Pairwise
      fun a b => ¬ compare a.1 b.1 = .eq := by
    rw [List.pairwise_map]
    refine Std.ExtTreeMap.distinct_keys_toList.imp ?_
    intro item other hne heq
    exact hne (compare_eq_iff_eq.mpr (hσ (compare_eq_iff_eq.mp heq)))
  cases ha : db.attachments[a]? with
  | some value =>
    exact Std.ExtTreeMap.getElem?_ofList_of_mem (compare_eq_iff_eq.mpr rfl) hdistinct
      ((mem_renumbered hσ).mpr ha)
  | none =>
    apply Std.ExtTreeMap.getElem?_ofList_of_contains_eq_false
    rw [List.contains_eq_mem, decide_eq_false_iff_not]
    intro hmem
    obtain ⟨⟨a', value⟩, hmem, rfl⟩ := List.mem_map.mp hmem
    exact absurd (ha.symm.trans ((mem_renumbered hσ).mp hmem)) (by simp)

theorem namedAttachments_renumber (hσ : Function.Injective σ) (data : EntryData V) :
    namedAttachments (db.renumber σ) (data.renumber σ) = namedAttachments db data := by
  apply Std.ExtTreeMap.ext_getElem?
  intro name
  rw [getElem?_namedAttachments, getElem?_namedAttachments]
  show (data.attachments.map fun _ a => σ a)[name]?.bind _ = _
  rw [Std.ExtTreeMap.getElem?_map]
  cases data.attachments[name]? with
  | none => rfl
  | some a => exact getElem?_renumber hσ a

variable {K : Keepass V}

theorem snapshotView_renumber (hlookup : LooksUp K) (hσ : Function.Injective σ)
    (data : EntryData V) :
    snapshotView K (db.renumber σ) (data.renumber σ) = snapshotView K db data := by
  unfold snapshotView
  rw [namedAttachments_renumber hσ, hlookup.eq_filter, hlookup.eq_filter]
  rfl

theorem wholeView_renumber (hlookup : LooksUp K) (hσ : Function.Injective σ) (entry : Entry V) :
    wholeView K (db.renumber σ) (entry.renumber σ) = wholeView K db entry := by
  have hhistory : ((entry.renumber σ).history.getD []).map (snapshotView K (db.renumber σ)) =
      (entry.history.getD []).map (snapshotView K db) := by
    unfold Entry.renumber
    cases entry.history with
    | none => rfl
    | some snapshots =>
      show (snapshots.map (EntryData.renumber σ)).map _ = _
      rw [List.map_map]
      exact List.map_congr_left fun data _ => snapshotView_renumber hlookup hσ data
  unfold wholeView
  rw [hhistory]
  exact congrArg (fun view => (entry.parent, view, _))
    (snapshotView_renumber hlookup hσ entry.toEntryData)

end Invariance

/-! ## The order of the attachment values -/

theorem attachmentLe_eq (left right : Value Bytes) : attachmentLe left right =
    (compareLex (compareOn (·.isProtected)) (compareOn (·.get)) left right).isLE := rfl

/-- Sorting forgets in which order the values were found. -/
theorem mergeSort_attachmentLe_perm {values others : List (Value Bytes)} (h : values.Perm others) :
    values.mergeSort attachmentLe = others.mergeSort attachmentLe := by
  have htrans : ∀ a b c : Value Bytes, attachmentLe a b = true → attachmentLe b c = true →
      attachmentLe a c = true := by
    intro a b c
    simp only [attachmentLe_eq]
    exact Std.TransCmp.isLE_trans
  have htotal : ∀ a b : Value Bytes, (attachmentLe a b || attachmentLe b a) = true := by
    intro a b
    simp only [attachmentLe_eq, Bool.or_eq_true]
    by_contra hnone
    have hab := Std.OrientedCmp.lt_of_not_isLE fun h => hnone (Or.inr h)
    exact hnone (Or.inl (by rw [hab]; rfl))
  have hantisymm : ∀ a b : Value Bytes, attachmentLe a b = true → attachmentLe b a = true →
      a = b := by
    intro a b hab hba
    rw [attachmentLe_eq] at hab hba
    have heq := Std.OrientedCmp.isLE_antisymm hab hba
    obtain ⟨hprotected, hget⟩ := compareLex_eq_eq.mp heq
    obtain ⟨isProtected, bytes⟩ := a
    obtain ⟨isProtected', bytes'⟩ := b
    obtain rfl : isProtected = isProtected' := Std.LawfulEqOrd.eq_of_compare hprotected
    obtain rfl : bytes = bytes' := Std.LawfulEqOrd.eq_of_compare hget
    rfl
  exact List.Perm.eq_of_pairwise (fun a b _ _ hab hba => hantisymm a b hab hba)
    (List.pairwise_mergeSort htrans htotal values) (List.pairwise_mergeSort htrans htotal others)
    (((List.mergeSort_perm values _).trans h).trans (List.mergeSort_perm others _).symm)

theorem attachmentValues_renumber (σ : Equiv.Perm AttachmentId) (db : Database V) :
    attachmentValues (db.renumber σ) = attachmentValues db := by
  apply mergeSort_attachmentLe_perm
  have hnodup : ∀ m : Map AttachmentId (Value Bytes), m.toList.Nodup := by
    intro m
    refine Std.ExtTreeMap.distinct_keys_toList.imp ?_
    rintro a b hne rfl
    exact hne (compare_eq_iff_eq.mpr rfl)
  have hinjective : Function.Injective fun item : AttachmentId × Value Bytes =>
      (σ item.1, item.2) := by
    intro item other h
    obtain ⟨ha, hvalue⟩ := Prod.mk.inj h
    exact Prod.ext (σ.injective ha) hvalue
  have hperm : (db.renumber σ).attachments.toList.Perm
      (db.attachments.toList.map fun item => (σ item.1, item.2)) := by
    rw [List.perm_ext_iff_of_nodup (hnodup _) ((hnodup _).map hinjective)]
    rintro ⟨b, value⟩
    obtain ⟨a, rfl⟩ := σ.surjective b
    rw [mem_renumbered σ.injective, Std.ExtTreeMap.mem_toList_iff_getElem?_eq_some,
      getElem?_renumber σ.injective]
  have hvalues := hperm.map Prod.snd
  rwa [List.map_map] at hvalues

/-! ## The equivalence -/

/-- A renumbering of the attachments changes nothing that databases are compared by. -/
theorem view_renumber {K : Keepass V} (hlookup : LooksUp K) (σ : Equiv.Perm AttachmentId)
    (db : Database V) : (db.renumber σ).view K = db.view K := by
  have hentries : (fun id : EntryId =>
      (db.renumber σ).entries[id]?.map (wholeView K (db.renumber σ))) =
      fun id => db.entries[id]?.map (wholeView K db) := by
    funext id
    show (db.entries.map fun _ entry => entry.renumber σ)[id]?.map _ = _
    rw [Std.ExtTreeMap.getElem?_map, Option.map_map]
    exact congrArg (Option.map · db.entries[id]?)
      (funext fun entry => wholeView_renumber hlookup σ.injective entry)
  unfold Database.view
  rw [hentries, attachmentValues_renumber]
  rfl

/-- `database_semantically_eq` is an equivalence, and renumbering the attachments of either side
makes no difference to it. -/
theorem databaseSemanticallyEq_equivalence [DecidableEq V] {K : Keepass V} (hlookup : LooksUp K) :
    Equivalence (fun left right : Database V => databaseSemanticallyEq K left right = true) ∧
      (∀ (σ : Equiv.Perm AttachmentId) (db : Database V),
        databaseSemanticallyEq K db (db.renumber σ) = true) ∧
      ∀ (σ τ : Equiv.Perm AttachmentId) (left right : Database V),
        databaseSemanticallyEq K (left.renumber σ) (right.renumber τ) =
          databaseSemanticallyEq K left right := by
  refine ⟨⟨?_, ?_, ?_⟩, ?_, ?_⟩
  · exact fun db => databaseSemanticallyEq_refl K db
  · intro left right h
    exact databaseSemanticallyEq_iff.mpr (databaseSemanticallyEq_iff.mp h).symm
  · intro left middle right h h'
    exact databaseSemanticallyEq_iff.mpr
      ((databaseSemanticallyEq_iff.mp h).trans (databaseSemanticallyEq_iff.mp h'))
  · intro σ db
    exact databaseSemanticallyEq_iff.mpr (view_renumber hlookup σ db).symm
  · intro σ τ left right
    rw [Bool.eq_iff_iff, databaseSemanticallyEq_iff, databaseSemanticallyEq_iff,
      view_renumber hlookup, view_renumber hlookup]

/-- Two entries that share an attachment, and one of them had under another name before. -/
def attachedDatabase : Database Unit :=
  { config := ()
    root := ⟨1⟩
    groups := mapOf [(⟨1⟩, { entries := [⟨2⟩, ⟨3⟩] })]
    entries := mapOf [
      (⟨2⟩, { parent := ⟨1⟩, attachments := mapOf [("key", 0), ("note", 1)] }),
      (⟨3⟩, { parent := ⟨1⟩, attachments := mapOf [("note", 1)],
              history := some [{ parent := ⟨1⟩, attachments := mapOf [("old", 1)] }] })]
    attachments := mapOf [(0, ⟨true, [1, 2]⟩), (1, ⟨false, [3]⟩)] }

set_option maxRecDepth 100000 in
theorem databaseSemanticallyEq_equivalence_attached :
    let renumbered := attachedDatabase.renumber (Equiv.swap 0 1)
    renumbered.attachments ≠ attachedDatabase.attachments ∧
      databaseSemanticallyEq reference renumbered attachedDatabase = true := by
  intro renumbered
  obtain ⟨hequivalence, hrenumber, -⟩ :=
    @databaseSemanticallyEq_equivalence Unit _ reference looksUp_reference
  refine ⟨by decide +kernel, ?_⟩
  exact hequivalence.symm (hrenumber (Equiv.swap 0 1) attachedDatabase)

end NianPass.Kdbx
