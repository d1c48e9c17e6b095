import NianPass.Kdbx.Merge

/-
  `semantically_equals` and the decision of `crates/vault-sync`: which of two
  generations succeeds a common base, or what they merge to.

  Semantic equality compares everything a KDBX file represents. The indexes
  of attachments are allocator-local: an entry is compared through the values
  its names refer to, and the table of attachments as a sorted list of values.
-/
namespace NianPass.Kdbx

variable {V : Type} [DecidableEq V]

def entrySemanticallyEq (K : Keepass V) (leftDb rightDb : Database V) (left right : Entry V) :
    Bool :=
  left.parent = right.parent ∧
    historyEntrySemanticallyEq K leftDb rightDb left.toEntryData right.toEntryData ∧
    (left.history.getD []).length = (right.history.getD []).length ∧
    ((left.history.getD []).zip (right.history.getD [])).all fun pair =>
      historyEntrySemanticallyEq K leftDb rightDb pair.1 pair.2

/-- The order in which `attachment_values` sorts: unprotected values first, then by bytes. -/
def attachmentLe (left right : Value Bytes) : Bool :=
  ((compare left.isProtected right.isProtected).then (compare left.get right.get)).isLE

omit [DecidableEq V] in
def attachmentValues (db : Database V) : List (Value Bytes) :=
  (db.attachments.toList.map (·.2)).mergeSort attachmentLe

/-- Equality of groups. The lists of children are insertion-ordered sets, and two of these are equal
if they have the same elements. -/
def groupEq (left right : Group V) : Bool :=
  { left with groups := [], entries := [] } = { right with groups := [], entries := [] } ∧
    left.groups.toFinset = right.groups.toFinset ∧ left.entries.toFinset = right.entries.toFinset

example : groupEq (V := Unit) { entries := [⟨2⟩, ⟨3⟩] } { entries := [⟨3⟩, ⟨2⟩] } = true := by
  decide

def databaseSemanticallyEq (K : Keepass V) (left right : Database V) : Bool :=
  left.config = right.config ∧ left.metadata = right.metadata ∧
  left.deletedObjects = right.deletedObjects ∧ left.root = right.root ∧
  left.groups.size = right.groups.size ∧ left.entries.size = right.entries.size ∧
  (left.groups.toList.all fun (id, group) =>
    match right.groups[id]? with
    | none => false
    | some other => groupEq group other) ∧
  (left.entries.toList.all fun (id, entry) =>
    match right.entries[id]? with
    | none => false
    | some other => entrySemanticallyEq K left right entry other) ∧
  left.customIcons = right.customIcons ∧ attachmentValues left = attachmentValues right

/-- What the comparison asks of a group of the left database. -/
theorem matches_group_iff {right : Database V} {id : GroupId} {group : Group V} :
    (match right.groups[id]? with
      | none => false
      | some other => groupEq group other) = true ↔
    ∃ other, right.groups[id]? = some other ∧ groupEq group other = true := by
  cases right.groups[id]? with
  | none => simp
  | some other => simp

/-- The same for an entry. -/
theorem matches_entry_iff {K : Keepass V} {left right : Database V} {id : EntryId} {entry : Entry V} :
    (match right.entries[id]? with
      | none => false
      | some other => entrySemanticallyEq K left right entry other) = true ↔
    ∃ other, right.entries[id]? = some other ∧ entrySemanticallyEq K left right entry other = true := by
  cases right.entries[id]? with
  | none => simp
  | some other => simp

def KdbxDocument.semanticallyEquals (K : Keepass V) (left right : KdbxDocument V) : Bool :=
  left.version = right.version ∧ databaseSemanticallyEq K left.database right.database

theorem historyEntrySemanticallyEq_refl (K : Keepass V) (db : Database V) (entry : EntryData V) :
    historyEntrySemanticallyEq K db db entry entry = true := by
  simp [historyEntrySemanticallyEq]

theorem entrySemanticallyEq_refl (K : Keepass V) (db : Database V) (entry : Entry V) :
    entrySemanticallyEq K db db entry entry = true := by
  simp only [entrySemanticallyEq, historyEntrySemanticallyEq_refl, true_and, List.all_eq_true,
    decide_eq_true_eq]
  intro pair hpair
  -- Zipped with itself, a list pairs every snapshot with itself.
  obtain ⟨i, h, rfl⟩ := List.mem_iff_getElem.mp hpair
  rw [List.getElem_zip]
  exact historyEntrySemanticallyEq_refl K db _

theorem databaseSemanticallyEq_refl (K : Keepass V) (db : Database V) :
    databaseSemanticallyEq K db db = true := by
  simp only [databaseSemanticallyEq, true_and, and_true, List.all_eq_true, decide_eq_true_eq]
  refine ⟨fun pair hpair => ?_, fun pair hpair => ?_⟩
  · rw [Std.ExtTreeMap.mem_toList_iff_getElem?_eq_some.mp hpair]
    simp [groupEq]
  · rw [Std.ExtTreeMap.mem_toList_iff_getElem?_eq_some.mp hpair]
    exact entrySemanticallyEq_refl K db pair.2

theorem KdbxDocument.semanticallyEquals_refl (K : Keepass V) (doc : KdbxDocument V) :
    doc.semanticallyEquals K doc = true := by
  simp [semanticallyEquals, databaseSemanticallyEq_refl]

/-! ## `vault_sync::merge` -/

inductive MergeOutcome (V : Type) where
  | equivalent
  | fastForwardLocal
  | fastForwardRemote
  | merged (document : KdbxDocument V)
  | conflicted (conflicts : List SyncConflict)

inductive MergeError where
  | versionMismatch
  | invalidInput
  | unsupportedVersion
  | kdbx (error : KdbxError)
  deriving DecidableEq, Repr

def mergeGenerations (K : Keepass V) (base loc remote : KdbxDocument V) :
    Except MergeError (MergeOutcome V) :=
  if base.version ≠ loc.version ∨ base.version ≠ remote.version then .error .versionMismatch
  else if ¬ (databaseValidForSync base.database ∧ databaseValidForSync loc.database ∧
      databaseValidForSync remote.database) then .error .invalidInput
  else if loc.semanticallyEquals K remote then .ok .equivalent
  else if remote.semanticallyEquals K base then .ok .fastForwardLocal
  else if loc.semanticallyEquals K base then .ok .fastForwardRemote
  else if base.version ≠ .kdbx4 1 then .error .unsupportedVersion
  else
    match mergeDivergent K base loc remote with
    | .error error => .error (.kdbx error)
    | .ok (.merged document) => .ok (.merged document)
    | .ok (.conflicted conflicts) => .ok (.conflicted conflicts)

section
variable {K : Keepass V} {base loc remote : KdbxDocument V}

theorem mergeGenerations_equivalent (h : mergeGenerations K base loc remote = .ok .equivalent) :
    loc.semanticallyEquals K remote = true := by
  grind [mergeGenerations]

theorem mergeGenerations_fastForwardLocal
    (h : mergeGenerations K base loc remote = .ok .fastForwardLocal) :
    remote.semanticallyEquals K base = true := by
  grind [mergeGenerations]

end

end NianPass.Kdbx
