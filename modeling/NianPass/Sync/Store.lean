import NianPass.Sync.Engine

/-
  The profile directory as `SyncStore` leaves it.
-/
namespace NianPass.Sync

open Kdbx (Bytes)

variable {V : Type}

/-- Run a program that only reads files, on a directory that nothing else changes. -/
def evalReads {α : Type} (files : Directory) : Program (Effect V) Answer α → Option α
  | .done a => some a
  | .ask (.readFile file) next => evalReads files (next (.ok (files file)))
  | .ask _ _ => none

section EvalReads
variable {α β : Type} {files : Directory}

theorem evalReads_bind {p : Task V α} {f : α → Task V β} :
    evalReads files (p >>= f).run = (evalReads files p.run).bind fun
      | .ok a => evalReads files (f a).run
      | .error error => some (.error error) := by
  change evalReads files (p.run.bind _) = _
  induction p.run with
  | done result =>
    cases result with
    | ok a => rfl
    | error error => rfl
  | ask effect next ih =>
    cases effect with
    | readFile file => exact ih _
    | _ => rfl

/-- A program returns where its first part does and the rest does from there. -/
theorem evalReads_bind_ok {p : Task V α} {f : α → Task V β} {b : β} :
    evalReads files (p >>= f).run = some (.ok b) ↔
      ∃ a, evalReads files p.run = some (.ok a) ∧ evalReads files (f a).run = some (.ok b) := by
  rw [evalReads_bind]
  cases hp : evalReads files p.run with
  | none => simp
  | some result =>
    cases result with
    | ok a => simp
    | error error => simp

@[simp] theorem evalReads_pure {a : α} :
    evalReads files (pure a : Program (Effect V) Answer α) = some a := rfl

@[simp] theorem evalReads_readBaseMetadata :
    evalReads files (readBaseMetadata : Task V _).run = some (.ok (files .base)) := rfl

@[simp] theorem evalReads_readJournalRecord :
    evalReads files (readJournalRecord : Task V _).run = some (.ok (files .journal)) := rfl

@[simp] theorem evalReads_readCiphertext {name : CiphertextFile} :
    evalReads files (readCiphertext name : Task V _).run =
      some (.ok (files (.ciphertext name))) := rfl

end EvalReads

/-! ## What the directory says -/

/-- `base.json` is this store's and names a file that holds `ciphertext`. -/
structure BaseIn (P : Platform V) (S : SyncStore) (files : Directory) (metadata : BaseMetadata)
    (ciphertext : Bytes) : Prop where
  written : files .base = some metadata
  schema : metadata.schemaVersion = schemaVersion
  profileId : metadata.profileId = S.profileId
  source : metadata.source = S.source
  target : metadata.target = S.target
  named : ∃ id, metadata.ciphertextFile = .base id
  held : files (.ciphertext metadata.ciphertextFile) = some ciphertext
  digest : metadata.ciphertextSha256 = P.digestOf ciphertext

/-- `journal.json` is this store's and names a file that holds `candidate`. -/
structure JournalIn (P : Platform V) (S : SyncStore) (files : Directory) (record : JournalRecord)
    (candidate : Bytes) : Prop where
  written : files .journal = some record
  schema : record.schemaVersion = schemaVersion
  profileId : record.profileId = S.profileId
  source : record.source = S.source
  target : record.target = S.target
  named : ∃ id, record.candidateFile = .candidate id
  held : files (.ciphertext record.candidateFile) = some candidate
  digest : record.candidateSha256 = P.digestOf candidate

section Reads
variable {P : Platform V} {S : SyncStore} {files : Directory}

theorem evalReads_validateIdentity {id : Uuid} {source : SourceBinding} {target : TargetBinding}
    (h : evalReads files (validateIdentity S id source target : Task V Unit).run = some (.ok ())) :
    id = S.profileId ∧ source = S.source ∧ target = S.target := by
  unfold validateIdentity at h
  by_cases hid : id = S.profileId
  · by_cases hsource : source = S.source
    · by_cases htarget : target = S.target
      · exact ⟨hid, hsource, htarget⟩
      · simp [hid, hsource, htarget] at h
    · simp [hid, hsource] at h
  · simp [hid] at h

theorem loadBase_none (h : files .base = none) :
    evalReads files (loadBase P S).run = some (.ok none) := by
  simp [-ExceptT.run_bind, loadBase, baseSchema, evalReads_bind, h]

theorem loadBase_some {metadata : BaseMetadata} {ciphertext : Bytes}
    (h : BaseIn P S files metadata ciphertext) :
    evalReads files (loadBase P S).run =
      some (.ok (some ⟨ciphertext, P.digestOf ciphertext, metadata.remoteRevision⟩)) := by
  obtain ⟨id, hid⟩ := h.named
  have hheld := h.held
  rw [hid] at hheld
  simp [-ExceptT.run_bind, loadBase, baseSchema, evalReads_bind, h.written, h.schema, validateIdentity, h.profileId,
    h.source, h.target, hid, validateBaseFilename, readPrivateFile, hheld, h.digest]

theorem loadJournal_none (h : files .journal = none) :
    evalReads files (loadJournal P S).run = some (.ok none) := by
  simp [-ExceptT.run_bind, loadJournal, journalSchema, evalReads_bind, h]

theorem loadJournal_some {record : JournalRecord} {candidate : Bytes}
    (h : JournalIn P S files record candidate) :
    evalReads files (loadJournal P S).run = some (.ok (some ⟨record, candidate⟩)) := by
  obtain ⟨id, hid⟩ := h.named
  have hheld := h.held
  rw [hid] at hheld
  simp [-ExceptT.run_bind, loadJournal, journalSchema, evalReads_bind, h.written, h.schema, validateIdentity,
    h.profileId, h.source, h.target, hid, validateCandidateFilename, readPrivateFile, hheld,
    h.digest]

theorem evalReads_validateBaseFilename {name : CiphertextFile}
    (h : evalReads files (validateBaseFilename name : Task V Unit).run = some (.ok ())) :
    ∃ id, name = .base id := by
  cases name with
  | base id => exact ⟨id, rfl⟩
  | candidate id => cases h

theorem evalReads_readPrivateFile {name : CiphertextFile} {bytes : Bytes}
    (h : evalReads files (readPrivateFile name : Task V Bytes).run = some (.ok bytes)) :
    files (.ciphertext name) = some bytes := by
  obtain ⟨content, hread, h⟩ := evalReads_bind_ok.mp h
  obtain rfl : files (.ciphertext name) = content := by simpa using hread
  cases hfile : files (.ciphertext name) with
  | none => rw [hfile] at h; cases h
  | some stored => rw [hfile] at h; cases h; rfl

theorem evalReads_baseSchema {metadata : BaseMetadata} (hfile : files .base = some metadata)
    (h : evalReads files (baseSchema : Task V _).run = some (.ok .current)) :
    metadata.schemaVersion = schemaVersion := by
  by_contra hschema
  simp [-ExceptT.run_bind, baseSchema, evalReads_bind, hfile, hschema] at h

/-- What `load_base` returns is what the directory holds. -/
theorem loadBase_eq_some {base : BaseState}
    (h : evalReads files (loadBase P S).run = some (.ok (some base))) :
    ∃ metadata, BaseIn P S files metadata base.ciphertext ∧
      base.digest = P.digestOf base.ciphertext := by
  obtain ⟨schema, hschema, h⟩ := evalReads_bind_ok.mp h
  cases schema with
  | missing => cases h
  | unsupported => cases h
  | current =>
    obtain ⟨content, hread, h⟩ := evalReads_bind_ok.mp h
    obtain rfl : files .base = content := by simpa using hread
    cases hfile : files .base with
    | none => rw [hfile] at h; cases h
    | some metadata =>
      rw [hfile] at h
      obtain ⟨_, hidentity, h⟩ := evalReads_bind_ok.mp h
      obtain ⟨_, hname, h⟩ := evalReads_bind_ok.mp h
      obtain ⟨ciphertext, hheld, h⟩ := evalReads_bind_ok.mp h
      obtain ⟨hprofile, hsource, htarget⟩ := evalReads_validateIdentity hidentity
      by_cases hdigest : P.digestOf ciphertext = BaseMetadata.ciphertextSha256 metadata
      · rw [if_neg (not_not.mpr hdigest)] at h
        cases h
        exact ⟨metadata, ⟨hfile, evalReads_baseSchema hfile hschema, hprofile,
          hsource, htarget, evalReads_validateBaseFilename hname, evalReads_readPrivateFile hheld,
          hdigest.symm⟩, rfl⟩
      · rw [if_pos hdigest] at h
        cases h

end Reads

end NianPass.Sync
