import NianPass.Lib.Chars
import NianPass.Session.Model

/-
  Save, credential rotation and the conditional replacement used by sync, as
  `crates/vault-session` performs them: `save.rs`, `sync_persistence.rs`,
  `platform.rs` and the helpers of `lib.rs`.

  The observer of the tests is the one that does nothing, as in production. A
  `ManagedTemp` is removed when it goes out of scope armed: `guarded` runs a block
  and removes the temporary if the block fails.
-/
namespace NianPass.Session

open Kdbx (Bytes KdbxDocument)

variable {V C F : Type} [DecidableEq F]

/-! ## Reading -/

/-- `validate_current_target`. -/
def validateCurrentTarget (path : Path) : Fs V C Metadata := do
  let metadata ← orError .readSource (← ask (.symlinkMetadata path))
  if metadata.fileType ≠ .file then throw .unsupportedPath
  else pure metadata

/-- `ensure_handle_regular`. -/
def ensureHandleRegular (file : Handle) : Fs V C Unit := do
  let isFile ← orError .readSource (← ask (.handleMetadata file))
  if isFile then pure () else throw .unsupportedPath

/-- `FileFingerprint::from_reader` on an open file. -/
def fromReader (E : Codec V C F) (file : Handle) (error : SessionError) : Fs V C F := do
  require (← ask (.seek file)) error
  let bytes ← orError error (← ask (.read file))
  pure (E.fingerprint bytes)

/-- `open_existing_file`. -/
def openExistingFile (path : Path) (error : SessionError) : Fs V C Handle := do
  orError error (← ask (.openFile path true))

/-- `fingerprint_path`. -/
def fingerprintPath (E : Codec V C F) (path : Path) : Fs V C F := do
  let file ← openExistingFile path .readSource
  ensureHandleRegular file
  fromReader E file .readSource

/-- `fingerprint_path_for_backup`. -/
def fingerprintPathForBackup (E : Codec V C F) (path : Path) : Fs V C F := do
  let file ← openExistingFile path .backupFailed
  fromReader E file .backupFailed

/-- `open_document_with_credential`. -/
def openDocumentWithCredential (E : Codec V C F) (path : Path) (credential : C)
    (wrap : DocumentError → SessionError) : Fs V C (KdbxDocument V) := do
  let file ← orError (wrap .io) (← ask (.openFile path false))
  let bytes ← orError (wrap .io) (← ask (.read file))
  match E.parse credential bytes with
  | .ok document => pure document
  | .error error => throw (wrap error)

/-- `verify_semantic_equivalence`. -/
def verifySemanticEquivalence (E : Codec V C F) [DecidableEq V] (document other : KdbxDocument V)
    (wrap : DocumentError → SessionError) : Fs V C Unit :=
  if document.semanticallyEquals E.keepass other then pure ()
  else throw (wrap .verificationFailed)

/-- `open_stable_document_with_credential`. -/
def openStableDocument (E : Codec V C F) (path : Path) (credential : C) :
    Fs V C (KdbxDocument V × F) := do
  let _ ← validateCurrentTarget path
  let source ← openExistingFile path .readSource
  ensureHandleRegular source
  let fingerprintBefore ← fromReader E source .readSource
  require (← ask (.seek source)) .readSource
  let bytes ← orError (.kdbx .io) (← ask (.read source))
  match E.parse credential bytes with
  | .error error => throw (.kdbx error)
  | .ok document =>
    require (← ask (.seek source)) .readSource
    let fingerprintAfter ← fromReader E source .readSource
    if fingerprintBefore ≠ fingerprintAfter then throw .externalModificationDetected
    else
      let _ ← validateCurrentTarget path
      let current ← fingerprintPath E path
      if fingerprintBefore ≠ current then throw .externalModificationDetected
      else pure (document, fingerprintBefore)

/-- `map_final_open_error`. -/
def mapFinalOpenError : SessionError → SessionError
  | .kdbx source => .finalVerificationFailed source
  | .readSource => .finalReadFailed
  | .externalModificationDetected => .finalExternalModificationDetected
  | .unsupportedPath => .finalExternalModificationDetected
  | other => other

def mapError {α : Type} (f : SessionError → SessionError) (block : Fs V C α) : Fs V C α :=
  ExceptT.mk do
    match ← block.run with
    | .ok a => pure (.ok a)
    | .error error => pure (.error (f error))

/-- `require_source_unchanged`. -/
def requireSourceUnchanged (E : Codec V C F) (session : VaultSession V F) : Fs V C Unit := do
  let _ ← validateCurrentTarget .primary
  let current ← fingerprintPath E .primary
  if current = session.sourceFingerprint then pure () else throw .externalModificationDetected

/-- How `verify_save_credential` reports that the current vault does not open. -/
def credentialError : DocumentError → SessionError
  | .invalidCredentials => .credentialMismatch
  | error => .credentialVerificationFailed error

/-- `verify_save_credential`. -/
def verifySaveCredential (E : Codec V C F) (credential : C) : Fs V C Unit := do
  let _ ← openDocumentWithCredential E .primary credential credentialError
  pure ()

/-- `reject_symlink_if_present`. -/
def rejectSymlinkIfPresent (path : Path) (error : SessionError) : Fs V C Unit := do
  match ← ask (.symlinkMetadata path) with
  | .ok metadata => if metadata.fileType = .file then pure () else throw error
  | .error .notFound => pure ()
  | .error _ => throw error

/-! ## Temporaries -/

def saveTempPrefix : String := ".nian-pass-save-"
def backupTempPrefix : String := ".nian-pass-backup-"
def priorBackupTempPrefix : String := ".nian-pass-prior-backup-"
def tempSuffix : String := ".tmp"
def tempCreateAttempts : Nat := 128

def tempName (start : String) (random : Bytes) : String :=
  start ++ String.ofList (random.flatMap Chars.hexByte) ++ tempSuffix

/-- `random_temp_name`. -/
def randomTempName (start : String) : Fs V C String := do
  match ← ask .random with
  | none => throw .tempRandomFailed
  | some random => pure (tempName start random)

/-- `ManagedTemp::create`, with `attempts` left. -/
def ManagedTemp.create (start : String) (failed : SessionError) : Nat → Fs V C String
  | 0 => throw failed
  | attempts + 1 => do
    let name ← randomTempName start
    match ← ask (.createNew name) with
    | .ok () =>
      require (← ask (.identity name)) failed
      pure name
    | .error .alreadyExists => ManagedTemp.create start failed attempts
    | .error _ => throw failed

/-- `ManagedTemp::drop`, armed. -/
def ManagedTemp.drop (name : String) : Program (Request V C) Answer Unit := do
  if (← Program.request (Request.sameFile name)) then
    let _ ← Program.request (Request.removeFile name)
    pure ()
  else pure ()

/-- Run a block that owns an armed temporary. -/
def guarded {α : Type} (name : String) (block : Fs V C α) : Fs V C α :=
  ExceptT.mk do
    match ← block.run with
    | .ok a => pure (.ok a)
    | .error error =>
      ManagedTemp.drop name
      pure (.error error)

/-- Create a temporary of the vault for a block. -/
def withTemp {α : Type} (block : String → Fs V C α) : Fs V C α := do
  let name ← ManagedTemp.create saveTempPrefix .tempCreateFailed tempCreateAttempts
  guarded name (block name)

/-- `apply_restricted_permissions`. -/
def applyRestrictedPermissions (name : String) (source : Metadata) (error : SessionError) :
    Fs V C Unit := do
  require (← ask (.setPermissions name (source.mode &&& 0o600))) error

/-- `sync_path`. -/
def syncPath (name : String) (error : SessionError) : Fs V C Unit := do
  require (← ask (.syncPath name)) error

/-- A written temporary is re-opened and compared with the document. -/
def verifyTemp [DecidableEq V] (E : Codec V C F) (name : String) (credential : C)
    (document : KdbxDocument V) : Fs V C Unit := do
  let reopened ← openDocumentWithCredential E (.temp name) credential .tempVerificationFailed
  verifySemanticEquivalence E document reopened .tempVerificationFailed

/-- On Unix a verified temporary gets the owner's permissions of the vault, and is synced again. -/
def restrictTemp (host : Host) (name : String) (source : Metadata) : Fs V C Unit :=
  match host with
  | .unix => do
    applyRestrictedPermissions name source .writeTemp
    syncPath name .syncTemp
  | .windows => pure ()

/-! ## The previous generation -/

/-- What `prepare_backup` reports when the handle of its source is not a regular file. -/
def ensureBackupSource (file : Handle) : Fs V C Unit :=
  mapError (fun _ => .backupFailed) (ensureHandleRegular file)

/-- `prepare_backup`, on its temporary. -/
def fillBackup (E : Codec V C F) (session : VaultSession V F) (sourceMetadata : Metadata)
    (backup : String) : Fs V C Unit := do
  let source ← openExistingFile .primary .backupFailed
  ensureBackupSource source
  require (← ask (.copy source backup)) .backupFailed
  if E.fingerprint source.bytes ≠ session.sourceFingerprint then
    throw .externalModificationDetected
  else
    require (← ask (.flush backup)) .backupFailed
    require (← ask (.syncAll backup)) .backupFailed
    applyRestrictedPermissions backup sourceMetadata .backupFailed
    syncPath backup .backupFailed
    let prepared ← fingerprintPathForBackup E (.temp backup)
    if prepared ≠ session.sourceFingerprint then throw .backupVerificationFailed else pure ()

/-- `prepare_backup`. -/
def prepareBackup (E : Codec V C F) (session : VaultSession V F) (sourceMetadata : Metadata) :
    Fs V C String := do
  rejectSymlinkIfPresent .backup .backupFailed
  let backup ← ManagedTemp.create backupTempPrefix .backupTempFailed tempCreateAttempts
  guarded backup (fillBackup E session sourceMetadata backup)
  pure backup

/-- `commit_backup`. -/
def commitBackup (backup : String) : Fs V C Unit := do
  guarded backup do
    rejectSymlinkIfPresent .backup .savedButBackupUpdateFailed
    require (← ask (.rename (.temp backup) .backup)) .savedButBackupUpdateFailed
  require (← ask .syncParent) .savedButBackupDurabilityUncertain

/-! ## The Windows transaction -/

/-- A prior backup is parked under a random name. -/
def parkBackup : Fs V C (Option String) := do
  if (← ask (.pathExists .backup)) then
    let path ← randomTempName priorBackupTempPrefix
    require (← ask (.rename .backup (.temp path))) .backupFailed
    pure (some path)
  else pure none

/-- The branch of a replacement that succeeded. -/
def verifyReplaced (E : Codec V C F) (expectedSource : F) (priorBackup : Option String) :
    Fs V C Unit := do
  let backup ← fingerprintPathForBackup E .backup
  if backup ≠ expectedSource then throw .savedButBackupUpdateFailed
  else
    match priorBackup with
    | some path => require (← ask (.removeFile path)) .savedButBackupUpdateFailed
    | none => pure ()

/-- A former primary that was moved to the backup path is moved back. -/
def restorePrimary : Fs V C Unit := do
  if (← ask (.pathExists .primary)) then pure ()
  else if (← ask (.pathExists .backup)) then
    require (← ask (.rename .backup .primary)) .atomicReplaceFailed
  else pure ()

/-- The branch of a replacement that failed: it always ends in `AtomicReplaceFailed`. -/
def undoReplace (priorBackup : Option String) : Fs V C Unit := do
  restorePrimary
  match priorBackup with
  | some path =>
    if (← ask (.pathExists .backup)) then throw .atomicReplaceFailed
    else
      require (← ask (.rename (.temp path) .backup)) .atomicReplaceFailed
      throw .atomicReplaceFailed
  | none => throw .atomicReplaceFailed

/-- `replace_windows_with_backup_transaction`. -/
def replaceWindowsWithBackupTransaction (E : Codec V C F) (prepared : String) (expectedSource : F) :
    Fs V C Unit := do
  rejectSymlinkIfPresent .backup .backupFailed
  let priorBackup ← parkBackup
  if (← ask (.replaceFile prepared)) then verifyReplaced E expectedSource priorBackup
  else undoReplace priorBackup

/-! ## Opening -/

/-- `VaultSession::open_with_credential`. The path is canonical: `canonical_regular_file` looks at it
before and after resolving it. -/
def openSession (E : Codec V C F) (credential : C) : Fs V C (VaultSession V F) := do
  let _ ← validateCurrentTarget .primary
  let _ ← validateCurrentTarget .primary
  let (document, sourceFingerprint) ← openStableDocument E .primary credential
  pure ⟨document, sourceFingerprint, document.revision⟩

/-! ## Save and credential rotation -/

/-- The verified temporary takes the place of the primary; on Unix the prepared backup is handed
on. -/
def replacePrimary (E : Codec V C F) (host : Host) (session : VaultSession V F)
    (sourceMetadata : Metadata) (serialized : String) : Fs V C (Option String) :=
  match host with
  | .unix => do
    let backup ← prepareBackup E session sourceMetadata
    guarded backup do
      requireSourceUnchanged E session
      require (← ask (.rename (.temp serialized) .primary)) .atomicReplaceFailed
    pure (some backup)
  | .windows => do
    requireSourceUnchanged E session
    replaceWindowsWithBackupTransaction E serialized session.sourceFingerprint
    pure none

/-- The part of `persist_with_credentials_and_platform_support` that runs with the temporary. -/
def writeAndReplace [DecidableEq V] (E : Codec V C F) (host : Host) (session : VaultSession V F)
    (targetCredential : C) (sourceMetadata : Metadata) (serialized : String) :
    Fs V C (Option String) := do
  match ← ask (.serialize serialized session.document targetCredential) with
  | .error error => throw (.kdbx error)
  | .ok () =>
    require (← ask (.flush serialized)) .writeTemp
    require (← ask (.syncAll serialized)) .syncTemp
    verifyTemp E serialized targetCredential session.document
    requireSourceUnchanged E session
    restrictTemp host serialized sourceMetadata
    replacePrimary E host session sourceMetadata serialized

/-- Everything up to the replacement of the primary. -/
def install [DecidableEq V] (E : Codec V C F) (host : Host) (session : VaultSession V F)
    (currentCredential targetCredential : C) : Fs V C (Option String) := do
  let sourceMetadata ← validateCurrentTarget .primary
  requireSourceUnchanged E session
  verifySaveCredential E currentCredential
  withTemp (writeAndReplace E host session targetCredential sourceMetadata)

/-- `sync_parent`. -/
def syncParent : Host → Program (Request V C) Answer Bool
  | .unix => Program.request Request.syncParent
  | .windows => pure true

/-- The prepared backup, if any, is in scope and armed. -/
def withBackup {α : Type} (backup : Option String) (block : Fs V C α) : Fs V C α :=
  match backup with
  | some name => guarded name block
  | none => block

/-- The prepared backup, if any, is committed. -/
def commitPrepared : Option String → Fs V C Unit
  | some name => commitBackup name
  | none => pure ()

/-- The last steps of both transactions, once the session is up to date. -/
def finish (backup : Option String) (durable : Bool) : Fs V C SaveOutcome := do
  commitPrepared backup
  require durable .durabilityUncertain
  pure .saved

/-- What was installed is opened again and compared with the document. -/
def verifyInstalled [DecidableEq V] (E : Codec V C F) (credential : C) (document : KdbxDocument V) :
    Fs V C (KdbxDocument V × F) := do
  let (final, fingerprint) ← mapError mapFinalOpenError (openStableDocument E .primary credential)
  verifySemanticEquivalence E document final .finalVerificationFailed
  pure (final, fingerprint)

/-- The same for known bytes. -/
def verifyInstalledBytes [DecidableEq V] (E : Codec V C F) (credential : C)
    (candidate : KdbxDocument V) (ciphertext : Bytes) : Fs V C (KdbxDocument V × F) := do
  let (final, fingerprint) ← mapError mapFinalOpenError (openStableDocument E .primary credential)
  if fingerprint ≠ E.fingerprint ciphertext then throw .finalExternalModificationDetected
  else
    verifySemanticEquivalence E candidate final .finalVerificationFailed
    pure (final, fingerprint)

/-- `persist_with_credentials_and_platform_support`: the result, and the session it leaves. -/
def persist [DecidableEq V] (E : Codec V C F) (host : Host) (session : VaultSession V F)
    (currentCredential targetCredential : C) (forceReencrypt saveSupported : Bool) :
    Program (Request V C) Answer (Except SessionError SaveOutcome × VaultSession V F) := do
  if !forceReencrypt && !session.isDirty then pure (.ok .unchanged, session)
  else if !saveSupported then pure (.error .unsupportedPersistencePlatform, session)
  else
    match ← (install E host session currentCredential targetCredential).run with
    | .error error => pure (.error error, session)
    | .ok backup =>
      let durable ← syncParent host
      match ← (withBackup backup (verifyInstalled E targetCredential session.document)).run with
      | .error error => pure (.error error, session)
      | .ok (_, fingerprint) =>
        let session := { session with
          sourceFingerprint := fingerprint, savedRevision := session.document.revision }
        let result ← (finish backup durable).run
        pure (result, session)

/-- `save_with_credential`. -/
def save [DecidableEq V] (E : Codec V C F) (host : Host) (session : VaultSession V F) (credential : C) :
    Program (Request V C) Answer (Except SessionError SaveOutcome × VaultSession V F) :=
  persist E host session credential credential false host.saveSupported

/-- `rotate_credential`. -/
def rotateCredential [DecidableEq V] (E : Codec V C F) (host : Host) (session : VaultSession V F)
    (current replacement : C) :
    Program (Request V C) Answer (Except SessionError SaveOutcome × VaultSession V F) :=
  persist E host session current replacement true host.saveSupported

/-! ## Conditional replacement by sync -/

/-- The part of `replace_encrypted_if_unchanged` that runs with the temporary. -/
def prepareAndReplace [DecidableEq V] (E : Codec V C F) (host : Host) (session : VaultSession V F)
    (ciphertext : Bytes) (credential : C) (candidate : KdbxDocument V) (sourceMetadata : Metadata)
    (prepared : String) : Fs V C (Option String) := do
  require (← ask (.writeAll prepared ciphertext)) .writeTemp
  require (← ask (.flush prepared)) .writeTemp
  require (← ask (.syncAll prepared)) .syncTemp
  verifyTemp E prepared credential candidate
  let written ← fingerprintPath E (.temp prepared)
  if written ≠ E.fingerprint ciphertext then throw (.tempVerificationFailed .verificationFailed)
  else
    restrictTemp host prepared sourceMetadata
    requireSourceUnchanged E session
    replacePrimary E host session sourceMetadata prepared

/-- Everything up to the replacement of the primary: the candidate document and the prepared
backup. -/
def installEncrypted [DecidableEq V] (E : Codec V C F) (host : Host) (session : VaultSession V F)
    (expected : F) (ciphertext : Bytes) (credential : C) :
    Fs V C (KdbxDocument V × Option String) := do
  if session.isDirty then throw .unsavedChanges
  else if !syncReplaceSupported then throw .unsupportedPersistencePlatform
  else if expected ≠ session.sourceFingerprint then throw .externalModificationDetected
  else
    let sourceMetadata ← validateCurrentTarget .primary
    requireSourceUnchanged E session
    match E.parse credential ciphertext with
    | .error error => throw (.tempVerificationFailed error)
    | .ok candidate =>
      let backup ← withTemp
        (prepareAndReplace E host session ciphertext credential candidate sourceMetadata)
      pure (candidate, backup)

/-- `replace_encrypted_if_unchanged`. -/
def replaceEncryptedIfUnchanged [DecidableEq V] (E : Codec V C F) (host : Host)
    (session : VaultSession V F) (expected : F) (ciphertext : Bytes) (credential : C) :
    Program (Request V C) Answer (Except SessionError SaveOutcome × VaultSession V F) := do
  match ← (installEncrypted E host session expected ciphertext credential).run with
  | .error error => pure (.error error, session)
  | .ok (candidate, backup) =>
    let durable ← syncParent host
    match ← (withBackup backup (verifyInstalledBytes E credential candidate ciphertext)).run with
    | .error error => pure (.error error, session)
    | .ok (document, fingerprint) =>
      let session := ⟨document, fingerprint, document.revision⟩
      let result ← (finish backup durable).run
      pure (result, session)

end NianPass.Session
