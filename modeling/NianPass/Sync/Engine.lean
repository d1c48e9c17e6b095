import NianPass.Lib.Program
import NianPass.Sync.Model

/-
  `SyncStore` and `SyncEngine` as programs over the effects they have: files of
  the profile directory, the local vault, the remote provider, fresh UUIDs, the
  KDBX writer and the process-local conflict authority. Everything else in them
  is computation.

  A program is suspended between any two of its effects, so a crash, a save of
  the local vault or a write by another device can fall at each of these points.
  Every effect can fail. The writer draws fresh salts and nonces, so what it
  returns is an answer like any other: `serializeVerified` opens it again.
-/
namespace NianPass.Sync

open Kdbx (Bytes KdbxDocument Keepass MergeError MergeOutcome SyncConflict mergeGenerations)

/-! ## Effects -/

/-- The two conditional writes of `RemoteObjectProvider`. -/
inductive RemoteWrite where
  | createIfAbsent (ciphertext : Bytes)
  | replaceIfRevision (expected : RemoteRevision) (ciphertext : Bytes)
  deriving DecidableEq, Repr

inductive Effect (V : Type) where
  | readFile (file : File)
  | writeFile (file : File) (content : file.Content)
  | removeFile (file : File)
  | readDirectory
  | syncDirectory
  | newUuid
  | captureClean
  | replaceIfUnchanged (expected : LocalSnapshot) (ciphertext : Bytes)
  | read
  | write (request : RemoteWrite)
  | saveToWriter (document : KdbxDocument V) (credential : SyncCredential)
  | invalidateConflict
  | installConflict (conflict : PendingConflict)
  | takeConflict (operationId : Uuid)

def Answer {V : Type} : Effect V → Type
  | .readFile file => Except StoreError (Option file.Content)
  | .writeFile _ _ | .removeFile _ | .syncDirectory => Except StoreError Unit
  | .readDirectory => Except StoreError (List DirectoryEntry)
  | .newUuid => Uuid
  | .captureClean => Except LocalCommitError LocalSnapshot
  | .replaceIfUnchanged _ _ => Except LocalCommitError Unit
  | .read => Except ProviderError RemoteRead
  | .write _ => Except ProviderError RemoteRevision
  | .saveToWriter _ _ => Except Unit Bytes
  | .invalidateConflict | .installConflict _ => Except SyncError Unit
  | .takeConflict _ => Except SyncError PendingConflict

abbrev Task (V : Type) := ExceptT SyncError (Program (Effect V) Answer)

variable {V : Type}

def ask (effect : Effect V) : Task V (Answer effect) :=
  liftM (Program.request effect : Program (Effect V) Answer (Answer effect))

/-- The `?` operator, with the conversion it applies to the error. -/
def orThrow {ε α : Type} (convert : ε → SyncError) : Except ε α → Task V α
  | .ok a => pure a
  | .error error => throw (convert error)

def readFile (file : File) : Task V (Option file.Content) := do
  orThrow .store (← ask (.readFile file))

/-- `read_metadata::<BaseMetadata>`. -/
def readBaseMetadata : Task V (Option BaseMetadata) := readFile .base

/-- `read_metadata::<JournalRecord>`. -/
def readJournalRecord : Task V (Option JournalRecord) := readFile .journal

def readCiphertext (name : CiphertextFile) : Task V (Option Bytes) := readFile (.ciphertext name)

/-- `atomic_write` and `atomic_write_json`. -/
def atomicWrite (file : File) (content : file.Content) : Task V Unit := do
  orThrow .store (← ask (.writeFile file content))

def removeIfFile (file : File) : Task V Unit := do
  orThrow .store (← ask (.removeFile file))

def syncDirectory : Task V Unit := do
  orThrow .store (← ask .syncDirectory)

/-- `read_private_file`: a missing file is an I/O error. -/
def readPrivateFile (name : CiphertextFile) : Task V Bytes := do
  match ← readCiphertext name with
  | some bytes => pure bytes
  | none => throw (.store .io)

def captureClean : Task V LocalSnapshot := do
  orThrow .localVault (← ask .captureClean)

def replaceIfUnchanged (expected : LocalSnapshot) (ciphertext : Bytes) : Task V Unit := do
  orThrow .localVault (← ask (.replaceIfUnchanged expected ciphertext))

def readRemote : Task V RemoteRead := do
  orThrow .ofProvider (← ask .read)

/-! ## The store -/

section Store
variable (P : Platform V) (S : SyncStore)

inductive MetadataSchema where
  | missing
  | current
  | unsupported
  deriving DecidableEq, Repr

def baseSchema : Task V MetadataSchema := do
  match ← readBaseMetadata with
  | none => pure .missing
  | some metadata =>
    pure (if metadata.schemaVersion = schemaVersion then .current else .unsupported)

def journalSchema : Task V MetadataSchema := do
  match ← readJournalRecord with
  | none => pure .missing
  | some record =>
    pure (if record.schemaVersion = schemaVersion then .current else .unsupported)

def validateIdentity (profileId : Uuid) (source : SourceBinding) (target : TargetBinding) :
    Task V Unit :=
  if profileId ≠ S.profileId then throw (.store .wrongProfile)
  else if source ≠ S.source then throw (.store .wrongSource)
  else if target ≠ S.target then throw (.store .wrongTarget)
  else pure ()

/-- `validate_private_filename(_, "base-")`. -/
def validateBaseFilename : CiphertextFile → Task V Unit
  | .base _ => pure ()
  | .candidate _ => throw (.store .invalidMetadata)

/-- `validate_private_filename(_, "candidate-")`. -/
def validateCandidateFilename : CiphertextFile → Task V Unit
  | .candidate _ => pure ()
  | .base _ => throw (.store .invalidMetadata)

def loadBase : Task V (Option BaseState) := do
  match ← baseSchema with
  | .missing => pure none
  | .unsupported => throw (.store .unsupportedSchema)
  | .current =>
    match ← readBaseMetadata with
    | none => pure none
    | some metadata =>
      validateIdentity S metadata.profileId metadata.source metadata.target
      validateBaseFilename metadata.ciphertextFile
      let ciphertext ← readPrivateFile metadata.ciphertextFile
      if P.digestOf ciphertext ≠ metadata.ciphertextSha256 then throw (.store .corruptBase)
      else pure (some ⟨ciphertext, P.digestOf ciphertext, metadata.remoteRevision⟩)

omit P S in
/-- The ciphertext that `base.json` named before, if it is another file. -/
def removeOldBase (old : Option BaseMetadata) (current : CiphertextFile) : Task V Unit :=
  match old.map BaseMetadata.ciphertextFile with
  | some (.base oldId) =>
    if CiphertextFile.base oldId ≠ current then removeIfFile (.ciphertext (.base oldId))
    else pure ()
  | _ => pure ()

/-- The old ciphertext is removed last: `base.json` never names a missing file. -/
def writeBase (ciphertext : Bytes) (remoteRevision : RemoteRevision) : Task V Unit := do
  let operation ← ask .newUuid
  atomicWrite (.ciphertext (.base operation)) ciphertext
  let metadata : BaseMetadata :=
    { schemaVersion := schemaVersion, profileId := S.profileId, source := S.source
      target := S.target, ciphertextFile := .base operation
      ciphertextSha256 := P.digestOf ciphertext, remoteRevision := remoteRevision }
  let old ← readBaseMetadata
  atomicWrite .base metadata
  removeOldBase old metadata.ciphertextFile
  syncDirectory

def loadJournal : Task V (Option LoadedJournal) := do
  match ← journalSchema with
  | .missing => pure none
  | .unsupported => throw (.store .unsupportedSchema)
  | .current =>
    match ← readJournalRecord with
    | none => pure none
    | some record =>
      validateIdentity S record.profileId record.source record.target
      validateCandidateFilename record.candidateFile
      let candidate ← readPrivateFile record.candidateFile
      if P.digestOf candidate ≠ record.candidateSha256 then throw (.store .corruptJournal)
      else pure (some ⟨record, candidate⟩)

inductive RecoveryStatus where
  | none
  | required
  | unsupported
  deriving DecidableEq, Repr

omit P S in
/-- Only state of the current schema is validated. -/
def validateCurrent {α : Type} (schema : MetadataSchema) (load : Task V (Option α)) :
    Task V (Option α) :=
  if schema = .current then load else pure none

def recoveryStatus : Task V RecoveryStatus := do
  let journal ← journalSchema
  let base ← baseSchema
  if journal = .unsupported ∨ base = .unsupported then pure .unsupported
  else
    let _ ← validateCurrent journal (loadJournal P S)
    let _ ← validateCurrent base (loadBase P S)
    pure (if journal = .current then .required else .none)

/-- Refuses to write over the journal of another operation. -/
def writeJournal (record : JournalRecord) : Task V Unit := do
  match ← readJournalRecord with
  | some current =>
    if current.operationId ≠ record.operationId then throw (.store .activeJournal)
    else atomicWrite .journal record
  | none => atomicWrite .journal record

def prepareJournal (loc : LocalSnapshot) (expectedRemoteRevision : Option RemoteRevision)
    (candidate : Bytes) : Task V JournalRecord := do
  if (← recoveryStatus P S) ≠ .none then throw (.store .activeJournal)
  else if loc.source ≠ S.source then throw (.store .wrongSource)
  else
    let operationId ← ask .newUuid
    atomicWrite (.ciphertext (.candidate operationId)) candidate
    let record : JournalRecord :=
      { schemaVersion := schemaVersion, profileId := S.profileId, source := S.source
        target := S.target, operationId := operationId, phase := .prepared
        expectedLocalSha256 := P.digestOf loc.ciphertext
        expectedRemoteRevision := expectedRemoteRevision
        candidateFile := .candidate operationId
        candidateSha256 := P.digestOf candidate, committedRemoteRevision := none }
    writeJournal record
    pure record

def markRemoteCommitted (record : JournalRecord) (revision : RemoteRevision) :
    Task V JournalRecord := do
  let record :=
    { record with phase := .remoteCommitted, committedRemoteRevision := some revision }
  writeJournal record
  pure record

def markLocalCommitted (record : JournalRecord) : Task V JournalRecord := do
  let record := { record with phase := .localCommitted }
  writeJournal record
  pure record

/-- `journal.json` goes first: it never names a missing candidate. -/
def removeJournal (record : JournalRecord) : Task V Unit := do
  match ← loadJournal P S with
  | none => throw (.store .invalidMetadata)
  | some current =>
    if current.record.operationId ≠ record.operationId then throw (.store .invalidMetadata)
    else
      removeIfFile .journal
      removeIfFile (.ciphertext record.candidateFile)
      syncDirectory

omit P S in
/-- `is_private_state_ciphertext_filename`. -/
def isPrivateStateCiphertextFilename : CiphertextFile → Bool
  | .base id => isV4 id
  | .candidate id => isV4 id

omit P S in
/-- The ciphertext files of a directory, unless something else stands in it. -/
def ciphertextFiles : List DirectoryEntry → Option (List CiphertextFile)
  | [] => some []
  | .file .base :: rest => ciphertextFiles rest
  | .file .journal :: rest => ciphertextFiles rest
  | .file (.ciphertext name) :: rest =>
    if isPrivateStateCiphertextFilename name then (ciphertextFiles rest).map (name :: ·) else none
  | .temporary _ _ :: _ => none

omit P S in
def removeAll : List CiphertextFile → Task V Unit
  | [] => pure ()
  | name :: rest => do
    removeIfFile (.ciphertext name)
    removeAll rest

omit P S in
/-- Metadata goes first: an interrupted reset never trusts a deleted payload. -/
def resetState : Task V Unit := do
  match ciphertextFiles (← orThrow .store (← ask .readDirectory)) with
  | none => throw (.store .invalidMetadata)
  | some names =>
    removeIfFile .journal
    removeIfFile .base
    removeAll names
    syncDirectory

end Store

/-! ## The engine -/

section Engine
variable [DecidableEq V] (P : Platform V) (S : SyncStore)

def openVault (bytes : Bytes) (credential : SyncCredential) : Task V (KdbxDocument V) :=
  orThrow id (openDocument P bytes credential)

def serializeVerified (document : KdbxDocument V) (credential : SyncCredential) : Task V Bytes := do
  let bytes ← orThrow (fun _ => .invalidVault) (← ask (.saveToWriter document credential))
  let reopened ← openVault P bytes credential
  if document.semanticallyEquals P.keepass reopened then pure bytes
  else throw .invalidVault

omit [DecidableEq V] in
def requireLocalUnchanged (expected : LocalSnapshot) : Task V Unit := do
  let current ← captureClean
  if current.source = expected.source ∧
      P.digestOf current.ciphertext = P.digestOf expected.ciphertext ∧
      current.authorityToken = expected.authorityToken then pure ()
  else throw .localChanged

omit [DecidableEq V] in
def requireBaseUnchanged (expectedDigest : Option CiphertextDigest) : Task V Unit := do
  match expectedDigest, ← loadBase P S with
  | none, none => pure ()
  | some expected, some base =>
    if expected = base.digest then pure () else throw .staleConflict
  | _, _ => throw .staleConflict

omit [DecidableEq V] in
def localMatchesPersisted (loc : LocalSnapshot) (journal : JournalRecord) : Bool :=
  loc.source = journal.source ∧ P.digestOf loc.ciphertext = journal.expectedLocalSha256

omit [DecidableEq V] in
/-- The end of `recover_loaded`, once the journal says `localCommitted`. -/
def recoverBase (record : JournalRecord) (candidate : Bytes) (remoteMatchesCandidate : Bool)
    (currentRevision : Option RemoteRevision) : Task V Bool := do
  let refreshed ← captureClean
  if P.digestOf refreshed.ciphertext ≠ record.candidateSha256 ∨ ¬ remoteMatchesCandidate then
    throw .uncertainState
  else
    match currentRevision.or record.committedRemoteRevision with
    | none => throw .uncertainState
    | some revision =>
      writeBase P S candidate revision
      removeJournal P S record
      pure true

omit S [DecidableEq V] in
/-- LOCAL becomes the candidate, unless it is already. -/
def recoverCandidate (currentLocal : LocalSnapshot) (record : JournalRecord) (candidate : Bytes) :
    Task V Unit :=
  if P.digestOf currentLocal.ciphertext ≠ record.candidateSha256 then
    if ¬ localMatchesPersisted P currentLocal record then throw .localChangedDuringRecovery
    else replaceIfUnchanged currentLocal candidate
  else pure ()

omit [DecidableEq V] in
/-- `recover_loaded` from a journal that says `remoteCommitted`. -/
def recoverLocal (currentLocal : LocalSnapshot) (record : JournalRecord) (candidate : Bytes)
    (remoteMatchesCandidate : Bool) (currentRevision : Option RemoteRevision) : Task V Bool := do
  if ¬ remoteMatchesCandidate then throw .uncertainState
  else
    recoverCandidate P currentLocal record candidate
    let record ← markLocalCommitted record
    recoverBase P S record candidate remoteMatchesCandidate currentRevision

omit [DecidableEq V] in
/-- What the journal makes of the remote object: whether it is the candidate,
whether it is the generation the journal expected, and its revision. -/
def observeRemote (record : JournalRecord) : RemoteRead → Bool × Bool × Option RemoteRevision
  | .missing => (false, record.expectedRemoteRevision.isNone, none)
  | .present remote =>
    (P.digestOf remote.ciphertext = record.candidateSha256,
      record.expectedRemoteRevision = some remote.revision, some remote.revision)

def recoverLoaded (credential : SyncCredential) (currentLocal : LocalSnapshot) : Task V Bool := do
  match ← loadJournal P S with
  | none => pure false
  | some ⟨record, candidate⟩ =>
    let _ ← openVault P candidate credential
    let remote ← readRemote
    let (remoteMatchesCandidate, remoteUnchanged, currentRevision) := observeRemote P record remote
    match record.phase with
    | .prepared =>
      if remoteMatchesCandidate then
        match currentRevision with
        | none => throw .uncertainState
        | some revision =>
          let record ← markRemoteCommitted record revision
          recoverLocal P S currentLocal record candidate remoteMatchesCandidate currentRevision
      else if remoteUnchanged then
        if localMatchesPersisted P currentLocal record then
          removeJournal P S record
          pure false
        else throw .localChangedDuringRecovery
      else throw .uncertainState
    | .remoteCommitted =>
      recoverLocal P S currentLocal record candidate remoteMatchesCandidate currentRevision
    | .localCommitted => recoverBase P S record candidate remoteMatchesCandidate currentRevision

omit S [DecidableEq V] in
/-- LOCAL becomes the candidate; where it is the candidate already it must not have moved. -/
def commitToLocal (localSnapshot : LocalSnapshot) (candidate : Bytes) : Task V Unit :=
  if candidate ≠ localSnapshot.ciphertext then replaceIfUnchanged localSnapshot candidate
  else requireLocalUnchanged P localSnapshot

/-- `commit_candidate_bytes` from the answer of the provider on. -/
def commitAnswered (credential : SyncCredential) (candidate : Bytes) (plan : CommitPlan)
    (journal : JournalRecord) : Except ProviderError RemoteRevision → Task V SyncOutcome
  | .error .writeResultUncertain => do
    let current ← captureClean
    if ← recoverLoaded P S credential current then pure (.done .recovered)
    else throw .remoteChanged
  | .error .remoteChanged => do
    removeJournal P S journal
    throw .remoteChanged
  | .error error => throw (.provider error)
  | .ok remoteRevision => do
    let journal ← markRemoteCommitted journal remoteRevision
    commitToLocal P plan.localSnapshot candidate
    let journal ← markLocalCommitted journal
    writeBase P S candidate remoteRevision
    removeJournal P S journal
    pure (.done plan.completion)

def commitCandidateBytes (credential : SyncCredential) (candidate : Bytes) (plan : CommitPlan) :
    Task V SyncOutcome := do
  let journal ← prepareJournal P S plan.localSnapshot plan.expectedRemote candidate
  match plan.remoteAction with
  | .create =>
    commitAnswered P S credential candidate plan journal
      (← ask (.write (.createIfAbsent candidate)))
  | .replace =>
    match plan.expectedRemote with
    | none => throw .internal
    | some expected =>
      commitAnswered P S credential candidate plan journal
        (← ask (.write (.replaceIfRevision expected candidate)))
  | .alreadyCommitted _ =>
    match plan.expectedRemote with
    | none => throw .internal
    | some expected => commitAnswered P S credential candidate plan journal (.ok expected)

omit [DecidableEq V] in
def CommitPlan.candidate (plan : CommitPlan) : Bytes :=
  match plan.remoteAction with
  | .alreadyCommitted bytes => bytes
  | .create | .replace => plan.localSnapshot.ciphertext

def commitCandidate (credential : SyncCredential) (plan : CommitPlan) : Task V SyncOutcome := do
  let _ ← openVault P plan.candidate credential
  commitCandidateBytes P S credential plan.candidate plan

omit [DecidableEq V] in
/-- `ConflictAuthority::install`. -/
def installConflict (loc : LocalSnapshot) (remoteBytes : Bytes) (remoteRevision : RemoteRevision)
    (baseDigest : Option CiphertextDigest) (initialConflict : Bool)
    (conflicts : List SyncConflict) : Task V SyncOutcome := do
  let operationId ← ask .newUuid
  let operation : ConflictOperation := ⟨operationId, initialConflict, conflicts⟩
  orThrow id (← ask (.installConflict ⟨operation, loc, remoteBytes, remoteRevision, baseDigest⟩))
  pure (.conflict operation)

def mergeExisting (credential : SyncCredential) (localSnapshot : LocalSnapshot) (base : BaseState)
    (remote : RemoteObject) : Task V SyncOutcome := do
  let baseDocument ← openVault P base.ciphertext credential
  let localDocument ← openVault P localSnapshot.ciphertext credential
  let remoteDocument ← openVault P remote.ciphertext credential
  match ← orThrow .merge (mergeGenerations P.keepass baseDocument localDocument remoteDocument) with
  | .equivalent =>
    requireLocalUnchanged P localSnapshot
    writeBase P S remote.ciphertext remote.revision
    pure (.done .equivalent)
  | .fastForwardLocal =>
    commitCandidate P S credential ⟨localSnapshot, some remote.revision, .replace, .uploadedLocal⟩
  | .fastForwardRemote =>
    commitCandidate P S credential
      ⟨localSnapshot, some remote.revision, .alreadyCommitted remote.ciphertext, .appliedRemote⟩
  | .merged document =>
    let candidate ← serializeVerified P document credential
    commitCandidateBytes P S credential candidate
      ⟨localSnapshot, some remote.revision, .replace, .merged⟩
  | .conflicted conflicts =>
    installConflict localSnapshot remote.ciphertext remote.revision (some base.digest) false
      conflicts

def sync (credential : SyncCredential) : Task V SyncOutcome := do
  orThrow id (← ask .invalidateConflict)
  if ¬ credential.hasComponent then throw .vaultAuthenticationFailed
  else
    let localSnapshot ← captureClean
    if ← recoverLoaded P S credential localSnapshot then pure (.done .recovered)
    else
      let base ← loadBase P S
      let remote ← readRemote
      match base, remote with
      | none, .missing =>
        commitCandidate P S credential ⟨localSnapshot, none, .create, .createdRemote⟩
      | none, .present remote =>
        let localDocument ← openVault P localSnapshot.ciphertext credential
        let remoteDocument ← openVault P remote.ciphertext credential
        if localDocument.semanticallyEquals P.keepass remoteDocument then
          requireLocalUnchanged P localSnapshot
          writeBase P S remote.ciphertext remote.revision
          pure (.done .establishedBase)
        else installConflict localSnapshot remote.ciphertext remote.revision none true []
      | some _, .missing => throw .remoteChanged
      | some base, .present remote => mergeExisting P S credential localSnapshot base remote

def resolve (conflictOperationId : Uuid) (choice : ConflictChoice) (credential : SyncCredential) :
    Task V SyncOutcome := do
  if ¬ credential.hasComponent then throw .vaultAuthenticationFailed
  else
    let currentLocal ← captureClean
    let _ ← openVault P currentLocal.ciphertext credential
    let pending ← orThrow id (← ask (.takeConflict conflictOperationId))
    requireBaseUnchanged P S pending.baseDigest
    requireLocalUnchanged P pending.loc
    match ← readRemote with
    | .missing => throw .remoteChanged
    | .present remote =>
      if remote.revision ≠ pending.remoteRevision then throw .remoteChanged
      else if P.digestOf remote.ciphertext ≠ P.digestOf pending.remoteBytes then
        throw .remoteChanged
      else
        match choice with
        | .keepLocal =>
          commitCandidate P S credential
            ⟨pending.loc, some pending.remoteRevision, .replace, .uploadedLocal⟩
        | .keepRemote =>
          commitCandidate P S credential
            ⟨pending.loc, some pending.remoteRevision, .alreadyCommitted pending.remoteBytes,
              .appliedRemote⟩

end Engine

/-- The two calls of an engine. -/
inductive Call where
  | sync (credential : SyncCredential)
  | resolve (conflictOperationId : Uuid) (choice : ConflictChoice) (credential : SyncCredential)

def Call.task [DecidableEq V] (P : Platform V) (S : SyncStore) : Call → Task V SyncOutcome
  | .sync credential => Sync.sync P S credential
  | .resolve id choice credential => Sync.resolve P S id choice credential

end NianPass.Sync
