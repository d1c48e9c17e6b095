import NianPass.Kdbx.Changes
import NianPass.Kdbx.Semantics
import NianPass.Lib.Chars

/-
  `MobileVaultService`: the selected vault, the open session and the one
  operation that may be under way across native awaits
  (`src-tauri/src/mobile/state*.rs`, `session.rs`, `mutations.rs`).

  A call reads files it does not own, so what it finds there is an argument of
  the call: the generations, the document a credential opens, whether a file
  could be written or removed. Every combination may occur.

  The identifiers of operations are `u64` and start over at one. An operation
  has no kind: `complete_lock`, `reload_candidate` and
  `complete_attachment_import` act on whatever operation has the identifier they
  are given.

  Reading methods (`snapshot`, `entry_detail`, ...) take `&self` and are left
  out. Building a snapshot cannot fail, so its result is left out too.
-/
namespace NianPass.Mobile

open Method Kdbx
open Chars (isBlank)

variable {V : Type}

inductive MobileError where
  | noVaultSelected
  | unlockFailed
  | unsupportedVault
  | entryNotFound
  | groupNotFound
  | invalidRequest
  | conflict
  | locked
  | unsavedChanges
  | busy
  | saveFailed
  | saveAuthenticationFailed
  | externalChange
  | saveUncertain
  | persistenceUnsupported
  | recoveryRequired
  | reloadFailed
  | reloadAuthenticationFailed
  | credentialUnavailable
  | internal
  deriving DecidableEq, Repr

/-- `EncryptedGeneration`: the size and the SHA-256 of a file. -/
structure EncryptedGeneration where
  size : Nat
  sha256 : List UInt8
  deriving DecidableEq, Repr

/-- `native_identity`: the size, a colon, and the digest in hexadecimal. -/
def EncryptedGeneration.nativeIdentity (generation : EncryptedGeneration) : String :=
  toString generation.size ++ ":" ++ String.ofList (generation.sha256.flatMap fun byte =>
    [Nat.digitChar (byte.toNat / 16), Nat.digitChar (byte.toNat % 16)])

structure PendingMobileSelection where
  stagedPath : String
  fileName : String
  handle : String
  writable : Bool
  recoveryRequired : Bool
  deriving DecidableEq

structure MobileVaultSession (V : Type) where
  document : KdbxDocument V
  handle : String
  baseline : EncryptedGeneration
  writable : Bool
  savedRevision : Nat

def MobileVaultSession.isDirty (session : MobileVaultSession V) : Bool :=
  session.document.hasChangesSince session.savedRevision

structure PreparedMobileSave where
  operation : Nat
  revision : Nat
  baseline : String
  candidate : String
  deriving DecidableEq

structure MobileVaultService (V : Type) where
  pending : Option PendingMobileSelection := none
  session : Option (MobileVaultSession V) := none
  activeOperation : Option Nat := none
  nextOperation : Nat := 1

/-- What a call answers, besides a snapshot. -/
inductive Answer where
  | done
  | operation (id : Nat)
  | prepared (save : PreparedMobileSave)
  deriving DecidableEq

abbrev Service (V α : Type) := Method (MobileVaultService V) MobileError α

/-! ## What calls find outside -/

/-- The errors of `KdbxDocument::open` as the callers tell them apart. -/
inductive OpenError where
  | invalidCredentials
  | invalidKdbx
  | other
  deriving DecidableEq

/-- A staged vault as it is read: its generation, what the credential opens, its generation again. -/
structure StagedVault (V : Type) where
  before : Option EncryptedGeneration
  opened : Except OpenError (KdbxDocument V)
  after : Option EncryptedGeneration

/-- What `prepare_save` meets: the current file, whether the candidate could be written, and the
candidate read back. -/
structure SaveFiles (V : Type) where
  current : Option EncryptedGeneration
  opened : Except OpenError (KdbxDocument V)
  written : Bool
  reopened : Option (KdbxDocument V)
  candidate : Option EncryptedGeneration

/-- A staged attachment: whether it is a file and how long, and its bytes, if they can be read. -/
structure StagedAttachment where
  metadata : Option (Bool × Nat)
  bytes : Option Bytes

/-! ## Selecting and unlocking -/

/-- `next_operation.checked_add(1).unwrap_or(1)`. -/
def followingOperation (next : Nat) : Nat := if next = 2 ^ 64 - 1 then 1 else next + 1

/-- Makes the next operation the active one. -/
def startOperation : Service V Answer := do
  let service ← get
  modify fun service => { service with
    activeOperation := some service.nextOperation
    nextOperation := followingOperation service.nextOperation }
  pure (.operation service.nextOperation)

def beginSelection : Service V Answer := do
  let service ← get
  if service.activeOperation.isSome then throw .busy
  else if service.session.isSome then throw .conflict
  else startOperation

/-- `MobileSourceHandle::new`. -/
def sourceHandle (value : String) : Except MobileError String :=
  if value.utf8ByteSize < 32 ∨ 128 < value.utf8ByteSize ∨
      ¬ value.toList.all (fun c => decide (c.toNat < 128)) then .error .internal
  else .ok value

def completeSelection (operation : Nat) (stagedPath fileName sourceToken : String)
    (writable recoveryRequired : Bool) : Service V Answer := do
  let service ← get
  if service.activeOperation ≠ some operation ∨ service.session.isSome then throw .conflict
  else
    let handle ← check (sourceHandle sourceToken)
    modify fun service => { service with
      pending := some ⟨stagedPath, fileName, handle, writable, recoveryRequired⟩
      activeOperation := none }
    pure .done

def mapOpenError : OpenError → MobileError
  | .invalidCredentials => .unlockFailed
  | .invalidKdbx => .unsupportedVault
  | .other => .internal

/-- `open_candidate`. -/
def openCandidate (vault : StagedVault V) (handle : String) (writable : Bool) :
    Except MobileError (MobileVaultSession V) := do
  let before ← vault.before.elim (.error .unsupportedVault) .ok
  let document ← vault.opened.mapError mapOpenError
  let after ← vault.after.elim (.error .unsupportedVault) .ok
  if before ≠ after then .error .unsupportedVault
  else .ok ⟨document, handle, before, writable, document.revision⟩

/-- `unlock`. The selection is out of the service while the vault is opened; `removed` tells whether
the staged file was removed afterwards (or was gone already). -/
def unlock (vault : StagedVault V) (removed : Bool) : Service V Answer := do
  let service ← get
  if service.activeOperation.isSome then throw .busy
  else if service.session.isSome then throw .conflict
  else
    let pending ← okOr .noVaultSelected service.pending
    modify fun service => { service with pending := none }
    if pending.recoveryRequired then
      modify fun service => { service with pending := some pending }
      throw .recoveryRequired
    else
      let handle ← check (sourceHandle pending.handle)
      match openCandidate vault handle pending.writable with
      | .error e =>
        modify fun service => { service with pending := some pending }
        throw e
      | .ok session =>
        if removed then
          modify fun service => { service with session := some session }
          pure .done
        else throw .internal

/-! ## Operations -/

/-- `begin_operation`. -/
def beginOperation : Service V Answer := do
  let service ← get
  let _ ← okOr .locked service.session
  startOperation

def beginSave : Service V Answer := do
  let service ← get
  let session ← okOr .locked service.session
  if service.activeOperation.isSome then throw .busy
  else if ¬ session.writable then throw .persistenceUnsupported
  else if ¬ session.isDirty then throw .invalidRequest
  else beginOperation

/-- `begin_reload`, which is also `begin_ios_autofill_operation`. -/
def beginReload : Service V Answer := do
  let service ← get
  if service.session.isNone then throw .locked
  else if service.activeOperation.isSome then throw .busy
  else beginOperation

def beginLock : Service V Answer := do
  let service ← get
  if service.activeOperation.isSome then throw .busy
  else
    let session ← okOr .locked service.session
    if session.isDirty then throw .unsavedChanges else beginOperation

/-- `begin_discard_and_lock`, which is also `begin_attachment_export`. -/
def beginDiscardAndLock : Service V Answer := do
  let service ← get
  if service.activeOperation.isSome then throw .busy else beginOperation

def beginAttachmentImport : Service V Answer := do
  let service ← get
  if service.activeOperation.isSome then throw .busy
  else
    let session ← okOr .locked service.session
    if ¬ session.writable then throw .persistenceUnsupported else beginOperation

/-- `begin_autofill_fulfillment`; `secret` is what preparing the secret from the session answers. -/
def beginAutofillFulfillment (secret : Except MobileError Unit) : Service V Answer := do
  let service ← get
  if service.activeOperation.isSome then throw .busy
  else
    let operation := service.nextOperation
    modify fun service => { service with
      activeOperation := some operation
      nextOperation := followingOperation operation }
    match service.session, secret with
    | some _, .ok () => pure (.operation operation)
    | none, _ =>
      modify fun service => { service with activeOperation := none }
      throw .locked
    | _, .error e =>
      modify fun service => { service with activeOperation := none }
      throw e

def completeAutofillFulfillment (operation : Nat) : Service V Answer := do
  let service ← get
  if service.activeOperation ≠ some operation ∨ service.session.isNone then
    throw .credentialUnavailable
  else
    modify fun service => { service with activeOperation := none }
    pure .done

/-- `cancel_operation`, which is also `finish_operation`. -/
def cancelOperation (operation : Nat) : Service V Answer := do
  modify fun service =>
    if service.activeOperation = some operation then { service with activeOperation := none }
    else service
  pure .done

/-- `complete_lock` and `complete_discard_and_lock`. -/
def completeLockOperation (operation : Nat) : Service V Answer := do
  let service ← get
  if service.activeOperation ≠ some operation ∨ service.session.isNone then throw .internal
  else
    modify fun service => { service with session := none, activeOperation := none }
    pure .done

/-! ## Saving and reloading -/

section Documents
variable [DecidableEq V] (lib : Editing V)

/-- `verify_semantic_equivalence`. -/
def verifySemanticEquivalence (document other : KdbxDocument V) : Bool :=
  document.semanticallyEquals lib.toKeepass other

/-- `MobileVaultSession::prepare_save`. -/
def preparedSave (session : MobileVaultSession V) (operation : Nat) (files : SaveFiles V) :
    Except MobileError PreparedMobileSave := do
  if ¬ session.writable then .error .persistenceUnsupported
  else if ¬ session.isDirty then .error .invalidRequest
  else
    let current ← files.current.elim (.error .saveFailed) .ok
    if current ≠ session.baseline then .error .externalChange
    else
      let _ ← files.opened.mapError fun error => match error with
        | .invalidCredentials => MobileError.saveAuthenticationFailed
        | _ => .saveFailed
      if ¬ files.written then .error .saveFailed
      else
        let reopened ← files.reopened.elim (.error .saveFailed) .ok
        if ¬ verifySemanticEquivalence lib session.document reopened then .error .saveFailed
        else
          let candidate ← files.candidate.elim (.error .saveFailed) .ok
          .ok ⟨operation, session.document.revision, session.baseline.nativeIdentity,
            candidate.nativeIdentity⟩

def prepareSave (operation : Nat) (files : SaveFiles V) : Service V Answer := do
  let service ← get
  if service.activeOperation ≠ some operation then throw .saveUncertain
  else
    let session ← okOr .saveUncertain service.session
    let prepared ← check (preparedSave lib session operation files)
    pure (.prepared prepared)

/-- `MobileVaultSession::mark_verified_saved`: the session once it is clean. -/
def verifiedSaved (session : MobileVaultSession V) (prepared : PreparedMobileSave)
    (readBack : Option EncryptedGeneration) (reopened : Option (KdbxDocument V)) :
    Except MobileError (MobileVaultSession V) := do
  if session.document.revision ≠ prepared.revision then .error .saveUncertain
  else
    let final ← readBack.elim (.error .saveUncertain) .ok
    if final.nativeIdentity ≠ prepared.candidate then .error .saveUncertain
    else
      let other ← reopened.elim (.error .saveUncertain) .ok
      if ¬ verifySemanticEquivalence lib session.document other then .error .saveUncertain
      else .ok { session with baseline := final, savedRevision := session.document.revision }

def markVerifiedSaved (prepared : PreparedMobileSave) (readBack : Option EncryptedGeneration)
    (reopened : Option (KdbxDocument V)) : Service V Answer := do
  let service ← get
  if service.activeOperation ≠ some prepared.operation then throw .saveUncertain
  else
    let session ← okOr .saveUncertain service.session
    let saved ← check (verifiedSaved lib session prepared readBack reopened)
    modify fun service => { service with session := some saved }
    pure .done

omit [DecidableEq V] in
/-- `MobileVaultSession::reload_candidate`. -/
def reloaded (session : MobileVaultSession V) (vault : StagedVault V) :
    Except MobileError (MobileVaultSession V) := do
  let before ← vault.before.elim (.error .reloadFailed) .ok
  let candidate ← vault.opened.mapError fun error => match error with
    | .invalidCredentials => MobileError.reloadAuthenticationFailed
    | _ => .reloadFailed
  let after ← vault.after.elim (.error .reloadFailed) .ok
  if before ≠ after then .error .reloadFailed
  else .ok { session with
    document := candidate
    baseline := before
    savedRevision := candidate.revision }

omit [DecidableEq V] in
def reloadCandidate (operation : Nat) (vault : StagedVault V) : Service V Answer := do
  let service ← get
  if service.activeOperation ≠ some operation then throw .reloadFailed
  else
    let session ← okOr .reloadFailed service.session
    let session ← check (reloaded session vault)
    modify fun service => { service with session := some session }
    pure .done

/-! ## Mutations -/

def requireId (value : String) : Except MobileError Unit :=
  if value.isEmpty then .error .invalidRequest else .ok ()

def requireName (value : String) : Except MobileError Unit :=
  if isBlank value then .error .invalidRequest else .ok ()

/-- The name of a custom field, unless the entry has it already. -/
def requireNewName (listed : Bool) (name : String) : Except MobileError Unit :=
  if listed then .ok () else requireName name

structure MobileUpdateEntryRequest where
  entryId : String
  title : Option String := none
  username : Option String := none
  url : Option String := none
  password : Option String := none
  notes : Option String := none
  expires : Option Bool := none
  expiryUnixSeconds : Option Int := none
  totpEnabled : Option Bool := none
  totpUri : Option String := none
  icon : Option EntryIconUpdate := none

def iconFromRequest : Option EntryIconUpdate → Except MobileError (Option EntryIconUpdate)
  | some (.builtIn id) =>
    if id ≤ maxStandardIconId then .ok (some (.builtIn id)) else .error .invalidRequest
  | icon => .ok icon

def expiryFromRequest : Option Bool → Option Int → Except MobileError (Option EntryExpiry)
  | none, none => .ok none
  | some false, none => .ok (some .disabled)
  | some true, some seconds => .ok (some (.atUnixSeconds seconds))
  | _, _ => .error .invalidRequest

def totpFromRequest : Option Bool → Option String → Except MobileError (Option EntryTotpUpdate)
  | none, none => .ok none
  | some false, none => .ok (some .clear)
  | some true, some uri => if isBlank uri then .error .invalidRequest else .ok (some (.set uri))
  | _, _ => .error .invalidRequest

/-- The requests of `service_mutations.rs`. -/
inductive MobileMutation where
  | updateEntry (request : MobileUpdateEntryRequest)
  | setEntryTags (entryId : String) (tags : List String)
  | createEntry (groupId : String) (input : NewEntry) (notes : Option String)
  | deleteEntry (entryId : String)
  | moveEntry (entryId destinationGroupId : String)
  | createGroup (parentGroupId name : String)
  | renameGroup (groupId name : String)
  | moveGroup (groupId destinationGroupId : String)
  | deleteGroup (groupId : String)
  | setCustomField (entryId name value : String) (isProtected : Bool)
  | deleteCustomField (entryId name : String)

def mapMutationError : EditError → MobileError
  | .entryNotFound => .entryNotFound
  | .groupNotFound => .groupNotFound
  | .cannotDeleteRootGroup | .invalidGroupMove => .conflict
  | .reservedField | .invalidEntryTags | .invalidExpiry | .invalidIcon | .invalidTotp
  | .invalidAttachmentName | .attachmentAlreadyExists | .recycleBinDisabled
  | .invalidRecycleBinOperation => .invalidRequest
  | _ => .internal

omit [DecidableEq V] in
/-- `custom_fields` lists a field of that name for the entry. -/
def hasCustomField (document : KdbxDocument V) (entryId name : String) : Except MobileError Bool :=
  match document.database.findEntryId entryId with
  | .error e => .error (mapMutationError e)
  | .ok id => match document.database.entries[id]? with
    | none => .error .entryNotFound
    | some entry => .ok (name ∈ entry.fields ∧ ¬ isReservedField lib name)

omit [DecidableEq V] in
/-- The checks of the request, and the mutation of the document it asks for. -/
def MobileMutation.checked (document : KdbxDocument V) : MobileMutation → Except MobileError Mutation
  | .updateEntry request => do
    requireId request.entryId
    let expiry ← expiryFromRequest request.expires request.expiryUnixSeconds
    let totp ← totpFromRequest request.totpEnabled request.totpUri
    let icon ← iconFromRequest request.icon
    .ok (.updateEntry request.entryId
      { title := request.title
        username := request.username
        url := request.url
        password := request.password
        notes := request.notes
        expiry := expiry
        totp := totp
        icon := icon })
  | .setEntryTags entryId tags => do
    requireId entryId
    .ok (.setEntryTags entryId tags)
  | .createEntry groupId input notes => do
    requireId groupId
    .ok (.createEntryWithNotes groupId input notes)
  | .deleteEntry entryId => do
    requireId entryId
    .ok (.trashEntry entryId)
  | .moveEntry entryId destinationGroupId => do
    requireId entryId
    requireId destinationGroupId
    .ok (.moveEntry entryId destinationGroupId)
  | .createGroup parentGroupId name => do
    requireId parentGroupId
    requireName name
    .ok (.createGroup parentGroupId name)
  | .renameGroup groupId name => do
    requireId groupId
    requireName name
    .ok (.renameGroup groupId name)
  | .moveGroup groupId destinationGroupId => do
    requireId groupId
    requireId destinationGroupId
    .ok (.moveGroup groupId destinationGroupId)
  | .deleteGroup groupId => do
    requireId groupId
    .ok (.trashGroup groupId)
  | .setCustomField entryId name value isProtected => do
    requireId entryId
    let listed ← hasCustomField lib document entryId name
    requireNewName listed name
    .ok (.setEntryCustomField entryId name value isProtected)
  | .deleteCustomField entryId name => do
    requireId entryId
    .ok (.deleteEntryCustomField entryId name)

omit [DecidableEq V] in
/-- Runs a mutation on the document of the session. The document keeps whatever the mutation left. -/
def mutateDocument (session : MobileVaultSession V) (mutation : Mutation) (env : Ambient) :
    Service V Answer := do
  let outcome := (mutation.body lib env).call session.document
  modify fun service => { service with session := some { session with document := outcome.2 } }
  match outcome.1 with
  | .ok _ => pure .done
  | .error e => throw (mapMutationError e)

omit [DecidableEq V] in
/-- A mutation, behind `session_mut_for_mutation`. -/
def mutate (request : MobileMutation) (env : Ambient) : Service V Answer := do
  let service ← get
  if service.activeOperation.isSome then throw .busy
  else
    let session ← okOr .locked service.session
    if ¬ session.writable then throw .persistenceUnsupported
    else
      let mutation ← check (request.checked lib session.document)
      mutateDocument lib session mutation env

/-- `MAX_MOBILE_ATTACHMENT_BYTES`. -/
def maxMobileAttachmentBytes : Nat := 64 * 1024 * 1024

/-- The checks of `import_entry_attachment`, and the bytes. -/
def importedBytes (entryId name : String) (staged : StagedAttachment) :
    Except MobileError Bytes := do
  requireId entryId
  if name.isEmpty then .error .invalidRequest
  else
    let (isFile, length) ← staged.metadata.elim (.error .internal) .ok
    if ¬ isFile ∨ maxMobileAttachmentBytes < length then .error .invalidRequest
    else
      let bytes ← staged.bytes.elim (.error .internal) .ok
      if maxMobileAttachmentBytes < bytes.length then .error .invalidRequest else .ok bytes

omit [DecidableEq V] in
def completeAttachmentImport (operation : Nat) (entryId name : String) (staged : StagedAttachment)
    (env : Ambient) : Service V Answer := do
  let service ← get
  if service.activeOperation ≠ some operation then throw .internal
  else
    let session ← okOr .locked service.session
    if ¬ session.writable then throw .persistenceUnsupported
    else
      let bytes ← check (importedBytes entryId name staged)
      mutateDocument lib session (.addEntryAttachment entryId name bytes) env

/-! ## Calls and runs -/

/-- A call with its arguments and with what it finds outside. -/
inductive Call (V : Type) where
  | beginSelection
  | completeSelection (operation : Nat) (stagedPath fileName sourceToken : String)
      (writable recoveryRequired : Bool)
  | unlock (vault : StagedVault V) (removed : Bool)
  | mutate (request : MobileMutation) (env : Ambient)
  | beginSave
  | prepareSave (operation : Nat) (files : SaveFiles V)
  | markVerifiedSaved (prepared : PreparedMobileSave) (readBack : Option EncryptedGeneration)
      (reopened : Option (KdbxDocument V))
  | beginReload
  | reloadCandidate (operation : Nat) (vault : StagedVault V)
  | cancelOperation (operation : Nat)
  | beginLock
  | beginDiscardAndLock
  | completeLock (operation : Nat)
  | beginAttachmentImport
  | completeAttachmentImport (operation : Nat) (entryId name : String) (staged : StagedAttachment)
      (env : Ambient)
  | beginAutofillFulfillment (secret : Except MobileError Unit)
  | completeAutofillFulfillment (operation : Nat)

/-- The operation a call acts on, if it names one. -/
def Call.operation : Call V → Option Nat
  | .completeSelection operation .. | .prepareSave operation _ | .reloadCandidate operation _
  | .cancelOperation operation | .completeLock operation | .completeAttachmentImport operation ..
  | .completeAutofillFulfillment operation => some operation
  | .markVerifiedSaved prepared .. => some prepared.operation
  | _ => none

def Call.body : Call V → Service V Answer
  | .beginSelection => Mobile.beginSelection
  | .completeSelection operation stagedPath fileName sourceToken writable recoveryRequired =>
    Mobile.completeSelection operation stagedPath fileName sourceToken writable recoveryRequired
  | .unlock vault removed => Mobile.unlock vault removed
  | .mutate request env => Mobile.mutate lib request env
  | .beginSave => Mobile.beginSave
  | .prepareSave operation files => Mobile.prepareSave lib operation files
  | .markVerifiedSaved prepared readBack reopened =>
    Mobile.markVerifiedSaved lib prepared readBack reopened
  | .beginReload => Mobile.beginReload
  | .reloadCandidate operation vault => Mobile.reloadCandidate operation vault
  | .cancelOperation operation => Mobile.cancelOperation operation
  | .beginLock => Mobile.beginLock
  | .beginDiscardAndLock => Mobile.beginDiscardAndLock
  | .completeLock operation => Mobile.completeLockOperation operation
  | .beginAttachmentImport => Mobile.beginAttachmentImport
  | .completeAttachmentImport operation entryId name staged env =>
    Mobile.completeAttachmentImport lib operation entryId name staged env
  | .beginAutofillFulfillment secret => Mobile.beginAutofillFulfillment secret
  | .completeAutofillFulfillment operation => Mobile.completeAutofillFulfillment operation

def Call.perform (call : Call V) (service : MobileVaultService V) :
    Except MobileError Answer × MobileVaultService V :=
  (call.body lib).call service

end Documents

end NianPass.Mobile
