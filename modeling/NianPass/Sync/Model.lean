import NianPass.Kdbx.Semantics

/-
  The values of `crates/sync-engine` and `crates/sync-provider-core`: snapshots
  of the local vault, remote objects with their revisions, the metadata of a
  profile directory, and the errors of the four layers.

  The profile directory is typed: `base.json` holds a `BaseMetadata`,
  `journal.json` a `JournalRecord`, and a `base-*.kdbx` or `candidate-*.kdbx`
  file the bytes of a vault. JSON that does not parse is one of the errors that
  reading a file may return.
-/
namespace NianPass.Sync

open Kdbx (Bytes KdbxDocument Keepass MergeError MergeOutcome SyncConflict mergeGenerations)

abbrev Uuid := Kdbx.Uuid

/-- `CiphertextDigest`: the SHA-256 of exact encrypted bytes, in hexadecimal. -/
structure CiphertextDigest where
  asStr : String
  deriving DecidableEq, Repr

/-- `RemoteRevision`: the compare-and-swap token of one provider. -/
structure RemoteRevision where
  token : String
  deriving DecidableEq, Repr

structure SourceBinding where
  asStr : String
  deriving DecidableEq, Repr

structure TargetBinding where
  asStr : String
  deriving DecidableEq, Repr

structure SyncCredential where
  password : Option String
  keyfile : Option Bytes
  deriving DecidableEq, Repr

def SyncCredential.hasComponent (credential : SyncCredential) : Bool :=
  credential.password.isSome || credential.keyfile.isSome

/-- `LocalSnapshot`. The digest is that of the bytes: see `Platform.digestOf`. -/
structure LocalSnapshot where
  source : SourceBinding
  authorityToken : String
  ciphertext : Bytes
  deriving DecidableEq, Repr

/-- `MAX_REMOTE_CIPHERTEXT_BYTES`. -/
def maxRemoteCiphertextBytes : Nat := 64 * 1024 * 1024

structure RemoteObject where
  ciphertext : Bytes
  revision : RemoteRevision
  deriving DecidableEq, Repr

inductive RemoteRead where
  | missing
  | present (object : RemoteObject)
  deriving DecidableEq, Repr

/-! ## Errors -/

inductive ProviderError where
  | remoteChanged
  | writeResultUncertain
  | unsupportedProvider
  | unsafeProvider
  | invalidConfiguration
  | authenticationFailed
  | objectTooLarge
  | invalidMetadata
  | transport
  deriving DecidableEq, Repr

inductive LocalCommitError where
  | locked
  | dirty
  | changed
  | unsupported
  | failed
  deriving DecidableEq, Repr

inductive StoreError where
  | io
  | invalidMetadata
  | corruptBase
  | corruptJournal
  | unsupportedSchema
  | wrongProfile
  | wrongSource
  | wrongTarget
  | activeJournal
  deriving DecidableEq, Repr

inductive SyncError where
  | provider (error : ProviderError)
  | store (error : StoreError)
  | localVault (error : LocalCommitError)
  | merge (error : MergeError)
  | vaultAuthenticationFailed
  | invalidVault
  | remoteChanged
  | localChanged
  | localChangedDuringRecovery
  | uncertainState
  | staleConflict
  | internal
  deriving DecidableEq, Repr

/-- `impl From<ProviderError> for SyncError`. -/
def SyncError.ofProvider : ProviderError → SyncError
  | .remoteChanged => .remoteChanged
  | error => .provider error

/-! ## The profile directory -/

def schemaVersion : Nat := 2

/-- The name of a private ciphertext file: `base-<uuid>.kdbx` or `candidate-<uuid>.kdbx`. -/
inductive CiphertextFile where
  | base (id : Uuid)
  | candidate (id : Uuid)
  deriving DecidableEq, Repr

structure BaseMetadata where
  schemaVersion : Nat
  profileId : Uuid
  source : SourceBinding
  target : TargetBinding
  ciphertextFile : CiphertextFile
  ciphertextSha256 : CiphertextDigest
  remoteRevision : RemoteRevision
  deriving DecidableEq, Repr

inductive JournalPhase where
  | prepared
  | remoteCommitted
  | localCommitted
  deriving DecidableEq, Repr

structure JournalRecord where
  schemaVersion : Nat
  profileId : Uuid
  source : SourceBinding
  target : TargetBinding
  operationId : Uuid
  phase : JournalPhase
  expectedLocalSha256 : CiphertextDigest
  expectedRemoteRevision : Option RemoteRevision
  candidateFile : CiphertextFile
  candidateSha256 : CiphertextDigest
  committedRemoteRevision : Option RemoteRevision
  deriving DecidableEq, Repr

inductive File where
  | base
  | journal
  | ciphertext (name : CiphertextFile)
  deriving DecidableEq, Repr

abbrev File.Content : File → Type
  | .base => BaseMetadata
  | .journal => JournalRecord
  | .ciphertext _ => Bytes

abbrev Directory := (file : File) → Option file.Content

/-- What stands in a profile directory: a file of the store, or the temporary sibling that an
interrupted atomic write of a file leaves under a random name. -/
inductive DirectoryEntry where
  | file (file : File)
  | temporary (sibling : File) (suffix : String)
  deriving DecidableEq, Repr

/-- `get_version_num() == 4`. -/
def isV4 (id : Uuid) : Bool := id.extractLsb 79 76 = 4#4

structure BaseState where
  ciphertext : Bytes
  digest : CiphertextDigest
  remoteRevision : RemoteRevision
  deriving DecidableEq, Repr

structure LoadedJournal where
  record : JournalRecord
  candidate : Bytes
  deriving DecidableEq, Repr

/-- `SyncStore`: the identity that everything in its directory must carry. -/
structure SyncStore where
  profileId : Uuid
  source : SourceBinding
  target : TargetBinding
  deriving DecidableEq, Repr

/-! ## Decisions -/

inductive SyncCompletion where
  | createdRemote
  | establishedBase
  | equivalent
  | uploadedLocal
  | appliedRemote
  | merged
  | recovered
  deriving DecidableEq, Repr

inductive ConflictChoice where
  | keepLocal
  | keepRemote
  deriving DecidableEq, Repr

structure ConflictOperation where
  conflictOperationId : Uuid
  initialConflict : Bool
  conflicts : List SyncConflict

inductive SyncOutcome where
  | done (completion : SyncCompletion)
  | conflict (operation : ConflictOperation)

/-- What the user is asked about, bound to exact generations of both sides. -/
structure PendingConflict where
  operation : ConflictOperation
  loc : LocalSnapshot
  remoteBytes : Bytes
  remoteRevision : RemoteRevision
  baseDigest : Option CiphertextDigest

inductive CommitRemote where
  | create
  | replace
  | alreadyCommitted (bytes : Bytes)
  deriving DecidableEq, Repr

structure CommitPlan where
  localSnapshot : LocalSnapshot
  expectedRemote : Option RemoteRevision
  remoteAction : CommitRemote
  completion : SyncCompletion
  deriving DecidableEq, Repr

/-! ## What the engine is built on -/

/-- Why a vault does not open. -/
inductive OpenError where
  | invalidCredentials
  | malformed
  deriving DecidableEq, Repr

/-- The libraries under the engine: SHA-256, the KDBX reader and `keepass-rs`. -/
structure Platform (V : Type) where
  digestOf : Bytes → CiphertextDigest
  openReader : Bytes → SyncCredential → Except OpenError (KdbxDocument V)
  keepass : Keepass V

variable {V : Type}

def openDocument (P : Platform V) (bytes : Bytes) (credential : SyncCredential) :
    Except SyncError (KdbxDocument V) :=
  match P.openReader bytes credential with
  | .ok document => .ok document
  | .error .invalidCredentials => .error .vaultAuthenticationFailed
  | .error .malformed => .error .invalidVault

end NianPass.Sync
