import NianPass.Lib.Program
import NianPass.Kdbx.Semantics

/-
  The local vault session: what `crates/vault-session` asks of the file system.

  A session knows one path. Around it are the previous-generation backup
  (`vault.kdbx.bak`) and temporaries under random names in the same directory.
  Every file-system step is a request whose outcome the code does not choose:
  each may fail, at every place.

  `keepass-rs` decodes a vault (`parse`); what is written by its encoder is
  arbitrary here, since the code re-opens whatever was written. A fingerprint is
  the length and the SHA-256 of a file.
-/
namespace NianPass.Session

open Kdbx (Bytes KdbxDocument Keepass)

/-- The errors of `crates/kdbx` that opening, writing and verifying a document return. -/
inductive DocumentError where
  | io
  | invalidKdbx
  | invalidCredentials
  | unsupportedFormat
  | unsupportedWriteFormat
  | writeIo
  | serialization
  | verificationFailed
  deriving DecidableEq, Repr

/-- `SessionError`, without the I/O error some variants carry. -/
inductive SessionError where
  | unsupportedPath
  | createTarget
  | exportTarget
  | exportVerificationFailed (error : DocumentError)
  | unsupportedPersistencePlatform
  | unsavedChanges
  | readSource
  | kdbx (error : DocumentError)
  | externalModificationDetected
  | credentialMismatch
  | credentialVerificationFailed (error : DocumentError)
  | tempCreateFailed
  | tempRandomFailed
  | writeTemp
  | syncTemp
  | tempVerificationFailed (error : DocumentError)
  | backupTempFailed
  | backupFailed
  | backupVerificationFailed
  | savedButBackupUpdateFailed
  | savedButBackupDurabilityUncertain
  | atomicReplaceFailed
  | finalVerificationFailed (error : DocumentError)
  | finalReadFailed
  | finalExternalModificationDetected
  | durabilityUncertain
  deriving DecidableEq, Repr

inductive SaveOutcome where
  | unchanged
  | saved
  deriving DecidableEq, Repr

/-- The operating systems the crate is built for. -/
inductive Host where
  | unix
  | windows
  deriving DecidableEq, Repr

/-- `SAVE_SUPPORTED`. -/
def Host.saveSupported : Host → Bool
  | .unix => true
  | .windows => false

/-- `SYNC_REPLACE_SUPPORTED`. -/
def syncReplaceSupported : Bool := true

/-! ## Files -/

/-- The files a session touches. -/
inductive Path where
  | primary
  | backup
  | temp (name : String)
  deriving DecidableEq, Repr

/-- What stands under a name. -/
inductive Node where
  | absent
  | symlink
  | special
  | regular (bytes : Bytes)
  deriving DecidableEq, Repr

abbrev Directory := Path → Node

inductive FileType where
  | symlink
  | file
  | special
  deriving DecidableEq, Repr

structure Metadata where
  fileType : FileType
  mode : Nat
  deriving DecidableEq, Repr

/-- An open file. Other writers replace a generation; they do not rewrite the file that is open. -/
structure Handle where
  isFile : Bool
  bytes : Bytes
  deriving DecidableEq, Repr

inductive IoError where
  | notFound
  | alreadyExists
  | other
  deriving DecidableEq, Repr

variable {V C : Type}

/-- The file-system steps. -/
inductive Request (V C : Type) where
  | symlinkMetadata (path : Path)
  | pathExists (path : Path)
  | openFile (path : Path) (nofollow : Bool)
  | handleMetadata (handle : Handle)
  | seek (handle : Handle)
  | read (handle : Handle)
  | random
  | createNew (name : String)
  | identity (name : String)
  | serialize (name : String) (document : KdbxDocument V) (credential : C)
  | writeAll (name : String) (bytes : Bytes)
  | flush (name : String)
  | syncAll (name : String)
  | setPermissions (name : String) (mode : Nat)
  | syncPath (name : String)
  | copy (handle : Handle) (name : String)
  | rename (source destination : Path)
  | removeFile (name : String)
  | sameFile (name : String)
  | syncParent
  | replaceFile (prepared : String)

/-- Answers. A `Bool` says whether the step succeeded. -/
abbrev Answer : Request V C → Type
  | .symlinkMetadata _ => Except IoError Metadata
  | .openFile _ _ => Except IoError Handle
  | .handleMetadata _ => Except IoError Bool
  | .read _ => Except IoError Bytes
  | .random => Option Bytes
  | .createNew _ => Except IoError Unit
  | .serialize _ _ _ => Except DocumentError Unit
  | .pathExists _ => Bool
  | .seek _ => Bool
  | .identity _ => Bool
  | .writeAll _ _ => Bool
  | .flush _ => Bool
  | .syncAll _ => Bool
  | .setPermissions _ _ => Bool
  | .syncPath _ => Bool
  | .copy _ _ => Bool
  | .rename _ _ => Bool
  | .removeFile _ => Bool
  | .sameFile _ => Bool
  | .syncParent => Bool
  | .replaceFile _ => Bool

abbrev Fs (V C α : Type) := ExceptT SessionError (Program (Request V C) Answer) α

def ask (request : Request V C) : Fs V C (Answer request) :=
  liftM (Program.request request : Program (Request V C) Answer (Answer request))

/-- `map_err`. -/
def orError {α ε : Type} (error : SessionError) : Except ε α → Fs V C α
  | .ok a => pure a
  | .error _ => throw error

/-- `?` on a step that only succeeds or fails. -/
def require (success : Bool) (error : SessionError) : Fs V C Unit :=
  if success then pure () else throw error

/-! ## The session -/

/-- What the session uses of `keepass-rs` and of `sha2`. -/
structure Codec (V C F : Type) where
  parse : C → Bytes → Except DocumentError (KdbxDocument V)
  fingerprint : Bytes → F
  keepass : Keepass V

/-- `VaultSession`; its path is `Path.primary`. -/
structure VaultSession (V F : Type) where
  document : KdbxDocument V
  sourceFingerprint : F
  savedRevision : Nat
  deriving DecidableEq

def VaultSession.isDirty {F : Type} (session : VaultSession V F) : Bool :=
  session.document.hasChangesSince session.savedRevision

end NianPass.Session
