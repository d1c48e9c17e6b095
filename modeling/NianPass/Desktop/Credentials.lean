import NianPass.Session.Alone

/-
  The retained credential of `DesktopVaultService`
  (`src-tauri/src/state/credential_flow.rs`, `keyfile_credential.rs`).

  The service keeps the credential its session was unlocked with, and saves with
  it. A rotation re-encrypts the vault with another one. It can fail before the
  vault is replaced and after; where the error says it may be after, the service
  tries both credentials on the file and keeps one that opens it.

  What is proved, for every run in which no other process writes the vault and
  the reads made while reconciling succeed: after every call that leaves a
  session open, the retained credential opens the file that stands there
  (`retained_credential_opens`).

  The browser session identifier and the snapshot a call answers with are left
  out; drawing the one and making the other may fail. Edits of the document are
  arbitrary.
-/
namespace NianPass.Desktop

open Session Kdbx
open Program (Machine Ensures Safe Reaches)

variable {V F : Type}

/-- `KdbxCredential`, and `DesktopVaultCredential` that owns the same components. -/
structure KdbxCredential where
  password : Option String
  keyfile : Option Bytes
  deriving DecidableEq, Repr

def KdbxCredential.hasComponent (credential : KdbxCredential) : Bool :=
  credential.password.isSome || credential.keyfile.isSome

/-- The errors of `DesktopError` that these calls return. -/
inductive DesktopError where
  | alreadyUnlocked
  | locked
  | noVaultSelected
  | unlockFailed
  | unsupportedVault
  | invalidRequest
  | unsavedChanges
  | saveFailed
  | saveAuthenticationFailed
  | saveUncertain
  | unsupportedWriteFormat
  | unsupportedPersistencePlatform
  | readOnlySource
  | externalChange
  | internal
  deriving DecidableEq, Repr

/-- `map_open_error`. -/
def mapOpenError : SessionError → DesktopError
  | .kdbx .invalidCredentials => .unlockFailed
  | .unsupportedPath => .unsupportedVault
  | .readSource => .unsupportedVault
  | .kdbx .invalidKdbx => .unsupportedVault
  | .kdbx .unsupportedFormat => .unsupportedVault
  | _ => .internal

/-- `map_save_error`. -/
def mapSaveError : SessionError → DesktopError
  | .externalModificationDetected => .externalChange
  | .finalExternalModificationDetected => .externalChange
  | .unsupportedPath => .externalChange
  | .readSource => .externalChange
  | .credentialMismatch => .saveAuthenticationFailed
  | .unsupportedPersistencePlatform => .unsupportedPersistencePlatform
  | .kdbx .unsupportedWriteFormat => .unsupportedWriteFormat
  | .finalVerificationFailed _ => .saveUncertain
  | .finalReadFailed => .saveUncertain
  | .savedButBackupUpdateFailed => .saveUncertain
  | .savedButBackupDurabilityUncertain => .saveUncertain
  | .durabilityUncertain => .saveUncertain
  | _ => .saveFailed

/-- `rotation_replacement_may_be_installed`. -/
def rotationReplacementMayBeInstalled : SessionError → Bool
  | .finalVerificationFailed _ => true
  | .finalReadFailed => true
  | .savedButBackupUpdateFailed => true
  | .savedButBackupDurabilityUncertain => true
  | .durabilityUncertain => true
  | _ => false

/-! ## The service -/

/-- `DesktopVaultService`; there is one vault it can select. -/
structure DesktopVaultService (V F : Type) where
  selectedPath : Bool
  session : Option (VaultSession V F)
  saveCredential : Option KdbxCredential
  pendingKeyfile : Option Bytes

def DesktopVaultService.new : DesktopVaultService V F := ⟨false, none, none, none⟩

/-- What a call asks for. A step of the file system says whether it is made while reconciling. -/
inductive DesktopRequest (V : Type) where
  | disk (reconciling : Bool) (request : Request V KdbxCredential)
  | readonly
  | projection (document : KdbxDocument V)
  | token

abbrev DesktopAnswer : DesktopRequest V → Type
  | .disk _ request => Answer request
  | .readonly => Bool
  | .projection _ => Bool
  | .token => Bool

abbrev Desk (V α : Type) := Program (DesktopRequest V) DesktopAnswer α

def onVault {α : Type} (reconciling : Bool) (p : Program (Request V KdbxCredential) Answer α) :
    Desk V α :=
  p.embed (.disk reconciling) fun _ answer => answer

namespace DesktopVaultService

/-- A call answers, and leaves the service. -/
abbrev Outcome (V F : Type) := Except DesktopError Unit × DesktopVaultService V F

/-- `write_restriction`. -/
def writeRestriction (host : Host) (session : VaultSession V F) : Desk V (Option DesktopError) := do
  if session.document.version ≠ .kdbx4 1 then pure (some .unsupportedWriteFormat)
  else if host.saveSupported = false then pure (some .unsupportedPersistencePlatform)
  else if (← Program.request DesktopRequest.readonly) then pure (some .readOnlySource)
  else pure none

/-- `require_writable`, for a block that goes on with the session. -/
def requireWritable (host : Host) (service : DesktopVaultService V F)
    (block : VaultSession V F → Desk V (Outcome V F)) : Desk V (Outcome V F) := do
  match service.session with
  | none => pure (.error .locked, service)
  | some session =>
    match ← writeRestriction host session with
    | some error => pure (.error error, service)
    | none => block session

/-- `snapshot`. -/
def snapshot (service : DesktopVaultService V F) : Desk V (Outcome V F) := do
  match service.session with
  | none => pure (.error .locked, service)
  | some session =>
    if (← Program.request (DesktopRequest.projection session.document)) then pure (.ok (), service)
    else pure (.error .internal, service)

def selectPath (service : DesktopVaultService V F) : Outcome V F :=
  if service.session.isSome then (.error .alreadyUnlocked, service)
  else (.ok (), { service with selectedPath := true, pendingKeyfile := none })

def setPendingKeyfile (service : DesktopVaultService V F) (keyfile : Bytes) : Outcome V F :=
  if service.session.isSome then (.error .alreadyUnlocked, service)
  else if service.selectedPath = false then (.error .noVaultSelected, service)
  else (.ok (), { service with pendingKeyfile := some keyfile })

def clearPendingKeyfile (service : DesktopVaultService V F) : Outcome V F :=
  if service.session.isSome then (.error .alreadyUnlocked, service)
  else (.ok (), { service with pendingKeyfile := none })

def discardAndLock (service : DesktopVaultService V F) : Outcome V F :=
  if service.session.isSome then
    (.ok (), ⟨false, none, none, none⟩)
  else (.error .locked, service)

def lock (service : DesktopVaultService V F) : Outcome V F :=
  match service.session with
  | none => (.error .locked, service)
  | some session =>
    if session.isDirty then (.error .unsavedChanges, service) else service.discardAndLock

section Persisting
variable [DecidableEq V] [DecidableEq F] (E : Codec V KdbxCredential F) (host : Host)
variable (service : DesktopVaultService V F)

omit [DecidableEq V] in
/-- `unlock_with_components`. -/
def unlockWithComponents (password : Option String) : Desk V (Outcome V F) := do
  if service.session.isSome then pure (.error .alreadyUnlocked, service)
  else if service.selectedPath = false then pure (.error .noVaultSelected, service)
  else
    let credential : KdbxCredential := ⟨password, service.pendingKeyfile⟩
    if credential.hasComponent = false then pure (.error .invalidRequest, service)
    else
      match ← onVault false (openSession E credential).run with
      | .error error => pure (.error (mapOpenError error), service)
      | .ok session =>
        if (← Program.request (DesktopRequest.projection session.document)) then
          if (← Program.request DesktopRequest.token) then
            pure (.ok (), { service with
              session := some session
              saveCredential := some credential
              pendingKeyfile := none })
          else pure (.error .internal, service)
        else pure (.error .internal, service)

/-- `save`. -/
def save : Desk V (Outcome V F) :=
  service.requireWritable host fun session => do
    match service.saveCredential with
    | none => pure (.error .locked, service)
    | some credential =>
      let (result, session) ← onVault false (Session.save E host session credential)
      let service := { service with session := some session }
      match result with
      | .error error => pure (.error (mapSaveError error), service)
      | .ok _ => service.snapshot

/-- `replace_retained_password` and `replace_retained_keyfile`. -/
def replaceRetained (replace : KdbxCredential → KdbxCredential) : Outcome V F :=
  match service.saveCredential with
  | none => (.error .locked, service)
  | some current => (.ok (), { service with saveCredential := some (replace current) })

omit [DecidableEq V] in
/-- `reconcile_rotation_authority` and `reconcile_keyfile_authority`: the replacement is kept if it
opens the vault and the current credential does not. -/
def reconcileAuthority (replace : KdbxCredential → KdbxCredential) : Desk V (Outcome V F) := do
  match service.session, service.saveCredential with
  | some _, some current =>
    match ← onVault true (openSession E (replace current)).run with
    | .error _ => pure (.ok (), service)
    | .ok candidate =>
      match ← onVault true (openSession E current).run with
      | .ok _ => pure (.ok (), service)
      | .error _ => pure ({ service with session := some candidate }.replaceRetained replace)
  | _, _ => pure (.error .locked, service)

/-- What the four rotations have in common. -/
def rotate (session : VaultSession V F) (current : KdbxCredential)
    (replace : KdbxCredential → KdbxCredential) : Desk V (Outcome V F) := do
  let (result, session) ← onVault false
    (rotateCredential E host session current (replace current))
  let service := { service with session := some session }
  match result with
  | .error error =>
    if rotationReplacementMayBeInstalled error then
      match ← service.reconcileAuthority E replace with
      | (.error reconciling, service) => pure (.error reconciling, service)
      | (.ok (), service) => pure (.error (mapSaveError error), service)
    else pure (.error (mapSaveError error), service)
  | .ok _ => pure (service.replaceRetained replace)

/-- A rotation of the password answers with a snapshot. -/
def thenSnapshot (rotated : Desk V (Outcome V F)) : Desk V (Outcome V F) := do
  match ← rotated with
  | (.ok (), service) => service.snapshot
  | (.error error, service) => pure (.error error, service)

/-- A rotation starts from a clean, writable session. -/
def requireClean (block : VaultSession V F → Desk V (Outcome V F)) : Desk V (Outcome V F) :=
  service.requireWritable host fun session =>
    if session.isDirty then pure (.error .unsavedChanges, service) else block session

/-- `change_master_password`. -/
def changeMasterPassword (newPassword : String) : Desk V (Outcome V F) :=
  service.requireClean host fun session =>
    if newPassword.isEmpty then pure (.error .invalidRequest, service)
    else
      match service.saveCredential with
      | none => pure (.error .locked, service)
      | some current =>
        thenSnapshot (service.rotate E host session current fun credential =>
          { credential with password := some newPassword })

/-- `remove_master_password`. -/
def removeMasterPassword : Desk V (Outcome V F) :=
  service.requireClean host fun session =>
    match service.saveCredential with
    | none => pure (.error .locked, service)
    | some current =>
      if current.password = none then pure (.error .invalidRequest, service)
      else if current.keyfile = none then pure (.error .invalidRequest, service)
      else
        thenSnapshot (service.rotate E host session current fun credential =>
          { credential with password := none })

/-- `replace_keyfile`. -/
def replaceKeyfile (newKeyfile : Bytes) : Desk V (Outcome V F) :=
  service.requireClean host fun session =>
    match service.saveCredential with
    | none => pure (.error .locked, service)
    | some current =>
      if current.keyfile = some newKeyfile then pure (.ok (), service)
      else service.rotate E host session current fun credential =>
        { credential with keyfile := some newKeyfile }

/-- `remove_keyfile`. -/
def removeKeyfile : Desk V (Outcome V F) :=
  service.requireClean host fun session =>
    match service.saveCredential with
    | none => pure (.error .locked, service)
    | some current =>
      if current.keyfile = none then pure (.ok (), service)
      else
        match current.password with
        | none => pure (.error .invalidRequest, service)
        | some password =>
          -- A vault opened with an empty password keeps its keyfile.
          if password.isEmpty then pure (.error .invalidRequest, service)
          else service.rotate E host session current fun credential =>
            { credential with keyfile := none }

omit [DecidableEq V] [DecidableEq F] in
/-- A mutation through `session_mut` leaves some document. -/
def edit (document : KdbxDocument V) : Desk V (Outcome V F) :=
  service.requireWritable host fun session =>
    pure (.ok (), { service with session := some { session with document } })

end Persisting

end DesktopVaultService

/-! ## Calls and runs -/

inductive CredentialCall (V : Type) where
  | selectPath
  | setPendingKeyfile (keyfile : Bytes)
  | clearPendingKeyfile
  | unlock (password : Option String)
  | edit (document : KdbxDocument V)
  | save
  | changeMasterPassword (newPassword : String)
  | removeMasterPassword
  | replaceKeyfile (newKeyfile : Bytes)
  | removeKeyfile
  | lock
  | discardAndLock

def CredentialCall.perform [DecidableEq V] [DecidableEq F] (E : Codec V KdbxCredential F)
    (host : Host) (service : DesktopVaultService V F) :
    CredentialCall V → Desk V (DesktopVaultService.Outcome V F)
  | .selectPath => pure service.selectPath
  | .setPendingKeyfile keyfile => pure (service.setPendingKeyfile keyfile)
  | .clearPendingKeyfile => pure service.clearPendingKeyfile
  | .unlock password => service.unlockWithComponents E password
  | .edit document => service.edit host document
  | .save => service.save E host
  | .changeMasterPassword newPassword => service.changeMasterPassword E host newPassword
  | .removeMasterPassword => service.removeMasterPassword E host
  | .replaceKeyfile newKeyfile => service.replaceKeyfile E host newKeyfile
  | .removeKeyfile => service.removeKeyfile E host
  | .lock => pure service.lock
  | .discardAndLock => pure service.discardAndLock

/-- No other process writes the vault; while reconciling, reading succeeds. -/
def desktopStep (w : World) : (request : DesktopRequest V) → DesktopAnswer request → World → Prop
  | .disk reconciling request, answer, t => quietStep reconciling w request answer t
  | .readonly, _, t => t = w
  | .projection _, _, t => t = w
  | .token, _, t => t = w

/-- A run from a new service, and the directory it leaves. -/
inductive Run [DecidableEq V] [DecidableEq F] (E : Codec V KdbxCredential F) (host : Host)
    (dir : Directory) : DesktopVaultService V F → Directory → Prop
  | start : Run E host dir .new dir
  | call {service : DesktopVaultService V F} {before : Directory} (h : Run E host dir service before)
      (call : CredentialCall V) {result : Except DesktopError Unit}
      {service' : DesktopVaultService V F} {w : World}
      (ends : Reaches desktopStep (call.perform E host service) (World.start before)
        (.done (result, service')) w) : Run E host dir service' w.dir

/-! ## What every call keeps -/

/-- The credential has a component, and opens the vault. -/
structure Authority (E : Codec V KdbxCredential F) (credential : KdbxCredential) (w : World) : Prop
    where
  component : credential.hasComponent = true
  opens : ∃ bytes document, w.dir .primary = .regular bytes ∧
    E.parse credential bytes = .ok document

/-- While a session is open, the retained credential is an authority. -/
def Retains (E : Codec V KdbxCredential F) (service : DesktopVaultService V F) (w : World) : Prop :=
  service.session.isSome = true →
    ∃ credential, service.saveCredential = some credential ∧ Authority E credential w

def desktopSystem : Machine (DesktopRequest V) DesktopAnswer World where
  step := desktopStep
  permits _ _ := True

/-- A call that leaves the service retaining. -/
abbrev Keeps (E : Codec V KdbxCredential F) (p : Desk V (DesktopVaultService.Outcome V F))
    (w : World) : Prop :=
  p.Safe desktopSystem (fun t r => Retains E r.2 t) w

section Keeps
variable {E : Codec V KdbxCredential F} {service : DesktopVaultService V F} {w : World}
variable {host : Host} {current : KdbxCredential} {result : Except DesktopError Unit}

theorem safe_onVault {α : Type} {reconciling : Bool}
    {p : Program (Request V KdbxCredential) Answer α} {Q : World → α → Prop}
    (h : p.Safe (quietSystem reconciling) Q w) : (onVault reconciling p).Safe desktopSystem Q w := by
  refine Program.safe_embed _ _ (Safe.narrow h ?_ fun _ _ _ => trivial)
  rintro s request answer t ⟨_, rfl, hstep⟩
  exact hstep

theorem Authority.retains (h : Authority E current w)
    (hretained : service.saveCredential = some current) : Retains E service w :=
  fun _ => ⟨current, hretained, h⟩

theorem retains_of_locked (h : service.session = none) : Retains E service w := by
  intro hopen
  rw [h] at hopen
  cases hopen

theorem Retains.authority (h : Retains E service w) (hopen : service.session.isSome = true)
    (hretained : service.saveCredential = some current) : Authority E current w := by
  obtain ⟨credential, hcredential, hauthority⟩ := h hopen
  rw [hretained] at hcredential
  cases hcredential
  exact hauthority

theorem keeps_requireWritable {block : VaultSession V F → Desk V (DesktopVaultService.Outcome V F)}
    (h : Retains E service w)
    (hblock : ∀ session, service.session = some session → Keeps E (block session) w) :
    Keeps E (service.requireWritable host block) w := by
  unfold DesktopVaultService.requireWritable
  split
  · exact h
  · next session hsession =>
    unfold DesktopVaultService.writeRestriction
    split
    · exact h
    split
    · exact h
    · refine ⟨trivial, fun readonly t hstep => ?_⟩
      cases hstep
      cases readonly with
      | true => exact h
      | false => exact hblock session hsession

theorem keeps_snapshot (h : Retains E service w) : Keeps E service.snapshot w := by
  unfold DesktopVaultService.snapshot
  split
  · exact h
  · refine ⟨trivial, fun projected t hstep => ?_⟩
    cases hstep
    cases projected with
    | true => exact h
    | false => exact h

theorem keeps_requireClean {block : VaultSession V F → Desk V (DesktopVaultService.Outcome V F)}
    (h : Retains E service w)
    (hblock : ∀ session, service.session = some session → Keeps E (block session) w) :
    Keeps E (service.requireClean host block) w := by
  refine keeps_requireWritable h fun session hsession => ?_
  split
  · exact h
  · exact hblock session hsession

theorem keeps_thenSnapshot {rotated : Desk V (DesktopVaultService.Outcome V F)}
    (h : Keeps E rotated w) : Keeps E (DesktopVaultService.thenSnapshot rotated) w := by
  refine Safe.bind (Safe.weaken h fun t r hr => ?_)
  obtain ⟨result, service⟩ := r
  cases result with
  | ok a => exact keeps_snapshot hr
  | error e => exact hr

end Keeps

section Persisting
variable [DecidableEq V] [DecidableEq F] {E : Codec V KdbxCredential F}
variable {service : DesktopVaultService V F} {w : World} {host : Host}
variable {current replacement : KdbxCredential} {session : VaultSession V F}

omit [DecidableEq F] in
/-- What was installed under a credential makes it an authority. -/
theorem authority_of_installed {document : KdbxDocument V}
    (h : InstalledAlone E replacement document w) (hcomponent : replacement.hasComponent = true) :
    Authority E replacement w := by
  obtain ⟨new, ⟨parsed, hparse, -⟩, hdir⟩ := h
  exact ⟨hcomponent, new, parsed, hdir, hparse⟩

theorem safe_persist_desktop {force : Bool} {node : Node} (hw : w.dir .primary = node) :
    (onVault false (persist E host session current replacement force host.saveSupported)).Safe
      desktopSystem
      (fun t r => AloneReport E replacement session.document force node t r.1) w :=
  safe_onVault (Safe.narrow (safe_persist_alone hw) (fun _ _ _ _ hstep => hstep.1)
    fun _ _ _ => trivial)

omit [DecidableEq V] [DecidableEq F] in
theorem Authority.frame {t : World} (h : Authority E current w)
    (hdir : t.dir .primary = w.dir .primary) : Authority E current t := by
  obtain ⟨hcomponent, bytes, document, hbytes, hparse⟩ := h
  exact ⟨hcomponent, bytes, document, hdir.trans hbytes, hparse⟩

theorem keeps_save (h : Retains E service w) : Keeps E (service.save E host) w := by
  refine keeps_requireWritable h fun session hsession => ?_
  split
  · exact h
  · next credential hretained =>
    have hauthority := h.authority (by rw [hsession]; rfl) hretained
    refine Safe.bind (Safe.weaken (safe_persist_desktop rfl) fun t r hreport => ?_)
    obtain ⟨result, session'⟩ := r
    have hafter : Authority E credential t := by
      obtain ⟨hdir, -⟩ | ⟨hinstalled, -⟩ := hreport
      · exact hauthority.frame hdir
      · exact authority_of_installed hinstalled hauthority.component
    have hretains : Retains E { service with session := some session' } t :=
      hafter.retains hretained
    cases result with
    | error e => exact hretains
    | ok outcome => exact keeps_snapshot hretains

omit [DecidableEq V] in
/-- Opening while reconciling decides whether the credential opens the vault. -/
theorem safe_openSession_sure {credential : KdbxCredential} {bytes : Bytes}
    (hw : w.dir .primary = .regular bytes) :
    (onVault true (openSession E credential).run).Safe desktopSystem (fun t r =>
      t.dir .primary = .regular bytes ∧
      ((∃ session, r = .ok session ∧ E.parse credential bytes = .ok session.document) ∨
        ∃ e error, r = .error e ∧ E.parse credential bytes = .error error)) w := by
  refine safe_onVault (Safe.weaken (ensures_openSession_quiet E hw) fun t r hr => ?_)
  cases r with
  | ok session =>
    obtain ⟨ht, found, hfound, hparse⟩ := hr
    cases hfound
    exact ⟨ht, .inl ⟨session, rfl, hparse⟩⟩
  | error e =>
    obtain ⟨ht, hreason⟩ := hr
    obtain ⟨-, hnot⟩ | ⟨error, -, hparse⟩ := hreason bytes rfl
    · cases hnot
    · exact ⟨ht, .inr ⟨e, error, rfl, hparse rfl⟩⟩

omit [DecidableEq V] in
/-- Whichever of the two opens the vault, the one that is kept does. -/
theorem keeps_reconcileAuthority {replace : KdbxCredential → KdbxCredential} {bytes : Bytes}
    (hopen : service.session.isSome = true) (hretained : service.saveCredential = some current)
    (hcurrent : current.hasComponent = true) (hreplacement : (replace current).hasComponent = true)
    (hw : w.dir .primary = .regular bytes)
    (heither : (∃ document, E.parse current bytes = .ok document) ∨
      ∃ document, E.parse (replace current) bytes = .ok document) :
    Keeps E (service.reconcileAuthority E replace) w := by
  obtain ⟨session, hsession⟩ := Option.isSome_iff_exists.mp hopen
  unfold DesktopVaultService.reconcileAuthority
  rw [hsession, hretained]
  refine Safe.bind (Safe.weaken (safe_openSession_sure hw) fun t r hr => ?_)
  obtain ⟨ht, ⟨candidate, rfl, hparse⟩ | ⟨e, error, rfl, hparse⟩⟩ := hr
  · refine Safe.bind (Safe.weaken (safe_openSession_sure ht) fun u r hr => ?_)
    obtain ⟨hu, ⟨opened, rfl, hopened⟩ | ⟨e, error, rfl, -⟩⟩ := hr
    · exact Authority.retains ⟨hcurrent, bytes, _, hu, hopened⟩ hretained
    · exact Authority.retains ⟨hreplacement, bytes, _, hu, hparse⟩ rfl
  · obtain ⟨document, hdocument⟩ | ⟨document, hdocument⟩ := heither
    · exact Authority.retains ⟨hcurrent, bytes, document, ht, hdocument⟩ hretained
    · cases hparse.symm.trans hdocument

theorem mayBeInstalled_of_afterInstall {e : SessionError} (h : AfterInstall e) :
    rotationReplacementMayBeInstalled e = true := by
  obtain ⟨error, rfl⟩ | rfl | rfl | rfl | rfl := h <;> rfl

theorem keeps_rotate {replace : KdbxCredential → KdbxCredential}
    (hretained : service.saveCredential = some current) (hauthority : Authority E current w)
    (hreplacement : (replace current).hasComponent = true) :
    Keeps E (service.rotate E host session current replace) w := by
  refine Safe.bind (Safe.weaken (safe_persist_desktop rfl) fun t r hreport => ?_)
  obtain ⟨result, session'⟩ := r
  obtain ⟨hcomponent, bytes, document, hbytes, hparse⟩ := hauthority
  obtain ⟨hdir, ⟨e, rfl⟩ | ⟨-, hforce⟩⟩ | ⟨hinstalled, hresult⟩ := hreport
  · -- The vault was not replaced.
    have ht : t.dir .primary = .regular bytes := hdir.trans hbytes
    dsimp only
    split
    · refine Safe.bind (Safe.weaken (keeps_reconcileAuthority rfl hretained hcomponent hreplacement
        ht (.inl ⟨document, hparse⟩)) fun u r hr => ?_)
      obtain ⟨reconciled, service'⟩ := r
      cases reconciled with
      | ok a => exact hr
      | error e => exact hr
    · exact Authority.retains ⟨hcomponent, bytes, document, ht, hparse⟩ hretained
  · cases hforce
  · obtain rfl | ⟨e, rfl, hafter⟩ := hresult
    · have hafter := authority_of_installed hinstalled hreplacement
      dsimp only
      unfold DesktopVaultService.replaceRetained
      simp only [hretained]
      exact hafter.retains rfl
    · -- The vault was replaced, and the error says that it may have been.
      obtain ⟨new, ⟨parsed, hnew, -⟩, ht⟩ := hinstalled
      dsimp only
      rw [if_pos (mayBeInstalled_of_afterInstall hafter)]
      refine Safe.bind (Safe.weaken (keeps_reconcileAuthority rfl hretained hcomponent hreplacement
        ht (.inr ⟨parsed, hnew⟩)) fun u r hr => ?_)
      obtain ⟨reconciled, service'⟩ := r
      cases reconciled with
      | ok a => exact hr
      | error e => exact hr

omit [DecidableEq V] [DecidableEq F] in
/-- The four rotations, once they have found the retained credential. -/
theorem keeps_retained {block : KdbxCredential → Desk V (DesktopVaultService.Outcome V F)}
    (h : Retains E service w) (hopen : service.session.isSome = true)
    (hblock : ∀ current, service.saveCredential = some current → Authority E current w →
      Keeps E (block current) w) :
    Keeps E (match service.saveCredential with
      | none => pure (.error .locked, service)
      | some current => block current) w := by
  split
  · exact h
  · next current hretained => exact hblock current hretained (h.authority hopen hretained)

omit [DecidableEq V] [DecidableEq F] in
theorem isSome_of_session (h : service.session = some session) : service.session.isSome = true := by
  rw [h]
  rfl

theorem keeps_changeMasterPassword {newPassword : String} (h : Retains E service w) :
    Keeps E (service.changeMasterPassword E host newPassword) w := by
  refine keeps_requireClean h fun session hsession => ?_
  split
  · exact h
  refine keeps_retained h (isSome_of_session hsession) fun current hretained hauthority => ?_
  exact keeps_thenSnapshot (keeps_rotate hretained hauthority rfl)

theorem keeps_removeMasterPassword (h : Retains E service w) :
    Keeps E (service.removeMasterPassword E host) w := by
  refine keeps_requireClean h fun session hsession => ?_
  refine keeps_retained h (isSome_of_session hsession) fun current hretained hauthority => ?_
  split
  · exact h
  split
  · exact h
  · next hkeyfile =>
    refine keeps_thenSnapshot (keeps_rotate hretained hauthority ?_)
    simpa [KdbxCredential.hasComponent, Option.isSome_iff_ne_none] using hkeyfile

theorem keeps_replaceKeyfile {newKeyfile : Bytes} (h : Retains E service w) :
    Keeps E (service.replaceKeyfile E host newKeyfile) w := by
  refine keeps_requireClean h fun session hsession => ?_
  refine keeps_retained h (isSome_of_session hsession) fun current hretained hauthority => ?_
  split
  · exact h
  · exact keeps_rotate hretained hauthority (by simp [KdbxCredential.hasComponent])

theorem keeps_removeKeyfile (h : Retains E service w) :
    Keeps E (service.removeKeyfile E host) w := by
  refine keeps_requireClean h fun session hsession => ?_
  refine keeps_retained h (isSome_of_session hsession) fun current hretained hauthority => ?_
  split
  · exact h
  split
  · exact h
  · next password hpassword =>
    split
    · exact h
    · exact keeps_rotate hretained hauthority (by simp [KdbxCredential.hasComponent, hpassword])

omit [DecidableEq V] in
theorem keeps_unlock {password : Option String} (h : Retains E service w) :
    Keeps E (service.unlockWithComponents E password) w := by
  unfold DesktopVaultService.unlockWithComponents
  split
  · exact h
  · next hlocked =>
    have hnone : service.session = none := by simpa using hlocked
    split
    · exact h
    dsimp only
    split
    · exact h
    · next hcomponent =>
      refine Safe.bind (Safe.weaken (safe_onVault (ensures_openSession_quiet E rfl))
        fun t r hr => ?_)
      cases r with
      | error e => exact retains_of_locked hnone
      | ok session =>
        obtain ⟨ht, bytes, hbytes, hparse⟩ := hr
        refine ⟨trivial, fun projected u hstep => ?_⟩
        cases hstep
        cases projected with
        | false => exact retains_of_locked hnone
        | true =>
          refine ⟨trivial, fun drawn u hstep => ?_⟩
          cases hstep
          cases drawn with
          | false => exact retains_of_locked hnone
          | true =>
            refine Authority.retains ⟨?_, bytes, _, ht.trans hbytes, hparse⟩ rfl
            simpa using hcomponent

/-- Every call keeps the authority of the retained credential. -/
theorem keeps_perform (call : CredentialCall V) (h : Retains E service w) :
    Keeps E (call.perform E host service) w := by
  cases call with
  | selectPath =>
    show Retains E (DesktopVaultService.selectPath service).2 w
    unfold DesktopVaultService.selectPath
    split
    · exact h
    · exact h
  | setPendingKeyfile keyfile =>
    show Retains E (DesktopVaultService.setPendingKeyfile service keyfile).2 w
    unfold DesktopVaultService.setPendingKeyfile
    split
    · exact h
    split
    · exact h
    · exact h
  | clearPendingKeyfile =>
    show Retains E (DesktopVaultService.clearPendingKeyfile service).2 w
    unfold DesktopVaultService.clearPendingKeyfile
    split
    · exact h
    · exact h
  | unlock password => exact keeps_unlock h
  | edit document =>
    refine keeps_requireWritable h fun session hsession => ?_
    exact fun _ => h (isSome_of_session hsession)
  | save => exact keeps_save h
  | changeMasterPassword newPassword => exact keeps_changeMasterPassword h
  | removeMasterPassword => exact keeps_removeMasterPassword h
  | replaceKeyfile newKeyfile => exact keeps_replaceKeyfile h
  | removeKeyfile => exact keeps_removeKeyfile h
  | lock =>
    show Retains E (DesktopVaultService.lock service).2 w
    unfold DesktopVaultService.lock DesktopVaultService.discardAndLock
    split
    · exact h
    split
    · exact h
    split
    · exact retains_of_locked rfl
    · exact h
  | discardAndLock =>
    show Retains E (DesktopVaultService.discardAndLock service).2 w
    unfold DesktopVaultService.discardAndLock
    split
    · exact retains_of_locked rfl
    · exact h

theorem Run.retains {dir dir' : Directory} (h : Run E host dir service dir') :
    Retains E service (World.start dir') := by
  induction h with
  | start => exact retains_of_locked rfl
  | call _ call ends ih =>
    intro hopen
    obtain ⟨credential, hretained, hauthority⟩ := (keeps_perform call ih).reaches ends hopen
    exact ⟨credential, hretained, hauthority.frame rfl⟩

end Persisting

/-- After every call of a run that leaves a session open, the retained credential has a component
and opens the file that stands there, and checking it before a save fails only where reading the
file fails. -/
theorem retained_credential_opens [DecidableEq V] [DecidableEq F] (E : Codec V KdbxCredential F)
    (host : Host) (dir dir' : Directory) (service : DesktopVaultService V F)
    (hrun : Run E host dir service dir') (hopen : service.session.isSome = true) :
    ∃ credential bytes document, service.saveCredential = some credential ∧
      credential.hasComponent = true ∧ dir' .primary = .regular bytes ∧
      E.parse credential bytes = .ok document ∧
      ∀ sure result w, Reaches (quietStep sure) (verifySaveCredential E credential).run
        (World.start dir') (.done result) w →
        result = .ok () ∨ (sure = false ∧ result = .error (.credentialVerificationFailed .io)) := by
  obtain ⟨credential, hretained, hcomponent, bytes, document, hdir, hparse⟩ := hrun.retains hopen
  refine ⟨credential, bytes, document, hretained, hcomponent, hdir, hparse,
    fun sure result w hverify => ?_⟩
  have hstart : (World.start dir').dir .primary = .regular bytes := hdir
  have hsafe : Ensures (quietSystem sure) (verifySaveCredential E credential) _ _ _ :=
    ensures_verifySaveCredential_quiet E hstart hparse
  have hresult := hsafe.reaches hverify
  cases result with
  | ok a => exact .inl rfl
  | error e => exact .inr ⟨hresult.2.1, by rw [hresult.2.2]⟩

/-! ## A run -/

/-- The step is not one of reading, or it succeeds. -/
def reads : (request : Request V KdbxCredential) → Answer request → Bool
  | .symlinkMetadata _, .error _ => false
  | .openFile _ _, .error _ => false
  | .handleMetadata _, .error _ => false
  | .read _, .error _ => false
  | .seek _, answer => answer
  | _, _ => true

theorem answered_of_reads {request : Request V KdbxCredential} {answer : Answer request}
    (h : reads request answer = true) : request.Answered answer := by
  cases request with
  | symlinkMetadata | openFile | handleMetadata | read =>
    cases answer with
    | error => cases h
    | ok value => exact ⟨value, rfl⟩
  | seek => exact h
  | _ => trivial

/-- The encoder writes `encoded`; synchronizing the directory succeeds or not, everything else
does. -/
def deskAnswer (encoded : Bytes) (synced : Bool) (w : World) :
    (request : DesktopRequest V) → DesktopAnswer request × World
  | .disk _ .syncParent => (synced, w)
  | .disk _ request => w.perform ⟨.ok encoded, true⟩ request
  | .readonly => (false, w)
  | .projection _ => (true, w)
  | .token => (true, w)

/-- What is read while reconciling is read. -/
def reconciles : (request : DesktopRequest V) → DesktopAnswer request → Bool
  | .disk true request, answer => reads request answer
  | _, _ => true

theorem step_deskAnswer {encoded : Bytes} {synced : Bool} {w : World} (request : DesktopRequest V)
    (h : reconciles request (deskAnswer encoded synced w request).1 = true) :
    desktopStep w request (deskAnswer encoded synced w request).1
      (deskAnswer encoded synced w request).2 := by
  cases request with
  | readonly | projection | token => rfl
  | disk reconciling request =>
    refine ⟨⟨w, .none, fun _ => rfl, ?_⟩, ?_⟩
    · cases request with
      | syncParent => rfl
      | _ => exact w.serves_perform ⟨.ok encoded, true⟩ _
    · rintro rfl
      exact answered_of_reads h

/-- A call where the answers are these. -/
def deskPlay {α : Type} (encoded : Bytes) (synced : Bool) : Desk V α → World → Option (α × World)
  | .done a, w => some (a, w)
  | .ask request next, w =>
    if reconciles request (deskAnswer encoded synced w request).1 then
      deskPlay encoded synced (next (deskAnswer encoded synced w request).1)
        (deskAnswer encoded synced w request).2
    else none

theorem reaches_deskPlay {α : Type} {encoded : Bytes} {synced : Bool} {a : α} {t : World}
    (p : Desk V α) (w : World) (h : deskPlay encoded synced p w = some (a, t)) :
    Reaches desktopStep p w (.done a) t := by
  induction p generalizing w with
  | done b =>
    cases h
    exact .here
  | ask request next ih =>
    unfold deskPlay at h
    split_ifs at h with hreconciles
    exact .later (step_deskAnswer request hreconciles) (ih _ _ h)

/-- A call, what the encoder writes in it, and whether the directory is synchronized. -/
abbrev DeskCall (V : Type) := CredentialCall V × Bytes × Bool

/-- Some calls one after another, with their answers. -/
def deskScript [DecidableEq V] [DecidableEq F] (E : Codec V KdbxCredential F) :
    List (DeskCall V) → DesktopVaultService V F → Directory →
    Option (List (Except DesktopError Unit) × DesktopVaultService V F × Directory)
  | [], service, dir => some ([], service, dir)
  | (call, encoded, synced) :: calls, service, dir =>
    match deskPlay encoded synced (call.perform E .unix service) (World.start dir) with
    | none => none
    | some ((result, service'), w) =>
      (deskScript E calls service' w.dir).map fun (results, after) => (result :: results, after)

theorem run_deskScript [DecidableEq V] [DecidableEq F] {E : Codec V KdbxCredential F}
    {dir before after : Directory} {service service' : DesktopVaultService V F}
    {results : List (Except DesktopError Unit)} (calls : List (DeskCall V))
    (hrun : Run E .unix dir service before)
    (h : deskScript E calls service before = some (results, service', after)) :
    Run E .unix dir service' after := by
  induction calls generalizing service before results with
  | nil =>
    cases h
    exact hrun
  | cons call calls ih =>
    obtain ⟨call, encoded, synced⟩ := call
    simp only [deskScript] at h
    split at h
    · cases h
    · next result middle w hplay =>
      obtain ⟨⟨rest, last⟩, hrest, heq⟩ := Option.map_eq_some_iff.1 h
      cases heq
      exact ih (hrun.call call (reaches_deskPlay _ _ hplay)) hrest

/-- One generation for each of three passwords. -/
def passwordCodec : Codec Unit KdbxCredential Bytes where
  parse credential bytes :=
    if (bytes, credential.password) ∈ [([1], some "a"), ([2], some "b"), ([3], some "c")] ∧
      credential.keyfile = none
    then .ok sampleDocument else .error .invalidCredentials
  fingerprint bytes := bytes
  keepass := Kdbx.reference

/-- The password is changed from `a` to `b`, where synchronizing the directory fails after the
replacement, and then to `c`. -/
def passwordChange : List (DeskCall Unit) :=
  [(.selectPath, [], true), (.unlock (some "a"), [], true), (.changeMasterPassword "b", [2], false),
    (.changeMasterPassword "c", [3], true)]

/-- Such calls leave a session open, with this password and these bytes. -/
theorem deskScript_leaves (calls : List (DeskCall Unit)) (password : String) (bytes : Bytes)
    (h : (deskScript passwordCodec calls .new sampleDirectory).any (fun r =>
      r.2.1.session.isSome ∧ r.2.1.saveCredential = some ⟨some password, none⟩ ∧
        r.2.2 .primary = .regular bytes) = true) :
    ∃ service dir', Run passwordCodec .unix sampleDirectory service dir' ∧
      service.session.isSome = true ∧ service.saveCredential = some ⟨some password, none⟩ ∧
      dir' .primary = .regular bytes := by
  obtain ⟨⟨results, service, dir'⟩, hscript, hcheck⟩ := (Option.any_eq_true _ _).mp h
  exact ⟨service, dir', run_deskScript calls .start hscript, of_decide_eq_true hcheck⟩

set_option maxRecDepth 100000 in
/-- The retained credential follows the file, also where the rotation that put it there failed. -/
theorem retained_credential_opens_changed :
    (deskScript passwordCodec passwordChange .new sampleDirectory).map Prod.fst =
      some [.ok (), .ok (), .error .saveUncertain, .ok ()] ∧
    ∃ service dir' service' dir'',
      Run passwordCodec .unix sampleDirectory service dir' ∧
      service.saveCredential = some ⟨some "b", none⟩ ∧ dir' .primary = .regular [2] ∧
      Run passwordCodec .unix sampleDirectory service' dir'' ∧
      service'.saveCredential = some ⟨some "c", none⟩ ∧ dir'' .primary = .regular [3] ∧
      (∃ credential bytes document, service.saveCredential = some credential ∧
        credential.hasComponent = true ∧ dir' .primary = .regular bytes ∧
        passwordCodec.parse credential bytes = .ok document) ∧
      ∃ credential bytes document, service'.saveCredential = some credential ∧
        credential.hasComponent = true ∧ dir'' .primary = .regular bytes ∧
        passwordCodec.parse credential bytes = .ok document := by
  obtain ⟨service, dir', hrun, hopen, hretained, hdir⟩ :=
    deskScript_leaves (passwordChange.take 3) "b" [2] (by decide +kernel)
  obtain ⟨service', dir'', hrun', hopen', hretained', hdir'⟩ :=
    deskScript_leaves passwordChange "c" [3] (by decide +kernel)
  obtain ⟨credential, bytes, document, hcredential, hcomponent, hbytes, hparse, -⟩ :=
    retained_credential_opens passwordCodec .unix sampleDirectory dir' service hrun hopen
  obtain ⟨credential', bytes', document', hcredential', hcomponent', hbytes', hparse', -⟩ :=
    retained_credential_opens passwordCodec .unix sampleDirectory dir'' service' hrun' hopen'
  exact ⟨by decide +kernel, service, dir', service', dir'', hrun, hretained, hdir, hrun', hretained',
    hdir', ⟨credential, bytes, document, hcredential, hcomponent, hbytes, hparse⟩,
    credential', bytes', document', hcredential', hcomponent', hbytes', hparse'⟩

end NianPass.Desktop
