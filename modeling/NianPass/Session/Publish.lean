import NianPass.Session.Truthful

/-
  Creating a vault and exporting an encrypted copy: `create.rs` and `export.rs`.

  Both write a temporary, re-open and verify it, and publish it under the
  selected name with a hard link, which never replaces what stands there. Every
  step may fail, and before every step another process may create, replace or
  remove the file under the selected name.

  Which file is meant matters here, so that an `Object` has an identity: two
  names can lead to one object, and a name can be bound to another object
  between two steps. `Path.primary` is the selected name.

  A step of the call spares the objects of others if every name that leads to one
  still does and the object keeps its content (`Folder.Spares`). What create
  publishes it never removes. Export removes the selected name by path when
  verifying the published copy fails (`export_removes_foreign`): every step of it
  spares the objects of others as long as the name still leads to its own file
  then (`publish_keeps_to_own_files`).
-/
namespace NianPass.Session

open Kdbx (Bytes KdbxDocument)
open Program (Machine Ensures Within Safe Reaches)

variable {V C F : Type}

/-! ## Requests -/

/-- The steps of create and export. -/
inductive PublishRequest (V C : Type) where
  | session (request : Request V C)
  | canonicalizeParent
  | parentMetadata
  | matchesOpenFile (prepared : String) (path : Path)
  | hardLink (prepared : String)
  | removeTarget

/-- `parentMetadata` says whether it is a directory. -/
abbrev PublishAnswer : PublishRequest V C → Type
  | .session request => Answer request
  | .canonicalizeParent => Bool
  | .parentMetadata => Except IoError Bool
  | .matchesOpenFile _ _ => Except IoError Bool
  | .hardLink _ => Bool
  | .removeTarget => Bool

abbrev PublishM (V C α : Type) :=
  ExceptT SessionError (Program (PublishRequest V C) PublishAnswer) α

def PublishM.ask (request : PublishRequest V C) : PublishM V C (PublishAnswer request) :=
  liftM (Program.request request :
    Program (PublishRequest V C) PublishAnswer (PublishAnswer request))

/-- The helpers create and export share with save. -/
def onDisk {α : Type} (p : Fs V C α) : PublishM V C α :=
  ExceptT.mk (p.run.embed .session fun _ answer => answer)

def createTempPrefix : String := ".nian-pass-create-"
def exportTempPrefix : String := ".nian-pass-export-"

/-- Run a block that owns a temporary which stays armed to the end. -/
def owning {α : Type} (prepared : String) (block : PublishM V C α) : PublishM V C α :=
  ExceptT.mk do
    let result ← block.run
    (ManagedTemp.drop prepared : Program (Request V C) Answer Unit).embed .session
      fun _ answer => answer
    pure result

/-- The document is written to the temporary. -/
def writePrepared (document : KdbxDocument V) (credential : C) (prepared : String)
    (flushFailed syncFailed : SessionError) : Fs V C Unit := do
  match ← ask (.serialize prepared document credential) with
  | .error error => throw (.kdbx error)
  | .ok () =>
    require (← ask (.flush prepared)) flushFailed
    require (← ask (.syncAll prepared)) syncFailed

/-! ## Create -/

/-- `ensure_prepared_identity`. -/
def ensurePreparedIdentity (prepared : String) (path : Path) : PublishM V C Unit := do
  match ← PublishM.ask (.matchesOpenFile prepared path) with
  | .error _ => throw .readSource
  | .ok same => if same then pure () else throw .externalModificationDetected

section Create
variable [DecidableEq V] [DecidableEq F] (E : Codec V C F) (document : KdbxDocument V)
variable (credential : C) (prepared : String)

/-- The written temporary is re-opened and compared with the document. -/
def verifyCreated : PublishM V C F := do
  -- `canonical_regular_file` looks at the path before and after resolving it.
  let _ ← onDisk (validateCurrentTarget (.temp prepared))
  let _ ← onDisk (validateCurrentTarget (.temp prepared))
  ensurePreparedIdentity prepared (.temp prepared)
  let (preparedDocument, preparedFingerprint) ←
    onDisk (openStableDocument E (.temp prepared) credential)
  ensurePreparedIdentity prepared (.temp prepared)
  onDisk (verifySemanticEquivalence E document preparedDocument .kdbx)
  pure preparedFingerprint

/-- What create does once its file has the selected name. -/
def openCreated (preparedFingerprint : F) : PublishM V C (VaultSession V F) := do
  ensurePreparedIdentity prepared .primary
  onDisk do require (← ask .syncParent) .createTarget
  ensurePreparedIdentity prepared .primary
  let (reopened, sourceFingerprint) ← onDisk (openStableDocument E .primary credential)
  ensurePreparedIdentity prepared .primary
  if sourceFingerprint ≠ preparedFingerprint then throw .externalModificationDetected
  else
    onDisk (verifySemanticEquivalence E document reopened .kdbx)
    pure ⟨reopened, sourceFingerprint, reopened.revision⟩

/-- `VaultSession::create`, on its temporary. -/
def createPrepared : PublishM V C (VaultSession V F) := do
  onDisk (writePrepared document credential prepared .createTarget .createTarget)
  let preparedFingerprint ← verifyCreated E document credential prepared
  if (← PublishM.ask (.hardLink prepared)) then
    openCreated E document credential prepared preparedFingerprint
  else throw .createTarget

omit prepared in
/-- `VaultSession::create`, for the document that `KdbxDocument::new` made. -/
def create : PublishM V C (VaultSession V F) := do
  if (← PublishM.ask .canonicalizeParent) then
    match ← PublishM.ask .parentMetadata with
    | .error _ => throw .createTarget
    | .ok isDirectory =>
      if isDirectory then
        let prepared ← onDisk
          (ManagedTemp.create createTempPrefix .tempCreateFailed tempCreateAttempts)
        owning prepared (createPrepared E document credential prepared)
      else throw .unsupportedPath
  else throw .createTarget

end Create

/-! ## Export -/

section Export
variable [DecidableEq V] (E : Codec V C F) (document : KdbxDocument V) (credential : C)

/-- The file under `path` is re-opened and compared with the document. -/
def verifyExported (path : Path) : Fs V C Unit := do
  let reopened ← openDocumentWithCredential E path credential .exportVerificationFailed
  verifySemanticEquivalence E document reopened .exportVerificationFailed

/-- The closure whose result is `published_result`. -/
def verifyPublished : Fs V C Unit := do
  verifyExported E document credential .primary
  require (← ask .syncParent) .exportTarget

/-- A copy that fails its verification is removed again. -/
def settleExport : PublishM V C Unit :=
  ExceptT.mk do
    match ← (onDisk (verifyPublished E document credential)).run with
    | .ok () => pure (.ok ())
    | .error error =>
      let _ ← Program.request PublishRequest.removeTarget
      let _ ← Program.request (PublishRequest.session .syncParent)
      pure (.error error)

/-- `export_copy_with_credential`, on its temporary. -/
def exportPrepared (prepared : String) : PublishM V C Unit := do
  onDisk (writePrepared document credential prepared .writeTemp .syncTemp)
  onDisk (verifyExported E document credential (.temp prepared))
  if (← PublishM.ask (.hardLink prepared)) then settleExport E document credential
  else throw .exportTarget

/-- `export_copy_with_credential`, for the document of the session. -/
def exportCopyWithCredential : PublishM V C Unit := do
  if (← PublishM.ask (.session (.pathExists .primary))) then throw .exportTarget
  else
    let prepared ← onDisk
      (ManagedTemp.create exportTempPrefix .tempCreateFailed tempCreateAttempts)
    owning prepared (exportPrepared E document credential prepared)

end Export

/-- The two calls. -/
inductive PublishCall where
  | create
  | exportCopy
  deriving DecidableEq, Repr

def PublishCall.run [DecidableEq V] [DecidableEq F] (E : Codec V C F) (document : KdbxDocument V)
    (credential : C) :
    PublishCall → Program (PublishRequest V C) PublishAnswer (Except SessionError Unit)
  | .create => ExceptT.run do
    let _ ← Session.create E document credential
    pure ()
  | .exportCopy => (exportCopyWithCredential E document credential).run

/-! ## The folder -/

structure Object where
  kind : FileType
  id : Nat
  deriving DecidableEq, Repr

/-- The folder of the selected name, and what the theorems speak of: the objects the call created
(`own`), published (`linked`) and opened. -/
structure Folder where
  names : Path → Option Object
  contents : Nat → Bytes
  own : List Nat
  linked : List Nat
  opened : List Nat

def Folder.start (names : Path → Option Object) (contents : Nat → Bytes) : Folder :=
  ⟨names, contents, [], [], []⟩

namespace Folder

def see (w : Folder) (object : Object) : Folder := { w with opened := object.id :: w.opened }

/-- A temporary is created. -/
def add (w : Folder) (name : String) (id : Nat) : Folder :=
  { w with
    names := Function.update w.names (.temp name) (some ⟨.file, id⟩)
    contents := Function.update w.contents id []
    own := id :: w.own }

/-- The call writes to the temporary it created under this name. -/
def write (w : Folder) (name : String) (bytes : Bytes) : Folder :=
  match w.names (.temp name) with
  | some object => { w with contents := Function.update w.contents object.id bytes }
  | none => w

def unlink (w : Folder) (name : String) : Folder :=
  { w with names := Function.update w.names (.temp name) none }

/-- `object` gets the selected name. -/
def link (w : Folder) (object : Object) : Folder :=
  { w with
    names := Function.update w.names .primary (some object)
    linked := object.id :: w.linked }

/-- Whatever has the selected name loses it. -/
def lose (w : Folder) : Folder := { w with names := Function.update w.names .primary none }

/-- What stands under `source` gets the name `destination`, whatever stood there. -/
def move (w : Folder) (source destination : Path) : Folder :=
  { w with names := Function.update (Function.update w.names source none) destination (w.names source) }

/-- `ReplaceFileW`: what stood under the selected name becomes the backup. -/
def exchange (w : Folder) (prepared : String) : Folder :=
  (w.move .primary .backup).move (.temp prepared) .primary

/-- Another process binds the selected name, or removes what stands there: any object of its own,
or one that the call published before. -/
structure Rebound (w t : Folder) (entry : Option Object) (contents : Nat → Bytes) : Prop where
  result : t = { w with names := Function.update w.names .primary entry, contents }
  others : ∀ id ∈ w.own, contents id = w.contents id
  foreign : ∀ object, entry = some object → object.id ∈ w.own → object.id ∈ w.linked

/-- What may happen between two steps. -/
def Disturbed (w t : Folder) : Prop := t = w ∨ ∃ entry contents, Rebound w t entry contents

end Folder

/-- Opening an object. A symbolic link leads anywhere. -/
def Object.opens (contents : Nat → Bytes) (nofollow : Bool) (handle : Handle) (object : Object) :
    Prop :=
  match object.kind with
  | .symlink => nofollow = false
  | .special => handle.isFile = false
  | .file => handle = ⟨true, contents object.id⟩

/-- What a step of the shared helpers does, those included that create and export do without. -/
def Folder.servesSession (w : Folder) : (request : Request V C) → Answer request → Folder → Prop
  | .symlinkMetadata path, answer, t => t = w ∧ ∀ metadata, answer = .ok metadata →
    ∃ object, w.names path = some object ∧ metadata.fileType = object.kind
  | .pathExists path, answer, t => t = w ∧ (answer = true → w.names path ≠ none)
  | .openFile path nofollow, answer, t =>
    (∃ handle object, answer = .ok handle ∧ w.names path = some object ∧
      object.opens w.contents nofollow handle ∧ t = w.see object) ∨
    ((∃ error, answer = .error error) ∧ t = w)
  | .handleMetadata handle, answer, t => t = w ∧ ∀ isFile, answer = .ok isFile → isFile = handle.isFile
  | .seek _, _, t => t = w
  | .read handle, answer, t => t = w ∧ ∀ bytes, answer = .ok bytes → bytes = handle.bytes
  | .random, _, t => t = w
  | .createNew name, answer, t =>
    (answer = .ok () ∧ w.names (.temp name) = none ∧ ∃ id, id ∉ w.own ∧
      (∀ path object, w.names path = some object → object.id ≠ id) ∧ t = w.add name id) ∨
    ((∃ error, answer = .error error) ∧ t = w)
  | .identity _, _, t => t = w
  | .serialize name _ _, _, t => ∃ bytes, t = w.write name bytes
  | .writeAll name _, _, t => ∃ bytes, t = w.write name bytes
  | .flush name, _, t => ∃ bytes, t = w.write name bytes
  | .syncAll _, _, t => t = w
  | .setPermissions _ _, _, t => t = w
  | .syncPath _, _, t => t = w
  | .copy _ name, _, t => ∃ bytes, t = w.write name bytes
  | .rename source destination, answer, t =>
    t = if answer = true ∧ w.names source ≠ none then w.move source destination else w
  | .removeFile name, answer, t => t = if answer then w.unlink name else w
  -- The identity under the name is that of the file the call created.
  | .sameFile name, answer, t => t = w ∧ (answer = true →
    ∃ object, w.names (.temp name) = some object ∧ object.id ∈ w.own)
  | .syncParent, _, t => t = w
  | .replaceFile prepared, answer, t =>
    (t = if answer then w.exchange prepared else w) ∨ t = w.move .primary .backup

/-- What a step does, and how it may be answered. -/
def Folder.serves (w : Folder) : (request : PublishRequest V C) → PublishAnswer request → Folder → Prop
  | .session request, answer, t => w.servesSession request answer t
  | .canonicalizeParent, _, t => t = w
  | .parentMetadata, _, t => t = w
  | .matchesOpenFile prepared path, answer, t => t = w ∧ ∀ same, answer = .ok same →
    (same = true ↔ ∃ id, w.names path = some ⟨.file, id⟩ ∧ w.names (.temp prepared) = some ⟨.file, id⟩)
  -- A hard link is made only where nothing stands.
  | .hardLink prepared, answer, t =>
    (answer = true ∧ w.names .primary = none ∧ ∃ object, w.names (.temp prepared) = some object ∧
      t = w.link object) ∨
    (answer = false ∧ t = w)
  | .removeTarget, answer, t =>
    t = if answer then w.lose else w

/-- The selected name leads to nothing, or to a file of the call, when export removes it. -/
def Folder.Unclaimed (w : Folder) : PublishRequest V C → Prop
  | .removeTarget => ∀ object, w.names .primary = some object → object.id ∈ w.own
  | _ => True

/-- One step. In `careful` runs the selected name is removed only while it is the call's. -/
def publishStep (careful : Bool) (w : Folder) (request : PublishRequest V C)
    (answer : PublishAnswer request) (t : Folder) : Prop :=
  ∃ mid, w.Disturbed mid ∧ (careful = true → mid.Unclaimed request) ∧ mid.serves request answer t

/-- Every name that leads to an object the call did not create still leads to it, and the object has
its content. -/
def Folder.Spares (w t : Folder) : Prop :=
  ∀ path object, w.names path = some object → object.id ∉ w.own →
    t.names path = some object ∧ t.contents object.id = w.contents object.id

/-- The step that is asked for spares the objects of others, however it is answered and whatever
happens before. -/
def Folder.SparesOthers (careful : Bool) (w : Folder) (request : PublishRequest V C) : Prop :=
  ∀ mid answer t, w.Disturbed mid → (careful = true → mid.Unclaimed request) →
    mid.serves request answer t → mid.Spares t

/-- The file system. `I` is asserted wherever the call can be stopped, and that its next step spares
the objects of others. -/
def folderSystem (careful : Bool) (I : Folder → Prop) :
    Machine (PublishRequest V C) PublishAnswer Folder where
  step := publishStep careful
  permits w request := I w ∧ w.SparesOthers careful request

/-- The same for the shared helpers alone. -/
def folderSession (careful : Bool) (I : Folder → Prop) : Machine (Request V C) Answer Folder :=
  (folderSystem careful I).restrict .session fun _ answer => answer

/-! ## What a step spares -/

/-- The requests that change no file. -/
abbrev Request.reads : Request V C → Prop := Request.minds [] fun _ => True

/-- The temporary is bound to a file of the call, if to any. -/
def Folder.OwnTemp (w : Folder) (name : String) : Prop :=
  ∀ object, w.names (.temp name) = some object → object.id ∈ w.own

section Spares
variable {careful : Bool} {w t : Folder} {name : String} {I : Folder → Prop}

theorem Folder.Spares.refl (w : Folder) : w.Spares w := fun _ _ hnamed _ => ⟨hnamed, rfl⟩

theorem Folder.OwnTemp.disturbed (h : w.OwnTemp name) (hdisturbed : w.Disturbed t) :
    t.OwnTemp name := by
  obtain rfl | ⟨entry, contents, hrebound⟩ := hdisturbed
  · exact h
  · rw [hrebound.result]
    intro object hobject
    exact h object (by simpa using hobject)

theorem Folder.OwnTemp.write (h : w.OwnTemp name) (bytes : Bytes) : w.Spares (w.write name bytes) := by
  intro path object hnamed hforeign
  unfold Folder.write
  cases htemp : w.names (.temp name) with
  | none => exact ⟨hnamed, rfl⟩
  | some temporary =>
    have hne : object.id ≠ temporary.id := fun heq => hforeign (heq ▸ h temporary htemp)
    exact ⟨hnamed, Function.update_of_ne hne _ _⟩

/-- Reading spares everything. -/
theorem spares_of_reads {request : Request V C} (hreads : request.reads) :
    w.SparesOthers careful (.session request) := by
  intro mid answer t _ _ hserves
  cases request with
  | symlinkMetadata | pathExists | handleMetadata | read | sameFile =>
    obtain ⟨rfl, -⟩ := hserves
    exact .refl _
  | seek | random | identity | syncAll | setPermissions | syncPath | syncParent =>
    cases hserves
    exact .refl mid
  | openFile path nofollow =>
    obtain ⟨handle, object, -, -, -, rfl⟩ | ⟨-, rfl⟩ := hserves
    · exact fun _ _ hnamed _ => ⟨hnamed, rfl⟩
    · exact .refl _
  | serialize name _ _ | writeAll name _ | flush name | copy _ name => cases hreads
  | createNew | rename | removeFile | replaceFile => cases hreads

/-- The steps of create and export that change nothing. -/
theorem spares_of_same {request : PublishRequest V C}
    (hsame : ∀ (mid t : Folder) (answer : PublishAnswer request), mid.serves request answer t → t = mid) :
    w.SparesOthers careful request := by
  intro mid answer t _ _ hserves
  rw [hsame mid t answer hserves]
  exact .refl mid

theorem spares_createNew : w.SparesOthers careful (.session (.createNew name) : PublishRequest V C) := by
  intro mid answer t _ _ hserves
  obtain ⟨-, hfree, id, -, hfresh, rfl⟩ | ⟨-, rfl⟩ := hserves
  · intro path object hnamed _
    have hpath : path ≠ .temp name := by
      rintro rfl
      cases hfree.symm.trans hnamed
    exact ⟨(Function.update_of_ne hpath _ _).trans hnamed,
      Function.update_of_ne (hfresh path object hnamed) _ _⟩
  · exact .refl _

theorem spares_write {request : Request V C} (hown : w.OwnTemp name)
    (hwrites : ∀ (mid t : Folder) (answer : Answer request), mid.servesSession request answer t →
      ∃ bytes, t = mid.write name bytes) :
    w.SparesOthers careful (.session request) := by
  intro mid answer t hdisturbed _ hserves
  obtain ⟨bytes, rfl⟩ := hwrites mid t answer hserves
  exact (hown.disturbed hdisturbed).write bytes

theorem spares_removeFile (hown : w.OwnTemp name) :
    w.SparesOthers careful (.session (.removeFile name) : PublishRequest V C) := by
  intro mid removed t hdisturbed _ hserves
  cases removed with
  | false =>
    cases hserves
    exact .refl mid
  | true =>
    cases hserves
    intro path object hnamed hforeign
    have hpath : path ≠ .temp name := by
      rintro rfl
      exact hforeign (hown.disturbed hdisturbed object hnamed)
    exact ⟨(Function.update_of_ne hpath _ _).trans hnamed, rfl⟩

/-- A hard link replaces nothing. -/
theorem spares_hardLink : w.SparesOthers careful (.hardLink name : PublishRequest V C) := by
  intro mid answer t _ _ hserves
  obtain ⟨-, hfree, object, -, rfl⟩ | ⟨-, rfl⟩ := hserves
  · intro path other hnamed _
    have hpath : path ≠ .primary := by
      rintro rfl
      cases hfree.symm.trans hnamed
    exact ⟨(Function.update_of_ne hpath _ _).trans hnamed, rfl⟩
  · exact .refl _

/-- Removing the selected name does while it is the call's. -/
theorem spares_removeTarget : w.SparesOthers true (.removeTarget : PublishRequest V C) := by
  intro mid removed t _ hunclaimed hserves
  cases removed with
  | false =>
    cases hserves
    exact .refl mid
  | true =>
    cases hserves
    intro path object hnamed hforeign
    have hpath : path ≠ .primary := by
      rintro rfl
      exact hforeign (hunclaimed rfl object hnamed)
    exact ⟨(Function.update_of_ne hpath _ _).trans hnamed, rfl⟩

/-- A step of create or export that changes nothing. -/
theorem ensures_asking {request : PublishRequest V C} {G : Folder → PublishAnswer request → Prop}
    {X : Folder → SessionError → Prop}
    (hsame : ∀ (mid t : Folder) (answer : PublishAnswer request), mid.serves request answer t → t = mid)
    (hw : I w) (h : ∀ answer t, (folderSystem careful I).step w request answer t → G t answer) :
    Ensures (folderSystem careful I) (PublishM.ask request : PublishM V C _) G X w :=
  Program.ensures_request ⟨hw, spares_of_same hsame⟩ h

/-- A step that reads. -/
theorem ensures_reading {request : Request V C} {G : Folder → Answer request → Prop}
    {X : Folder → SessionError → Prop} (hreads : request.reads) (hw : I w)
    (h : ∀ answer t, (folderSession careful I).step w request answer t → G t answer) :
    Ensures (folderSession careful I) (ask request : Fs V C (Answer request)) G X w :=
  Program.ensures_request ⟨hw, spares_of_reads hreads⟩ h

end Spares

/-! ## What every step keeps -/

section Unharmed
variable [DecidableEq V]

/-- What stands under the selected name and is the call's was re-opened and found to be the
document. -/
structure Unharmed (E : Codec V C F) (document : KdbxDocument V) (credential : C) (w : Folder) : Prop
    where
  target : ∀ object, w.names .primary = some object → object.id ∈ w.own → object.id ∈ w.linked
  linked : ∀ id ∈ w.linked, id ∈ w.own ∧ id ∈ w.opened ∧
    Verified E credential document (w.contents id)

variable {E : Codec V C F} {document : KdbxDocument V} {credential : C} {w t : Folder}
variable {name : String} {object : Object} {id : Nat}

theorem unharmed_start (names : Path → Option Object) (contents : Nat → Bytes) :
    Unharmed E document credential (Folder.start names contents) where
  target _ _ h := by cases h
  linked _ h := by cases h

theorem Unharmed.disturbed (h : Unharmed E document credential w) (hdisturbed : w.Disturbed t) :
    Unharmed E document credential t := by
  obtain rfl | ⟨entry, contents, hrebound⟩ := hdisturbed
  · exact h
  · have hothers := hrebound.others
    have hforeign := hrebound.foreign
    rw [hrebound.result]
    refine ⟨fun object hobject hown => ?_, fun id hid => ?_⟩
    · have hentry : entry = some object := by simpa using hobject
      exact hforeign object hentry hown
    · obtain ⟨hown, hopened, hverified⟩ := h.linked id hid
      refine ⟨hown, hopened, ?_⟩
      show Verified E credential document (contents id)
      rw [hothers id hown]
      exact hverified

theorem Unharmed.see (h : Unharmed E document credential w) : Unharmed E document credential (w.see object) where
  target := h.target
  linked id hid :=
    have hbefore := h.linked id hid
    ⟨hbefore.1, List.mem_cons_of_mem _ hbefore.2.1, hbefore.2.2⟩

theorem Unharmed.unlink (h : Unharmed E document credential w) :
    Unharmed E document credential (w.unlink name) where
  target object hobject hown := h.target object (by simpa [Folder.unlink] using hobject) hown
  linked := h.linked

theorem Unharmed.add (h : Unharmed E document credential w) (hown : id ∉ w.own)
    (hfresh : ∀ path object, w.names path = some object → object.id ≠ id) :
    Unharmed E document credential (w.add name id) where
  target object hobject hmem := by
    have hbefore : w.names .primary = some object := by simpa [Folder.add] using hobject
    obtain heq | hmem := List.mem_cons.mp hmem
    · exact absurd heq (hfresh _ _ hbefore)
    · exact h.target object hbefore hmem
  linked other hother := by
    obtain ⟨hmem, hopened, hverified⟩ := h.linked other hother
    have hne : other ≠ id := fun heq => hown (heq ▸ hmem)
    refine ⟨List.mem_cons_of_mem _ hmem, hopened, ?_⟩
    show Verified E credential document (Function.update w.contents id [] other)
    rw [Function.update_of_ne hne]
    exact hverified

/-- Publishing what was verified. -/
theorem Unharmed.link (h : Unharmed E document credential w) (hown : object.id ∈ w.own)
    (hopened : object.id ∈ w.opened)
    (hverified : Verified E credential document (w.contents object.id)) :
    Unharmed E document credential (w.link object) where
  target other hother _ := by
    have heq : object = other := by simpa [Folder.link] using hother
    rw [← heq]
    exact List.mem_cons_self
  linked id hid := by
    obtain rfl | hid := List.mem_cons.mp hid
    · exact ⟨hown, hopened, hverified⟩
    · exact h.linked id hid

theorem Unharmed.lose (h : Unharmed E document credential w) :
    Unharmed E document credential w.lose where
  target other hother := by simp [Folder.lose] at hother
  linked := h.linked

end Unharmed

/-! ## The temporary -/

/-- The call has a file under `name` that is not published yet. -/
structure Staged (name : String) (id : Nat) (w : Folder) : Prop where
  named : w.names (.temp name) = some ⟨.file, id⟩
  own : id ∈ w.own
  linked : w.linked = []

/-- The file holds `bytes`. -/
structure Carries (name : String) (id : Nat) (bytes : Bytes) (w : Folder) : Prop extends
    Staged name id w where
  contents : w.contents id = bytes

section Staged
variable {name : String} {id : Nat} {bytes : Bytes} {w t : Folder} {object : Object}

theorem Staged.disturbed (h : Staged name id w) (hdisturbed : w.Disturbed t) : Staged name id t := by
  obtain rfl | ⟨entry, contents, hrebound⟩ := hdisturbed
  · exact h
  · rw [hrebound.result]
    exact ⟨by simpa using h.named, h.own, h.linked⟩

theorem Carries.disturbed (h : Carries name id bytes w) (hdisturbed : w.Disturbed t) :
    Carries name id bytes t := by
  refine ⟨h.toStaged.disturbed hdisturbed, ?_⟩
  obtain rfl | ⟨entry, contents, hrebound⟩ := hdisturbed
  · exact h.contents
  · have hothers := hrebound.others id h.own
    rw [hrebound.result]
    exact hothers.trans h.contents

theorem Staged.ownTemp (h : Staged name id w) : w.OwnTemp name := by
  intro object hnamed
  cases h.named.symm.trans hnamed
  exact h.own

theorem Staged.see (h : Staged name id w) : Staged name id (w.see object) :=
  ⟨h.named, h.own, h.linked⟩

theorem Carries.see (h : Carries name id bytes w) : Carries name id bytes (w.see object) :=
  ⟨h.toStaged.see, h.contents⟩

theorem Staged.write (h : Staged name id w) : Carries name id bytes (w.write name bytes) := by
  simp only [Folder.write, h.named]
  exact ⟨⟨h.named, h.own, h.linked⟩, Function.update_self _ _ _⟩

end Staged

/-! ## Reading -/

/-- A property that neither other processes nor opening files take away. -/
structure Settled (P : Folder → Prop) : Prop where
  disturbed : ∀ w t, P w → w.Disturbed t → P t
  see : ∀ w object, P w → P (w.see object)

section Reading
variable {careful : Bool} {I P Q : Folder → Prop} {w t : Folder} {name : String} {id : Nat}
variable {bytes : Bytes} {α : Type}

theorem Settled.and (h : Settled P) (h' : Settled Q) : Settled fun w => P w ∧ Q w where
  disturbed w t hw hdisturbed := ⟨h.disturbed w t hw.1 hdisturbed, h'.disturbed w t hw.2 hdisturbed⟩
  see w object hw := ⟨h.see w object hw.1, h'.see w object hw.2⟩

theorem settled_unharmed [DecidableEq V] {E : Codec V C F} {document : KdbxDocument V}
    {credential : C} : Settled (Unharmed E document credential) :=
  ⟨fun _ _ hw => hw.disturbed, fun _ _ hw => hw.see⟩

theorem settled_staged : Settled (Staged name id) :=
  ⟨fun _ _ hw => hw.disturbed, fun _ _ hw => hw.see⟩

theorem settled_holds : Settled (Carries name id bytes) :=
  ⟨fun _ _ hw => hw.disturbed, fun _ _ hw => hw.see⟩

theorem settled_opened : Settled fun w => id ∈ w.opened where
  disturbed w t hw hdisturbed := by
    obtain rfl | ⟨entry, contents, hrebound⟩ := hdisturbed
    · exact hw
    · rw [hrebound.result]
      exact hw
  see w object hw := List.mem_cons_of_mem _ hw

theorem Settled.step (h : Settled P) {request : Request V C} {answer : Answer request}
    (hreads : request.reads) (hw : P w)
    (hstep : (folderSession careful I).step w request answer t) : P t := by
  obtain ⟨_, rfl, mid, hdisturbed, -, hserves⟩ := hstep
  have hm := h.disturbed w mid hw hdisturbed
  cases request with
  | symlinkMetadata | pathExists | handleMetadata | read =>
    obtain ⟨rfl, -⟩ := hserves
    exact hm
  | seek | random | identity | syncAll | setPermissions | syncPath | syncParent =>
    cases hserves
    exact hm
  | sameFile =>
    obtain ⟨rfl, -⟩ := hserves
    exact hm
  | openFile path nofollow =>
    obtain ⟨handle, object, -, -, -, rfl⟩ | ⟨-, rfl⟩ := hserves
    · exact h.see mid object hm
    · exact hm
  | serialize name _ _ | writeAll name _ | flush name | copy _ name => cases hreads
  | createNew | rename | removeFile | replaceFile => cases hreads

/-- A helper that only reads keeps what is settled. -/
theorem Settled.ensures (h : Settled P) (hI : ∀ w, P w → I w) {p : Fs V C α}
    (hp : Within Request.reads (fun _ => True) p) (hw : P w) :
    Ensures (folderSession careful I) p (fun t _ => P t) (fun t _ => P t) w :=
  Program.Ensures.weaken
    (hp.ensures (fun t _ hreads ht => ⟨hI t ht, spares_of_reads hreads⟩) (fun _ _ _ _ hreads ht hstep => h.step hreads ht hstep) hw)
    (fun _ _ ht => ht) fun _ _ ht => ht.1

theorem ensures_onDisk {p : Fs V C α} {G : Folder → α → Prop} {X : Folder → SessionError → Prop}
    (h : Ensures (folderSession careful I) p G X w) :
    Ensures (folderSystem careful I) (onDisk p) G X w :=
  Program.safe_embed _ _ h

theorem Settled.identity (h : Settled P) (hI : ∀ w, P w → I w) {path : Path} (hw : P w) :
    Ensures (folderSystem careful I) (ensurePreparedIdentity name path : PublishM V C Unit)
      (fun t _ => P t) (fun t _ => P t) w := by
  refine Program.Ensures.bind (ensures_asking (fun _ _ _ h => h.1) (hI w hw) fun answer t hstep => ?_)
  obtain ⟨mid, hdisturbed, -, rfl, -⟩ := hstep
  have ht := h.disturbed w _ hw hdisturbed
  cases answer with
  | error e => exact Program.ensures_throw ht
  | ok same =>
    exact Program.ensures_ite (fun _ => Program.ensures_pure ht) fun _ => Program.ensures_throw ht

/-- What is opened under the name of the temporary is the temporary. -/
theorem opens_temp (h : Settled P) (hholds : ∀ w, P w → Carries name id bytes w) (hw : P w)
    {nofollow : Bool} {handle : Handle}
    (hstep : (folderSession careful I : Machine (Request V C) Answer Folder).step w
      (.openFile (.temp name) nofollow) (.ok handle) t) :
    (P t ∧ id ∈ t.opened) ∧ handle = ⟨true, bytes⟩ := by
  have ht : P t := h.step (show Request.reads (V := V) (C := C) (.openFile (.temp name) nofollow)
    from trivial) hw hstep
  obtain ⟨_, rfl, mid, hdisturbed, -, hserves⟩ := hstep
  have hmid := hholds mid (h.disturbed w mid hw hdisturbed)
  obtain ⟨_, object, hanswer, hnamed, hopens, rfl⟩ | ⟨⟨_, hanswer⟩, -⟩ := hserves
  · cases hanswer
    cases hmid.named.symm.trans hnamed
    refine ⟨⟨ht, List.mem_cons_self⟩, ?_⟩
    rw [← hmid.contents]
    exact hopens
  · cases hanswer

theorem read_handle {handle : Handle} {answer : Except IoError Bytes} {found : Bytes}
    (hstep : (folderSession careful I : Machine (Request V C) Answer Folder).step w
      (.read handle) answer t) (hfound : answer = .ok found) : found = handle.bytes := by
  obtain ⟨_, rfl, mid, -, -, -, hread⟩ := hstep
  exact hread found hfound

end Reading

section Reopening
variable {careful : Bool} {I P : Folder → Prop} {w t : Folder} {name : String} {id : Nat}
variable {bytes : Bytes} {credential : C}

theorem ensures_openPrepared (E : Codec V C F) {wrap : DocumentError → SessionError}
    (h : Settled P) (hI : ∀ w, P w → I w) (hholds : ∀ w, P w → Carries name id bytes w) (hw : P w) :
    Ensures (folderSession careful I) (openDocumentWithCredential E (.temp name) credential wrap)
      (fun t document => (P t ∧ id ∈ t.opened) ∧ E.parse credential bytes = .ok document)
      (fun t _ => P t) w := by
  refine Program.Ensures.bind (ensures_reading (by trivial) (hI w hw) fun answer t hstep => ?_)
  have ht : P t := h.step (by trivial) hw hstep
  refine Program.Ensures.bind (ensures_orError (fun file hfile => ?_) fun _ _ => ht)
  subst hfile
  obtain ⟨hopened, rfl⟩ := opens_temp h hholds hw hstep
  refine Program.Ensures.bind (ensures_reading (by trivial) (hI t ht) fun answer t' hstep => ?_)
  have ht' := (h.and settled_opened).step (by trivial) hopened hstep
  refine Program.Ensures.bind (ensures_orError (fun found hfound => ?_) fun _ _ => ht'.1)
  rw [read_handle hstep hfound]
  cases hparse : E.parse credential bytes with
  | ok document => exact Program.ensures_pure ⟨ht', rfl⟩
  | error error => exact Program.ensures_throw ht'.1

variable [DecidableEq F]

theorem ensures_openStablePrepared (E : Codec V C F) (h : Settled P) (hI : ∀ w, P w → I w)
    (hholds : ∀ w, P w → Carries name id bytes w) (hw : P w) :
    Ensures (folderSession careful I) (openStableDocument E (.temp name) credential)
      (fun t found => (P t ∧ id ∈ t.opened) ∧ E.parse credential bytes = .ok found.1)
      (fun t _ => P t) w := by
  refine Program.Ensures.bind (Program.Ensures.weaken
    (h.ensures hI (within_validateCurrentTarget trivial trivial) hw) (fun t _ ht => ?_)
    fun _ _ ht => ht)
  refine Program.Ensures.bind (Program.Ensures.bind
    (ensures_reading (by trivial) (hI t ht) fun answer t hstep => ?_))
  have ht' : P t := h.step (by trivial) ht hstep
  refine ensures_orError (fun file hfile => ?_) fun _ _ => ht'
  subst hfile
  obtain ⟨hopened, rfl⟩ := opens_temp h hholds ht hstep
  -- The rest reads on in this file, and looks at the name once more.
  have h' : Settled fun w => P w ∧ id ∈ w.opened := h.and settled_opened
  have hI' : ∀ w, P w ∧ id ∈ w.opened → I w := fun w hw => hI w hw.1
  refine Program.Ensures.bind (Program.Ensures.weaken
    (h'.ensures hI' (within_ensureHandleRegular trivial trivial) hopened) (fun t _ ht => ?_)
    fun _ _ ht => ht.1)
  refine Program.Ensures.bind (Program.Ensures.weaken
    (h'.ensures hI' (within_fromReader E trivial) ht) (fun t before ht => ?_) fun _ _ ht => ht.1)
  refine Program.Ensures.bind (ensures_reading (by trivial) (hI' t ht) fun success t hstep => ?_)
  have ht := h'.step (by trivial) ht hstep
  refine Program.Ensures.bind (ensures_require (fun _ => ?_) fun _ => ht.1)
  refine Program.Ensures.bind (ensures_reading (by trivial) (hI' t ht) fun answer t hstep => ?_)
  have ht := h'.step (by trivial) ht hstep
  refine Program.Ensures.bind (ensures_orError (fun found hfound => ?_) fun _ _ => ht.1)
  rw [read_handle hstep hfound]
  cases hparse : E.parse credential bytes with
  | error error => exact Program.ensures_throw ht.1
  | ok document =>
    refine Program.Ensures.bind (ensures_reading (by trivial) (hI' t ht) fun success t hstep => ?_)
    have ht := h'.step (by trivial) ht hstep
    refine Program.Ensures.bind (ensures_require (fun _ => ?_) fun _ => ht.1)
    refine Program.Ensures.bind (Program.Ensures.weaken
      (h'.ensures hI' (within_fromReader E trivial) ht) (fun t after ht => ?_) fun _ _ ht => ht.1)
    refine Program.ensures_ite (fun _ => Program.ensures_throw ht.1) fun _ => ?_
    refine Program.Ensures.bind (Program.Ensures.weaken
      (h'.ensures hI' (within_validateCurrentTarget trivial trivial) ht) (fun t _ ht => ?_)
      fun _ _ ht => ht.1)
    refine Program.Ensures.bind (Program.Ensures.weaken
      (h'.ensures hI' (within_fingerprintPath E trivial trivial trivial) ht) (fun t _ ht => ?_)
      fun _ _ ht => ht.1)
    exact Program.ensures_ite (fun _ => Program.ensures_throw ht.1)
      fun _ => Program.ensures_pure ⟨ht, rfl⟩

theorem within_openStableDocument (E : Codec V C F) {path : Path} :
    Within Request.reads (fun _ => True) (openStableDocument E path credential) := by
  refine (within_validateCurrentTarget trivial trivial).bind fun _ => ?_
  refine (within_openExistingFile trivial trivial).bind fun source => ?_
  refine (within_ensureHandleRegular trivial trivial).bind fun _ => ?_
  refine (within_fromReader E trivial).bind fun _ => ?_
  refine (within_ask trivial).bind fun _ => (within_require trivial).bind fun _ => ?_
  refine (within_ask trivial).bind fun _ => (within_orError trivial).bind fun bytes => ?_
  cases E.parse credential bytes with
  | error error => exact Program.within_throw trivial
  | ok document =>
    refine (within_ask trivial).bind fun _ => (within_require trivial).bind fun _ => ?_
    refine (within_fromReader E trivial).bind fun _ => ?_
    refine Program.within_ite (Program.within_throw trivial) ?_
    refine (within_validateCurrentTarget trivial trivial).bind fun _ => ?_
    refine (within_fingerprintPath E trivial trivial trivial).bind fun _ => ?_
    exact Program.within_ite (Program.within_throw trivial) Program.within_pure

end Reopening

/-! ## The two calls -/

section Calls
variable [DecidableEq V] {E : Codec V C F} {document : KdbxDocument V} {credential : C}
variable {careful : Bool} {w t : Folder} {name : String} {id : Nat} {bytes : Bytes} {α : Type}

/-- While nothing is published, writing harms nothing. -/
theorem Unharmed.write (h : Unharmed E document credential w) (hlinked : w.linked = []) :
    Unharmed E document credential (w.write name bytes) := by
  unfold Folder.write
  cases w.names (.temp name) with
  | none => exact h
  | some object =>
    refine ⟨h.target, fun id hid => ?_⟩
    have hnone : id ∈ ([] : List Nat) := hlinked ▸ hid
    cases hnone

theorem settled_unlinked : Settled fun w => w.linked = [] where
  disturbed w t hw hdisturbed := by
    obtain rfl | ⟨entry, contents, hrebound⟩ := hdisturbed
    · exact hw
    · rw [hrebound.result]
      exact hw
  see w object hw := hw

/-- A fresh file under a random name. -/
theorem ensures_managedTemp {start : String} {failed : SessionError} (attempts : Nat)
    (hw : Unharmed E document credential w ∧ w.linked = []) :
    Ensures (folderSession careful (Unharmed E document credential))
      (ManagedTemp.create start failed attempts : Fs V C String)
      (fun t name => Unharmed E document credential t ∧ ∃ id, Staged name id t)
      (fun t _ => Unharmed E document credential t) w := by
  have hP : Settled fun w => Unharmed E document credential w ∧ w.linked = [] :=
    settled_unharmed.and settled_unlinked
  induction attempts generalizing w with
  | zero => exact Program.ensures_throw hw.1
  | succ attempts ih =>
    refine Program.Ensures.bind (Program.Ensures.bind
      (ensures_reading (by trivial) hw.1 fun answer t hstep => ?_))
    have ht := hP.step (by trivial) hw hstep
    cases answer with
    | none => exact Program.ensures_throw ht.1
    | some random =>
      refine Program.ensures_pure (Program.Ensures.bind
        (Program.ensures_request ⟨ht.1, spares_createNew⟩ fun answer t' hstep => ?_))
      obtain ⟨_, rfl, mid, hdisturbed, -, hserves⟩ := hstep
      have hm := hP.disturbed _ _ ht hdisturbed
      obtain ⟨rfl, -, id, hown, hfresh, rfl⟩ | ⟨⟨error, rfl⟩, rfl⟩ := hserves
      · have hadded : Unharmed E document credential (mid.add (tempName start random) id) :=
          hm.1.add hown hfresh
        refine Program.Ensures.bind (ensures_reading (by trivial) hadded fun success t' hstep => ?_)
        have hstaged : Staged (tempName start random) id (mid.add (tempName start random) id) :=
          ⟨Function.update_self _ _ _, List.mem_cons_self, hm.2⟩
        have ht' := (settled_unharmed.and settled_staged).step (by trivial) ⟨hadded, hstaged⟩ hstep
        refine Program.Ensures.bind (ensures_require (fun _ => ?_) fun _ => ht'.1)
        exact Program.ensures_pure ⟨ht'.1, id, ht'.2⟩
      · cases error with
        | alreadyExists => exact ih hm
        | notFound => exact Program.ensures_throw hm.1
        | other => exact Program.ensures_throw hm.1

/-- One step that writes to the temporary. -/
theorem write_step {request : Request V C} {answer : Answer request}
    (hwrites : (∃ other value, request = .serialize name other value) ∨ request = .flush name)
    (hw : Unharmed E document credential w ∧ Staged name id w)
    (hstep : (folderSession careful (Unharmed E document credential)).step w request answer t) :
    Unharmed E document credential t ∧ ∃ bytes, Carries name id bytes t := by
  obtain ⟨_, rfl, mid, hdisturbed, -, hserves⟩ := hstep
  have hm := (settled_unharmed.and settled_staged).disturbed _ _ hw hdisturbed
  have hwritten : ∃ bytes, t = mid.write name bytes := by
    obtain ⟨other, value, rfl⟩ | rfl := hwrites
    · exact hserves
    · exact hserves
  obtain ⟨bytes, rfl⟩ := hwritten
  exact ⟨hm.1.write hm.2.linked, bytes, hm.2.write⟩

theorem ensures_writePrepared {flushFailed syncFailed : SessionError}
    (hw : Unharmed E document credential w ∧ Staged name id w) :
    Ensures (folderSession careful (Unharmed E document credential))
      (writePrepared document credential name flushFailed syncFailed)
      (fun t _ => ∃ bytes, Unharmed E document credential t ∧ Carries name id bytes t)
      (fun t _ => Unharmed E document credential t) w := by
  refine Program.Ensures.bind (Program.ensures_request
    ⟨hw.1, spares_write hw.2.ownTemp fun _ _ _ h => h⟩ fun answer t hstep => ?_)
  obtain ⟨ht, bytes, hholds⟩ := write_step (.inl ⟨_, _, rfl⟩) hw hstep
  cases answer with
  | error error => exact Program.ensures_throw ht
  | ok =>
    refine Program.Ensures.bind (Program.ensures_request
      ⟨ht, spares_write hholds.ownTemp fun _ _ _ h => h⟩ fun success t hstep => ?_)
    obtain ⟨ht, bytes, hholds⟩ := write_step (.inr rfl) ⟨ht, hholds.toStaged⟩ hstep
    refine Program.Ensures.bind (ensures_require (fun _ => ?_) fun _ => ht)
    refine Program.Ensures.bind (ensures_reading (by trivial) ht fun success t hstep => ?_)
    have ht := (settled_unharmed.and settled_holds).step (by trivial) ⟨ht, hholds⟩ hstep
    exact ensures_require (fun _ => ⟨bytes, ht⟩) fun _ => ht.1

/-- The temporary was re-opened and holds the document. -/
def Ready (E : Codec V C F) (document : KdbxDocument V) (credential : C) (name : String) (id : Nat)
    (w : Folder) : Prop :=
  ∃ bytes, ((Unharmed E document credential w ∧ Carries name id bytes w) ∧ id ∈ w.opened) ∧
    Verified E credential document bytes

/-- Publishing a file that is ready. -/
theorem link_step (hw : Ready E document credential name id w) {answer : Bool}
    (hstep : publishStep careful w (.hardLink name : PublishRequest V C) answer t) :
    Unharmed E document credential t := by
  obtain ⟨bytes, hknown, hverified⟩ := hw
  obtain ⟨mid, hdisturbed, -, hserves⟩ := hstep
  obtain ⟨⟨hm, hholds⟩, hopened⟩ :=
    ((settled_unharmed.and settled_holds).and settled_opened).disturbed _ _ hknown hdisturbed
  obtain ⟨-, -, object, hnamed, rfl⟩ | ⟨-, rfl⟩ := hserves
  · cases hholds.named.symm.trans hnamed
    refine hm.link hholds.own hopened ?_
    show Verified E credential document (mid.contents id)
    rw [hholds.contents]
    exact hverified
  · exact hm

theorem safe_drop (hw : Unharmed E document credential w) :
    (ManagedTemp.drop name : Program (Request V C) Answer Unit).Safe
      (folderSession careful (Unharmed E document credential))
      (fun t _ => Unharmed E document credential t) w := by
  refine ⟨⟨hw, spares_of_reads (by trivial)⟩, fun same t hstep => ?_⟩
  have ht := settled_unharmed.step (by trivial) hw hstep
  cases same with
  | false => exact ht
  | true =>
    -- The temporary is removed after its identity was found to be that of the file created.
    obtain ⟨_, rfl, mid, -, -, rfl, hown⟩ := hstep
    obtain ⟨temporary, htemp, htemporary⟩ := hown rfl
    have hownTemp : t.OwnTemp name := by
      intro object hnamed
      cases htemp.symm.trans hnamed
      exact htemporary
    refine ⟨⟨ht, spares_removeFile hownTemp⟩, fun _ t' hstep => ?_⟩
    obtain ⟨removed, rfl, mid, hdisturbed, -, hserves⟩ := hstep
    have hm := ht.disturbed hdisturbed
    cases removed with
    | false =>
      cases hserves
      exact hm
    | true =>
      cases hserves
      exact hm.unlink

/-- The temporary is removed at the end. -/
theorem ensures_owning {block : PublishM V C α}
    (h : Ensures (folderSystem careful (Unharmed E document credential)) block
      (fun t _ => Unharmed E document credential t)
      (fun t _ => Unharmed E document credential t) w) :
    Ensures (folderSystem careful (Unharmed E document credential)) (owning name block)
      (fun t _ => Unharmed E document credential t)
      (fun t _ => Unharmed E document credential t) w := by
  apply Safe.bind
  refine Safe.weaken h fun t result hresult => ?_
  have ht : Unharmed E document credential t := by
    cases result with
    | ok a => exact hresult
    | error e => exact hresult
  apply Safe.bind
  refine Safe.weaken (Program.safe_embed _ _ (safe_drop ht)) fun t _ ht => ?_
  cases result with
  | ok a => exact ht
  | error e => exact ht

section Create
variable [DecidableEq F]

theorem ensures_verifyCreated (hw : Unharmed E document credential w ∧ Carries name id bytes w) :
    Ensures (folderSystem careful (Unharmed E document credential))
      (verifyCreated E document credential name)
      (fun t _ => Ready E document credential name id t)
      (fun t _ => Unharmed E document credential t) w := by
  have hP : Settled fun w => Unharmed E document credential w ∧ Carries name id bytes w :=
    settled_unharmed.and settled_holds
  have hvalidate : ∀ w, Unharmed E document credential w ∧ Carries name id bytes w →
      Ensures (folderSystem careful (Unharmed E document credential))
        (onDisk (validateCurrentTarget (.temp name)) : PublishM V C Metadata)
        (fun t _ => Unharmed E document credential t ∧ Carries name id bytes t)
        (fun t _ => Unharmed E document credential t ∧ Carries name id bytes t) w := fun w hw =>
    ensures_onDisk (hP.ensures (fun _ h => h.1) (within_validateCurrentTarget trivial trivial) hw)
  refine Program.Ensures.bind (Program.Ensures.weaken (hvalidate w hw) (fun t _ ht => ?_)
    fun _ _ ht => ht.1)
  refine Program.Ensures.bind (Program.Ensures.weaken (hvalidate t ht) (fun t _ ht => ?_)
    fun _ _ ht => ht.1)
  refine Program.Ensures.bind (Program.Ensures.weaken (hP.identity (fun _ h => h.1) ht)
    (fun t _ ht => ?_) fun _ _ ht => ht.1)
  refine Program.Ensures.bind (Program.Ensures.weaken (ensures_onDisk
    (ensures_openStablePrepared E hP (fun _ h => h.1) (fun _ h => h.2) ht)) ?_ fun _ _ ht => ht.1)
  rintro t ⟨parsed, fingerprint⟩ ⟨ht, hparse⟩
  refine Program.Ensures.bind (Program.Ensures.weaken
    ((hP.and settled_opened).identity (fun _ h => h.1.1) ht) (fun t _ ht => ?_)
    fun _ _ ht => ht.1.1)
  refine Program.Ensures.bind (ensures_onDisk
    (ensures_verifySemanticEquivalence (fun hsame => ?_) ht.1.1))
  exact Program.ensures_pure ⟨bytes, ht, parsed, hparse, hsame⟩

/-- After publishing, create only reads. -/
theorem ensures_openCreated {fingerprint : F} (hw : Unharmed E document credential w) :
    Ensures (folderSystem careful (Unharmed E document credential))
      (openCreated E document credential name fingerprint)
      (fun t _ => Unharmed E document credential t)
      (fun t _ => Unharmed E document credential t) w := by
  have hI : ∀ w, Unharmed E document credential w → Unharmed E document credential w :=
    fun _ h => h
  have hidentity : ∀ w, Unharmed E document credential w →
      Ensures (folderSystem careful (Unharmed E document credential))
        (ensurePreparedIdentity name .primary : PublishM V C Unit)
        (fun t _ => Unharmed E document credential t)
        (fun t _ => Unharmed E document credential t) w := fun w hw =>
    settled_unharmed.identity hI hw
  refine Program.Ensures.bind (Program.Ensures.weaken (hidentity w hw) (fun t _ ht => ?_)
    fun _ _ ht => ht)
  refine Program.Ensures.bind (Program.Ensures.weaken (ensures_onDisk (settled_unharmed.ensures hI
    ((within_ask trivial).bind fun _ => within_require trivial) ht)) (fun t _ ht => ?_)
    fun _ _ ht => ht)
  refine Program.Ensures.bind (Program.Ensures.weaken (hidentity t ht) (fun t _ ht => ?_)
    fun _ _ ht => ht)
  refine Program.Ensures.bind (Program.Ensures.weaken (ensures_onDisk (settled_unharmed.ensures hI
    (within_openStableDocument E) ht)) ?_ fun _ _ ht => ht)
  rintro t ⟨reopened, sourceFingerprint⟩ ht
  refine Program.Ensures.bind (Program.Ensures.weaken (hidentity t ht) (fun t _ ht => ?_)
    fun _ _ ht => ht)
  refine Program.ensures_ite (fun _ => Program.ensures_throw ht) fun _ => ?_
  refine Program.Ensures.bind (ensures_onDisk (ensures_verifySemanticEquivalence (fun _ => ?_) ht))
  exact Program.ensures_pure ht

theorem ensures_createPrepared (hw : Unharmed E document credential w ∧ Staged name id w) :
    Ensures (folderSystem careful (Unharmed E document credential))
      (createPrepared E document credential name)
      (fun t _ => Unharmed E document credential t)
      (fun t _ => Unharmed E document credential t) w := by
  refine Program.Ensures.bind (Program.Ensures.weaken (ensures_onDisk (ensures_writePrepared hw)) ?_
    fun _ _ ht => ht)
  rintro t _ ⟨bytes, ht⟩
  refine Program.Ensures.bind (Program.Ensures.weaken (ensures_verifyCreated ht)
    (fun t fingerprint hready => ?_) fun _ _ ht => ht)
  have hunharmed : Unharmed E document credential t := hready.choose_spec.1.1.1
  refine Program.Ensures.bind (Program.ensures_request ⟨hunharmed, spares_hardLink⟩
    fun linked t' hstep => ?_)
  have ht' := link_step hready hstep
  exact Program.ensures_ite (fun _ => ensures_openCreated ht') fun _ => Program.ensures_throw ht'

theorem ensures_createVault (hw : Unharmed E document credential w ∧ w.linked = []) :
    Ensures (folderSystem careful (Unharmed E document credential))
      (create E document credential)
      (fun t _ => Unharmed E document credential t)
      (fun t _ => Unharmed E document credential t) w := by
  have hP : Settled fun w => Unharmed E document credential w ∧ w.linked = [] :=
    settled_unharmed.and settled_unlinked
  refine Program.Ensures.bind (ensures_asking (fun _ _ _ h => h) hw.1 fun resolved t hstep => ?_)
  obtain ⟨mid, hdisturbed, -, rfl⟩ := hstep
  have ht := hP.disturbed _ _ hw hdisturbed
  refine Program.ensures_ite (fun _ => ?_) fun _ => Program.ensures_throw ht.1
  refine Program.Ensures.bind (ensures_asking (fun _ _ _ h => h) ht.1 fun answer t hstep => ?_)
  obtain ⟨mid, hdisturbed, -, rfl⟩ := hstep
  have ht := hP.disturbed _ _ ht hdisturbed
  cases answer with
  | error error => exact Program.ensures_throw ht.1
  | ok isDirectory =>
    refine Program.ensures_ite (fun _ => ?_) fun _ => Program.ensures_throw ht.1
    refine Program.Ensures.bind (Program.Ensures.weaken
      (ensures_onDisk (ensures_managedTemp tempCreateAttempts ht)) ?_ fun _ _ ht => ht)
    rintro t name ⟨ht, id, hstaged⟩
    exact ensures_owning (ensures_createPrepared ⟨ht, hstaged⟩)

end Create

section Export

theorem within_verifyPublished :
    Within Request.reads (fun _ => True) (verifyPublished E document credential) := by
  refine Program.Within.bind ?_ fun _ => (within_ask trivial).bind fun _ => within_require trivial
  refine Program.Within.bind ?_ fun reopened =>
    Program.within_ite Program.within_pure (Program.within_throw trivial)
  refine (within_ask trivial).bind fun _ => (within_orError trivial).bind fun file => ?_
  refine (within_ask trivial).bind fun _ => (within_orError trivial).bind fun bytes => ?_
  cases E.parse credential bytes with
  | ok parsed => exact Program.within_pure
  | error error => exact Program.within_throw trivial

/-- Removing the selected name, whoever it leads to, leaves nothing of the call there. -/
theorem remove_step {answer : Bool} (hw : Unharmed E document credential w)
    (hstep : publishStep careful w (.removeTarget : PublishRequest V C) answer t) :
    Unharmed E document credential t := by
  obtain ⟨mid, hdisturbed, -, hserves⟩ := hstep
  have hm := hw.disturbed hdisturbed
  cases answer with
  | false =>
    cases hserves
    exact hm
  | true =>
    cases hserves
    exact hm.lose

theorem ensures_settleExport (hw : Unharmed E document credential w) :
    Ensures (folderSystem true (Unharmed E document credential))
      (settleExport E document credential)
      (fun t _ => Unharmed E document credential t)
      (fun t _ => Unharmed E document credential t) w := by
  apply Safe.bind
  refine Safe.weaken (ensures_onDisk (settled_unharmed.ensures (fun _ h => h)
    within_verifyPublished hw)) fun t result hresult => ?_
  cases result with
  | ok a => exact hresult
  | error error =>
    refine ⟨⟨hresult, spares_removeTarget⟩, fun removed t' hstep => ?_⟩
    have ht' := remove_step hresult hstep
    refine ⟨⟨ht', spares_of_reads (by trivial)⟩, fun synced t'' hstep => ?_⟩
    obtain ⟨mid, hdisturbed, -, rfl⟩ := hstep
    exact ht'.disturbed hdisturbed

theorem ensures_exportPrepared (hw : Unharmed E document credential w ∧ Staged name id w) :
    Ensures (folderSystem true (Unharmed E document credential))
      (exportPrepared E document credential name)
      (fun t _ => Unharmed E document credential t)
      (fun t _ => Unharmed E document credential t) w := by
  refine Program.Ensures.bind (Program.Ensures.weaken (ensures_onDisk (ensures_writePrepared hw)) ?_
    fun _ _ ht => ht)
  rintro t _ ⟨bytes, ht⟩
  have hP : Settled fun w => Unharmed E document credential w ∧ Carries name id bytes w :=
    settled_unharmed.and settled_holds
  have hverify : Ensures (folderSession true (Unharmed E document credential))
      (verifyExported E document credential (.temp name))
      (fun t _ => Ready E document credential name id t)
      (fun t _ => Unharmed E document credential t) t := by
    refine Program.Ensures.bind (Program.Ensures.weaken
      (ensures_openPrepared E hP (fun _ h => h.1) (fun _ h => h.2) ht) ?_ fun _ _ ht => ht.1)
    rintro t parsed ⟨ht, hparse⟩
    exact ensures_verifySemanticEquivalence (fun hsame => ⟨bytes, ht, parsed, hparse, hsame⟩) ht.1.1
  refine Program.Ensures.bind (Program.Ensures.weaken (ensures_onDisk hverify)
    (fun t _ hready => ?_) fun _ _ ht => ht)
  have hunharmed : Unharmed E document credential t := hready.choose_spec.1.1.1
  refine Program.Ensures.bind (Program.ensures_request ⟨hunharmed, spares_hardLink⟩
    fun linked t' hstep => ?_)
  have ht' := link_step hready hstep
  exact Program.ensures_ite (fun _ => ensures_settleExport ht') fun _ => Program.ensures_throw ht'

theorem ensures_exportCopy (hw : Unharmed E document credential w ∧ w.linked = []) :
    Ensures (folderSystem true (Unharmed E document credential))
      (exportCopyWithCredential E document credential)
      (fun t _ => Unharmed E document credential t)
      (fun t _ => Unharmed E document credential t) w := by
  have hP : Settled fun w => Unharmed E document credential w ∧ w.linked = [] :=
    settled_unharmed.and settled_unlinked
  refine Program.Ensures.bind (Program.ensures_request
    ⟨hw.1, spares_of_reads (by trivial)⟩ fun present t hstep => ?_)
  obtain ⟨mid, hdisturbed, -, rfl, -⟩ := hstep
  have ht := hP.disturbed _ _ hw hdisturbed
  refine Program.ensures_ite (fun _ => Program.ensures_throw ht.1) fun _ => ?_
  refine Program.Ensures.bind (Program.Ensures.weaken
    (ensures_onDisk (ensures_managedTemp tempCreateAttempts ht)) ?_ fun _ _ ht => ht)
  rintro t name ⟨ht, id, hstaged⟩
  exact ensures_owning (ensures_exportPrepared ⟨ht, hstaged⟩)

end Export

end Calls

/-! ## Every run -/

/-- Whether the call removes the selected name again. -/
def PublishCall.removes : PublishCall → Bool
  | .create => false
  | .exportCopy => true

/-- An object of the call that stands under the selected name was re-opened and found to be the
document. -/
def PublishesVerified [DecidableEq V] (E : Codec V C F) (document : KdbxDocument V) (credential : C)
    (w : Folder) : Prop :=
  ∀ object, w.names .primary = some object → object.id ∈ w.own →
    object.id ∈ w.opened ∧ Verified E credential document (w.contents object.id)

/-- The next step of the call, if there is one, leaves every name that leads to an object of others
and its content as they are, whatever happens before that step and however it is answered. -/
def NextSpares {α : Type} (careful : Bool) (w : Folder) :
    Program (PublishRequest V C) PublishAnswer α → Prop
  | .done _ => True
  | .ask request _ => w.SparesOthers careful request

section Runs
variable [DecidableEq V] [DecidableEq F] {E : Codec V C F} {document : KdbxDocument V}
variable {credential : C} {w : Folder}

omit [DecidableEq F] in
theorem Unharmed.publishesVerified (h : Unharmed E document credential w) :
    PublishesVerified E document credential w :=
  fun object hnamed hown => (h.linked object.id (h.target object hnamed hown)).2

theorem safe_publish (call : PublishCall) (hw : Unharmed E document credential w ∧ w.linked = []) :
    (call.run E document credential).Safe
      (folderSystem call.removes (Unharmed E document credential))
      (fun t _ => Unharmed E document credential t) w := by
  cases call with
  | create =>
    refine Program.Ensures.safe (Program.Ensures.bind ?_)
    exact Program.Ensures.weaken (ensures_createVault hw) (fun t _ ht => Program.ensures_pure ht)
      fun _ _ ht => ht
  | exportCopy => exact Program.Ensures.safe (ensures_exportCopy hw)

end Runs

/-- Wherever a run of create or export stands, its next step touches no object of others, and what it
has published is verified: in every run of create, and in every run of export in which the selected
name still leads to nothing or to the file of the call when export removes it. -/
theorem publish_keeps_to_own_files [DecidableEq V] [DecidableEq F] (E : Codec V C F)
    (document : KdbxDocument V) (credential : C) (call : PublishCall)
    (names : Path → Option Object) (contents : Nat → Bytes)
    {rest : Program (PublishRequest V C) PublishAnswer (Except SessionError Unit)} {w : Folder}
    (hrun : Reaches (publishStep call.removes) (call.run E document credential)
      (Folder.start names contents) rest w) :
    NextSpares call.removes w rest ∧ PublishesVerified E document credential w := by
  have hstart : Unharmed E document credential (Folder.start names contents) :=
    unharmed_start names contents
  have hrest := (safe_publish call ⟨hstart, rfl⟩).reaches hrun
  cases rest with
  | done result => exact ⟨trivial, Unharmed.publishesVerified hrest⟩
  | ask request next => exact ⟨hrest.1.2, hrest.1.1.publishesVerified⟩

/-! ## A copy that is replaced while export looks at it -/

/-- Another process puts its own file under the selected name. -/
def Folder.claim (w : Folder) : Folder :=
  { w with
    names := Function.update w.names .primary (some ⟨.file, 9⟩)
    contents := Function.update w.contents 9 [7] }

theorem Folder.disturbed_claim {w : Folder} (h : 9 ∉ w.own) : w.Disturbed w.claim := by
  refine .inr ⟨_, _, rfl, fun id hid => ?_, fun object hobject hown => ?_⟩
  · have hne : id ≠ 9 := fun heq => h (heq ▸ hid)
    exact Function.update_of_ne hne _ _
  · cases hobject
    exact absurd hown h

/-- How the steps that follow the creation of the temporary are answered when all of them succeed.
If `claimed`, another process puts its file there just before export opens the published copy. The
removal of the selected name is left unanswered. -/
def Folder.respond (claimed : Bool) (w : Folder) :
    (request : PublishRequest V C) → Option (PublishAnswer request × Folder)
  | .session (.openFile path _) =>
    let seen := if claimed = true ∧ path = .primary ∧ 9 ∉ w.own then w.claim else w
    match seen.names path with
    | some ⟨.file, id⟩ => some (.ok ⟨true, seen.contents id⟩, seen.see ⟨.file, id⟩)
    | _ => none
  | .session (.read handle) => some (.ok handle.bytes, w)
  | .session (.serialize name _ _) => some (.ok (), w.write name [1])
  | .session (.flush name) => some (true, w.write name [1])
  | .session (.syncAll _) => some (true, w)
  | .session .syncParent => some (true, w)
  | .session (.sameFile name) =>
    match w.names (.temp name) with
    | some object => if object.id ∈ w.own then some (true, w) else none
    | none => none
  | .session (.removeFile name) => some (true, w.unlink name)
  | .hardLink prepared =>
    match w.names .primary, w.names (.temp prepared) with
    | none, some object => some (true, w.link object)
    | _, _ => none
  | _ => none

theorem Folder.step_respond {claimed careful : Bool} {w t : Folder} {request : PublishRequest V C}
    {answer : PublishAnswer request} (h : w.respond claimed request = some (answer, t)) :
    publishStep careful w request answer t := by
  cases request with
  | canonicalizeParent | parentMetadata | matchesOpenFile | removeTarget => cases h
  | session request =>
    cases request with
    | openFile path nofollow =>
      refine ⟨if claimed = true ∧ path = .primary ∧ 9 ∉ w.own then w.claim else w, ?_,
        fun _ => trivial, ?_⟩
      · split
        · next hclaim => exact Folder.disturbed_claim hclaim.2.2
        · exact .inl rfl
      · simp only [Folder.respond] at h
        split at h
        · next id hnamed =>
          cases h
          exact .inl ⟨_, _, rfl, hnamed, rfl, rfl⟩
        · cases h
    | read handle =>
      cases h
      refine ⟨w, .inl rfl, fun _ => trivial, rfl, fun bytes hbytes => ?_⟩
      cases hbytes
      rfl
    | serialize | flush =>
      cases h
      exact ⟨w, .inl rfl, fun _ => trivial, [1], rfl⟩
    | sameFile name =>
      simp only [Folder.respond] at h
      split at h
      · next object hnamed =>
        split at h
        · next hown =>
          cases h
          exact ⟨w, .inl rfl, fun _ => trivial, rfl, fun _ => ⟨object, hnamed, hown⟩⟩
        · cases h
      · cases h
    | syncAll | syncParent | removeFile =>
      cases h
      exact ⟨w, .inl rfl, fun _ => trivial, rfl⟩
    | _ => cases h
  | hardLink prepared =>
    refine ⟨w, .inl rfl, fun _ => trivial, ?_⟩
    simp only [Folder.respond] at h
    split at h
    · next object hnone hnamed =>
      cases h
      exact .inl ⟨rfl, hnone, object, hnamed, rfl⟩
    · cases h

/-- The run these answers give, as far as they go. -/
def Folder.play {α : Type} (claimed : Bool) : Program (PublishRequest V C) PublishAnswer α → Folder →
    Program (PublishRequest V C) PublishAnswer α × Folder
  | .done a, w => (.done a, w)
  | .ask request next, w =>
    match w.respond claimed request with
    | some (answer, t) => play claimed (next answer) t
    | none => (.ask request next, w)

theorem Folder.reaches_play {α : Type} (claimed careful : Bool)
    (p : Program (PublishRequest V C) PublishAnswer α) (w : Folder) :
    Reaches (publishStep careful) p w (Folder.play claimed p w).1 (Folder.play claimed p w).2 := by
  induction p generalizing w with
  | done b => exact .here
  | ask request next ih =>
    unfold Folder.play
    split
    · next answer mid hrespond => exact .later (Folder.step_respond hrespond) (ih answer mid)
    · exact .here

def emptyFolder : Folder := Folder.start (fun _ => none) fun _ => []

def sampleTemp : String := tempName exportTempPrefix [0]

def sampleExport : Program (PublishRequest Unit Unit) PublishAnswer (Except SessionError Unit) :=
  (owning sampleTemp (exportPrepared sampleCodec sampleDocument () sampleTemp)).run

/-- Export into an empty folder. -/
theorem reaches_sampleExport {careful : Bool} {t : Folder}
    {q : Program (PublishRequest Unit Unit) PublishAnswer (Except SessionError Unit)}
    (h : Reaches (publishStep careful) sampleExport (emptyFolder.add sampleTemp 1) q t) :
    Reaches (publishStep careful) (PublishCall.exportCopy.run sampleCodec sampleDocument ())
      emptyFolder q t := by
  refine .later (r := false) ⟨_, .inl rfl, fun _ => trivial, rfl, nofun⟩ ?_
  refine .later (r := some [0]) ⟨_, .inl rfl, fun _ => trivial, rfl⟩ ?_
  refine .later (r := Except.ok ())
    ⟨_, .inl rfl, fun _ => trivial, .inl ⟨rfl, rfl, 1, nofun, nofun, rfl⟩⟩ ?_
  refine .later (r := true) ⟨_, .inl rfl, fun _ => trivial, rfl⟩ ?_
  exact h

/-- Where the run stops. -/
def sampleEnd (claimed : Bool) :
    Program (PublishRequest Unit Unit) PublishAnswer (Except SessionError Unit) × Folder :=
  Folder.play claimed sampleExport (emptyFolder.add sampleTemp 1)

/-- The copy is published. -/
def hasPublished :
    Program (PublishRequest Unit Unit) PublishAnswer (Except SessionError Unit) × Folder → Bool
  | (.done (.ok ()), w) => w.names .primary = some ⟨.file, 1⟩ ∧ w.own = [1]
  | _ => false

/-- The next step removes the selected name, which leads to the file of the other process. -/
def removesForeign :
    Program (PublishRequest Unit Unit) PublishAnswer (Except SessionError Unit) × Folder → Bool
  | (.ask .removeTarget _, w) => w.names .primary = some ⟨.file, 9⟩ ∧ 9 ∉ w.own
  | _ => false

theorem names_of_hasPublished {stop} (h : hasPublished stop = true) :
    stop.2.names .primary = some ⟨.file, 1⟩ ∧ stop.2.own = [1] := by
  unfold hasPublished at h
  split at h
  · exact of_decide_eq_true h
  · cases h

theorem not_nextSpares_of_removesForeign {stop} (h : removesForeign stop = true) :
    ¬ NextSpares false stop.2 stop.1 := by
  unfold removesForeign at h
  split at h
  · obtain ⟨hnamed, hforeign⟩ := of_decide_eq_true h
    intro hspares
    have hafter := hspares _ true _ (.inl rfl) nofun rfl .primary ⟨.file, 9⟩ hnamed hforeign
    simp [Folder.lose] at hafter
  · cases h

set_option maxRecDepth 100000 in
theorem publish_keeps_to_own_files_export :
    Reaches (publishStep true) (PublishCall.exportCopy.run sampleCodec sampleDocument ())
      emptyFolder (sampleEnd false).1 (sampleEnd false).2 ∧
    (sampleEnd false).2.names .primary = some ⟨.file, 1⟩ ∧ (sampleEnd false).2.own = [1] ∧
    PublishesVerified sampleCodec sampleDocument () (sampleEnd false).2 := by
  have hrun := reaches_sampleExport (Folder.reaches_play false true sampleExport
    (emptyFolder.add sampleTemp 1))
  have hpublished : hasPublished (sampleEnd false) = true := by decide +kernel
  obtain ⟨hnamed, hown⟩ := names_of_hasPublished hpublished
  exact ⟨hrun, hnamed, hown, (publish_keeps_to_own_files sampleCodec sampleDocument () .exportCopy
    (fun _ => none) (fun _ => []) hrun).2⟩

set_option maxRecDepth 100000 in
/-- Between the hard link and the look at the published copy another process replaces it by its
own file: the copy does not verify, and the next step of export deletes the file of the other
process. -/
theorem export_removes_foreign :
    ∃ rest w, Reaches (publishStep false)
      (PublishCall.exportCopy.run sampleCodec sampleDocument ()) emptyFolder rest w ∧
      w.names .primary = some ⟨.file, 9⟩ ∧ ¬ NextSpares false w rest := by
  have hremoves : removesForeign (sampleEnd true) = true := by decide +kernel
  have hnamed : (sampleEnd true).2.names .primary = some ⟨.file, 9⟩ := by decide +kernel
  exact ⟨_, _, reaches_sampleExport (Folder.reaches_play true false sampleExport
    (emptyFolder.add sampleTemp 1)), hnamed, not_nextSpares_of_removesForeign hremoves⟩

end NianPass.Session
